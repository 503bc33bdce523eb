import Kota.Psbt.Validation
import Kota.PsbtSession.Repo
import Kota.Storage
import Kota.Wallet.Build
import Kota.Wallet.Repo

/-!
# The job units

Model of `jobs/mod.rs`, `jobs/psbt_creation.rs` and `jobs/finalization.rs`. Each unit loads a
session, works on it, and writes it back.

* The work between load and write is a function of its own (`createPsbt`, `finalizeSession`):
  its result says whether there is anything to persist (`Work`). A job that runs concurrently
  with others does that work on a snapshot.
* A blob is put even when the unit fails later, so every unit returns the blob store too.
* What a runner makes of a result is `creationCompletes` and `finalizationCompletes`: complete, or
  an error that the executor retries.

`createPsbt_outcome`, `finalizeLoop_outcome` and `finalizeSession_outcome` list the ways the work
ends.
-/

namespace Kota

open EventLog

/-! ## Errors -/

/-- `JobsError`. -/
inductive JobsError where
  | session (e : PsbtSessionError)
  | sessionFind (e : FindError)
  | sessionModify (e : ModifyError)
  | walletFind (e : FindError)
  | wallet (e : WalletError)
  | psbt (e : PsbtValidationError)
  | funding (reason : String)
  | walletNotActive (id : WalletId)
  | blobFetch (e : BlobFetchError)
  | unexpectedStatus (id : PsbtSessionId) (status : PsbtSessionStatus) (expected : String)
  | thresholdNotMet (id : PsbtSessionId)
  | cannotFinalize
  /-- The panic of an `expect`. -/
  | expectation (message : String)
  deriving DecidableEq, Repr

/-- What is left to do with the loaded entity: nothing, or to write it back. -/
inductive Work (α : Type) where
  | done (answer : α)
  | persist (answer : α) (session : PsbtSession)

/-- Write back what a unit of work left. -/
def PsbtSessions.persist {α : Type} (sessions : PsbtSessions) :
    Except JobsError (Work α) → Except JobsError α × PsbtSessions
  | .error e => (.error e, sessions)
  | .ok (.done answer) => (.ok answer, sessions)
  | .ok (.persist answer session) =>
    match sessions.update session with
    | .error e => (.error (.sessionModify e), sessions)
    | .ok sessions => (.ok answer, sessions)

variable (X : Extern)

/-! ## Chain observations -/

inductive ChainObservation where
  | broadcast (txid : Txid)
  | confirmed (txid : Txid) (height : UInt64) (blockHash : BlockHash)
  | invalidated (reason : InvalidationReason)
  deriving DecidableEq, Repr

/-- The session command an observation stands for. -/
def ChainObservation.command : ChainObservation → PsbtSessionCommand
  | .broadcast txid => .markBroadcastSeen txid
  | .confirmed txid height blockHash => .confirm txid height blockHash
  | .invalidated reason => .invalidate reason

/-- `apply_chain_observation`. -/
def applyChainObservation (sessions : PsbtSessions) (id : PsbtSessionId)
    (observation : ChainObservation) : Except JobsError Unit × PsbtSessions :=
  match sessions.findById id with
  | .error e => (.error (.sessionFind e), sessions)
  | .ok session =>
    match session.apply observation.command with
    | (.error e, _) => (.error (.session e), sessions)
    | (.ok applied, session) =>
      if applied.didExecute then sessions.persist (.ok (.persist () session)) else (.ok (), sessions)

/-! ## PSBT creation -/

/-- `FundingUtxoProvider`: the coins for the inputs of a spend, or the error the unit ends with. -/
abbrev FundingUtxoProvider := Wallet → List OutPointRef → Except JobsError (List FundingUtxo)

/-- What `JobsError` has for the failures of a provider. -/
def JobsError.IsFunding (e : JobsError) : Prop := ∃ reason, e = .funding reason

/-- All errors of the provider are of one kind. -/
def FundingUtxoProvider.Answers (kind : JobsError → Prop) (funding : FundingUtxoProvider) : Prop :=
  ∀ w inputs e, funding w inputs = .error e → kind e

/-- The work of `run_psbt_creation` on a loaded session. -/
def createPsbt (wallets : Wallets) (blobs : BlobStore) (funding : FundingUtxoProvider)
    (network : Network) (session : PsbtSession) : Except JobsError (Work PsbtHash) × BlobStore :=
  match session.unsignedPsbtHash with
  | some hash => (.ok (.done hash), blobs)
  | none =>
    if session.status ≠ .pending then
      (.error (.unexpectedStatus session.id session.status "pending"), blobs)
    else match wallets.findById session.walletId with
      | .error e => (.error (.walletFind e), blobs)
      | .ok wallet =>
        match funding wallet session.spend.inputs with
        | .error e => (.error e, blobs)
        | .ok utxos =>
          match wallet.descriptor with
          | none => (.error (.walletNotActive wallet.id), blobs)
          | some descriptor =>
            match buildUnsignedPsbt X session.spend descriptor utxos network with
            | .error e => (.error (.wallet e), blobs)
            | .ok psbt =>
              let (hash, blobs) := blobs.put X (X.serialize psbt)
              match session.recordPsbtCreated hash with
              | (.error e, _) => (.error (.session e), blobs)
              | (.ok _, session) => (.ok (.persist hash session), blobs)

/-- `run_psbt_creation`. -/
def runPsbtCreation (sessions : PsbtSessions) (wallets : Wallets) (blobs : BlobStore)
    (funding : FundingUtxoProvider) (network : Network) (id : PsbtSessionId) :
    Except JobsError PsbtHash × PsbtSessions × BlobStore :=
  match sessions.findById id with
  | .error e => (.error (.sessionFind e), sessions, blobs)
  | .ok session =>
    let (work, blobs) := createPsbt X wallets blobs funding network session
    let (answer, sessions) := sessions.persist work
    (answer, sessions, blobs)

/-- `PsbtCreationJobRunner::run`: is the job complete, or retried? -/
def creationCompletes : Except JobsError PsbtHash → Bool
  | .ok _ => true
  | .error (.unexpectedStatus ..) => true
  | .error (.wallet (.invalidAddress _)) => true
  | .error (.wallet (.amountMismatch ..)) => true
  | .error _ => false

/-! ## Finalization -/

/-- `load_psbt`. -/
def loadPsbt (blobs : BlobStore) (hash : PsbtHash) : Except JobsError Psbt :=
  match blobs.fetchVerified X hash with
  | .error e => .error (.blobFetch e)
  | .ok bytes =>
    match parsePsbt X bytes with
    | .error e => .error (.psbt e)
    | .ok psbt => .ok psbt

/-- Add the signatures of a merged blob; one that is already there stays. -/
def combine (combined signed : Psbt) : Psbt :=
  { combined with
    inputs := combined.inputs.mapIdx fun idx input =>
      match signed.inputs[idx]? with
      | some signedIn =>
        { input with partialSigs := MapMerge.fill input.partialSigs signedIn.partialSigs.toList }
      | none => input }

/-- The loop of `run_finalization` over the recorded signatures: the first prefix that finalizes
is recorded. -/
def finalizeLoop (blobs : BlobStore) (session : PsbtSession) (unsigned combined : Psbt)
    (sigsUsed : List KeyFingerprint) :
    List SignatureRecord → Except JobsError (Work Txid) × BlobStore
  | [] => (.error .cannotFinalize, blobs)
  | record :: rest =>
    match loadPsbt X blobs record.signedPsbtHash with
    | .error e => (.error e, blobs)
    | .ok signed =>
      match verifyMergedBlob X unsigned signed with
      | .error e => (.error (.psbt e), blobs)
      | .ok () =>
        let combined := combine combined signed
        let sigsUsed := sigsUsed ++ [record.fingerprint]
        match X.finalize combined with
        | none => finalizeLoop blobs session unsigned combined sigsUsed rest
        | some finalPsbt =>
          match X.extractTx finalPsbt with
          | none => (.error .cannotFinalize, blobs)
          | some tx =>
            let txid := X.computeTxid tx
            let (finalTxHash, blobs) := blobs.put X (X.consensusSerialize tx)
            match session.finalize txid finalTxHash sigsUsed with
            | (.error e, _) => (.error (.session e), blobs)
            | (.ok _, session) => (.ok (.persist txid session), blobs)

/-- The work of `run_finalization` on a loaded session. -/
def finalizeSession (blobs : BlobStore) (session : PsbtSession) :
    Except JobsError (Work Txid) × BlobStore :=
  match session.finalization with
  | some finalization => (.ok (.done finalization.txid), blobs)
  | none =>
    if session.status ≠ .collecting then
      (.error (.unexpectedStatus session.id session.status "collecting"), blobs)
    else if !session.thresholdMet then (.error (.thresholdNotMet session.id), blobs)
    else match session.unsignedPsbtHash with
      | none => (.error (.expectation "status Collecting implies PsbtCreated was recorded"), blobs)
      | some unsignedHash =>
        match loadPsbt X blobs unsignedHash with
        | .error e => (.error e, blobs)
        | .ok unsigned => finalizeLoop X blobs session unsigned unsigned [] session.signatures

/-- `run_finalization`. -/
def runFinalization (sessions : PsbtSessions) (blobs : BlobStore) (id : PsbtSessionId) :
    Except JobsError Txid × PsbtSessions × BlobStore :=
  match sessions.findById id with
  | .error e => (.error (.sessionFind e), sessions, blobs)
  | .ok session =>
    let (work, blobs) := finalizeSession X blobs session
    let (answer, sessions) := sessions.persist work
    (answer, sessions, blobs)

/-- `FinalizationJobRunner::run`: is the job complete, or retried? -/
def finalizationCompletes : Except JobsError Txid → Bool
  | .ok _ => true
  | .error (.thresholdNotMet _) => true
  | .error (.unexpectedStatus ..) => true
  | .error _ => false

/-! ## What the work comes to -/

section Outcomes

variable {X} {network : Network} {wallets : Wallets} {blobs : BlobStore}
variable {funding : FundingUtxoProvider} {s : PsbtSession}

/-- The ways the work of `run_psbt_creation` ends: with the checks that were passed, and with the
blob that is put before the session records it. -/
inductive CreationOutcome (X : Extern) (network : Network) (wallets : Wallets) (blobs : BlobStore)
    (funding : FundingUtxoProvider) (s : PsbtSession) :
    Except JobsError (Work PsbtHash) × BlobStore → Prop
  | existing {hash : PsbtHash} (recorded : s.unsignedPsbtHash = some hash) :
      CreationOutcome X network wallets blobs funding s (.ok (.done hash), blobs)
  | left (moved : s.status ≠ .pending) :
      CreationOutcome X network wallets blobs funding s
        (.error (.unexpectedStatus s.id s.status "pending"), blobs)
  | unfound {e : FindError} (wallet : wallets.findById s.walletId = .error e) :
      CreationOutcome X network wallets blobs funding s (.error (.walletFind e), blobs)
  | unfunded {w : Wallet} {e : JobsError} (wallet : wallets.findById s.walletId = .ok w)
      (coins : funding w s.spend.inputs = .error e) :
      CreationOutcome X network wallets blobs funding s (.error e, blobs)
  | inactive {w : Wallet} (wallet : wallets.findById s.walletId = .ok w)
      (none : w.descriptor = none) :
      CreationOutcome X network wallets blobs funding s (.error (.walletNotActive w.id), blobs)
  | unbuilt {w : Wallet} {utxos : List FundingUtxo} {descriptor : Descriptor} {e : WalletError}
      (wallet : wallets.findById s.walletId = .ok w) (coins : funding w s.spend.inputs = .ok utxos)
      (policy : w.descriptor = some descriptor)
      (build : buildUnsignedPsbt X s.spend descriptor utxos network = .error e) :
      CreationOutcome X network wallets blobs funding s (.error (.wallet e), blobs)
  | unrecorded {psbt : Psbt} {e : PsbtSessionError} {s' : PsbtSession}
      (refused : s.recordPsbtCreated (PsbtHash.digestOf X (X.serialize psbt)) = (.error e, s')) :
      CreationOutcome X network wallets blobs funding s
        (.error (.session e), (blobs.put X (X.serialize psbt)).2)
  | built {w : Wallet} {utxos : List FundingUtxo} {descriptor : Descriptor} {psbt : Psbt}
      {applied : Idempotent Unit} {s' : PsbtSession} (none : s.unsignedPsbtHash = none)
      (wallet : wallets.findById s.walletId = .ok w) (coins : funding w s.spend.inputs = .ok utxos)
      (policy : w.descriptor = some descriptor)
      (build : buildUnsignedPsbt X s.spend descriptor utxos network = .ok psbt)
      (recorded : s.recordPsbtCreated (PsbtHash.digestOf X (X.serialize psbt)) =
        (.ok applied, s')) :
      CreationOutcome X network wallets blobs funding s
        (.ok (.persist (PsbtHash.digestOf X (X.serialize psbt)) s'),
          (blobs.put X (X.serialize psbt)).2)

variable (X network wallets blobs funding s) in
theorem createPsbt_outcome :
    CreationOutcome X network wallets blobs funding s
      (createPsbt X wallets blobs funding network s) := by
  unfold createPsbt
  split
  · rename_i hash hhash
    exact .existing hhash
  rename_i hnone
  split
  · rename_i hne
    exact .left hne
  split
  · rename_i e hw
    exact .unfound hw
  rename_i w hw
  split
  · rename_i e hfunding
    exact .unfunded hw hfunding
  rename_i utxos hutxos
  split
  · rename_i hdescriptor
    exact .inactive hw hdescriptor
  rename_i descriptor hdescriptor
  split
  · rename_i e hbuild
    exact .unbuilt hw hutxos hdescriptor hbuild
  rename_i psbt hbuild
  dsimp only [BlobStore.put]
  split
  · rename_i e s' hrecord
    exact .unrecorded hrecord
  · rename_i applied s' hrecord
    exact .built hnone hw hutxos hdescriptor hbuild hrecord

theorem loadPsbt_retried {blobs : BlobStore} {hash : PsbtHash} {e : JobsError}
    (h : loadPsbt X blobs hash = .error e) : finalizationCompletes (.error e) = false := by
  unfold loadPsbt at h
  split at h
  · obtain rfl := Except.error.inj h
    rfl
  split at h
  · obtain rfl := Except.error.inj h
    rfl
  · exact absurd h (by simp)

/-- The ways the loop ends: with an error the executor retries, or with what `finalize` makes of
the transaction that was put. -/
inductive LoopOutcome (X : Extern) (blobs : BlobStore) (s : PsbtSession) :
    Except JobsError (Work Txid) × BlobStore → Prop
  | failed {e : JobsError} (retried : finalizationCompletes (.error e) = false) :
      LoopOutcome X blobs s (.error e, blobs)
  | refused {tx : Transaction} {sigsUsed : List KeyFingerprint} {e : PsbtSessionError}
      {s' : PsbtSession}
      (refused : s.finalize (X.computeTxid tx) (PsbtHash.digestOf X (X.consensusSerialize tx))
        sigsUsed = (.error e, s')) :
      LoopOutcome X blobs s (.error (.session e), (blobs.put X (X.consensusSerialize tx)).2)
  | recorded {tx : Transaction} {sigsUsed : List KeyFingerprint} {applied : Idempotent Txid}
      {s' : PsbtSession}
      (recorded : s.finalize (X.computeTxid tx) (PsbtHash.digestOf X (X.consensusSerialize tx))
        sigsUsed = (.ok applied, s')) :
      LoopOutcome X blobs s
        (.ok (.persist (X.computeTxid tx) s'), (blobs.put X (X.consensusSerialize tx)).2)

variable (X blobs s) in
theorem finalizeLoop_outcome (unsigned : Psbt) (records : List SignatureRecord) (combined : Psbt)
    (sigsUsed : List KeyFingerprint) :
    LoopOutcome X blobs s (finalizeLoop X blobs s unsigned combined sigsUsed records) := by
  induction records generalizing combined sigsUsed with
  | nil => exact .failed rfl
  | cons record rest ih =>
    unfold finalizeLoop
    split
    · rename_i e he
      exact .failed (loadPsbt_retried he)
    split
    · exact .failed rfl
    dsimp only
    split
    · exact ih _ _
    split
    · exact .failed rfl
    dsimp only [BlobStore.put]
    split
    · rename_i e s' hr
      exact .refused hr
    · rename_i applied s' hr
      exact .recorded hr

/-- The ways the work of `run_finalization` ends; only the last one gets to the loop. -/
inductive FinalizationOutcome (X : Extern) (blobs : BlobStore) (s : PsbtSession) :
    Except JobsError (Work Txid) × BlobStore → Prop
  | existing {finalization : FinalizationRecord} (recorded : s.finalization = some finalization) :
      FinalizationOutcome X blobs s (.ok (.done finalization.txid), blobs)
  | left (none : s.finalization = none) (moved : s.status ≠ .collecting) :
      FinalizationOutcome X blobs s
        (.error (.unexpectedStatus s.id s.status "collecting"), blobs)
  | unmet (few : s.thresholdMet = false) :
      FinalizationOutcome X blobs s (.error (.thresholdNotMet s.id), blobs)
  | unbuilt (none : s.unsignedPsbtHash = none) :
      FinalizationOutcome X blobs s
        (.error (.expectation "status Collecting implies PsbtCreated was recorded"), blobs)
  | unread {hash : PsbtHash} {e : JobsError} (load : loadPsbt X blobs hash = .error e) :
      FinalizationOutcome X blobs s (.error e, blobs)
  | looped {hash : PsbtHash} {unsigned : Psbt} (none : s.finalization = none)
      (recorded : s.unsignedPsbtHash = some hash) (load : loadPsbt X blobs hash = .ok unsigned) :
      FinalizationOutcome X blobs s
        (finalizeLoop X blobs s unsigned unsigned [] s.signatures)

variable (X blobs s) in
theorem finalizeSession_outcome :
    FinalizationOutcome X blobs s (finalizeSession X blobs s) := by
  unfold finalizeSession
  split
  · rename_i finalization hfinalization
    exact .existing hfinalization
  rename_i hnone
  split
  · rename_i hne
    exact .left hnone hne
  split
  · rename_i hunmet
    exact .unmet (by simpa using hunmet)
  split
  · rename_i hunbuilt
    exact .unbuilt hunbuilt
  rename_i hash hhash
  split
  · rename_i e hload
    exact .unread hload
  · rename_i unsigned hload
    exact .looped hnone hhash hload

end Outcomes

end Kota
