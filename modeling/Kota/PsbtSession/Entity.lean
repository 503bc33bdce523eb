import Kota.Lib.Sorting
import Kota.Wallet.Entity

/-!
# The session aggregate

Model of `psbt_session/entity.rs` and of the value types it stores. A session keeps its state
twice: as the event log and as fields that every command updates by hand. `PsbtSession` has both,
so that `Hydration.lean` can compare them.

* `status` is a scan of the log for the newest lifecycle event (`statusOf`).
* An idempotency guard is a scan of its own (`alreadyApplied`), with the events that reset it.
* A command returns its answer and the entity it leaves behind.
* `finalize` sorts its argument before it stores it, and `verifyHydratedInvariants` runs on every
  entity built from a log, with the messages of the source.

`Step` and `apply_spec` say once what a command can do; the grammar of the log, hydration and the
chain lifecycle are derived from them in the modules that follow.
-/

namespace Kota

open EventLog

/-! ## Data -/

/-- `OutPointRef`. -/
abbrev OutPointRef := OutPoint

structure SpendOutput where
  address : BitcoinAddress
  amountSats : UInt64
  deriving DecidableEq, Repr

structure ChangeOutput where
  amountSats : UInt64
  derivationIndex : UInt32
  deriving DecidableEq, Repr

structure SignatureRecord where
  fingerprint : KeyFingerprint
  signedPsbtHash : PsbtHash
  deriving DecidableEq, Repr

structure FinalizationRecord where
  txid : Txid
  finalTxHash : PsbtHash
  sigsUsed : List KeyFingerprint
  deriving DecidableEq, Repr

/-- What the spend moves. -/
structure SpendSpec where
  inputs : List OutPointRef
  outputs : List SpendOutput
  feeSats : UInt64
  changeOutput : Option ChangeOutput
  deriving DecidableEq, Repr

inductive PsbtSessionEvent where
  | initialized (id : PsbtSessionId) (walletId : WalletId) (proposedBy : UserId)
      (spend : SpendSpec) (threshold : UInt32) (keystores : List KeyFingerprint)
  | psbtCreated (unsignedPsbtHash : PsbtHash)
  | signatureAdded (fingerprint : KeyFingerprint) (signedPsbtHash : PsbtHash)
  | finalized (txid : Txid) (finalTxHash : PsbtHash) (sigsUsed : List KeyFingerprint)
  | broadcastSeen (txid : Txid)
  | confirmed (txid : Txid) (height : UInt64) (blockHash : BlockHash)
  | invalidated (reason : InvalidationReason)
  | cancelled (cancelledBy : UserId) (reason : String)
  deriving DecidableEq, Repr

namespace PsbtSessionEvent

/-- The status an event in the log stands for; `none` for the events `status()` passes over. -/
def status : PsbtSessionEvent → Option PsbtSessionStatus
  | .cancelled .. => some .cancelled
  | .confirmed .. => some .confirmed
  | .invalidated .. => some .invalidated
  | .broadcastSeen .. => some .broadcast
  | .finalized .. => some .finalized
  | .psbtCreated .. => some .collecting
  | _ => none

def isPsbtCreated : PsbtSessionEvent → Bool
  | .psbtCreated .. => true
  | _ => false

/-- `SignatureAdded` of the given keystore. -/
def isSignatureOf (fingerprint : KeyFingerprint) : PsbtSessionEvent → Bool
  | .signatureAdded fp _ => fp == fingerprint
  | _ => false

def isFinalized : PsbtSessionEvent → Bool
  | .finalized .. => true
  | _ => false

def isBroadcastSeen : PsbtSessionEvent → Bool
  | .broadcastSeen .. => true
  | _ => false

def isConfirmed : PsbtSessionEvent → Bool
  | .confirmed .. => true
  | _ => false

def isInvalidated : PsbtSessionEvent → Bool
  | .invalidated .. => true
  | _ => false

def isCancelled : PsbtSessionEvent → Bool
  | .cancelled .. => true
  | _ => false

end PsbtSessionEvent

/-- `PsbtSessionError`, without the variants that wrap database errors. -/
inductive PsbtSessionError where
  | walletNotActive (walletId : WalletId) (status : WalletStatus)
  | notCollecting (id : PsbtSessionId)
  | unknownKeystore (fingerprint : KeyFingerprint)
  | emptyInputs
  | emptyOutputs
  | duplicateInput (txid : Txid) (vout : UInt32)
  | feeExceedsMax (feeSats maxSats : UInt64)
  | invalidAddress (network : Network) (reason : String)
  | dustOutput (amountSats dustSats : UInt64)
  | tooManyInputs (count max : Nat)
  | tooManyOutputs (count max : Nat)
  | cannotAttachPsbt (id : PsbtSessionId) (status : PsbtSessionStatus)
  | thresholdNotMet (collected : Nat) (threshold : UInt32)
  | sigsUsedNotCollected
  | duplicateSigsUsed
  | notFinalized (id : PsbtSessionId)
  | txidMismatch
  | cannotCancel (id : PsbtSessionId) (status : PsbtSessionStatus)
  | cannotInvalidate (id : PsbtSessionId) (status : PsbtSessionStatus)
  deriving DecidableEq, Repr

structure PsbtSession where
  id : PsbtSessionId
  walletId : WalletId
  proposedBy : UserId
  spend : SpendSpec
  unsignedPsbtHash : Option PsbtHash
  threshold : UInt32
  keystores : List KeyFingerprint
  signatures : List SignatureRecord
  finalization : Option FinalizationRecord
  events : EntityEvents PsbtSessionId PsbtSessionEvent
  deriving DecidableEq

/-- The status of a session with this log: the newest lifecycle event wins. -/
def PsbtSessionStatus.ofLog (log : List PsbtSessionEvent) : PsbtSessionStatus :=
  (latest PsbtSessionEvent.status log).getD .pending

@[simp] theorem PsbtSessionStatus.ofLog_concat (log : List PsbtSessionEvent)
    (e : PsbtSessionEvent) :
    PsbtSessionStatus.ofLog (log ++ [e]) = e.status.getD (PsbtSessionStatus.ofLog log) := by
  unfold PsbtSessionStatus.ofLog
  rw [latest_concat]
  cases e.status <;> rfl

namespace PsbtSession

/-! ## Readings -/

def log (s : PsbtSession) : List PsbtSessionEvent := s.events.iterAll

def status (s : PsbtSession) : PsbtSessionStatus := .ofLog s.log

def signatureCount (s : PsbtSession) : Nat := s.signatures.length

def thresholdMet (s : PsbtSession) : Bool := s.threshold.toNat ≤ s.signatures.length

def hasSigned (s : PsbtSession) (fingerprint : KeyFingerprint) : Bool :=
  s.signatures.any fun r => r.fingerprint == fingerprint

def missingKeystores (s : PsbtSession) : List KeyFingerprint :=
  s.keystores.filter fun fp => !s.hasSigned fp

def isCollecting (s : PsbtSession) : Bool := s.status == .collecting

/-- The idempotency guard of a command, over the whole log. -/
def guard (s : PsbtSession) (applied : PsbtSessionEvent → Bool)
    (resets : PsbtSessionEvent → Bool) : Bool :=
  alreadyApplied applied resets s.log

/-! ## Commands -/

/-- `PsbtSession::record_psbt_created`. -/
def recordPsbtCreated (s : PsbtSession) (unsignedPsbtHash : PsbtHash) :
    Except PsbtSessionError (Idempotent Unit) × PsbtSession :=
  if s.guard PsbtSessionEvent.isPsbtCreated (fun _ => false) then (.ok .alreadyApplied, s)
  else if s.status ≠ .pending then (.error (.cannotAttachPsbt s.id s.status), s)
  else (.ok (.executed ()), { s with
    unsignedPsbtHash := some unsignedPsbtHash
    events := s.events.push (.psbtCreated unsignedPsbtHash) })

/-- `PsbtSession::add_signature`. -/
def addSignature (s : PsbtSession) (fingerprint : KeyFingerprint) (signedPsbtHash : PsbtHash) :
    Except PsbtSessionError (Idempotent Unit) × PsbtSession :=
  if s.guard (PsbtSessionEvent.isSignatureOf fingerprint) (fun _ => false) then
    (.ok .alreadyApplied, s)
  else if !s.isCollecting then (.error (.notCollecting s.id), s)
  else if !s.keystores.contains fingerprint then (.error (.unknownKeystore fingerprint), s)
  else (.ok (.executed ()), { s with
    signatures := s.signatures ++ [⟨fingerprint, signedPsbtHash⟩]
    events := s.events.push (.signatureAdded fingerprint signedPsbtHash) })

/-- `PsbtSession::finalize`: `sigs_used` is stored sorted. -/
def finalize (s : PsbtSession) (txid : Txid) (finalTxHash : PsbtHash)
    (sigsUsed : List KeyFingerprint) :
    Except PsbtSessionError (Idempotent Txid) × PsbtSession :=
  if s.guard PsbtSessionEvent.isFinalized (fun _ => false) then (.ok .alreadyApplied, s)
  else if !s.isCollecting then (.error (.notCollecting s.id), s)
  else if sigsUsed.length < s.threshold.toNat then
    (.error (.thresholdNotMet sigsUsed.length s.threshold), s)
  else
    let dedup := Sorting.dedup (Sorting.sort sigsUsed)
    if dedup.length ≠ sigsUsed.length then (.error .duplicateSigsUsed, s)
    else if !dedup.all s.hasSigned then (.error .sigsUsedNotCollected, s)
    else (.ok (.executed txid), { s with
      finalization := some ⟨txid, finalTxHash, dedup⟩
      events := s.events.push (.finalized txid finalTxHash dedup) })

/-- `PsbtSession::mark_broadcast_seen`. -/
def markBroadcastSeen (s : PsbtSession) (txid : Txid) :
    Except PsbtSessionError (Idempotent Unit) × PsbtSession :=
  match s.finalization with
  | none => (.error (.notFinalized s.id), s)
  | some finalization =>
    if finalization.txid ≠ txid then (.error .txidMismatch, s)
    else if s.guard PsbtSessionEvent.isBroadcastSeen (fun _ => false) then
      (.ok .alreadyApplied, s)
    -- a confirmation that arrived first makes the sighting redundant
    else if s.status = .confirmed then (.ok .alreadyApplied, s)
    else (.ok (.executed ()), { s with events := s.events.push (.broadcastSeen txid) })

/-- `PsbtSession::confirm`. -/
def confirm (s : PsbtSession) (txid : Txid) (height : UInt64) (blockHash : BlockHash) :
    Except PsbtSessionError (Idempotent Unit) × PsbtSession :=
  match s.finalization with
  | none => (.error (.notFinalized s.id), s)
  | some finalization =>
    if finalization.txid ≠ txid then (.error .txidMismatch, s)
    else if s.guard PsbtSessionEvent.isConfirmed PsbtSessionEvent.isInvalidated then
      (.ok .alreadyApplied, s)
    else (.ok (.executed ()), { s with events := s.events.push (.confirmed txid height blockHash) })

/-- `PsbtSession::invalidate`. -/
def invalidate (s : PsbtSession) (reason : InvalidationReason) :
    Except PsbtSessionError (Idempotent Unit) × PsbtSession :=
  if s.guard PsbtSessionEvent.isInvalidated PsbtSessionEvent.isConfirmed then
    (.ok .alreadyApplied, s)
  else match s.status with
    | .broadcast | .confirmed =>
      (.ok (.executed ()), { s with events := s.events.push (.invalidated reason) })
    | status => (.error (.cannotInvalidate s.id status), s)

/-- `PsbtSession::cancel`. -/
def cancel (s : PsbtSession) (cancelledBy : UserId) (reason : String) :
    Except PsbtSessionError (Idempotent Unit) × PsbtSession :=
  if s.guard PsbtSessionEvent.isCancelled (fun _ => false) then (.ok .alreadyApplied, s)
  else match s.status with
    | .pending | .collecting | .finalized =>
      (.ok (.executed ()), { s with events := s.events.push (.cancelled cancelledBy reason) })
    | status => (.error (.cannotCancel s.id status), s)

end PsbtSession

inductive PsbtSessionCommand where
  | recordPsbtCreated (unsignedPsbtHash : PsbtHash)
  | addSignature (fingerprint : KeyFingerprint) (signedPsbtHash : PsbtHash)
  | finalize (txid : Txid) (finalTxHash : PsbtHash) (sigsUsed : List KeyFingerprint)
  | markBroadcastSeen (txid : Txid)
  | confirm (txid : Txid) (height : UInt64) (blockHash : BlockHash)
  | invalidate (reason : InvalidationReason)
  | cancel (cancelledBy : UserId) (reason : String)
  deriving DecidableEq, Repr

namespace PsbtSession

/-- A command on the entity; the transaction id `finalize` answers with is left out. -/
def apply (s : PsbtSession) :
    PsbtSessionCommand → Except PsbtSessionError (Idempotent Unit) × PsbtSession
  | .recordPsbtCreated unsignedPsbtHash => s.recordPsbtCreated unsignedPsbtHash
  | .addSignature fingerprint signedPsbtHash => s.addSignature fingerprint signedPsbtHash
  | .finalize txid finalTxHash sigsUsed =>
    let r := s.finalize txid finalTxHash sigsUsed
    (r.1.map fun answer => answer.map fun _ => (), r.2)
  | .markBroadcastSeen txid => s.markBroadcastSeen txid
  | .confirm txid height blockHash => s.confirm txid height blockHash
  | .invalidate reason => s.invalidate reason
  | .cancel cancelledBy reason => s.cancel cancelledBy reason

/-- The entity after a sequence of commands, failing ones included. -/
def run (s : PsbtSession) (commands : List PsbtSessionCommand) : PsbtSession :=
  commands.foldl (fun s c => (s.apply c).2) s

end PsbtSession

/-! ## Hydration -/

/-- `PsbtSessionBuilder`: the fields the events set. -/
structure PsbtSessionBuilder where
  id : Option PsbtSessionId
  walletId : Option WalletId
  proposedBy : Option UserId
  spend : Option SpendSpec
  unsignedPsbtHash : Option PsbtHash
  threshold : Option UInt32
  keystores : Option (List KeyFingerprint)
  signatures : List SignatureRecord
  finalization : Option FinalizationRecord

namespace PsbtSessionBuilder

def default : PsbtSessionBuilder := ⟨none, none, none, none, none, none, none, [], none⟩

/-- One turn of the loop of `try_from_events`. -/
def event (b : PsbtSessionBuilder) : PsbtSessionEvent → PsbtSessionBuilder
  | .initialized id walletId proposedBy spend threshold keystores => { b with
      id := some id
      walletId := some walletId
      proposedBy := some proposedBy
      spend := some spend
      threshold := some threshold
      keystores := some keystores }
  | .psbtCreated unsignedPsbtHash => { b with unsignedPsbtHash := some unsignedPsbtHash }
  | .signatureAdded fingerprint signedPsbtHash =>
    { b with signatures := b.signatures ++ [⟨fingerprint, signedPsbtHash⟩] }
  | .finalized txid finalTxHash sigsUsed =>
    { b with finalization := some ⟨txid, finalTxHash, sigsUsed⟩ }
  | .broadcastSeen .. | .confirmed .. | .invalidated .. | .cancelled .. => b

/-- The derived `build`: the first missing field is the error. -/
def build (b : PsbtSessionBuilder) (events : EntityEvents PsbtSessionId PsbtSessionEvent) :
    Except EntityHydrationError PsbtSession := do
  let some id := b.id | .error (.uninitializedField "id")
  let some walletId := b.walletId | .error (.uninitializedField "wallet_id")
  let some proposedBy := b.proposedBy | .error (.uninitializedField "proposed_by")
  let some spend := b.spend | .error (.uninitializedField "inputs")
  let some threshold := b.threshold | .error (.uninitializedField "threshold")
  let some keystores := b.keystores | .error (.uninitializedField "keystores")
  .ok ⟨id, walletId, proposedBy, spend, b.unsignedPsbtHash, threshold, keystores, b.signatures,
    b.finalization, events⟩

end PsbtSessionBuilder

namespace PsbtSession

/-- The error of a broken invariant. -/
def violation (message : String) : EntityHydrationError :=
  .eventDeserialization s!"psbt session invariant violated: {message}"

/-- The loop over the recorded signatures. -/
def verifySignatures (keystores seen : List KeyFingerprint) :
    List SignatureRecord → Except EntityHydrationError Unit
  | [] => .ok ()
  | sig :: rest =>
    if !keystores.contains sig.fingerprint then
      .error (violation
        s!"recorded signature from {sig.fingerprint.display} is not part of the policy")
    else if seen.contains sig.fingerprint then
      .error (violation s!"duplicate recorded signature from {sig.fingerprint.display}")
    else verifySignatures keystores (sig.fingerprint :: seen) rest

/-- The checks on the recorded finalization. -/
def verifyFinalization (s : PsbtSession) : Except EntityHydrationError Unit :=
  match s.finalization with
  | none => .ok ()
  | some finalization =>
    if finalization.sigsUsed.length < s.threshold.toNat then
      .error (violation
        s!"finalized below threshold ({finalization.sigsUsed.length} of {s.threshold})")
    else if (Sorting.dedup (Sorting.sort finalization.sigsUsed)).length ≠
        finalization.sigsUsed.length then
      .error (violation "duplicate keystore in sigs_used")
    else if !finalization.sigsUsed.all fun fp =>
        s.signatures.any fun r => r.fingerprint == fp then
      .error (violation "sigs_used is not a subset of collected signatures")
    else .ok ()

/-- `PsbtSession::verify_hydrated_invariants`. -/
def verifyHydratedInvariants (s : PsbtSession) : Except EntityHydrationError Unit :=
  if s.threshold = 0 || s.keystores.length < s.threshold.toNat then
    .error (violation s!"policy {s.threshold}-of-{s.keystores.length} is out of range")
  else if (Sorting.dedup (Sorting.sort s.keystores)).length ≠ s.keystores.length then
    .error (violation "duplicate keystore in policy")
  else match verifySignatures s.keystores [] s.signatures with
    | .error e => .error e
    | .ok () => s.verifyFinalization

/-- `PsbtSession::try_from_events`. -/
def tryFromEvents (events : EntityEvents PsbtSessionId PsbtSessionEvent) :
    Except EntityHydrationError PsbtSession :=
  match (events.iterAll.foldl PsbtSessionBuilder.event PsbtSessionBuilder.default).build events with
  | .error e => .error e
  | .ok entity =>
    match entity.verifyHydratedInvariants with
    | .error e => .error e
    | .ok () => .ok entity

end PsbtSession

/-! ## Proposal -/

/-- Hard cap on the declared fee, in sats. -/
def MAX_FEE_SATS : UInt64 := 1000000

def MAX_SPEND_INPUTS : Nat := 100

def MAX_SPEND_OUTPUTS : Nat := 100

structure NewPsbtSession where
  id : PsbtSessionId
  walletId : WalletId
  proposedBy : UserId
  spend : SpendSpec
  threshold : UInt32
  keystores : List KeyFingerprint
  deriving DecidableEq, Repr

namespace NewPsbtSession

variable (X : Extern)

/-- Dust threshold of a P2WSH output; it depends on the script's size only. -/
def p2wshDustThreshold : UInt64 := X.minimalNonDust (.p2wsh ⟨0⟩)

/-- The checks on the outputs, in order; `none` when all pass. -/
def outputError (network : Network) : List SpendOutput → Option PsbtSessionError
  | [] => none
  | output :: rest =>
    match output.address.requireNetwork X network with
    | .error reason => some (.invalidAddress network reason)
    | .ok address =>
      let dust := X.minimalNonDust address.scriptPubkey
      if output.amountSats < dust then some (.dustOutput output.amountSats dust)
      else outputError network rest

/-- The checks on the spend, in order; `none` when all pass. -/
def spendError (network : Network) (spend : SpendSpec) : Option PsbtSessionError :=
  if spend.inputs.isEmpty then some .emptyInputs
  else if MAX_SPEND_INPUTS < spend.inputs.length then
    some (.tooManyInputs spend.inputs.length MAX_SPEND_INPUTS)
  else match Sorting.adjacentDup (Sorting.sort spend.inputs) with
    | some outpoint => some (.duplicateInput outpoint.txid outpoint.vout)
    | none =>
      if spend.outputs.isEmpty then some .emptyOutputs
      else if MAX_SPEND_OUTPUTS < spend.outputs.length then
        some (.tooManyOutputs spend.outputs.length MAX_SPEND_OUTPUTS)
      else match outputError X network spend.outputs with
        | some e => some e
        | none =>
          let dust := p2wshDustThreshold X
          match spend.changeOutput with
          | some change =>
            if change.amountSats < dust then some (.dustOutput change.amountSats dust)
            else feeError spend.feeSats
          | none => feeError spend.feeSats
where
  feeError (feeSats : UInt64) : Option PsbtSessionError :=
    if MAX_FEE_SATS < feeSats then some (.feeExceedsMax feeSats MAX_FEE_SATS) else none

variable {X} in
theorem inputs_ne_nil {network : Network} {spend : SpendSpec}
    (h : spendError X network spend = none) : spend.inputs ≠ [] := by
  rintro hnil
  unfold spendError at h
  rw [hnil] at h
  exact absurd h (by simp)

/-- `NewPsbtSession::try_new`: the wallet must be active, and its policy is copied. -/
def tryNew (id : PsbtSessionId) (wallet : Wallet) (proposedBy : UserId) (spend : SpendSpec) :
    Except PsbtSessionError NewPsbtSession :=
  if wallet.status ≠ .active then .error (.walletNotActive wallet.id wallet.status)
  else match spendError X wallet.network spend with
    | some e => .error e
    | none => .ok {
        id
        walletId := wallet.id
        proposedBy
        spend
        threshold := wallet.threshold
        keystores := wallet.keystores.map (keystoreFingerprint X) }

/-- `into_events`. -/
def intoEvents (n : NewPsbtSession) : EntityEvents PsbtSessionId PsbtSessionEvent :=
  .init n.id [.initialized n.id n.walletId n.proposedBy n.spend n.threshold n.keystores]

/-- The session that proposing `n` leaves in the store. -/
def proposed (n : NewPsbtSession) : PsbtSession :=
  ⟨n.id, n.walletId, n.proposedBy, n.spend, none, n.threshold, n.keystores, [], none,
    .load n.id n.intoEvents.iterAll⟩

@[simp] theorem proposed_log (n : NewPsbtSession) : n.proposed.log =
    [.initialized n.id n.walletId n.proposedBy n.spend n.threshold n.keystores] := rfl

variable {X} in
/-- What `try_new` accepts, and what it copies. -/
theorem tryNew_eq_ok_iff {id : PsbtSessionId} {wallet : Wallet} {proposedBy : UserId}
    {spend : SpendSpec} {n : NewPsbtSession} :
    tryNew X id wallet proposedBy spend = .ok n ↔
      wallet.status = .active ∧ spendError X wallet.network spend = none ∧
        n = ⟨id, wallet.id, proposedBy, spend, wallet.threshold,
          wallet.keystores.map (keystoreFingerprint X)⟩ := by
  unfold tryNew
  split
  · rename_i h
    simp [h]
  · rename_i h
    rw [not_not] at h
    cases spendError X wallet.network spend with
    | some e => simp
    | none => simp [h, eq_comm]

end NewPsbtSession

end Kota
