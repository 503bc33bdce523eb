import Kota.Jobs

/-!
# The use cases

Model of `Coordination`'s commands (`kota/app/src/lib.rs`) over the three stores, with the errors
of `error.rs`. Every use case loads, decides, and writes back.

* The work of `submit_signed_psbt` between load and write is `submitWork`: it resolves the signer,
  validates the document, stores the merged one and records the signature on the loaded session.
  A submission that runs concurrently with others does that work on a snapshot.
* The jobs that `propose_spend` and `submit_signed_psbt` spawn are not here: a run of the platform
  (`Platform.run`) executes jobs at any time, and `Concurrency.lean` models the queue.

`Platform.exec` is one command or job on the whole platform; `Platform.lean` says all it can do to
the stores.
-/

namespace Kota

open EventLog

/-- `CoordinationError`, without the variants that wrap database and queue errors. -/
inductive CoordinationError where
  | wallet (e : WalletError)
  | psbtSession (e : PsbtSessionError)
  | psbtValidation (e : PsbtValidationError)
  | walletCreate (e : CreateError)
  | walletFind (e : FindError)
  | walletModify (e : ModifyError)
  | sessionCreate (e : CreateError)
  | sessionFind (e : FindError)
  | sessionModify (e : ModifyError)
  | signerNotBound (walletId : WalletId) (userId : UserId)
  | unsignedPsbtNotReady (id : PsbtSessionId)
  | blobFetch (e : BlobFetchError)
  deriving DecidableEq, Repr

namespace Coordination

variable (X : Extern)

/-! ## Wallet lifecycle -/

/-- `register_wallet`; the fresh id is an argument. -/
def registerWallet (wallets : Wallets) (network : Network) (id : WalletId) (threshold : UInt32)
    (participants : List UserId) : Except CoordinationError Wallet × Wallets :=
  match NewWallet.new id network threshold participants with
  | .error e => (.error (.wallet e), wallets)
  | .ok newWallet =>
    match wallets.create newWallet with
    | .error e => (.error (.walletCreate e), wallets)
    | .ok (wallet, wallets) => (.ok wallet, wallets)

/-- `resolve_fingerprint_collision`: another wallet with the same descriptor is the answer. -/
def resolveFingerprintCollision (wallets : Wallets) (wallet : Wallet) (updateError : ModifyError) :
    Except CoordinationError Wallet :=
  match wallet.descriptorFingerprint with
  | none => .error (.walletModify updateError)
  | some fingerprint =>
    match wallets.findByDescriptorFingerprint fingerprint with
    | .error _ => .error (.walletModify updateError)
    | .ok existing =>
      if existing.id ≠ wallet.id then .ok existing else .error (.walletModify updateError)

/-- `submit_keystore`. -/
def submitKeystore (wallets : Wallets) (walletId : WalletId) (submittedBy : UserId)
    (keystore : DescriptorPublicKey) : Except CoordinationError Wallet × Wallets :=
  match wallets.findById walletId with
  | .error e => (.error (.walletFind e), wallets)
  | .ok wallet =>
    match wallet.addKeystore X keystore submittedBy with
    | (.error e, _) => (.error (.wallet e), wallets)
    | (.ok applied, wallet) =>
      if applied.wasAlreadyApplied then (.ok wallet, wallets)
      else match wallets.update wallet with
        | .error e => (resolveFingerprintCollision wallets wallet e, wallets)
        | .ok wallets => (.ok wallet, wallets)

/-- `remove_keystore`. -/
def removeKeystore (wallets : Wallets) (walletId : WalletId) (participant removedBy : UserId) :
    Except CoordinationError Wallet × Wallets :=
  match wallets.findById walletId with
  | .error e => (.error (.walletFind e), wallets)
  | .ok wallet =>
    match wallet.removeKeystore participant removedBy with
    | (.error e, _) => (.error (.wallet e), wallets)
    | (.ok applied, wallet) =>
      if applied.wasAlreadyApplied then (.ok wallet, wallets)
      else match wallets.update wallet with
        | .error e => (.error (.walletModify e), wallets)
        | .ok wallets => (.ok wallet, wallets)

/-- `cancel_wallet`. -/
def cancelWallet (wallets : Wallets) (walletId : WalletId) (cancelledBy : UserId)
    (reason : String) : Except CoordinationError Wallet × Wallets :=
  match wallets.findById walletId with
  | .error e => (.error (.walletFind e), wallets)
  | .ok wallet =>
    match wallet.cancel cancelledBy reason with
    | (.error e, _) => (.error (.wallet e), wallets)
    | (.ok applied, wallet) =>
      if applied.wasAlreadyApplied then (.ok wallet, wallets)
      else match wallets.update wallet with
        | .error e => (.error (.walletModify e), wallets)
        | .ok wallets => (.ok wallet, wallets)

/-! ## Spend lifecycle -/

/-- `propose_spend`; the fresh id is an argument. -/
def proposeSpend (wallets : Wallets) (sessions : PsbtSessions) (id : PsbtSessionId)
    (walletId : WalletId) (proposedBy : UserId) (spend : SpendSpec) :
    Except CoordinationError PsbtSession × PsbtSessions :=
  match wallets.findById walletId with
  | .error e => (.error (.walletFind e), sessions)
  | .ok wallet =>
    match NewPsbtSession.tryNew X id wallet proposedBy spend with
    | .error e => (.error (.psbtSession e), sessions)
    | .ok newSession =>
      match sessions.create newSession with
      | .error e => (.error (.sessionCreate e), sessions)
      | .ok (session, sessions) => (.ok session, sessions)

/-- The checks of `submit_signed_psbt`: the fingerprint the signature is attributed to, and the
merged document to store. -/
def checkSubmission (wallets : Wallets) (blobs : BlobStore) (session : PsbtSession)
    (submittedBy : UserId) (signedPsbt : Bytes) :
    Except CoordinationError (KeyFingerprint × Psbt) :=
  match wallets.findById session.walletId with
  | .error e => .error (.walletFind e)
  | .ok wallet =>
    match wallet.keystoreFingerprintOf X submittedBy with
    | none => .error (.signerNotBound wallet.id submittedBy)
    | some fingerprint =>
      match session.unsignedPsbtHash with
      | none => .error (.unsignedPsbtNotReady session.id)
      | some unsignedHash =>
        match blobs.fetchVerified X unsignedHash with
        | .error e => .error (.blobFetch e)
        | .ok bytes =>
          match parsePsbt X bytes with
          | .error e => .error (.psbtValidation e)
          | .ok original =>
            match parsePsbt X signedPsbt with
            | .error e => .error (.psbtValidation e)
            | .ok signed =>
              match validateSignedSubmission X original signed fingerprint with
              | .error e => .error (.psbtValidation e)
              | .ok extracted => .ok (fingerprint, mergePartialSigs original extracted)

/-- The work of `submit_signed_psbt` on a loaded session: whether there is anything to write
back, and the session to write. -/
def submitWork (wallets : Wallets) (blobs : BlobStore) (session : PsbtSession)
    (submittedBy : UserId) (signedPsbt : Bytes) :
    Except CoordinationError (Bool × PsbtSession) × BlobStore :=
  match checkSubmission X wallets blobs session submittedBy signedPsbt with
  | .error e => (.error e, blobs)
  | .ok (fingerprint, merged) =>
    let (mergedHash, blobs) := blobs.put X (X.serialize merged)
    match session.addSignature fingerprint mergedHash with
    | (.error e, _) => (.error (.psbtSession e), blobs)
    | (.ok applied, session) => (.ok (applied.didExecute, session), blobs)

/-- `submit_signed_psbt`. -/
def submitSignedPsbt (wallets : Wallets) (sessions : PsbtSessions) (blobs : BlobStore)
    (sessionId : PsbtSessionId) (submittedBy : UserId) (signedPsbt : Bytes) :
    Except CoordinationError PsbtSession × PsbtSessions × BlobStore :=
  match sessions.findById sessionId with
  | .error e => (.error (.sessionFind e), sessions, blobs)
  | .ok session =>
    match submitWork X wallets blobs session submittedBy signedPsbt with
    | (.error e, blobs) => (.error e, sessions, blobs)
    | (.ok (executed, session), blobs) =>
      if executed then
        match sessions.update session with
        | .error e => (.error (.sessionModify e), sessions, blobs)
        | .ok sessions => (.ok session, sessions, blobs)
      else (.ok session, sessions, blobs)

end Coordination

/-! ## The platform -/

/-- The stores of the platform. -/
structure Platform where
  wallets : Wallets
  sessions : PsbtSessions
  blobs : BlobStore

/-- A use-case command, or an execution of a job unit. -/
inductive Command where
  | registerWallet (id : WalletId) (threshold : UInt32) (participants : List UserId)
  | submitKeystore (walletId : WalletId) (submittedBy : UserId) (keystore : DescriptorPublicKey)
  | removeKeystore (walletId : WalletId) (participant removedBy : UserId)
  | cancelWallet (walletId : WalletId) (cancelledBy : UserId) (reason : String)
  | proposeSpend (id : PsbtSessionId) (walletId : WalletId) (proposedBy : UserId)
      (spend : SpendSpec)
  | submitSignedPsbt (sessionId : PsbtSessionId) (submittedBy : UserId) (signedPsbt : Bytes)
  | runPsbtCreation (sessionId : PsbtSessionId) (funding : FundingUtxoProvider)
  | runFinalization (sessionId : PsbtSessionId)

namespace Platform

open Coordination

def empty : Platform := ⟨.empty, .empty, .empty⟩

variable (X : Extern) (network : Network)

/-- One command or job: whether it returned `Ok`, and the platform after it. -/
def exec (p : Platform) : Command → Bool × Platform
  | .registerWallet id threshold participants =>
    let (answer, wallets) := Coordination.registerWallet p.wallets network id threshold participants
    (answer.isOk, { p with wallets })
  | .submitKeystore walletId submittedBy keystore =>
    let (answer, wallets) := Coordination.submitKeystore X p.wallets walletId submittedBy keystore
    (answer.isOk, { p with wallets })
  | .removeKeystore walletId participant removedBy =>
    let (answer, wallets) :=
      Coordination.removeKeystore p.wallets walletId participant removedBy
    (answer.isOk, { p with wallets })
  | .cancelWallet walletId cancelledBy reason =>
    let (answer, wallets) := Coordination.cancelWallet p.wallets walletId cancelledBy reason
    (answer.isOk, { p with wallets })
  | .proposeSpend id walletId proposedBy spend =>
    let (answer, sessions) :=
      Coordination.proposeSpend X p.wallets p.sessions id walletId proposedBy spend
    (answer.isOk, { p with sessions })
  | .submitSignedPsbt sessionId submittedBy signedPsbt =>
    let (answer, sessions, blobs) :=
      Coordination.submitSignedPsbt X p.wallets p.sessions p.blobs sessionId submittedBy signedPsbt
    (answer.isOk, { p with sessions, blobs })
  | .runPsbtCreation sessionId funding =>
    let (answer, sessions, blobs) :=
      Kota.runPsbtCreation X p.sessions p.wallets p.blobs funding network sessionId
    (answer.isOk, { p with sessions, blobs })
  | .runFinalization sessionId =>
    let (answer, sessions, blobs) := Kota.runFinalization X p.sessions p.blobs sessionId
    (answer.isOk, { p with sessions, blobs })

/-- The platform after a sequence of commands and jobs, failing ones included. -/
def run (p : Platform) (commands : List Command) : Platform :=
  commands.foldl (fun p c => (p.exec X network c).2) p

end Platform

end Kota
