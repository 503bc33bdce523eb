import Kota.Concurrency

/-!
# Calls under way

The platform with any number of use cases and job units under way, on any number of wallets and
sessions (`kota/app/src/lib.rs`, `jobs/`). Every one of them loads an aggregate without a lock,
works on that copy and writes back what it recorded; the write fails when the log grew since.

* A call on a wallet or a proposal takes two steps, a unit of work on a session three, and all the
  others may step in between.
* `propose_spend` writes a session after it read a wallet; nothing makes the wallet wait.
* `tryNewChecked` is `try_new` with its debug assertion: `none` is the panic of a debug build.
* `SessionCall.alone` is a unit of work that nothing interrupts, which is the use case or the job
  unit itself.
-/

namespace Kota

open EventLog

/-! ## The calls -/

/-- Why a call failed. -/
inductive Failure where
  | useCase (e : CoordinationError)
  | job (e : JobsError)
  deriving DecidableEq, Repr

/-- A unit of work on one session. -/
inductive SessionCall where
  | submitSignedPsbt (submittedBy : UserId) (signedPsbt : Bytes)
  | runPsbtCreation (funding : FundingUtxoProvider)
  | runFinalization
  | applyChainObservation (observation : ChainObservation)
  | cancel (cancelledBy : UserId) (reason : String)

inductive Call where
  | wallet (id : WalletId) (command : WalletCommand)
  | proposeSpend (id : PsbtSessionId) (walletId : WalletId) (proposedBy : UserId)
      (spend : SpendSpec)
  | session (id : PsbtSessionId) (call : SessionCall)

/-- What is left of a unit of work to write back. -/
def Work.toWrite {α : Type} : Work α → Option PsbtSession
  | .done _ => none
  | .persist _ session => some session

/-- A command on a loaded session, with what is left to write back. -/
def PsbtSession.commandWork (s : PsbtSession) (command : PsbtSessionCommand) :
    Except PsbtSessionError (Option PsbtSession) :=
  match s.apply command with
  | (.error e, _) => .error e
  | (.ok applied, s) => .ok (if applied.didExecute then some s else none)

namespace SessionCall

variable (X : Extern) (network : Network)

/-- The error of a call that finds no session. -/
def notFound (e : FindError) : SessionCall → Failure
  | .submitSignedPsbt .. | .cancel .. => .useCase (.sessionFind e)
  | .runPsbtCreation .. | .runFinalization | .applyChainObservation .. => .job (.sessionFind e)

/-- The error of a call that cannot write back. -/
def notWritten (e : ModifyError) : SessionCall → Failure
  | .submitSignedPsbt .. | .cancel .. => .useCase (.sessionModify e)
  | .runPsbtCreation .. | .runFinalization | .applyChainObservation .. => .job (.sessionModify e)

/-- The work between load and write: what is left to write back, and the blobs it put. -/
def work (wallets : Wallets) (blobs : BlobStore) (s : PsbtSession) :
    SessionCall → Except Failure (Option PsbtSession) × BlobStore
  | .submitSignedPsbt user bytes =>
    match Coordination.submitWork X wallets blobs s user bytes with
    | (.error e, blobs) => (.error (.useCase e), blobs)
    | (.ok (executed, s), blobs) => (.ok (if executed then some s else none), blobs)
  | .runPsbtCreation funding =>
    let (work, blobs) := createPsbt X wallets blobs funding network s
    ((work.map Work.toWrite).mapError .job, blobs)
  | .runFinalization =>
    let (work, blobs) := finalizeSession X blobs s
    ((work.map Work.toWrite).mapError .job, blobs)
  | .applyChainObservation observation =>
    ((s.commandWork observation.command).mapError fun e => .job (.session e), blobs)
  | .cancel cancelledBy reason =>
    ((s.commandWork (.cancel cancelledBy reason)).mapError fun e => .useCase (.psbtSession e), blobs)

/-- The write. -/
def write (sessions : PsbtSessions) (call : SessionCall) :
    Except Failure (Option PsbtSession) → Except Failure Unit × PsbtSessions
  | .error e => (.error e, sessions)
  | .ok none => (.ok (), sessions)
  | .ok (some s) =>
    match sessions.update s with
    | .error e => (.error (call.notWritten e), sessions)
    | .ok sessions => (.ok (), sessions)

end SessionCall

/-- The debug assertion at the end of `try_new`. -/
def NewPsbtSession.debugAssert (n : NewPsbtSession) : Bool :=
  0 < n.threshold && n.threshold.toNat ≤ n.keystores.length

/-- `NewPsbtSession::try_new` in a debug build: `none` is a failed assertion. -/
def NewPsbtSession.tryNewChecked (X : Extern) (id : PsbtSessionId) (wallet : Wallet)
    (proposedBy : UserId) (spend : SpendSpec) : Option (Except PsbtSessionError NewPsbtSession) :=
  match NewPsbtSession.tryNew X id wallet proposedBy spend with
  | .error e => some (.error e)
  | .ok n => if n.debugAssert then some (.ok n) else none

/-- What a use case answers when the write of a wallet failed. -/
def WalletCommand.notWritten (wallets : Wallets) (w : Wallet) (e : ModifyError) :
    WalletCommand → Except Failure Unit
  | .addKeystore .. =>
    match Coordination.resolveFingerprintCollision wallets w e with
    | .error e => .error (.useCase e)
    | .ok _ => .ok ()
  | .removeKeystore .. | .cancel .. => .error (.useCase (.walletModify e))

/-! ## The tasks -/

namespace Traffic

/-- How far a call is. -/
inductive Stage where
  | wallet (loaded : Wallet)
  | session (loaded : PsbtSession)
  | computed (work : Except Failure (Option PsbtSession))
  | returned (answer : Except Failure Unit)
  | panicked

structure Task where
  call : Call
  stage : Stage

/-- One step: a wallet is registered, a call is made and loads, or a call under way goes on. -/
inductive Action where
  | register (id : WalletId) (threshold : UInt32) (participants : List UserId)
  | call (call : Call)
  | step (task : Nat)

end Traffic

/-- The stores and the calls. -/
structure Traffic where
  platform : Platform
  tasks : List Traffic.Task

namespace Traffic

def empty : Traffic := ⟨.empty, []⟩

variable (X : Extern) (network : Network)

/-- What a call loads. -/
def load (p : Platform) : Call → Stage
  | .wallet id _ | .proposeSpend _ id _ _ =>
    match p.wallets.findById id with
    | .error e => .returned (.error (.useCase (.walletFind e)))
    | .ok w => .wallet w
  | .session id call =>
    match p.sessions.findById id with
    | .error e => .returned (.error (call.notFound e))
    | .ok s => .session s

/-- The second step of a call on a wallet: the command, and the write. -/
def walletStep (p : Platform) (command : WalletCommand) (w : Wallet) : Platform × Stage :=
  match w.apply X command with
  | (.error e, _) => (p, .returned (.error (.useCase (.wallet e))))
  | (.ok applied, w) =>
    if applied.wasAlreadyApplied then (p, .returned (.ok ()))
    else match p.wallets.update w with
      | .error e => (p, .returned (command.notWritten p.wallets w e))
      | .ok wallets => ({ p with wallets }, .returned (.ok ()))

/-- The second step of `propose_spend`. -/
def proposalStep (p : Platform) (id : PsbtSessionId) (proposedBy : UserId) (spend : SpendSpec)
    (w : Wallet) : Platform × Stage :=
  match NewPsbtSession.tryNewChecked X id w proposedBy spend with
  | none => (p, .panicked)
  | some (.error e) => (p, .returned (.error (.useCase (.psbtSession e))))
  | some (.ok n) =>
    match p.sessions.create n with
    | .error e => (p, .returned (.error (.useCase (.sessionCreate e))))
    | .ok (_, sessions) => ({ p with sessions }, .returned (.ok ()))

/-- The next step of a call; one that returned makes none. -/
def advance (p : Platform) : Call → Stage → Platform × Stage
  | .wallet _ command, .wallet w => walletStep X p command w
  | .proposeSpend id _ proposedBy spend, .wallet w => proposalStep X p id proposedBy spend w
  | .session _ call, .session s =>
    let (work, blobs) := call.work X network p.wallets p.blobs s
    ({ p with blobs }, .computed work)
  | .session _ call, .computed work =>
    let (answer, sessions) := call.write p.sessions work
    ({ p with sessions }, .returned answer)
  | _, stage => (p, stage)

def act (c : Traffic) : Action → Traffic
  | .register id threshold participants =>
    let (_, wallets) :=
      Coordination.registerWallet c.platform.wallets network id threshold participants
    { c with platform := { c.platform with wallets } }
  | .call call => { c with tasks := c.tasks ++ [⟨call, load c.platform call⟩] }
  | .step i =>
    match c.tasks[i]? with
    | none => c
    | some task =>
      let (platform, stage) := advance X network c.platform task.call task.stage
      ⟨platform, c.tasks.set i { task with stage }⟩

/-- The platform after any interleaving of steps. -/
def run (c : Traffic) (actions : List Action) : Traffic := actions.foldl (act X network) c

end Traffic

/-! ## A call alone -/

namespace SessionCall

variable (X : Extern) (network : Network)

/-- A unit of work that nothing interrupts: load, work, write. -/
def alone (p : Platform) (id : PsbtSessionId) (call : SessionCall) :
    Except Failure Unit × Platform :=
  match p.sessions.findById id with
  | .error e => (.error (call.notFound e), p)
  | .ok s =>
    let (work, blobs) := call.work X network p.wallets p.blobs s
    let (answer, sessions) := call.write p.sessions work
    (answer, { p with sessions, blobs })

variable {X network} {p : Platform} {id : PsbtSessionId}

theorem write_map_persist {α : Type} (sessions : PsbtSessions) {call : SessionCall}
    (hcall : ∀ e, call.notWritten e = .job (.sessionModify e)) (work : Except JobsError (Work α)) :
    call.write sessions ((work.map Work.toWrite).mapError .job) =
      (((sessions.persist work).1.map fun _ => ()).mapError .job, (sessions.persist work).2) := by
  rcases work with e | (answer | ⟨answer, s⟩)
  · rfl
  · rfl
  · simp only [Except.map, Except.mapError, Work.toWrite, write, PsbtSessions.persist]
    cases sessions.update s with
    | error e => exact congrArg (fun f => (Except.error f, sessions)) (hcall e)
    | ok sessions' => rfl

/-- **Alone, a submission is `submit_signed_psbt`.** -/
theorem alone_submitSignedPsbt (user : UserId) (bytes : Bytes) :
    alone X network p id (.submitSignedPsbt user bytes) =
      (((Coordination.submitSignedPsbt X p.wallets p.sessions p.blobs id user bytes).1.map
          fun _ => ()).mapError .useCase,
        { p with
          sessions :=
            (Coordination.submitSignedPsbt X p.wallets p.sessions p.blobs id user bytes).2.1
          blobs :=
            (Coordination.submitSignedPsbt X p.wallets p.sessions p.blobs id user bytes).2.2 }) := by
  unfold alone Coordination.submitSignedPsbt
  cases p.sessions.findById id with
  | error e => rfl
  | ok s =>
    dsimp only [work]
    cases Coordination.submitWork X p.wallets p.blobs s user bytes with
    | mk answer blobs =>
      rcases answer with e | ⟨executed, s'⟩
      · rfl
      · cases executed with
        | false => rfl
        | true =>
          simp only [if_true, write]
          cases p.sessions.update s' with
          | error e => rfl
          | ok sessions => rfl

/-- **Alone, a creation job is `run_psbt_creation`.** -/
theorem alone_runPsbtCreation (funding : FundingUtxoProvider) :
    alone X network p id (.runPsbtCreation funding) =
      (((Kota.runPsbtCreation X p.sessions p.wallets p.blobs funding network id).1.map
          fun _ => ()).mapError .job,
        { p with
          sessions :=
            (Kota.runPsbtCreation X p.sessions p.wallets p.blobs funding network id).2.1
          blobs :=
            (Kota.runPsbtCreation X p.sessions p.wallets p.blobs funding network id).2.2 }) := by
  unfold alone Kota.runPsbtCreation
  cases p.sessions.findById id with
  | error e => rfl
  | ok s =>
    dsimp only [work]
    rw [write_map_persist p.sessions fun _ => rfl]

/-- **Alone, a finalization job is `run_finalization`.** -/
theorem alone_runFinalization :
    alone X network p id .runFinalization =
      (((Kota.runFinalization X p.sessions p.blobs id).1.map fun _ => ()).mapError .job,
        { p with
          sessions := (Kota.runFinalization X p.sessions p.blobs id).2.1
          blobs := (Kota.runFinalization X p.sessions p.blobs id).2.2 }) := by
  unfold alone Kota.runFinalization
  cases p.sessions.findById id with
  | error e => rfl
  | ok s =>
    dsimp only [work]
    rw [write_map_persist p.sessions fun _ => rfl]

/-- **Alone, an observation is `apply_chain_observation`.** -/
theorem alone_applyChainObservation (observation : ChainObservation) :
    alone X network p id (.applyChainObservation observation) =
      ((Kota.applyChainObservation p.sessions id observation).1.mapError .job,
        { p with sessions := (Kota.applyChainObservation p.sessions id observation).2 }) := by
  unfold alone Kota.applyChainObservation
  cases p.sessions.findById id with
  | error e => rfl
  | ok s =>
    dsimp only [work, PsbtSession.commandWork]
    cases s.apply observation.command with
    | mk answer s' =>
      rcases answer with e | applied
      · rfl
      · cases applied with
        | alreadyApplied => rfl
        | executed u =>
          simp only [Idempotent.didExecute, if_true, Except.mapError, write, PsbtSessions.persist]
          cases p.sessions.update s' with
          | error e => rfl
          | ok sessions => rfl

end SessionCall

end Kota
