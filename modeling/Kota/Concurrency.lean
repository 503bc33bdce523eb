import Kota.Lib.JobTable
import Kota.Snapshot

/-!
# Concurrent signers and jobs

The platform with what `Platform.run` leaves out: calls of `submit_signed_psbt` that are under way,
and the job tables that `propose_spend` and `submit_signed_psbt` spawn into, in the transaction
that writes their events (`kota/app/src/lib.rs`, `jobs/psbt_creation.rs`, `jobs/finalization.rs`).

* A submission and a job take three steps each (load, work, write back), and every other task may
  step in between. What is written back was computed on a `Snapshot`.
* A finalization job that started before the crossing signature completes and does nothing; what
  saves the session is that the commit of that very signature spawned another.
* **`no_stranded_session`**: in every reachable state, a session with enough signatures has a
  finalization job that will still see them, a pending session has a creation job that is not done
  unless the PSBT can never be built, and a session that a finalization job gave up on is never
  finalized.

Sessions are also cancelled and observed on the chain here, by writers of their own.
-/

namespace Kota

open EventLog JobTable

/-! ## The cluster -/

/-- A call of `submit_signed_psbt`: under way with the session it loaded, checked and about to
commit, or over. -/
inductive Submission where
  | loaded (submittedBy : UserId) (signedPsbt : Bytes) (session : PsbtSession)
  | checked (executed : Bool) (session : PsbtSession)
  | returned (answer : Except CoordinationError PsbtSession)

abbrev CreationJob := Job PsbtSessionId PsbtSession (Except JobsError (Work PsbtHash))
  (Except JobsError PsbtHash)

abbrev FinalizationJob := Job PsbtSessionId PsbtSession (Except JobsError (Work Txid))
  (Except JobsError Txid)

/-- The stores, the calls and the jobs. -/
structure Cluster where
  platform : Platform
  submissions : List Submission
  creations : List CreationJob
  finalizations : List FinalizationJob

/-- Is it a command on a wallet? -/
def Command.onWallet : Command → Bool
  | .registerWallet .. | .submitKeystore .. | .removeKeystore .. | .cancelWallet .. => true
  | .proposeSpend .. | .submitSignedPsbt .. | .runPsbtCreation .. | .runFinalization .. => false

/-- One step of one task. -/
inductive Action where
  | wallet (command : Command)
  | proposeSpend (id : PsbtSessionId) (walletId : WalletId) (proposedBy : UserId)
      (spend : SpendSpec)
  | submit (sessionId : PsbtSessionId) (submittedBy : UserId) (signedPsbt : Bytes)
  | check (submission : Nat)
  | commit (submission : Nat)
  | startCreation (job : Nat)
  | createPsbt (job : Nat) (funding : FundingUtxoProvider)
  | finishCreation (job : Nat)
  | startFinalization (job : Nat)
  | finalizeSession (job : Nat)
  | finishFinalization (job : Nat)
  | observe (sessionId : PsbtSessionId) (observation : ChainObservation)
  | cancel (sessionId : PsbtSessionId) (cancelledBy : UserId) (reason : String)

/-- The funding provider a step calls, if any, answers only errors of this kind. -/
def Action.Answers (kind : JobsError → Prop) : Action → Prop
  | .createPsbt _ funding => funding.Answers kind
  | _ => True

/-- Of the errors of a provider nothing may be known. -/
theorem Action.answers_any (a : Action) : a.Answers fun _ => True := by
  cases a with
  | createPsbt job funding => exact fun _ _ _ _ => trivial
  | _ => exact trivial

namespace Cluster

def empty : Cluster := ⟨.empty, [], [], []⟩

variable (X : Extern) (network : Network)

/-- `propose_spend`: the session's events and its creation job are written together. -/
def proposeSpend (c : Cluster) (id : PsbtSessionId) (walletId : WalletId) (proposedBy : UserId)
    (spend : SpendSpec) : Cluster :=
  match Coordination.proposeSpend X c.platform.wallets c.platform.sessions id walletId proposedBy
      spend with
  | (.error _, _) => c
  | (.ok session, sessions) => { c with
      platform := { c.platform with sessions }
      creations := spawn c.creations session.id }

/-- The load of `submit_signed_psbt`. -/
def submit (c : Cluster) (id : PsbtSessionId) (user : UserId) (bytes : Bytes) : Cluster :=
  match c.platform.sessions.findById id with
  | .error e => { c with submissions := c.submissions ++ [.returned (.error (.sessionFind e))] }
  | .ok session => { c with submissions := c.submissions ++ [.loaded user bytes session] }

/-- Everything up to the transaction of `submit_signed_psbt`, and its `add_signature`. -/
def check (c : Cluster) (i : Nat) : Cluster :=
  match c.submissions[i]? with
  | some (.loaded user bytes session) =>
    match Coordination.submitWork X c.platform.wallets c.platform.blobs session user bytes with
    | (.error e, blobs) => { c with
        platform := { c.platform with blobs }
        submissions := c.submissions.set i (.returned (.error e)) }
    | (.ok (executed, session), blobs) => { c with
        platform := { c.platform with blobs }
        submissions := c.submissions.set i (.checked executed session) }
  | _ => c

/-- The transaction of `submit_signed_psbt`: the signature, when there is one to record, and a
finalization job in any case. -/
def commit (c : Cluster) (i : Nat) : Cluster :=
  match c.submissions[i]? with
  | some (.checked executed session) =>
    if executed then
      match c.platform.sessions.update session with
      | .error e =>
        { c with submissions := c.submissions.set i (.returned (.error (.sessionModify e))) }
      | .ok sessions => { c with
          platform := { c.platform with sessions }
          submissions := c.submissions.set i (.returned (.ok session))
          finalizations := spawn c.finalizations session.id }
    else { c with
      submissions := c.submissions.set i (.returned (.ok session))
      finalizations := spawn c.finalizations session.id }
  | _ => c

/-- The load at the start of a run of a job; a failed one leaves the job to be retried. -/
def load (c : Cluster) (id : PsbtSessionId) : Option PsbtSession :=
  (c.platform.sessions.findById id).toOption

/-- A writer of its own: load, command, write back. -/
def apply (c : Cluster) (id : PsbtSessionId) (command : PsbtSessionCommand) : Cluster :=
  match c.platform.sessions.findById id with
  | .error _ => c
  | .ok session =>
    match c.platform.sessions.update (session.apply command).2 with
    | .error _ => c
    | .ok sessions => { c with platform := { c.platform with sessions } }

/-- One step. -/
def act (c : Cluster) : Action → Cluster
  | .wallet command =>
    if command.onWallet then { c with platform := (c.platform.exec X network command).2 } else c
  | .proposeSpend id walletId proposedBy spend => c.proposeSpend X id walletId proposedBy spend
  | .submit id user bytes => c.submit id user bytes
  | .check i => c.check X i
  | .commit i => c.commit i
  | .startCreation i => { c with creations := start c.creations c.load i }
  | .createPsbt i funding =>
    let (creations, blobs) := perform c.creations i c.platform.blobs
      (Kota.createPsbt X c.platform.wallets c.platform.blobs funding network)
    { c with platform := { c.platform with blobs }, creations }
  | .finishCreation i =>
    let (creations, sessions) := finish c.creations i c.platform.sessions creationCompletes
      c.platform.sessions.persist
    { c with platform := { c.platform with sessions }, creations }
  | .startFinalization i => { c with finalizations := start c.finalizations c.load i }
  | .finalizeSession i =>
    let (finalizations, blobs) := perform c.finalizations i c.platform.blobs
      (Kota.finalizeSession X c.platform.blobs)
    { c with platform := { c.platform with blobs }, finalizations }
  | .finishFinalization i =>
    let (finalizations, sessions) := finish c.finalizations i c.platform.sessions
      finalizationCompletes c.platform.sessions.persist
    { c with platform := { c.platform with sessions }, finalizations }
  | .observe id observation =>
    let (_, sessions) := applyChainObservation c.platform.sessions id observation
    { c with platform := { c.platform with sessions } }
  | .cancel id cancelledBy reason => c.apply id (.cancel cancelledBy reason)

/-- The cluster after any interleaving of steps. -/
def run (c : Cluster) (actions : List Action) : Cluster := actions.foldl (act X network) c

end Cluster

/-! ## What the work of a job comes to -/

/-- The failures after which a creation job gives up. -/
def JobsError.IsPermanent : JobsError → Prop
  | .wallet (.invalidAddress _) | .wallet (.amountMismatch ..) => True
  | _ => False

open PsbtSession (Step Executes Grammatical Ready Created Ended)

/-- What is left to write back is an event of kind `p`. -/
def Records {α : Type} (p : PsbtSessionEvent → Bool) (s : PsbtSession)
    (work : Except JobsError (Work α)) : Prop :=
  ∀ answer s', work = .ok (.persist answer s') → ∃ c e, Executes s c e s' ∧ p e = true

/-- What `run_psbt_creation` makes of a loaded session, with a provider whose errors are of a
kind. -/
structure CreationWork (kind : JobsError → Prop) (s : PsbtSession)
    (work : Except JobsError (Work PsbtHash)) : Prop where
  done : ∀ hash, work = .ok (.done hash) → s.status ≠ .pending
  records : Records PsbtSessionEvent.isPsbtCreated s work
  gaveUp : ∀ e, work = .error e → creationCompletes (.error e) = true →
    (e.IsPermanent ∨ kind e) ∨ s.status ≠ .pending

/-- What `run_finalization` makes of a loaded session. -/
structure FinalizationWork (s : PsbtSession) (work : Except JobsError (Work Txid)) : Prop where
  done : ∀ txid, work = .ok (.done txid) → ¬ s.Ready
  records : Records PsbtSessionEvent.isFinalized s work
  gaveUp : ∀ e, work = .error e → finalizationCompletes (.error e) = true → ¬ s.Ready
  moved : ∀ id status expected, work = .error (.unexpectedStatus id status expected) →
    s.finalization = none ∧ s.status ≠ .collecting

section Outcomes

variable {X : Extern} {network : Network} {kind : JobsError → Prop} {s s' : PsbtSession}

theorem records_error {α : Type} {p : PsbtSessionEvent → Bool} {e : JobsError} :
    Records (α := α) p s (.error e) :=
  fun _ _ h => absurd h (by simp)

theorem FinalizationWork.retried {e : JobsError} (h : finalizationCompletes (.error e) = false) :
    FinalizationWork s (.error e) where
  done _ hw := absurd hw (by simp)
  records := records_error
  gaveUp e' hw hc := by
    obtain rfl := Except.error.inj hw
    rw [h] at hc
    exact absurd hc (by simp)
  moved id status expected hw := by
    obtain rfl := Except.error.inj hw
    exact absurd h (by simp [finalizationCompletes])

/-- The unsigned PSBT is recorded when there was none. -/
theorem executes_recordPsbtCreated (h : ∀ e ∈ s.log, e.isPsbtCreated = false) {hash : PsbtHash}
    {applied : Idempotent Unit} (hr : s.recordPsbtCreated hash = (.ok applied, s')) :
    Executes s (.recordPsbtCreated hash) (.psbtCreated hash) s' := by
  have hexecuted : applied = .executed () := by
    unfold PsbtSession.recordPsbtCreated at hr
    rw [PsbtSession.guard_eq_false_iff.mpr h, if_neg Bool.false_ne_true] at hr
    split at hr
    · exact absurd (Prod.mk.inj hr).1 (by simp)
    · exact (Except.ok.inj (Prod.mk.inj hr).1).symm
  rw [hexecuted] at hr
  obtain ⟨e, hx⟩ := PsbtSession.executes_of_apply (c := .recordPsbtCreated hash) hr
  obtain rfl : e = .psbtCreated hash := by
    cases hx.step
    rfl
  exact hx

/-- The finalization is recorded when there was none. -/
theorem executes_finalize (h : ∀ e ∈ s.log, e.isFinalized = false) {txid : Txid} {hash : PsbtHash}
    {sigs : List KeyFingerprint} {applied : Idempotent Txid}
    (hr : s.finalize txid hash sigs = (.ok applied, s')) :
    ∃ c e, Executes s c e s' ∧ e.isFinalized = true := by
  rcases PsbtSession.finalize_spec s txid hash sigs with ⟨e, hstep, he⟩ | ⟨hne, -⟩
  · obtain ⟨-, rfl⟩ := Prod.mk.inj (hr.symm.trans he)
    refine ⟨_, e, ⟨hstep, rfl, congrArg Prod.snd hr⟩, ?_⟩
    cases hstep
    rfl
  · have hguard := PsbtSession.guard_eq_false_iff.mpr h
    cases applied with
    | executed t => exact absurd (congrArg Prod.fst hr) (hne t)
    | alreadyApplied =>
      unfold PsbtSession.finalize at hr
      rw [hguard] at hr
      simp only [Bool.false_eq_true, if_false] at hr
      split at hr
      · exact absurd (Prod.mk.inj hr).1 (by simp)
      split at hr
      · exact absurd (Prod.mk.inj hr).1 (by simp)
      split at hr
      · exact absurd (Prod.mk.inj hr).1 (by simp)
      split at hr
      · exact absurd (Prod.mk.inj hr).1 (by simp)
      · exact absurd (Prod.mk.inj hr).1 (by simp)

theorem CreationWork.failed {e : JobsError}
    (h : creationCompletes (.error e) = true → (e.IsPermanent ∨ kind e) ∨ s.status ≠ .pending) :
    CreationWork kind s (.error e) where
  done _ hw := absurd hw (by simp)
  records := records_error
  gaveUp e' hw hc := by
    obtain rfl := Except.error.inj hw
    exact h hc

/-- What `run_psbt_creation` leaves to write back, whatever its provider answers. -/
theorem createPsbt_records (hs : Grammatical s) (wallets : Wallets) (blobs : BlobStore)
    (funding : FundingUtxoProvider) :
    Records PsbtSessionEvent.isPsbtCreated s
      (createPsbt X wallets blobs funding network s).1 := by
  intro hash s' hwork
  obtain ⟨hnone, applied, hr⟩ := Platform.recordPsbtCreated_of_persist hwork
  exact ⟨_, _, executes_recordPsbtCreated (hs.unsignedPsbtHash_eq_none_iff.mp hnone) hr, rfl⟩

theorem createPsbt_work (hs : Grammatical s) (wallets : Wallets) (blobs : BlobStore)
    {funding : FundingUtxoProvider} (hfunding : funding.Answers kind) :
    CreationWork kind s (createPsbt X wallets blobs funding network s).1 := by
  have hrecords := @createPsbt_records X network s hs wallets blobs funding
  have hout := createPsbt_outcome X network wallets blobs funding s
  generalize createPsbt X wallets blobs funding network s = out at hrecords hout ⊢
  cases hout with
  | existing hhash =>
    exact ⟨fun _ _ => PsbtSession.Created.ne_pending
      ⟨_, hs.loaded.hydrates.psbtCreated_mem hhash, rfl⟩, hrecords, fun _ h => absurd h (by simp)⟩
  | left hne => exact .failed fun _ => Or.inr hne
  | unfunded _ he => exact .failed fun _ => Or.inl (Or.inr (hfunding _ _ _ he))
  | @unbuilt w utxos descriptor e =>
    refine .failed fun hc => Or.inl (Or.inl ?_)
    cases e <;> first | exact trivial | exact absurd hc (by simp [creationCompletes])
  | built => exact ⟨fun _ h => absurd h (by simp), hrecords, fun _ h => absurd h (by simp)⟩
  | _ => exact .failed fun hc => absurd hc (by simp [creationCompletes])

theorem finalizeLoop_work {blobs : BlobStore} {unsigned combined : Psbt}
    {sigsUsed : List KeyFingerprint} {records : List SignatureRecord}
    (hnone : ∀ e ∈ s.log, e.isFinalized = false) :
    FinalizationWork s (finalizeLoop X blobs s unsigned combined sigsUsed records).1 := by
  have hout := finalizeLoop_outcome X blobs s unsigned records combined sigsUsed
  generalize finalizeLoop X blobs s unsigned combined sigsUsed records = out at hout ⊢
  cases hout with
  | failed hretried => exact .retried hretried
  | refused => exact .retried rfl
  | recorded hr =>
    refine ⟨fun _ h => absurd h (by simp), fun answer s' h => ?_, fun _ h => absurd h (by simp),
      fun _ _ _ h => absurd h (by simp)⟩
    obtain ⟨-, rfl⟩ := Work.persist.inj (Except.ok.inj h)
    exact executes_finalize hnone hr

theorem finalizeSession_work (hs : Grammatical s) (blobs : BlobStore) :
    FinalizationWork s (finalizeSession X blobs s).1 := by
  have hout := finalizeSession_outcome X blobs s
  generalize finalizeSession X blobs s = out at hout ⊢
  cases hout with
  | existing hf =>
    refine ⟨fun _ _ hready => ?_, fun _ _ h => absurd h (by simp), fun _ h => absurd h (by simp),
      fun _ _ _ h => absurd h (by simp)⟩
    have hno := hs.finalization_eq_none_iff.mpr fun e he => ((hs.of_collecting hready.1).2 e he).1
    exact absurd (hf.symm.trans hno) (by simp)
  | left hnone hne =>
    exact ⟨fun _ h => absurd h (by simp), records_error, fun _ _ _ hready => hne hready.1,
      fun _ _ _ _ => ⟨hnone, hne⟩⟩
  | unmet hunmet =>
    refine ⟨fun _ h => absurd h (by simp), records_error, fun _ _ _ hready => ?_,
      fun _ _ _ h => absurd h (by simp)⟩
    exact absurd hready.2 (by simpa [PsbtSession.thresholdMet, PsbtSession.signatureCount] using hunmet)
  | unbuilt => exact .retried rfl
  | unread he => exact .retried (loadPsbt_retried he)
  | looped hnone => exact finalizeLoop_work (hs.finalization_eq_none_iff.mp hnone)

end Outcomes

/-! ## What one task writes -/

namespace PsbtSessions

section Tasks

variable {sessions : PsbtSessions} {id : PsbtSessionId} {s : PsbtSession} {α : Type}

/-- Writing back what work on a snapshot left: nothing, or the event it recorded. -/
theorem persist_spec {p : PsbtSessionEvent → Bool} {work : Except JobsError (Work α)}
    (h : Snapshot sessions id s) (hrecords : Records p s work) :
    (∃ e, work = .error e ∧ sessions.persist work = (.error e, sessions)) ∨
    (∃ answer, work = .ok (.done answer) ∧ sessions.persist work = (.ok answer, sessions)) ∨
    (∃ e, sessions.persist work = (.error (.sessionModify e), sessions)) ∨
    ∃ answer e sessions', sessions.persist work = (.ok answer, sessions') ∧ p e = true ∧
      Writes sessions (some (id, e)) sessions' := by
  rcases work with e | (answer | ⟨answer, s'⟩)
  · exact Or.inl ⟨e, rfl, rfl⟩
  · exact Or.inr (Or.inl ⟨answer, rfl, rfl⟩)
  · refine Or.inr (Or.inr ?_)
    obtain ⟨c, e, hx, hp⟩ := hrecords answer s' rfl
    unfold persist
    dsimp only
    cases hu : sessions.update s' with
    | error m => exact Or.inl ⟨m, rfl⟩
    | ok sessions' => exact Or.inr ⟨answer, e, sessions', rfl, hp, h.writes hx hu⟩

/-- A command on what the row holds writes what it recorded. -/
theorem Row.writes (h : Row sessions id s) {c : PsbtSessionCommand} {sessions' : PsbtSessions}
    (hu : sessions.update (s.apply c).2 = .ok sessions') :
    ∃ w, Writes sessions w sessions' ∧ ∀ k e, w = some (k, e) → k = id ∧ Step s c e := by
  rcases PsbtSession.apply_spec s c with ⟨e, hstep, he⟩ | ⟨-, he⟩
  · have hx : Executes s c e (s.apply c).2 := ⟨hstep, by rw [he], rfl⟩
    refine ⟨_, .event h hx hu, fun k e' hw => ?_⟩
    obtain ⟨rfl, rfl⟩ := Prod.mk.inj (Option.some.inj hw)
    exact ⟨rfl, hstep⟩
  · have hfresh : s.events.fresh = [] := by
      rw [h.events_eq]
      rfl
    unfold PsbtSessions.update at hu
    rw [he, hfresh] at hu
    obtain rfl := Except.ok.inj hu
    exact ⟨none, .nothing, fun _ _ hw => absurd hw (by simp)⟩

end Tasks

end PsbtSessions

open PsbtSessions (Row Snapshot Grows Writes)

/-- The work of a submission: the merged document is stored, and its signature added. -/
theorem submitWork_eq_ok {X : Extern} {wallets : Wallets} {blobs blobs' : BlobStore}
    {s s' : PsbtSession} {user : UserId} {bytes : Bytes} {executed : Bool}
    (h : Coordination.submitWork X wallets blobs s user bytes = (.ok (executed, s'), blobs')) :
    ∃ fingerprint merged applied,
      Coordination.checkSubmission X wallets blobs s user bytes = .ok (fingerprint, merged) ∧
      s.addSignature fingerprint (PsbtHash.digestOf X (X.serialize merged)) = (.ok applied, s') ∧
      executed = applied.didExecute ∧ blobs' = (blobs.put X (X.serialize merged)).2 := by
  unfold Coordination.submitWork at h
  split at h
  · exact absurd (Prod.mk.inj h).1 (by simp)
  rename_i fingerprint merged hchecked
  dsimp only at h
  split at h
  · exact absurd (Prod.mk.inj h).1 (by simp)
  rename_i applied s'' hr
  obtain ⟨hanswer, hblobs⟩ := Prod.mk.inj h
  obtain ⟨hexecuted, rfl⟩ := Prod.mk.inj (Except.ok.inj hanswer)
  exact ⟨fingerprint, merged, applied, hchecked, hr, hexecuted.symm, hblobs.symm⟩

/-- What a submission leaves is the session it loaded, with one event more if it executed. -/
theorem executes_of_submitWork {X : Extern} {wallets : Wallets} {blobs blobs' : BlobStore}
    {s s' : PsbtSession} {user : UserId} {bytes : Bytes} {executed : Bool}
    (h : Coordination.submitWork X wallets blobs s user bytes = (.ok (executed, s'), blobs')) :
    s.unsignedPsbtHash ≠ none ∧ s'.id = s.id ∧
      (executed = true → ∃ c e, Executes s c e s') := by
  obtain ⟨fingerprint, merged, applied, hchecked, hr, rfl, -⟩ := submitWork_eq_ok h
  obtain ⟨-, hash, -, -, -, -, hhash, -⟩ := Platform.checkSubmission_eq_ok hchecked
  have hid := PsbtSession.apply_id s (.addSignature fingerprint
    (PsbtHash.digestOf X (X.serialize merged)))
  refine ⟨by rw [hhash]; simp, (congrArg PsbtSession.id (congrArg Prod.snd hr)).symm.trans hid,
    fun he => ?_⟩
  cases applied with
  | alreadyApplied => exact absurd he (by simp [Idempotent.didExecute])
  | executed u =>
    obtain ⟨e, hx⟩ := PsbtSession.executes_of_apply (c := .addSignature fingerprint _) hr
    exact ⟨_, e, hx⟩

/-! ## The invariant -/

/-- What a creation job holds, and what it found when it completed. -/
def creationContract (kind : JobsError → Prop) (sessions : PsbtSessions) :
    Contract PsbtSessionId PsbtSession (Except JobsError (Work PsbtHash))
      (Except JobsError PsbtHash) where
  spawned _ := True
  loaded id s := Snapshot sessions id s
  worked := CreationWork kind
  completed id answer := (∃ e, answer = .error e ∧ creationCompletes answer = true ∧
      (e.IsPermanent ∨ kind e)) ∨
    ∃ s, Row sessions id s ∧ s.status ≠ .pending

/-- What a finalization job holds, and what it found when it gave up. Its session has an unsigned
PSBT from the start. -/
def finalizationContract (sessions : PsbtSessions) :
    Contract PsbtSessionId PsbtSession (Except JobsError (Work Txid)) (Except JobsError Txid) where
  spawned id := ∃ s, Row sessions id s ∧ Created s.log
  loaded id s := Snapshot sessions id s ∧ Created s.log
  worked := FinalizationWork
  completed id answer := ∀ id' status expected,
    answer = .error (.unexpectedStatus id' status expected) → ∃ s, Row sessions id s ∧ Ended s.log

/-- What a submission holds. -/
def Submission.Inv (sessions : PsbtSessions) : Submission → Prop
  | .loaded _ _ s => Snapshot sessions s.id s
  | .checked executed s' => ∃ s, Snapshot sessions s'.id s ∧ Created s.log ∧
      (executed = true → ∃ c e, Executes s c e s')
  | .returned _ => True

section Growth

variable {kind : JobsError → Prop} {sessions sessions' : PsbtSessions}
variable (h : Grows sessions' sessions)
include h

theorem creationContract_weaker :
    (creationContract kind sessions').Weaker (creationContract kind sessions) where
  spawned _ := id
  loaded _ _ hs := hs.mono h
  worked _ _ := id
  completed _ _ hdone := hdone.imp_right fun hleft =>
    h.row_of_stable PsbtSession.stable_ne_pending hleft

theorem finalizationContract_weaker :
    (finalizationContract sessions').Weaker (finalizationContract sessions) where
  spawned _ hrow := h.row_of_stable PsbtSession.stable_created hrow
  loaded _ _ hs := ⟨hs.1.mono h, hs.2⟩
  worked _ _ := id
  completed _ _ hdone id' status expected he :=
    h.row_of_stable PsbtSession.stable_ended (hdone id' status expected he)

theorem Submission.Inv.mono {call : Submission} (hc : call.Inv sessions) : call.Inv sessions' := by
  cases call with
  | loaded user bytes s => exact PsbtSessions.Snapshot.mono hc h
  | checked executed s' =>
    obtain ⟨s, hs, hrest⟩ := hc
    exact ⟨s, hs.mono h, hrest⟩
  | returned answer => exact trivial

end Growth

/-- Writing back what a creation job did. -/
theorem CreationWork.persist {kind : JobsError → Prop} {sessions : PsbtSessions}
    {id : PsbtSessionId} {s : PsbtSession} {work : Except JobsError (Work PsbtHash)}
    (hwork : CreationWork kind s work)
    (hs : Snapshot sessions id s) :
    ∃ w, Writes sessions w (sessions.persist work).2 ∧
      (∀ k e, w = some (k, e) → k = id ∧ e.isPsbtCreated = true) ∧
      (creationCompletes (sessions.persist work).1 = true →
        (creationContract kind (sessions.persist work).2).completed id
          (sessions.persist work).1) := by
  have hleft : s.status ≠ .pending → ∃ s', Row sessions id s' ∧ s'.status ≠ .pending :=
    hs.row_of_stable PsbtSession.stable_ne_pending
  rcases PsbtSessions.persist_spec hs hwork.records with
    ⟨e, he, heq⟩ | ⟨hash, hdone, heq⟩ | ⟨e, heq⟩ | ⟨hash, e, sessions', heq, hcreated, hwrites⟩
  · rw [heq]
    refine ⟨none, .nothing, fun _ _ hw => absurd hw (by simp), fun hc => ?_⟩
    exact (hwork.gaveUp e he hc).imp (fun hp => ⟨e, rfl, hc, hp⟩) hleft
  · rw [heq]
    exact ⟨none, .nothing, fun _ _ hw => absurd hw (by simp),
      fun _ => Or.inr (hleft (hwork.done hash hdone))⟩
  · rw [heq]
    exact ⟨none, .nothing, fun _ _ hw => absurd hw (by simp),
      fun hc => absurd hc (by simp [creationCompletes])⟩
  · rw [heq]
    refine ⟨_, hwrites, fun k e' hw => ?_, fun _ => Or.inr ?_⟩
    · obtain ⟨rfl, rfl⟩ := Prod.mk.inj (Option.some.inj hw)
      exact ⟨rfl, hcreated⟩
    · obtain ⟨s', hrow, hnew⟩ := hwrites.row_written
      exact ⟨s', hrow, PsbtSession.Created.ne_pending ⟨e, hnew, hcreated⟩⟩

/-- Writing back what a finalization job did: it completes on a session that is ready only by
finalizing it. -/
theorem FinalizationWork.persist {sessions : PsbtSessions} {id : PsbtSessionId} {s : PsbtSession}
    {work : Except JobsError (Work Txid)} (hwork : FinalizationWork s work)
    (hs : Snapshot sessions id s) (hcreated : Created s.log) :
    ∃ w, Writes sessions w (sessions.persist work).2 ∧
      (∀ k e, w = some (k, e) → k = id ∧ e.isFinalized = true) ∧
      (finalizationCompletes (sessions.persist work).1 = true →
        (finalizationContract (sessions.persist work).2).completed id (sessions.persist work).1) ∧
      (s.Ready → (∀ e, w ≠ some (id, e)) →
        finalizationCompletes (sessions.persist work).1 = false) := by
  rcases PsbtSessions.persist_spec hs hwork.records with
    ⟨e, he, heq⟩ | ⟨txid, hdone, heq⟩ | ⟨e, heq⟩ | ⟨txid, e, sessions', heq, hfinal, hwrites⟩
  · rw [heq]
    refine ⟨none, .nothing, fun _ _ hw => absurd hw (by simp), fun _ id' status expected hmoved => ?_,
      fun hready _ => ?_⟩
    · obtain rfl := Except.error.inj hmoved
      obtain ⟨hnone, hne⟩ := hwork.moved id' status expected he
      exact hs.row_of_stable PsbtSession.stable_ended
        (PsbtSession.ended_of_ne_collecting hs.grammatical.admitted hcreated hne
          (hs.grammatical.finalization_eq_none_iff.mp hnone))
    · cases hc : finalizationCompletes (.error e) with
      | false => rfl
      | true => exact absurd hready (hwork.gaveUp e he hc)
  · rw [heq]
    exact ⟨none, .nothing, fun _ _ hw => absurd hw (by simp),
      fun _ _ _ _ hmoved => absurd hmoved (by simp),
      fun hready _ => absurd hready (hwork.done txid hdone)⟩
  · rw [heq]
    exact ⟨none, .nothing, fun _ _ hw => absurd hw (by simp),
      fun _ _ _ _ hmoved => absurd hmoved (by simp), fun _ _ => rfl⟩
  · rw [heq]
    refine ⟨_, hwrites, fun k e' hw => ?_, fun _ _ _ _ hmoved => absurd hmoved (by simp),
      fun _ hno => absurd rfl (hno e)⟩
    obtain ⟨rfl, rfl⟩ := Prod.mk.inj (Option.some.inj hw)
    exact ⟨rfl, hfinal⟩

namespace Cluster

/-- What holds after every interleaving in which the funding providers answer errors of a kind. -/
structure Inv (X : Extern) (kind : JobsError → Prop) (c : Cluster) : Prop where
  wallets : c.platform.wallets.Sound X
  sessions : c.platform.sessions.Sound
  submissions : ∀ call ∈ c.submissions, call.Inv c.platform.sessions
  creations : ∀ job ∈ c.creations, (creationContract kind c.platform.sessions).Holds job
  finalizations : ∀ job ∈ c.finalizations, (finalizationContract c.platform.sessions).Holds job
  /-- Every session has a creation job. -/
  created : ∀ id s, Row c.platform.sessions id s → id ∈ c.creations.map Job.key
  /-- Every session that is ready has a finalization job that will see it. -/
  ready : ∀ id s, Row c.platform.sessions id s → s.Ready →
    ∃ job ∈ c.finalizations, job.key = id ∧ Awaits Ready job

theorem inv_empty (X : Extern) (kind : JobsError → Prop) : Inv X kind empty where
  wallets := Wallets.sound_empty
  sessions := PsbtSessions.sound_empty
  submissions _ h := absurd h List.not_mem_nil
  creations _ h := absurd h List.not_mem_nil
  finalizations _ h := absurd h List.not_mem_nil
  created id s hrow := absurd hrow.log_eq (by simp [empty, Platform.empty])
  ready id s hrow := absurd hrow.log_eq (by simp [empty, Platform.empty])

variable {X : Extern} {network : Network} {kind : JobsError → Prop} {c : Cluster}

/-- **One write keeps the invariant** when the jobs keep theirs, a session that is proposed has a
creation job, and a signature that is recorded has a finalization job. -/
theorem Inv.write (h : Inv X kind c) {c' : Cluster} {w : Option (PsbtSessionId × PsbtSessionEvent)}
    (hw : Writes c.platform.sessions w c'.platform.sessions)
    (hwallets : c'.platform.wallets = c.platform.wallets)
    (hsubmissions : ∀ call ∈ c'.submissions, call ∈ c.submissions ∨ call.Inv c'.platform.sessions)
    (hcreations : ∀ job ∈ c'.creations, (creationContract kind c'.platform.sessions).Holds job)
    (hfinalizations : ∀ job ∈ c'.finalizations,
      (finalizationContract c'.platform.sessions).Holds job)
    (hcreated : ∀ id, id ∈ c.creations.map Job.key ∨
      (∃ e, w = some (id, e) ∧ ¬ ∃ s, Row c.platform.sessions id s) →
      id ∈ c'.creations.map Job.key)
    (hready : ∀ id, (∀ e, w ≠ some (id, e)) →
      (∃ job ∈ c.finalizations, job.key = id ∧ Awaits Ready job) →
      ∃ job ∈ c'.finalizations, job.key = id ∧ Awaits Ready job)
    (hsigned : ∀ id fp hash, w = some (id, .signatureAdded fp hash) →
      ∃ job ∈ c'.finalizations, job.key = id ∧ Awaits Ready job) : Inv X kind c' where
  wallets := hwallets ▸ h.wallets
  sessions := hw.sound h.sessions
  submissions call hcall := (hsubmissions call hcall).elim
    (fun hold => (h.submissions call hold).mono hw.grows) id
  creations := hcreations
  finalizations := hfinalizations
  created id s hrow := by
    by_cases hold : ∃ s, Row c.platform.sessions id s
    · obtain ⟨s', hrow'⟩ := hold
      exact hcreated id (Or.inl (h.created id s' hrow'))
    · rcases hw.row hrow with ⟨hrow', -⟩ | ⟨n, hw', -⟩ | ⟨s', -, -, -, hrow', -⟩
      · exact absurd ⟨s, hrow'⟩ hold
      · exact hcreated id (Or.inr ⟨_, hw', hold⟩)
      · exact absurd ⟨s', hrow'⟩ hold
  ready id s hrow hs := by
    rcases hw.ready hrow hs with ⟨hrow', hno⟩ | ⟨fp, hash, hw'⟩
    · exact hready id hno (h.ready id s hrow' hs)
    · exact hsigned id fp hash hw'

/-! ## Steps that write no session -/

theorem onWallet_sessions {p : Platform} {command : Command} (h : command.onWallet = true) :
    (p.exec X network command).2.sessions = p.sessions := by
  cases command with
  | registerWallet | submitKeystore | removeKeystore | cancelWallet => rfl
  | proposeSpend | submitSignedPsbt | runPsbtCreation | runFinalization =>
    exact absurd h (by simp [Command.onWallet])

theorem Inv.wallet (h : Inv X kind c) {command : Command} (hc : command.onWallet = true) :
    Inv X kind { c with platform := (c.platform.exec X network command).2 } := by
  have hsessions := @onWallet_sessions X network c.platform command hc
  have hwallets := (Platform.exec_effect X network c.platform command).wallets_sound h.wallets
  generalize (c.platform.exec X network command).2 = p at *
  obtain ⟨wallets, sessions, blobs⟩ := p
  obtain rfl : sessions = c.platform.sessions := hsessions
  exact ⟨hwallets, h.sessions, h.submissions, h.creations, h.finalizations, h.created, h.ready⟩

theorem Inv.submit (h : Inv X kind c) (id : PsbtSessionId) (user : UserId) (bytes : Bytes) :
    Inv X kind (c.submit id user bytes) := by
  have hcall : ∀ call : Submission, call.Inv c.platform.sessions →
      Inv X kind { c with submissions := c.submissions ++ [call] } := by
    intro call hnew
    refine ⟨h.wallets, h.sessions, fun call' hcall => ?_, h.creations, h.finalizations, h.created,
      h.ready⟩
    rcases List.mem_append.mp hcall with hcall | hcall
    · exact h.submissions call' hcall
    · obtain rfl := List.mem_singleton.mp hcall
      exact hnew
  unfold Cluster.submit
  split
  · exact hcall _ trivial
  · rename_i s hs
    have hrow := h.sessions.row hs
    obtain rfl := hrow.id_eq
    exact hcall _ hrow.snapshot

theorem Inv.setSubmission (h : Inv X kind c) (blobs : BlobStore) (i : Nat) {call : Submission}
    (hcall : call.Inv c.platform.sessions) :
    Inv X kind { c with platform := { c.platform with blobs }, submissions := c.submissions.set i call } where
  wallets := h.wallets
  sessions := h.sessions
  submissions call' hcall' := (List.mem_or_eq_of_mem_set hcall').elim (h.submissions call')
    fun heq => heq ▸ hcall
  creations := h.creations
  finalizations := h.finalizations
  created := h.created
  ready := h.ready

theorem Inv.check (h : Inv X kind c) (i : Nat) : Inv X kind (c.check X i) := by
  unfold Cluster.check
  split
  · rename_i user bytes s hcall
    have hs : Snapshot c.platform.sessions s.id s := h.submissions _ (List.mem_of_getElem? hcall)
    split
    · exact h.setSubmission _ i trivial
    · rename_i executed s' blobs hwork
      obtain ⟨hhash, hid, hx⟩ := executes_of_submitWork hwork
      refine h.setSubmission _ i ⟨s, hid ▸ hs, ?_, hx⟩
      obtain ⟨hash, hhash⟩ := Option.ne_none_iff_exists'.mp hhash
      exact ⟨_, hs.grammatical.loaded.hydrates.psbtCreated_mem hhash, rfl⟩
  · exact h

/-- What a job loads when it starts. -/
theorem Inv.row_of_load (h : Inv X kind c) {id : PsbtSessionId} {s : PsbtSession}
    (hs : c.load id = some s) : Row c.platform.sessions id s := by
  unfold Cluster.load at hs
  cases hfound : c.platform.sessions.findById id with
  | error e =>
    rw [hfound] at hs
    exact absurd hs (by simp [Except.toOption])
  | ok s' =>
    rw [hfound] at hs
    obtain rfl := Option.some.inj hs
    exact h.sessions.row hfound

theorem Inv.startCreation (h : Inv X kind c) (i : Nat) :
    Inv X kind { c with creations := start c.creations c.load i } where
  wallets := h.wallets
  sessions := h.sessions
  submissions := h.submissions
  creations := Contract.holds_start h.creations fun _ _ _ hs => (h.row_of_load hs).snapshot
  finalizations := h.finalizations
  created id s hrow := by
    rw [map_key_start]
    exact h.created id s hrow
  ready := h.ready

theorem Inv.startFinalization (h : Inv X kind c) (i : Nat) :
    Inv X kind { c with finalizations := start c.finalizations c.load i } where
  wallets := h.wallets
  sessions := h.sessions
  submissions := h.submissions
  creations := h.creations
  finalizations := Contract.holds_start h.finalizations fun _ _ hspawned hs => by
    obtain ⟨s', hrow, hcreated⟩ := hspawned
    obtain rfl := Except.ok.inj (hrow.found.symm.trans (h.row_of_load hs).found)
    exact ⟨hrow.snapshot, hcreated⟩
  created := h.created
  ready id s hrow hs := exists_awaits_start (h.ready id s hrow hs) fun s' hs' => by
    obtain rfl := Except.ok.inj (hrow.found.symm.trans (h.row_of_load hs').found)
    exact hs

theorem Inv.createPsbt (h : Inv X kind c) (i : Nat) {funding : FundingUtxoProvider}
    (hfunding : funding.Answers kind) :
    Inv X kind (c.act X network (.createPsbt i funding)) where
  wallets := h.wallets
  sessions := h.sessions
  submissions := h.submissions
  creations := Contract.holds_perform h.creations fun _ _ hs =>
    createPsbt_work hs.grammatical _ _ hfunding
  finalizations := h.finalizations
  created id s hrow := (map_key_perform c.creations i c.platform.blobs _) ▸ h.created id s hrow
  ready := h.ready

theorem Inv.finalizeSession (h : Inv X kind c) (i : Nat) :
    Inv X kind (c.act X network (.finalizeSession i)) where
  wallets := h.wallets
  sessions := h.sessions
  submissions := h.submissions
  creations := h.creations
  finalizations := Contract.holds_perform h.finalizations fun _ _ hs =>
    finalizeSession_work hs.1.grammatical _
  created := h.created
  ready id s hrow hs := exists_awaits_perform (h.ready id s hrow hs)

/-! ## Steps that write one -/

theorem Inv.mono_creations (h : Inv X kind c) {sessions' : PsbtSessions}
    (hg : Grows sessions' c.platform.sessions) :
    ∀ job ∈ c.creations, (creationContract kind sessions').Holds job :=
  fun job hjob => (h.creations job hjob).mono (creationContract_weaker hg)

theorem Inv.mono_finalizations (h : Inv X kind c) {sessions' : PsbtSessions}
    (hg : Grows sessions' c.platform.sessions) :
    ∀ job ∈ c.finalizations, (finalizationContract sessions').Holds job :=
  fun job hjob => (h.finalizations job hjob).mono (finalizationContract_weaker hg)

theorem Inv.proposeSpend (h : Inv X kind c) (id : PsbtSessionId) (walletId : WalletId)
    (proposedBy : UserId) (spend : SpendSpec) :
    Inv X kind (c.proposeSpend X id walletId proposedBy spend) := by
  unfold Cluster.proposeSpend
  split
  · exact h
  · rename_i s sessions hproposed
    obtain ⟨w, n, hw, hn, hc⟩ := Platform.proposeSpend_eq_ok hproposed
    obtain ⟨rfl, -, -⟩ := PsbtSessions.create_spec hc
    have hwrites := Writes.proposal
      (PsbtSession.loaded_proposed (h.wallets.row hw).inv hn) hc
    refine h.write hwrites rfl (fun _ => Or.inl)
      (Contract.holds_spawn (h.mono_creations hwrites.grows) trivial)
      (h.mono_finalizations hwrites.grows) (fun id' hid => ?_) (fun _ _ hjob => hjob)
      fun _ _ _ hsigned => absurd (Option.some.inj hsigned) (by simp)
    rw [map_key_spawn, List.mem_append, List.mem_singleton]
    rcases hid with hid | ⟨e, he, -⟩
    · exact Or.inl hid
    · exact Or.inr (Prod.mk.inj (Option.some.inj he)).1.symm

/-- **The transaction of a submission**: whatever it records, it spawns a job that will see it. -/
theorem Inv.commit (h : Inv X kind c) (i : Nat) : Inv X kind (c.commit i) := by
  unfold Cluster.commit
  split
  · rename_i executed s' hcall
    obtain ⟨s, hs, hcreated, hx⟩ := h.submissions _ (List.mem_of_getElem? hcall)
    have hspawned := hs.row_of_stable PsbtSession.stable_created hcreated
    split
    · rename_i hexecuted
      obtain ⟨command, e, hx⟩ := hx hexecuted
      split
      · exact h.setSubmission c.platform.blobs i trivial
      · rename_i sessions hu
        have hwrites := hs.writes hx hu
        refine h.write hwrites rfl (fun call hcall' => ?_) (h.mono_creations hwrites.grows)
          (Contract.holds_spawn (h.mono_finalizations hwrites.grows)
            (hwrites.grows.row_of_stable PsbtSession.stable_created hspawned))
          (fun id hid => hid.elim (fun hold => hold) fun hnew => ?_)
          (fun _ _ hjob => exists_spawn hjob _) fun id fp hash hsigned => ?_
        · refine (List.mem_or_eq_of_mem_set hcall').imp_right fun heq => ?_
          rw [heq]
          exact trivial
        · obtain ⟨e', he', hno⟩ := hnew
          obtain ⟨rfl, -⟩ := Prod.mk.inj (Option.some.inj he')
          obtain ⟨s'', hrow, -⟩ := hspawned
          exact absurd ⟨s'', hrow⟩ hno
        · obtain ⟨rfl, -⟩ := Prod.mk.inj (Option.some.inj hsigned)
          exact ⟨_, mem_spawn _ _, rfl, Or.inl rfl⟩
    · have h' := @Inv.setSubmission X kind c h c.platform.blobs i (.returned (.ok s')) trivial
      exact ⟨h'.wallets, h'.sessions, h'.submissions, h'.creations,
        Contract.holds_spawn h'.finalizations hspawned, h'.created,
        fun id s'' hrow hready => exists_spawn (h'.ready id s'' hrow hready) _⟩
  · exact h

theorem Inv.finishCreation (h : Inv X kind c) (i : Nat) :
    Inv X kind (c.act X network (.finishCreation i)) := by
  simp only [Cluster.act]
  have hkeys := map_key_finish c.creations i c.platform.sessions creationCompletes
    c.platform.sessions.persist
  rcases finish_spec c.creations i c.platform.sessions creationCompletes
      c.platform.sessions.persist with heq | ⟨id, s, work, hjob, heq⟩
  · rw [heq]
    exact h
  · obtain ⟨-, hs, hwork⟩ := h.creations _ (List.mem_of_getElem? hjob)
    obtain ⟨w, hwrites, hkind, hdone⟩ := (hwork work rfl).persist hs
    have hsessions : (finish c.creations i c.platform.sessions creationCompletes
        c.platform.sessions.persist).2 = (c.platform.sessions.persist work).2 := by rw [heq]
    rw [← hsessions] at hwrites hdone
    refine h.write hwrites rfl (fun _ => Or.inl)
      (Contract.holds_finish h.creations (creationContract_weaker hwrites.grows) ?_)
      (h.mono_finalizations hwrites.grows) (fun id' hid => ?_) (fun _ _ hjob' => hjob')
      fun id' fp hash hw => absurd (hkind _ _ hw).2 (by simp [PsbtSessionEvent.isPsbtCreated])
    · intro id' s' work' hjob' _ _ hcompletes
      obtain ⟨rfl, hstate⟩ := Job.mk.inj (Option.some.inj (hjob.symm.trans hjob'))
      obtain ⟨-, hw⟩ := JobState.running.inj hstate
      obtain rfl := Option.some.inj hw
      exact hdone hcompletes
    · rw [hkeys]
      refine hid.elim (fun hold => hold) fun hnew => ?_
      obtain ⟨e, hw, hno⟩ := hnew
      obtain ⟨rfl, -⟩ := hkind _ _ hw
      obtain ⟨s', -, hrow, -⟩ := hs.current
      exact absurd ⟨s', hrow⟩ hno

theorem Inv.finishFinalization (h : Inv X kind c) (i : Nat) :
    Inv X kind (c.act X network (.finishFinalization i)) := by
  simp only [Cluster.act]
  rcases finish_spec c.finalizations i c.platform.sessions finalizationCompletes
      c.platform.sessions.persist with heq | ⟨id, s, work, hjob, heq⟩
  · rw [heq]
    exact h
  · obtain ⟨-, ⟨hs, hcreated⟩, hwork⟩ := h.finalizations _ (List.mem_of_getElem? hjob)
    obtain ⟨w, hwrites, hkind, hdone, hretry⟩ := (hwork work rfl).persist hs hcreated
    have hsessions : (finish c.finalizations i c.platform.sessions finalizationCompletes
        c.platform.sessions.persist).2 = (c.platform.sessions.persist work).2 := by rw [heq]
    rw [← hsessions] at hwrites hdone
    refine h.write hwrites rfl (fun _ => Or.inl) (h.mono_creations hwrites.grows)
      (Contract.holds_finish h.finalizations (finalizationContract_weaker hwrites.grows) ?_)
      (fun id' hid => hid.elim (fun hold => hold) fun hnew => ?_)
      (fun id' hno hawaits => exists_awaits_finish hawaits fun s' work' hjob' hready => ?_)
      fun id' fp hash hw => absurd (hkind _ _ hw).2 (by simp [PsbtSessionEvent.isFinalized])
    · intro id' s' work' hjob' _ _ hcompletes
      obtain ⟨rfl, hstate⟩ := Job.mk.inj (Option.some.inj (hjob.symm.trans hjob'))
      obtain ⟨-, hw⟩ := JobState.running.inj hstate
      obtain rfl := Option.some.inj hw
      exact hdone hcompletes
    · obtain ⟨e, hw, hno⟩ := hnew
      obtain ⟨rfl, -⟩ := hkind _ _ hw
      obtain ⟨s', -, hrow, -⟩ := hs.current
      exact absurd ⟨s', hrow⟩ hno
    · obtain ⟨rfl, hstate⟩ := Job.mk.inj (Option.some.inj (hjob.symm.trans hjob'))
      obtain ⟨rfl, hw⟩ := JobState.running.inj hstate
      obtain rfl := Option.some.inj hw
      exact hretry hready hno

/-- A writer that records no signature needs no job. -/
theorem Inv.update (h : Inv X kind c) {id : PsbtSessionId} {s : PsbtSession} {command : PsbtSessionCommand}
    {sessions : PsbtSessions} (hs : c.platform.sessions.findById id = .ok s)
    (hu : c.platform.sessions.update (s.apply command).2 = .ok sessions)
    (hkind : ∀ e, Step s command e → ∀ fp hash, e ≠ .signatureAdded fp hash) :
    Inv X kind { c with platform := { c.platform with sessions } } := by
  have hrow := h.sessions.row hs
  obtain ⟨w, hwrites, hw⟩ := hrow.writes hu
  refine h.write hwrites rfl (fun _ => Or.inl) (h.mono_creations hwrites.grows)
    (h.mono_finalizations hwrites.grows) (fun id' hid => hid.elim (fun hold => hold) fun hnew => ?_)
    (fun _ _ hjob => hjob) fun id' fp hash hsigned => ?_
  · obtain ⟨e, he, hno⟩ := hnew
    obtain ⟨rfl, -⟩ := hw _ _ he
    exact absurd ⟨s, hrow⟩ hno
  · obtain ⟨-, hstep⟩ := hw _ _ hsigned
    exact absurd rfl (hkind _ hstep fp hash)

theorem Inv.apply (h : Inv X kind c) (id : PsbtSessionId) {command : PsbtSessionCommand}
    (hkind : ∀ s e, Step s command e → ∀ fp hash, e ≠ .signatureAdded fp hash) :
    Inv X kind (c.apply id command) := by
  unfold Cluster.apply
  split
  · exact h
  · rename_i s hs
    split
    · exact h
    · rename_i sessions hu
      exact h.update hs hu (hkind s)

theorem Inv.observe (h : Inv X kind c) (id : PsbtSessionId) (observation : ChainObservation) :
    Inv X kind (c.act X network (.observe id observation)) := by
  simp only [Cluster.act]
  unfold applyChainObservation
  split
  · exact h
  · rename_i s hs
    split
    · exact h
    · rename_i applied s' happly
      split
      · unfold PsbtSessions.persist
        dsimp only
        cases hu : c.platform.sessions.update s' with
        | error e => exact h
        | ok sessions =>
          refine @Inv.update X kind c h id s observation.command sessions hs (by rw [happly]; exact hu) ?_
          intro e hstep fp hash he
          subst he
          cases observation <;> cases hstep
      · exact h

/-- **Every step keeps the invariant.** -/
theorem Inv.act (h : Inv X kind c) {a : Action} (ha : a.Answers kind) :
    Inv X kind (c.act X network a) := by
  cases a with
  | wallet command =>
    simp only [Cluster.act]
    split
    · rename_i hc
      exact h.wallet hc
    · exact h
  | proposeSpend id walletId proposedBy spend => exact h.proposeSpend id walletId proposedBy spend
  | submit id user bytes => exact h.submit id user bytes
  | check i => exact h.check i
  | commit i => exact h.commit i
  | startCreation i => exact h.startCreation i
  | createPsbt i funding => exact h.createPsbt i ha
  | finishCreation i => exact h.finishCreation i
  | startFinalization i => exact h.startFinalization i
  | finalizeSession i => exact h.finalizeSession i
  | finishFinalization i => exact h.finishFinalization i
  | observe id observation => exact h.observe id observation
  | cancel id cancelledBy reason =>
    refine h.apply id fun s e hstep fp hash he => ?_
    subst he
    cases hstep

/-- **Every interleaving keeps the invariant.** -/
theorem Inv.run (h : Inv X kind c) {actions : List Action} (hs : ∀ a ∈ actions, a.Answers kind) :
    Inv X kind (c.run X network actions) := by
  induction actions generalizing c with
  | nil => exact h
  | cons a actions ih =>
    obtain ⟨ha, hs⟩ := List.forall_mem_cons.mp hs
    exact ih (h.act ha) hs

theorem inv_run (X : Extern) (network : Network) {actions : List Action}
    (hs : ∀ a ∈ actions, a.Answers kind) : Inv X kind (empty.run X network actions) :=
  (inv_empty X kind).run hs

/-! ## No session is stranded -/

theorem finalization_done_act {job : FinalizationJob} {answer : Except JobsError Txid}
    (hc : job.state = .complete answer) (hjob : job ∈ c.finalizations) (a : Action) :
    job ∈ (c.act X network a).finalizations := by
  cases a with
  | wallet command =>
    simp only [Cluster.act]
    split <;> exact hjob
  | proposeSpend =>
    simp only [Cluster.act, Cluster.proposeSpend]
    split <;> exact hjob
  | submit =>
    simp only [Cluster.act, Cluster.submit]
    split <;> exact hjob
  | check =>
    simp only [Cluster.act, Cluster.check]
    split
    · split <;> exact hjob
    · exact hjob
  | commit =>
    simp only [Cluster.act, Cluster.commit]
    split
    · split
      · split
        · exact hjob
        · exact List.mem_append_left _ hjob
      · exact List.mem_append_left _ hjob
    · exact hjob
  | startCreation | createPsbt | finishCreation | observe => exact hjob
  | startFinalization i => exact mem_start_of_complete hc hjob _ i
  | finalizeSession i => exact mem_perform_of_complete hc hjob i _ _
  | finishFinalization i => exact mem_finish_of_complete hc hjob i _ _ _
  | cancel =>
    simp only [Cluster.act, Cluster.apply]
    split
    · exact hjob
    · split <;> exact hjob

theorem finalization_done_run {job : FinalizationJob} {answer : Except JobsError Txid}
    (hc : job.state = .complete answer) (hjob : job ∈ c.finalizations) (actions : List Action) :
    job ∈ (c.run X network actions).finalizations := by
  induction actions generalizing c with
  | nil => exact hjob
  | cons a actions ih => exact ih (finalization_done_act hc hjob a)

theorem run_append (c : Cluster) (actions later : List Action) :
    c.run X network (actions ++ later) = (c.run X network actions).run X network later :=
  List.foldl_append

end Cluster

open Cluster in
/-- **No session is stranded.** After any interleaving of submissions, jobs and other writers, for
every persisted session:

* while it collects with at least `threshold` signatures, some finalization job for it is queued,
  or runs on a snapshot that already has them;
* while it is pending, it has a creation job, and one that is complete failed for good (with
  providers that answer only `Funding` errors);
* once a finalization job gave up on its status, it is never finalized. -/
theorem no_stranded_session (X : Extern) (network : Network) (actions : List Action)
    (id : PsbtSessionId) (s : PsbtSession)
    (hs : (empty.run X network actions).platform.sessions.findById id = .ok s) :
    (s.status = .collecting → s.threshold.toNat ≤ s.signatureCount →
      ∃ job ∈ (empty.run X network actions).finalizations, job.key = id ∧
        (job.state = .queued ∨ ∃ snapshot work, job.state = .running snapshot work ∧
          snapshot.status = .collecting ∧
          snapshot.threshold.toNat ≤ snapshot.signatureCount)) ∧
    (s.status = .pending →
      (∃ job ∈ (empty.run X network actions).creations, job.key = id) ∧
      ((∀ a ∈ actions, a.Answers JobsError.IsFunding) →
        ∀ job ∈ (empty.run X network actions).creations, job.key = id →
          ∀ answer, job.state = .complete answer → ∃ e, answer = .error e ∧ e.IsPermanent)) ∧
    ∀ job ∈ (empty.run X network actions).finalizations, job.key = id →
      ∀ id' status expected,
        job.state = .complete (.error (.unexpectedStatus id' status expected)) →
        ∀ later s', (empty.run X network (actions ++ later)).platform.sessions.findById id = .ok s' →
          s'.status ≠ .finalized ∧ ∀ e ∈ s'.log, e.isFinalized = false := by
  have h := inv_run X network fun a (_ : a ∈ actions) => a.answers_any
  have hrow := h.sessions.row hs
  refine ⟨fun hstatus henough => h.ready id s hrow ⟨hstatus, henough⟩, fun hpending =>
    ⟨?_, fun hfunding job hjob hkey answer hanswer => ?_⟩,
    fun job hjob hkey id' status expected hdone later s' hs' => ?_⟩
  · obtain ⟨job, hjob, hkey⟩ := List.mem_map.mp (h.created id s hrow)
    exact ⟨job, hjob, hkey⟩
  · obtain ⟨-, hcompleted⟩ := (inv_run X network hfunding).creations job hjob
    rw [hanswer, hkey] at hcompleted
    rcases hcompleted with ⟨e, rfl, hc, hpermanent | ⟨reason, rfl⟩⟩ | ⟨s', hrow', hleft⟩
    · exact ⟨e, rfl, hpermanent⟩
    · exact absurd hc (by simp [creationCompletes])
    · obtain rfl := Except.ok.inj (hrow.found.symm.trans hrow'.found)
      exact absurd hpending hleft
  · rw [run_append] at hs'
    have hlater := @Inv.run X network _ _ h later fun a _ => a.answers_any
    have hrow' := hlater.sessions.row hs'
    obtain ⟨-, hcompleted⟩ := hlater.finalizations job (finalization_done_run hdone hjob later)
    rw [hdone, hkey] at hcompleted
    obtain ⟨s'', hrow'', -, hno⟩ := hcompleted id' status expected rfl
    obtain rfl := Except.ok.inj (hrow'.found.symm.trans hrow''.found)
    exact ⟨PsbtSession.ne_finalized_of_log hno, hno⟩

namespace Extern.Sample

/-- The round of a one-of-one wallet, step by step, with its signature submitted twice at once. -/
def soloSchedule : List Action :=
  [.wallet (.registerWallet ⟨0⟩ 1 [⟨0⟩]), .wallet (.submitKeystore ⟨0⟩ ⟨0⟩ (key 1)),
    .proposeSpend ⟨0⟩ ⟨0⟩ ⟨0⟩ PsbtSession.soloSpend, .startCreation 0,
    .createPsbt 0 fun _ _ => .ok [coin 1 [10]], .finishCreation 0, .submit ⟨0⟩ ⟨0⟩ [1],
    .submit ⟨0⟩ ⟨0⟩ [1], .check 0, .check 1, .commit 0, .commit 1]

end Extern.Sample

open Extern.Sample in
theorem no_stranded_session_solo :
    ∃ job ∈ (Cluster.empty.run (.sample [soloUnsigned, soloSigned true]) .bitcoin
      soloSchedule).finalizations, job.key = ⟨0⟩ ∧
        (job.state = .queued ∨ ∃ snapshot work, job.state = .running snapshot work ∧
          snapshot.status = .collecting ∧
          snapshot.threshold.toNat ≤ snapshot.signatureCount) :=
  (no_stranded_session (.sample [soloUnsigned, soloSigned true]) .bitcoin soloSchedule ⟨0⟩
    soloCollected (by decide +kernel)).1 (by decide +kernel) (by decide +kernel)

end Kota
