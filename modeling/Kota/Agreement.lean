import Kota.Traffic

/-!
# Sessions agree with their wallets

A session copies the policy of a wallet that was read without a lock. What makes the copy good for
ever is that an active wallet is frozen.

* `Wallets.Held` is what is left of a loaded wallet while other calls write: its log is the
  beginning of the row's. **`Held.row_of_active`**: of an active one, it is all of it.
* `Agrees` says of a session that its wallet is active and its policy is that wallet's.
* `Inv` holds after every interleaving of calls: the tables are sound, every session agrees, every
  task holds what it loaded, none panicked, and none failed the way an agreeing session excludes.
* **`sessions_agree`** reads the invariant off at every later point of a run.
-/

namespace Kota

open EventLog

/-! ## Loaded wallets -/

namespace Wallets

variable {X : Extern} {wallets wallets' : Wallets} {id : WalletId} {w : Wallet}

/-- Every log is still there, and may have grown. -/
def Grows (wallets' wallets : Wallets) : Prop :=
  ∀ id log, wallets.find? id = some log → ∃ es, wallets'.find? id = some (log ++ es)

/-- `w` was loaded from the row under `id`, now or before. -/
structure Held (X : Extern) (wallets : Wallets) (id : WalletId) (w : Wallet) : Prop where
  id_eq : w.id = id
  events_eq : w.events = .load id w.log
  inv : Wallet.Inv X w
  replays : w.Replays
  current : ∃ es, wallets.find? id = some (w.log ++ es)

theorem Grows.refl (wallets : Wallets) : Grows wallets wallets :=
  fun _ log h => ⟨[], by rw [h, List.append_nil]⟩

theorem Grows.trans {wallets'' : Wallets} (h' : Grows wallets'' wallets')
    (h : Grows wallets' wallets) : Grows wallets'' wallets := by
  intro id log hlog
  obtain ⟨es, hes⟩ := h id log hlog
  obtain ⟨es', hes'⟩ := h' id _ hes
  exact ⟨es ++ es', by rw [hes', List.append_assoc]⟩

theorem Row.held (h : Row X wallets id w) : Held X wallets id w :=
  ⟨h.id_eq, h.events_eq, h.inv, h.replays, [], by rw [h.log_eq, List.append_nil]⟩

theorem Held.mono (h : Held X wallets id w) (hg : Grows wallets' wallets) :
    Held X wallets' id w := by
  obtain ⟨es, hes⟩ := h.current
  obtain ⟨es', hes'⟩ := hg id _ hes
  exact ⟨h.id_eq, h.events_eq, h.inv, h.replays, es ++ es', by rw [hes', List.append_assoc]⟩

/-- A held wallet whose log did not grow is what the table loads. -/
theorem Held.row (h : Held X wallets id w) (hlog : wallets.find? id = some w.log) :
    Row X wallets id w := by
  refine ⟨findById_eq_ok_iff.mpr ⟨_, hlog, ?_⟩, hlog, h.id_eq, h.events_eq, h.inv, h.replays⟩
  rw [← h.events_eq, h.replays _ rfl]

/-- **An active wallet is all there is**: nothing was recorded since it was loaded. -/
theorem Held.row_of_active (h : Held X wallets id w) (hs : wallets.Sound X)
    (hactive : w.status = .active) : Row X wallets id w := by
  obtain ⟨es, hes⟩ := h.current
  refine h.row ?_
  obtain ⟨w', hrow⟩ := hs id _ hes
  have hlog : w'.log = w.log ++ es := Option.some.inj (hrow.log_eq.symm.trans hes)
  rcases List.eq_nil_or_concat es with rfl | ⟨es', e, rfl⟩
  · rw [hes, List.append_nil]
  · -- the terminal event of `w` would not be the last one of the row
    have hcollecting : w.status = .collectingKeystores := by
      refine statusOf_eq_collecting_iff.mpr fun x hx => hrow.inv.terminal x ?_
      rw [hlog, List.concat_eq_append, ← List.append_assoc, List.dropLast_concat]
      exact List.mem_append_left _ hx
    rw [hactive] at hcollecting
    exact absurd hcollecting (by simp)

/-- **Optimistic concurrency**: what a command recorded is written back only when the copy it was
computed on is what the row holds. -/
theorem Held.row_of_update (h : Held X wallets id w) {c : WalletCommand}
    (hexecuted : (w.apply X c).1 = .ok (.executed ()))
    (hu : wallets.update (w.apply X c).2 = .ok wallets') : Row X wallets id w := by
  have hid : (w.apply X c).2.id = id := (Wallet.apply_id w c).trans h.id_eq
  have hpersisted : (w.apply X c).2.events.persisted = w.log := by
    rw [Wallet.apply_persisted, h.events_eq]
    rfl
  rcases update_spec hu with ⟨hfresh, -⟩ | ⟨log, hlog, hlen, -⟩
  · -- an executed command records something
    rcases Wallet.apply_spec (X := X) w c with ⟨es, hstep, he⟩ | ⟨hne, -⟩
    · have hlog : (w.record es).log = w.log := by
        rw [he] at hfresh hpersisted
        show (w.record es).events.persisted ++ (w.record es).events.fresh = w.log
        rw [hpersisted, hfresh, List.append_nil]
      obtain rfl : es = [] := by simpa using hlog
      cases hstep
    · exact absurd hexecuted hne
  · obtain ⟨es, hes⟩ := h.current
    rw [hid, hes] at hlog
    obtain rfl := Option.some.inj hlog
    rw [hpersisted, List.length_append] at hlen
    obtain rfl : es = [] := List.eq_nil_of_length_eq_zero (by omega)
    exact h.row (by rw [hes, List.append_nil])

theorem grows_create {n : NewWallet} (hc : wallets.create n = .ok (w, wallets')) :
    Grows wallets' wallets := by
  obtain ⟨-, hnone, hfind⟩ := create_spec hc
  intro id log hlog
  refine ⟨[], ?_⟩
  rw [hfind, List.append_nil]
  split
  · rename_i hid
    rw [← hid, hlog] at hnone
    exact absurd hnone (by simp)
  · exact hlog

theorem Row.grows_update (h : Row X wallets id w) {c : WalletCommand}
    (hu : wallets.update (w.apply X c).2 = .ok wallets') : Grows wallets' wallets := by
  intro id' log hlog
  have hfind := h.find?_update c hu id'
  by_cases hid : id' = id
  · subst hid
    rw [if_pos rfl] at hfind
    obtain rfl := Option.some.inj (h.log_eq.symm.trans hlog)
    rcases Wallet.apply_spec (X := X) w c with ⟨es, -, he⟩ | ⟨-, he⟩
    · exact ⟨es, by rw [hfind, he, Wallet.record_log]⟩
    · exact ⟨[], by rw [hfind, he, List.append_nil]⟩
  · rw [if_neg hid] at hfind
    exact ⟨[], by rw [hfind, hlog, List.append_nil]⟩

/-- An active wallet stays in the table as it is. -/
theorem Row.of_grows (h : Row X wallets id w) (hactive : w.status = .active)
    (hs : wallets'.Sound X) (hg : Grows wallets' wallets) : Row X wallets' id w :=
  (h.held.mono hg).row_of_active hs hactive

end Wallets

open PsbtSession (Step Executes Grammatical)
open PsbtSessions (Row Snapshot Writes)
open Platform (Grown)

/-! ## Agreement -/

/-- The wallet of the session is active, and the session has its policy and a spend that was
accepted on its network. -/
def Agrees (X : Extern) (wallets : Wallets) (s : PsbtSession) : Prop :=
  ∃ w, wallets.Row X s.walletId w ∧ w.status = .active ∧ s.threshold = w.threshold ∧
    s.keystores = w.keystores.map (keystoreFingerprint X) ∧
    NewPsbtSession.spendError X w.network s.spend = none

section Agrees

variable {X : Extern} {network : Network} {wallets wallets' : Wallets} {s s' : PsbtSession}

theorem Agrees.mono (h : Agrees X wallets s) (hs : wallets'.Sound X)
    (hg : wallets'.Grows wallets) : Agrees X wallets' s := by
  obtain ⟨w, hrow, hactive, hrest⟩ := h
  exact ⟨w, hrow.of_grows hactive hs hg, hactive, hrest⟩

theorem agrees_of_grown {es : List PsbtSessionEvent} (hg : Grown s' s es) :
    Agrees X wallets s' ↔ Agrees X wallets s := by
  unfold Agrees
  rw [hg.walletId, hg.threshold, hg.keystores, hg.spend]

/-- A proposal agrees with the wallet it was made on, however long ago that was loaded. -/
theorem agrees_proposed {id : PsbtSessionId} {walletId : WalletId} {w : Wallet}
    {proposedBy : UserId} {spend : SpendSpec} {n : NewPsbtSession}
    (hw : wallets.Held X walletId w) (hs : wallets.Sound X)
    (hn : NewPsbtSession.tryNew X id w proposedBy spend = .ok n) :
    Agrees X wallets n.proposed := by
  obtain ⟨hactive, hsane, rfl⟩ := NewPsbtSession.tryNew_eq_ok_iff.mp hn
  have hid := hw.id_eq
  subst hid
  exact ⟨w, hw.row_of_active hs hactive, hactive, rfl, rfl, hsane⟩

/-- What passes the assertion was accepted before. -/
theorem NewPsbtSession.tryNew_of_checked {id : PsbtSessionId} {w : Wallet} {proposedBy : UserId}
    {spend : SpendSpec} {n : NewPsbtSession}
    (h : NewPsbtSession.tryNewChecked X id w proposedBy spend = some (.ok n)) :
    NewPsbtSession.tryNew X id w proposedBy spend = .ok n := by
  unfold NewPsbtSession.tryNewChecked at h
  split at h
  · exact absurd h (by simp)
  · rename_i n' htry
    split at h
    · rw [htry, Except.ok.inj (Option.some.inj h)]
    · exact absurd h (by simp)

/-- **The debug assertion holds**, of any wallet a call ever loaded. -/
theorem debugAssert_of_tryNew {id : PsbtSessionId} {w : Wallet} {proposedBy : UserId}
    {spend : SpendSpec} {n : NewPsbtSession} (hw : Wallet.Inv X w)
    (hn : NewPsbtSession.tryNew X id w proposedBy spend = .ok n) : n.debugAssert = true := by
  have hloaded := (PsbtSession.loaded_proposed hw hn).wellFormed
  unfold NewPsbtSession.debugAssert
  rw [Bool.and_eq_true, decide_eq_true_iff, decide_eq_true_iff]
  exact ⟨UInt32.lt_iff_toNat_lt.mpr hloaded.threshold_pos, hloaded.threshold_le⟩

end Agrees

/-! ## What the work on an agreeing session comes to -/

/-- The failures that agreement rules out. -/
def SessionCall.Excludes : SessionCall → Failure → Prop
  | .runPsbtCreation funding, .job (.walletNotActive _) => funding.Answers JobsError.IsFunding
  | .submitSignedPsbt .., .useCase (.psbtSession (.unknownKeystore _)) => True
  | _, _ => False

section Outcomes

variable {X : Extern} {network : Network} {wallets : Wallets} {blobs blobs' : BlobStore}
variable {s s' : PsbtSession}

theorem eq_ok_of_mapError {α β γ : Type} {x : Except α γ} {f : α → β} {a : γ}
    (h : x.mapError f = .ok a) : x = .ok a := by
  cases x with
  | error e => exact absurd h (by simp [Except.mapError])
  | ok b => exact congrArg Except.ok (Except.ok.inj h)

theorem eq_persist_of_toWrite {α : Type} {work : Except JobsError (Work α)}
    (h : (work.map Work.toWrite).mapError Failure.job = .ok (some s')) :
    ∃ answer, work = .ok (.persist answer s') := by
  rcases work with e | (answer | ⟨answer, s''⟩)
  · exact absurd h (by simp [Except.map, Except.mapError])
  · exact absurd h (by simp [Except.map, Except.mapError, Work.toWrite])
  · simp only [Except.map, Except.mapError, Work.toWrite, Except.ok.injEq, Option.some.injEq] at h
    exact ⟨answer, by rw [h]⟩

theorem PsbtSession.commandWork_eq_some {command : PsbtSessionCommand}
    (h : s.commandWork command = .ok (some s')) : ∃ e, Executes s command e s' := by
  unfold PsbtSession.commandWork at h
  split at h
  · exact absurd h (by simp)
  · rename_i applied s'' happly
    cases applied with
    | alreadyApplied => exact absurd h (by simp [Idempotent.didExecute])
    | executed u =>
      simp only [Idempotent.didExecute, if_true, Except.ok.injEq, Option.some.injEq] at h
      subst h
      exact PsbtSession.executes_of_apply happly

/-- What a submission that succeeded found, stored and left. -/
theorem SessionCall.work_submitSignedPsbt {user : UserId} {bytes : Bytes}
    {left : Option PsbtSession}
    (h : ((SessionCall.submitSignedPsbt user bytes).work X network wallets blobs s).1 =
      .ok left) :
    ∃ fingerprint merged applied s',
      Coordination.checkSubmission X wallets blobs s user bytes = .ok (fingerprint, merged) ∧
      s.addSignature fingerprint (PsbtHash.digestOf X (X.serialize merged)) = (.ok applied, s') ∧
      left = (if applied.didExecute then some s' else none) ∧
      ((SessionCall.submitSignedPsbt user bytes).work X network wallets blobs s).2 =
        (blobs.put X (X.serialize merged)).2 := by
  unfold SessionCall.work at h ⊢
  dsimp only at h ⊢
  cases hwork : Coordination.submitWork X wallets blobs s user bytes with
  | mk answer blobs' =>
    rw [hwork] at h
    cases answer with
    | error e => exact absurd h (by simp)
    | ok r =>
      obtain ⟨executed, s'⟩ := r
      obtain ⟨fingerprint, merged, applied, hchecked, hr, rfl, hblobs⟩ := submitWork_eq_ok hwork
      exact ⟨fingerprint, merged, applied, s', hchecked, hr, (Except.ok.inj h).symm, hblobs⟩

/-- A submission that leaves something to write has added a signature. -/
theorem SessionCall.executes_submitSignedPsbt {user : UserId} {bytes : Bytes}
    (h : ((SessionCall.submitSignedPsbt user bytes).work X network wallets blobs s).1 =
      .ok (some s')) :
    ∃ fingerprint merged,
      Executes s (.addSignature fingerprint (PsbtHash.digestOf X (X.serialize merged)))
        (.signatureAdded fingerprint (PsbtHash.digestOf X (X.serialize merged))) s' ∧
      ((SessionCall.submitSignedPsbt user bytes).work X network wallets blobs s).2 =
        (blobs.put X (X.serialize merged)).2 := by
  obtain ⟨fingerprint, merged, applied, s'', -, hr, hleft, hblobs⟩ := work_submitSignedPsbt h
  cases applied with
  | alreadyApplied => exact absurd hleft (by simp [Idempotent.didExecute])
  | executed u =>
    obtain rfl : s' = s'' := by simpa [Idempotent.didExecute] using hleft
    obtain ⟨e, hx⟩ := PsbtSession.executes_of_apply (c := .addSignature fingerprint _) hr
    obtain rfl : e = .signatureAdded fingerprint _ := by
      cases hx.step
      rfl
    exact ⟨fingerprint, merged, hx, hblobs⟩

/-- What a unit of work leaves to write back is one executed command. -/
theorem SessionCall.work_eq_some {call : SessionCall} (hs : Grammatical s)
    (h : (call.work X network wallets blobs s).1 = .ok (some s')) : ∃ c e, Executes s c e s' := by
  cases call with
  | submitSignedPsbt user bytes =>
    obtain ⟨fingerprint, merged, hx, -⟩ := SessionCall.executes_submitSignedPsbt h
    exact ⟨_, _, hx⟩
  | runPsbtCreation funding =>
    obtain ⟨hash, hwork⟩ := eq_persist_of_toWrite h
    obtain ⟨c, e, hx, -⟩ := createPsbt_records hs wallets blobs funding hash s' hwork
    exact ⟨c, e, hx⟩
  | runFinalization =>
    obtain ⟨txid, hwork⟩ := eq_persist_of_toWrite h
    obtain ⟨c, e, hx, -⟩ := (finalizeSession_work (X := X) hs blobs).records txid s' hwork
    exact ⟨c, e, hx⟩
  | applyChainObservation observation =>
    exact ⟨_, PsbtSession.commandWork_eq_some (eq_ok_of_mapError h)⟩
  | cancel cancelledBy reason =>
    exact ⟨_, PsbtSession.commandWork_eq_some (eq_ok_of_mapError h)⟩

variable (network blobs) in
/-- **A creation job never finds a wallet without descriptor.** -/
theorem createPsbt_ne_walletNotActive (h : Agrees X wallets s) {funding : FundingUtxoProvider}
    (hfunding : funding.Answers JobsError.IsFunding) (id : WalletId) :
    (createPsbt X wallets blobs funding network s).1 ≠ .error (.walletNotActive id) := by
  obtain ⟨w, hrow, hactive, -⟩ := h
  obtain ⟨d, -, hd, -⟩ := hrow.inv.descriptor hactive
  have hout := createPsbt_outcome X network wallets blobs funding s
  generalize createPsbt X wallets blobs funding network s = out at hout ⊢
  cases hout with
  | inactive hw hnone =>
    obtain rfl := Except.ok.inj (hrow.found.symm.trans hw)
    exact absurd (hd.symm.trans hnone) (by simp)
  | unfunded _ he =>
    obtain ⟨reason, rfl⟩ := hfunding _ _ _ he
    exact fun hfail => absurd hfail (by simp)
  | _ => exact fun hfail => absurd hfail (by simp)

variable (blobs) in
/-- **A submission never attributes a signature to a keystore outside the policy.** -/
theorem submitWork_ne_unknownKeystore (h : Agrees X wallets s) (user : UserId) (bytes : Bytes)
    (fp : KeyFingerprint) :
    (Coordination.submitWork X wallets blobs s user bytes).1 ≠
      .error (.psbtSession (.unknownKeystore fp)) := by
  obtain ⟨w, hrow, -, -, hkeystores, -⟩ := h
  intro hfail
  unfold Coordination.submitWork at hfail
  split at hfail
  · rename_i e he
    obtain rfl := Except.error.inj hfail
    unfold Coordination.checkSubmission at he
    repeat' split at he
    all_goals exact absurd he (by simp)
  · rename_i fingerprint merged hchecked
    obtain ⟨w', -, -, -, hw', hfp, -⟩ := Platform.checkSubmission_eq_ok hchecked
    obtain rfl := Except.ok.inj (hrow.found.symm.trans hw')
    have hmem : fingerprint ∈ s.keystores := by
      rw [hkeystores]
      unfold Wallet.keystoreFingerprintOf at hfp
      obtain ⟨sub, hsub, rfl⟩ := Option.map_eq_some_iff.mp hfp
      have hsub' : sub ∈ w.submissions := List.mem_of_find?_eq_some hsub
      exact List.mem_map_of_mem (List.mem_map_of_mem hsub')
    dsimp only at hfail
    unfold PsbtSession.addSignature at hfail
    split at hfail
    · rename_i e s' he
      split at he
      · exact absurd (Prod.mk.inj he).1 (by simp)
      split at he
      · obtain rfl := Except.error.inj (Prod.mk.inj he).1
        exact absurd hfail (by simp)
      split at he
      · rename_i hunknown
        simp [hmem] at hunknown
      · exact absurd (Prod.mk.inj he).1 (by simp)
    · exact absurd hfail (by simp)

theorem SessionCall.work_not_excluded {call : SessionCall} (h : Agrees X wallets s) {e : Failure}
    (he : (call.work X network wallets blobs s).1 = .error e) : ¬ call.Excludes e := by
  intro hexcluded
  cases call with
  | submitSignedPsbt user bytes =>
    unfold SessionCall.work at he
    dsimp only at he
    split at he
    · rename_i e' blobs' hwork
      obtain rfl := Except.error.inj he
      have hne := fun fp => submitWork_ne_unknownKeystore blobs h user bytes fp
      rw [hwork] at hne
      rcases e' with e' | e' | e' | e' | e' | e' | e' | e' | e' | _ | e' | e' <;>
        first
          | exact absurd hexcluded id
          | (cases e' <;> first | exact absurd hexcluded id | exact hne _ rfl)
    · exact absurd he (by simp)
  | runPsbtCreation funding =>
    have hne (hfunding : funding.Answers JobsError.IsFunding) :=
      createPsbt_ne_walletNotActive network blobs h hfunding
    unfold SessionCall.work at he
    dsimp only at he
    rcases hwork : (createPsbt X wallets blobs funding network s).1 with e' | left
    · rw [hwork] at he hne
      obtain rfl := Except.error.inj he
      cases e' <;> first | exact absurd hexcluded id | exact hne hexcluded _ rfl
    · rw [hwork] at he
      exact absurd he (by simp [Except.map, Except.mapError])
  | runFinalization => exact absurd hexcluded (by cases e <;> exact id)
  | applyChainObservation observation => exact absurd hexcluded (by cases e <;> exact id)
  | cancel cancelledBy reason => exact absurd hexcluded (by cases e <;> exact id)

end Outcomes

namespace Traffic

/-! ## The invariant -/

/-- What a task holds, and what it cannot have come to. -/
def Task.Inv (X : Extern) (wallets : Wallets) (sessions : PsbtSessions) (task : Task) : Prop :=
  match task.stage with
  | .wallet w => wallets.Held X w.id w
  | .session s => ∃ id call, task.call = .session id call ∧ Snapshot sessions id s
  | .computed work => ∃ id call, task.call = .session id call ∧
      (∀ s', work = .ok (some s') → ∃ s c e, Snapshot sessions id s ∧ Executes s c e s') ∧
      ∀ e, work = .error e → ¬ call.Excludes e
  | .returned answer => ∀ id call e, task.call = .session id call → answer = .error e →
      ¬ call.Excludes e
  | .panicked => False

/-- What holds after every interleaving. -/
structure Inv (X : Extern) (c : Traffic) : Prop where
  wallets : c.platform.wallets.Sound X
  sessions : c.platform.sessions.Sound
  agrees : ∀ id s, Row c.platform.sessions id s → Agrees X c.platform.wallets s
  tasks : ∀ task ∈ c.tasks, task.Inv X c.platform.wallets c.platform.sessions

/-- What a step leaves of the stores. -/
structure Keeps (X : Extern) (p' p : Platform) : Prop where
  wallets : p'.wallets.Sound X
  wallets_grow : p'.wallets.Grows p.wallets
  sessions : p'.sessions.Sound
  sessions_grow : PsbtSessions.Grows p'.sessions p.sessions
  agrees : ∀ id s, Row p'.sessions id s → Agrees X p'.wallets s

theorem inv_empty (X : Extern) : Inv X empty where
  wallets := Wallets.sound_empty
  sessions := PsbtSessions.sound_empty
  agrees id s hrow := absurd hrow.log_eq (by simp [empty, Platform.empty])
  tasks _ h := absurd h List.not_mem_nil

variable {X : Extern} {network : Network} {c : Traffic}

theorem Task.Inv.mono {wallets wallets' : Wallets} {sessions sessions' : PsbtSessions} {task : Task}
    (h : task.Inv X wallets sessions) (hw : wallets'.Grows wallets)
    (hs : PsbtSessions.Grows sessions' sessions) : task.Inv X wallets' sessions' := by
  obtain ⟨call, stage⟩ := task
  cases stage with
  | wallet w => exact Wallets.Held.mono h hw
  | session s =>
    obtain ⟨id, call', hcall, hsnapshot⟩ := h
    exact ⟨id, call', hcall, hsnapshot.mono hs⟩
  | computed work =>
    obtain ⟨id, call', hcall, hwork, hfail⟩ := h
    refine ⟨id, call', hcall, fun s' hs' => ?_, hfail⟩
    obtain ⟨s, command, e, hsnapshot, hx⟩ := hwork s' hs'
    exact ⟨s, command, e, hsnapshot.mono hs, hx⟩
  | returned answer => exact h
  | panicked => exact h

/-- A step that leaves the stores as `Keeps` says and sets the stage of one task. -/
theorem Inv.of_keeps (h : Inv X c) {p : Platform} (hp : Keeps X p c.platform) {tasks : List Task}
    (htasks : ∀ task ∈ tasks, task ∈ c.tasks ∨ task.Inv X p.wallets p.sessions) :
    Inv X ⟨p, tasks⟩ where
  wallets := hp.wallets
  sessions := hp.sessions
  agrees := hp.agrees
  tasks task htask := (htasks task htask).elim
    (fun hold => (h.tasks task hold).mono hp.wallets_grow hp.sessions_grow) id

theorem Inv.keeps_blobs (h : Inv X c) (blobs : BlobStore) :
    Keeps X { c.platform with blobs } c.platform :=
  ⟨h.wallets, Wallets.Grows.refl _, h.sessions, PsbtSessions.Grows.refl _, h.agrees⟩

theorem Inv.keeps_wallets (h : Inv X c) {wallets : Wallets} (hs : wallets.Sound X)
    (hg : wallets.Grows c.platform.wallets) : Keeps X { c.platform with wallets } c.platform :=
  ⟨hs, hg, h.sessions, PsbtSessions.Grows.refl _, fun id s hrow => (h.agrees id s hrow).mono hs hg⟩

/-- **One write to the sessions keeps them in agreement**: the policy of a session is not among
what its events change, and a proposal agrees from the start. -/
theorem Inv.keeps_sessions (h : Inv X c) {sessions : PsbtSessions}
    {w : Option (PsbtSessionId × PsbtSessionEvent)} (hw : Writes c.platform.sessions w sessions)
    (hn : ∀ n : NewPsbtSession, w = some (n.id,
        .initialized n.id n.walletId n.proposedBy n.spend n.threshold n.keystores) →
      Agrees X c.platform.wallets n.proposed) :
    Keeps X { c.platform with sessions } c.platform where
  wallets := h.wallets
  wallets_grow := Wallets.Grows.refl _
  sessions := hw.sound h.sessions
  sessions_grow := hw.grows
  agrees id s hrow := by
    rcases hw.row hrow with ⟨hold, -⟩ | ⟨n, hw', hg⟩ | ⟨s', _, _, -, hold, -, hg⟩
    · exact h.agrees id s hold
    · have hid : n.id = id := hg.id.symm.trans hrow.id_eq
      subst hid
      exact (agrees_of_grown hg).mpr (hn n hw')
    · exact (agrees_of_grown hg).mpr (h.agrees id s' hold)

/-! ## The steps -/

theorem load_inv (h : Inv X c) (call : Call) :
    Task.Inv X c.platform.wallets c.platform.sessions ⟨call, load c.platform call⟩ := by
  have hmissing : ∀ e, Task.Inv X c.platform.wallets c.platform.sessions
      ⟨call, .returned (.error (.useCase (.walletFind e)))⟩ := by
    intro e id call' e' _ he
    obtain rfl := Except.error.inj he
    cases call' <;> exact fun hexcluded => hexcluded
  have hfound : ∀ {walletId w}, c.platform.wallets.findById walletId = .ok w →
      Task.Inv X c.platform.wallets c.platform.sessions ⟨call, .wallet w⟩ := by
    intro walletId w hw
    have hrow := h.wallets.row hw
    have hid := hrow.id_eq
    subst hid
    exact hrow.held
  cases call with
  | wallet id command =>
    cases hw : c.platform.wallets.findById id with
    | error e => simpa only [load, hw] using hmissing e
    | ok w => simpa only [load, hw] using hfound hw
  | proposeSpend sessionId id proposedBy spend =>
    cases hw : c.platform.wallets.findById id with
    | error e => simpa only [load, hw] using hmissing e
    | ok w => simpa only [load, hw] using hfound hw
  | session id call =>
    cases hs : c.platform.sessions.findById id with
    | error e =>
      have hload : load c.platform (.session id call) = .returned (.error (call.notFound e)) := by
        simp only [load, hs]
      rw [hload]
      intro id' call' e' hcall he
      obtain ⟨-, rfl⟩ := Call.session.inj hcall
      obtain rfl := Except.error.inj he
      cases call <;> exact fun hexcluded => hexcluded
    | ok s =>
      have hload : load c.platform (.session id call) = .session s := by
        simp only [load, hs]
      rw [hload]
      exact ⟨id, call, rfl, (h.sessions.row hs).snapshot⟩

theorem registered_inv {call : Call} {wallets : Wallets} {sessions : PsbtSessions}
    {answer : Except Failure Unit} (hcall : ∀ id call', call ≠ .session id call') :
    Task.Inv X wallets sessions ⟨call, .returned answer⟩ :=
  fun id call' _ heq _ => absurd heq (hcall id call')

/-- The second step of a call on a wallet. -/
theorem walletStep_keeps (h : Inv X c) (command : WalletCommand) {w : Wallet}
    (hw : c.platform.wallets.Held X w.id w) :
    Keeps X (walletStep X c.platform command w).1 c.platform ∧
      ∃ answer, (walletStep X c.platform command w).2 = .returned answer := by
  unfold walletStep
  split
  · exact ⟨h.keeps_blobs _, _, rfl⟩
  · rename_i applied w' happly
    split
    · exact ⟨h.keeps_blobs _, _, rfl⟩
    · rename_i hfresh
      split
      · exact ⟨h.keeps_blobs _, _, rfl⟩
      · rename_i wallets hu
        have hexecuted : (w.apply X command).1 = .ok (.executed ()) := by
          rw [happly]
          cases applied with
          | executed u => rfl
          | alreadyApplied => exact absurd rfl hfresh
        have hu' : c.platform.wallets.update (w.apply X command).2 = .ok wallets := by
          rw [happly]
          exact hu
        have hrow := hw.row_of_update hexecuted hu'
        exact ⟨h.keeps_wallets (h.wallets.update hrow command hu') (hrow.grows_update hu'), _, rfl⟩

/-- The second step of `propose_spend`: the assertion holds, and the session that is created
agrees with a wallet that may have been loaded long ago. -/
theorem proposalStep_keeps (h : Inv X c) (id : PsbtSessionId) (proposedBy : UserId)
    (spend : SpendSpec) {w : Wallet} (hw : c.platform.wallets.Held X w.id w) :
    Keeps X (proposalStep X c.platform id proposedBy spend w).1 c.platform ∧
      ∃ answer, (proposalStep X c.platform id proposedBy spend w).2 = .returned answer := by
  unfold proposalStep NewPsbtSession.tryNewChecked
  cases hn : NewPsbtSession.tryNew X id w proposedBy spend with
  | error e => exact ⟨h.keeps_blobs _, _, rfl⟩
  | ok n =>
    dsimp only
    rw [if_pos (debugAssert_of_tryNew hw.inv hn)]
    dsimp only
    split
    · exact ⟨h.keeps_blobs _, _, rfl⟩
    · rename_i s sessions hc
      have hwrites := Writes.proposal (PsbtSession.loaded_proposed hw.inv hn) hc
      refine ⟨h.keeps_sessions hwrites fun n' hn' => ?_, _, rfl⟩
      obtain ⟨-, he⟩ := Prod.mk.inj (Option.some.inj hn')
      obtain ⟨h1, h2, h3, h4, h5, h6⟩ := PsbtSessionEvent.initialized.inj he
      have hsame : n' = n := by
        cases n
        cases n'
        simp_all
      rw [hsame]
      exact agrees_proposed hw h.wallets hn

/-- Writing back what a unit of work left. -/
theorem write_keeps (h : Inv X c) {id : PsbtSessionId} {call : SessionCall}
    {work : Except Failure (Option PsbtSession)}
    (hwork : ∀ s', work = .ok (some s') →
      ∃ s c' e, Snapshot c.platform.sessions id s ∧ Executes s c' e s')
    (hfail : ∀ e, work = .error e → ¬ call.Excludes e) :
    Keeps X { c.platform with sessions := (call.write c.platform.sessions work).2 } c.platform ∧
      ∀ e, (call.write c.platform.sessions work).1 = .error e → ¬ call.Excludes e := by
  rcases work with e | (_ | s')
  · refine ⟨h.keeps_blobs _, fun e' he => ?_⟩
    obtain rfl := Except.error.inj he
    exact hfail e rfl
  · exact ⟨h.keeps_blobs _, fun e he => absurd he (by simp [SessionCall.write])⟩
  · unfold SessionCall.write
    dsimp only
    cases hu : c.platform.sessions.update s' with
    | error e =>
      refine ⟨h.keeps_blobs _, fun e' he => ?_⟩
      obtain rfl := Except.error.inj he
      cases call <;> exact fun hexcluded => hexcluded
    | ok sessions =>
      obtain ⟨s, command, e, hsnapshot, hx⟩ := hwork s' rfl
      have hwrites := hsnapshot.writes hx hu
      refine ⟨h.keeps_sessions hwrites fun n hn => ?_, fun e he => absurd he (by simp)⟩
      obtain ⟨-, rfl⟩ := Prod.mk.inj (Option.some.inj hn)
      cases hx.step

variable (network) in
/-- **All a step of a call under way does.** -/
theorem advance_keeps (h : Inv X c) {task : Task} (htask : task ∈ c.tasks) :
    Keeps X (advance X network c.platform task.call task.stage).1 c.platform ∧
      Task.Inv X (advance X network c.platform task.call task.stage).1.wallets
        (advance X network c.platform task.call task.stage).1.sessions
        { task with stage := (advance X network c.platform task.call task.stage).2 } := by
  have hold := h.tasks task htask
  obtain ⟨call, stage⟩ := task
  cases stage with
  | wallet w =>
    cases call with
    | wallet id command =>
      obtain ⟨hkeeps, answer, hanswer⟩ := walletStep_keeps h command hold
      refine ⟨hkeeps, ?_⟩
      show Task.Inv _ _ _ ⟨_, (walletStep X c.platform command w).2⟩
      rw [hanswer]
      exact registered_inv fun _ _ => by simp
    | proposeSpend id walletId proposedBy spend =>
      obtain ⟨hkeeps, answer, hanswer⟩ := proposalStep_keeps h id proposedBy spend hold
      refine ⟨hkeeps, ?_⟩
      show Task.Inv _ _ _ ⟨_, (proposalStep X c.platform id proposedBy spend w).2⟩
      rw [hanswer]
      exact registered_inv fun _ _ => by simp
    | session id call => exact ⟨h.keeps_blobs _, hold⟩
  | session s =>
    obtain ⟨id, call', hcall, hsnapshot⟩ := hold
    obtain rfl : call = .session id call' := hcall
    refine ⟨h.keeps_blobs _, id, call', rfl, fun s' hs' => ?_, fun e he => ?_⟩
    · obtain ⟨command, e, hx⟩ := SessionCall.work_eq_some hsnapshot.grammatical hs'
      exact ⟨s, command, e, hsnapshot, hx⟩
    · obtain ⟨s', es, hrow, hg⟩ := hsnapshot.current
      exact SessionCall.work_not_excluded ((agrees_of_grown hg).mp (h.agrees id s' hrow)) he
  | computed work =>
    obtain ⟨id, call', hcall, hwork, hfail⟩ := hold
    obtain rfl : call = .session id call' := hcall
    obtain ⟨hkeeps, hanswer⟩ := write_keeps h hwork hfail
    refine ⟨hkeeps, fun id' call'' e hcall' he => ?_⟩
    obtain ⟨-, rfl⟩ := Call.session.inj hcall'
    exact hanswer e he
  | returned answer =>
    refine ⟨?_, ?_⟩ <;> cases call <;> first | exact h.keeps_blobs _ | exact hold
  | panicked => exact absurd hold id

variable (network) in
/-- **Every step keeps the invariant**, and what it leaves of the stores. -/
theorem Inv.act (h : Inv X c) (a : Action) :
    Inv X (c.act X network a) ∧ Keeps X (c.act X network a).platform c.platform := by
  cases a with
  | register id threshold participants =>
    have hkeeps : Keeps X (c.act X network (.register id threshold participants)).platform
        c.platform := by
      simp only [Traffic.act]
      unfold Coordination.registerWallet
      split
      · exact h.keeps_blobs _
      · rename_i n hn
        split
        · exact h.keeps_blobs _
        · rename_i w wallets hc
          exact h.keeps_wallets (h.wallets.create hn hc) (Wallets.grows_create hc)
    exact ⟨h.of_keeps hkeeps fun _ htask => Or.inl htask, hkeeps⟩
  | call call =>
    refine ⟨h.of_keeps (h.keeps_blobs _) fun task htask => ?_, h.keeps_blobs _⟩
    refine (List.mem_append.mp htask).imp_right fun hnew => ?_
    obtain rfl := List.mem_singleton.mp hnew
    exact load_inv h call
  | step i =>
    simp only [Traffic.act]
    split
    · exact ⟨h, h.keeps_blobs _⟩
    · rename_i task hi
      obtain ⟨hkeeps, htask⟩ := advance_keeps network h (List.mem_of_getElem? hi)
      refine ⟨h.of_keeps hkeeps fun task' htask' => ?_, hkeeps⟩
      refine (List.mem_or_eq_of_mem_set htask').imp_right fun heq => ?_
      rw [heq]
      exact htask

/-- **Every interleaving keeps the invariant.** -/
theorem Inv.run (h : Inv X c) (actions : List Action) : Inv X (c.run X network actions) := by
  induction actions generalizing c with
  | nil => exact h
  | cons a actions ih => exact ih (h.act network a).1

variable (network) in
theorem Inv.run_grows (h : Inv X c) (actions : List Action) :
    PsbtSessions.Grows (c.run X network actions).platform.sessions c.platform.sessions := by
  induction actions generalizing c with
  | nil => exact PsbtSessions.Grows.refl _
  | cons a actions ih =>
    have hstep := h.act network a
    exact (ih hstep.1).trans hstep.2.sessions_grow

theorem inv_run (X : Extern) (network : Network) (actions : List Action) :
    Inv X (empty.run X network actions) :=
  (inv_empty X).run actions

theorem run_append (c : Traffic) (actions later : List Action) :
    c.run X network (actions ++ later) = (c.run X network actions).run X network later :=
  List.foldl_append

end Traffic

open Traffic in
/-- **Sessions agree with their wallets.** After any interleaving of calls:

* the wallet of every persisted session is active, with the threshold and the fingerprints the
  session has, now and after whatever comes later;
* every persisted session hydrates;
* no call failed the debug assertion of `try_new`, no creation job found a wallet that is not
  active (its provider answers only `Funding` errors), and no submission met a keystore outside the
  policy. -/
theorem sessions_agree (X : Extern) (network : Network) (actions : List Traffic.Action) :
    (∀ id s, (empty.run X network actions).platform.sessions.findById id = .ok s →
      ∀ later, ∃ s' w,
        (empty.run X network (actions ++ later)).platform.sessions.findById id = .ok s' ∧
        s'.walletId = s.walletId ∧ s'.threshold = s.threshold ∧ s'.keystores = s.keystores ∧
        (empty.run X network (actions ++ later)).platform.wallets.findById s.walletId = .ok w ∧
        w.status = .active ∧ s.threshold = w.threshold ∧
        s.keystores = w.keystores.map (keystoreFingerprint X)) ∧
    (∀ id log, (empty.run X network actions).platform.sessions.find? id = some log →
      ∃ s, PsbtSession.tryFromEvents (.load id log) = .ok s) ∧
    ∀ task ∈ (empty.run X network actions).tasks,
      task.stage ≠ .panicked ∧
      (∀ id funding walletId, task.call = .session id (.runPsbtCreation funding) →
        funding.Answers JobsError.IsFunding →
        task.stage ≠ .returned (.error (.job (.walletNotActive walletId)))) ∧
      ∀ id user bytes fp, task.call = .session id (.submitSignedPsbt user bytes) →
        task.stage ≠ .returned (.error (.useCase (.psbtSession (.unknownKeystore fp)))) := by
  have h := inv_run X network actions
  refine ⟨fun id s hs later => ?_, fun id log hlog => ?_, fun task htask => ?_⟩
  · rw [run_append]
    obtain ⟨s', es, hrow, hg⟩ := h.run_grows network later id s (h.sessions.row hs)
    obtain ⟨w, hw, hactive, hthreshold, hkeystores, -⟩ :=
      (agrees_of_grown hg).mp ((h.run later).agrees id s' hrow)
    exact ⟨s', w, hrow.found, hg.walletId, hg.threshold, hg.keystores, hw.found, hactive,
      hthreshold, hkeystores⟩
  · obtain ⟨s, hrow⟩ := h.sessions id log hlog
    obtain rfl := Option.some.inj (hrow.log_eq.symm.trans hlog)
    exact ⟨s, PsbtSession.tryFromEvents_eq_ok_iff.mpr ⟨hrow.events_eq, hrow.grammatical.loaded⟩⟩
  · have hinv := h.tasks task htask
    obtain ⟨call, stage⟩ := task
    refine ⟨?_, ?_, ?_⟩
    · rintro rfl
      exact hinv
    · rintro id funding walletId rfl hfunding rfl
      exact hinv id _ _ rfl rfl hfunding
    · rintro id user bytes fp rfl rfl
      exact hinv id _ _ rfl rfl trivial

namespace Extern.Sample

/-- A backend that is down. -/
def unfunded : FundingUtxoProvider := fun _ _ => .error (.funding "unreachable")

/-- A spend of a one-of-one wallet is proposed, and its creation job runs against that backend. -/
def awaitingFunds : List Traffic.Action :=
  [.register ⟨0⟩ 1 [⟨0⟩], .call (.wallet ⟨0⟩ (.addKeystore (key 1) ⟨0⟩)), .step 0,
    .call (.proposeSpend ⟨0⟩ ⟨0⟩ ⟨0⟩ PsbtSession.soloSpend), .step 1,
    .call (.session ⟨0⟩ (.runPsbtCreation unfunded)), .step 2, .step 2]

end Extern.Sample

open Traffic Extern.Sample in
/-- The job is told of the backend, and not of the wallet. -/
theorem sessions_agree_unfunded :
    (∀ task ∈ (empty.run (.sample []) .bitcoin awaitingFunds).tasks, ∀ walletId,
      task.call = .session ⟨0⟩ (.runPsbtCreation unfunded) →
        task.stage ≠ .returned (.error (.job (.walletNotActive walletId)))) ∧
    ((empty.run (.sample []) .bitcoin awaitingFunds).tasks[2]?).map Task.stage =
      some (.returned (.error (.job (.funding "unreachable")))) := by
  have hagree := sessions_agree (.sample []) .bitcoin awaitingFunds
  refine ⟨fun task htask walletId hcall => (hagree.2.2 task htask).2.1 ⟨0⟩ unfunded walletId hcall ?_,
    by rfl⟩
  intro w inputs e he
  exact ⟨_, (Except.error.inj he).symm⟩

end Kota
