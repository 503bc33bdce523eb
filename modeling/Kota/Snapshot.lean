import Kota.Platform

/-!
# Snapshots and the writes of concurrent tasks

A task loads a session, works on that copy and writes its result back; in between, other tasks
write to the same row. `Snapshot` is what is left of a loaded copy then: its log is the beginning
of the row's, and everything else about it still holds.

* **`Snapshot.row_of_update`**: a result that holds a new event is written back only when the copy
  is still what the row holds.
* `Writes` is therefore all that one task does to the table at once: one event, in one row.
* `Writes.ready`: only a recorded signature makes a session `Ready` to be finalized, and
  `Ended` sessions, cancelled before they were finalized, never are again.
-/

namespace Kota

open EventLog

/-! ## Stages of a session -/

namespace PsbtSession

/-- The signatures of a collecting session reach its threshold. -/
def Ready (s : PsbtSession) : Prop :=
  s.status = .collecting ∧ s.threshold.toNat ≤ s.signatureCount

/-- The session has its unsigned PSBT. -/
def Created (log : List PsbtSessionEvent) : Prop := ∃ e ∈ log, e.isPsbtCreated = true

/-- Cancelled before it was finalized. -/
def Ended (log : List PsbtSessionEvent) : Prop :=
  (∃ e ∈ log, e.isCancelled = true) ∧ ∀ e ∈ log, e.isFinalized = false

/-- What a log says for good. -/
def Stable (P : List PsbtSessionEvent → Prop) : Prop :=
  ∀ keystores log es, P log → Admitted (Admits keystores) (log ++ es) → P (log ++ es)

variable {s : PsbtSession} {keystores : List KeyFingerprint} {log es : List PsbtSessionEvent}

theorem Grammatical.of_collecting (h : Grammatical s) (hs : s.status = .collecting) :
    Created s.log ∧ ∀ e ∈ s.log, e.isFinalized = false ∧ e.isCancelled = false :=
  collecting_of_admitted h.admitted hs

theorem Grammatical.finalization_eq_none_iff (h : Grammatical s) :
    s.finalization = none ↔ ∀ e ∈ s.log, e.isFinalized = false := by
  rw [h.loaded.hydrates.finalization_eq, latest_eq_none_iff]
  refine forall₂_congr fun e _ => ?_
  cases e <;> simp [PsbtSessionEvent.finalization, PsbtSessionEvent.isFinalized]

theorem Grammatical.unsignedPsbtHash_eq_none_iff (h : Grammatical s) :
    s.unsignedPsbtHash = none ↔ ∀ e ∈ s.log, e.isPsbtCreated = false := by
  rw [h.loaded.hydrates.unsignedPsbtHash_eq, latest_eq_none_iff]
  refine forall₂_congr fun e _ => ?_
  cases e <;> simp [PsbtSessionEvent.unsignedPsbtHash, PsbtSessionEvent.isPsbtCreated]

theorem stable_created : Stable Created := fun _ _ _ ⟨e, he, hc⟩ _ =>
  ⟨e, List.mem_append_left _ he, hc⟩

/-- A session that has its unsigned PSBT is not pending. -/
theorem Created.ne_pending (h : Created log) : PsbtSessionStatus.ofLog log ≠ .pending := by
  intro hp
  obtain ⟨e, he, hcreated⟩ := h
  have hnone := status_pending_iff.mp hp e he
  cases e <;> simp_all [PsbtSessionEvent.status, PsbtSessionEvent.isPsbtCreated]

/-- A session that left `Pending` does not come back to it. -/
theorem stable_ne_pending : Stable fun log => PsbtSessionStatus.ofLog log ≠ .pending := by
  intro keystores log es h _
  rw [Ne, status_pending_iff] at h ⊢
  exact fun hp => h fun e he => hp e (List.mem_append_left _ he)

/-- What else may have become of a session whose PSBT was created, when it neither collects nor
is finalized. -/
theorem ended_of_ne_collecting (h : Admitted (Admits keystores) log) (hcreated : Created log)
    (hne : PsbtSessionStatus.ofLog log ≠ .collecting)
    (hfinal : ∀ e ∈ log, e.isFinalized = false) : Ended log := by
  refine ⟨?_, hfinal⟩
  obtain ⟨e, he, hstatus⟩ := mem_of_status rfl hcreated.ne_pending
  have hchain : ∀ x ∈ log, ¬ (x.isBroadcastSeen = true ∨ x.tip ≠ none) := by
    intro x hx hspoken
    obtain ⟨y, hy, hf⟩ := finalized_of_admitted h hx hspoken
    rw [hfinal y hy] at hf
    exact absurd hf (by simp)
  cases e with
  | cancelled => exact ⟨_, he, rfl⟩
  | psbtCreated => exact absurd (Option.some.inj hstatus).symm hne
  | finalized => exact absurd (hfinal _ he) (by simp [PsbtSessionEvent.isFinalized])
  | broadcastSeen => exact absurd (Or.inl rfl) (hchain _ he)
  | confirmed => exact absurd (Or.inr (by simp [PsbtSessionEvent.tip])) (hchain _ he)
  | invalidated => exact absurd (Or.inr (by simp [PsbtSessionEvent.tip])) (hchain _ he)
  | initialized | signatureAdded => exact absurd hstatus (by simp [PsbtSessionEvent.status])

/-- **An ended session is never finalized**, whatever else is recorded. -/
theorem stable_ended : Stable Ended := by
  intro keystores log es h ha
  induction es using List.reverseRecOn with
  | nil => rwa [List.append_nil]
  | append_singleton es e ih =>
    rw [← List.append_assoc] at ha ⊢
    obtain ⟨hlog, he⟩ := admitted_concat.mp ha
    obtain ⟨⟨x, hx, hc⟩, hno⟩ := ih hlog
    refine ⟨⟨x, List.mem_append_left _ hx, hc⟩, fun y hy => ?_⟩
    rcases List.mem_append.mp hy with hy | hy
    · exact hno y hy
    · obtain rfl := List.mem_singleton.mp hy
      cases y with
      | finalized =>
        rw [(he.2 x hx).2] at hc
        exact absurd hc (by simp)
      | _ => rfl

/-- No session is `Finalized` without a `Finalized` event. -/
theorem ne_finalized_of_log (h : ∀ e ∈ log, e.isFinalized = false) :
    PsbtSessionStatus.ofLog log ≠ .finalized := by
  intro hs
  obtain ⟨e, he, hstatus⟩ := mem_of_status hs (by simp)
  have hno := h e he
  cases e <;> simp_all [PsbtSessionEvent.status, PsbtSessionEvent.isFinalized]

/-- Command `c` executes on `s`, records `e` and leaves `s'`. -/
structure Executes (s : PsbtSession) (c : PsbtSessionCommand) (e : PsbtSessionEvent)
    (s' : PsbtSession) : Prop where
  step : Step s c e
  left : s' = s.record e
  applied : (s.apply c).2 = s'

theorem executes_of_apply {c : PsbtSessionCommand} {s' : PsbtSession}
    (h : s.apply c = (.ok (.executed ()), s')) : ∃ e, Executes s c e s' := by
  rcases apply_spec s c with ⟨e, hstep, he⟩ | ⟨hne, -⟩
  · exact ⟨e, hstep, (Prod.mk.inj (h.symm.trans he)).2, congrArg Prod.snd h⟩
  · rw [h] at hne
    exact absurd rfl hne

/-- What makes a session ready is a signature. -/
theorem Grammatical.signed_of_ready (h : Grammatical s) {c : PsbtSessionCommand}
    {e : PsbtSessionEvent} {s' : PsbtSession} (hstep : Step s c e) (h' : Grammatical s')
    (hg : Platform.Grown s' s [e]) (hready : s'.Ready) : ∃ fp hash, e = .signatureAdded fp hash := by
  obtain ⟨hstatus, henough⟩ := hready
  unfold status at hstatus
  rw [hg.log, PsbtSessionStatus.ofLog_concat] at hstatus
  cases hstep with
  | signed fp hash => exact ⟨fp, hash, rfl⟩
  | created hash once pending =>
    -- nothing was signed while the session was pending, and no threshold is zero
    have hnone : s.log.filterMap PsbtSessionEvent.signature = [] := by
      refine List.filterMap_eq_nil_iff.mpr fun e he => ?_
      obtain ⟨pre, post, hlog, ha⟩ := h.admitted.of_mem he
      cases e with
      | signatureAdded fp hash =>
        obtain ⟨⟨⟨x, hx, hc⟩, -⟩, -⟩ := ha
        refine absurd (once x ?_) (by simp [hc])
        rw [hlog]
        exact List.mem_append_left _ hx
      | _ => rfl
    have hpos := h'.loaded.wellFormed.threshold_pos
    have hcount : s'.signatureCount = 0 := by
      unfold signatureCount
      rw [h'.loaded.hydrates.signatures_eq, hg.log, List.filterMap_append, hnone]
      rfl
    omega
  | finalized | broadcast | confirmed | invalidated | cancelled =>
    exact absurd hstatus (by simp [PsbtSessionEvent.status])

end PsbtSession

namespace PsbtSessions

open Platform (Grown)
open PsbtSession (Step Executes Grammatical Loaded)

/-! ## Snapshots -/

/-- Every session is still in the table, with a log that may have grown. -/
def Grows (sessions' sessions : PsbtSessions) : Prop :=
  ∀ id s, Row sessions id s → ∃ s' es, Row sessions' id s' ∧ Grown s' s es

/-- `s` was loaded from the row under `id`, now or before. -/
structure Snapshot (sessions : PsbtSessions) (id : PsbtSessionId) (s : PsbtSession) : Prop where
  id_eq : s.id = id
  events_eq : s.events = .load id s.log
  grammatical : Grammatical s
  current : ∃ s' es, Row sessions id s' ∧ Grown s' s es

variable {sessions sessions' : PsbtSessions} {id : PsbtSessionId} {s s' : PsbtSession}
  {c : PsbtSessionCommand} {e : PsbtSessionEvent}

theorem Grows.refl (sessions : PsbtSessions) : Grows sessions sessions :=
  fun _ s h => ⟨s, [], h, Grown.refl s⟩

theorem Grows.trans {sessions'' : PsbtSessions} (h' : Grows sessions'' sessions')
    (h : Grows sessions' sessions) : Grows sessions'' sessions := by
  intro id s hrow
  obtain ⟨s', es, hrow', hg⟩ := h id s hrow
  obtain ⟨s'', es', hrow'', hg'⟩ := h' id s' hrow'
  exact ⟨s'', es ++ es', hrow'', hg'.trans hg⟩

/-- What the log of a row says for good. -/
theorem Grows.row_of_stable {P : List PsbtSessionEvent → Prop} (h : Grows sessions' sessions)
    (hP : PsbtSession.Stable P) (hrow : ∃ s, Row sessions id s ∧ P s.log) :
    ∃ s, Row sessions' id s ∧ P s.log := by
  obtain ⟨s, hrow, hs⟩ := hrow
  obtain ⟨s', es, hrow', hg⟩ := h id s hrow
  refine ⟨s', hrow', ?_⟩
  rw [hg.log]
  exact hP _ _ _ hs (hg.log ▸ hrow'.grammatical.admitted)

theorem Row.snapshot (h : Row sessions id s) : Snapshot sessions id s :=
  ⟨h.id_eq, h.events_eq, h.grammatical, s, [], h, Grown.refl s⟩

theorem Snapshot.mono (h : Snapshot sessions id s) (hg : Grows sessions' sessions) :
    Snapshot sessions' id s := by
  obtain ⟨s₁, es, hrow, hgrown⟩ := h.current
  obtain ⟨s₂, es', hrow', hgrown'⟩ := hg id s₁ hrow
  exact ⟨h.id_eq, h.events_eq, h.grammatical, s₂, es ++ es', hrow', hgrown'.trans hgrown⟩

/-- What the log of a copy says for good, that of the row says too. -/
theorem Snapshot.row_of_stable {P : List PsbtSessionEvent → Prop} (h : Snapshot sessions id s)
    (hP : PsbtSession.Stable P) (hs : P s.log) : ∃ s', Row sessions id s' ∧ P s'.log := by
  obtain ⟨s', es, hrow, hg⟩ := h.current
  refine ⟨s', hrow, ?_⟩
  rw [hg.log]
  exact hP _ _ _ hs (hg.log ▸ hrow.grammatical.admitted)

/-- **Optimistic concurrency**: a new event is written back only when the copy it was computed on
is what the row holds. -/
theorem Snapshot.row_of_update (h : Snapshot sessions id s) (hx : Executes s c e s')
    (hu : sessions.update s' = .ok sessions') : Row sessions id s := by
  obtain ⟨s₁, es, hrow, hg⟩ := h.current
  have hid : s'.id = id := by rw [hx.left, PsbtSession.record_id, h.id_eq]
  have hfresh : s'.events.fresh = [e] := by
    rw [hx.left, PsbtSession.record_events, h.events_eq]
    rfl
  have hpersisted : s'.events.persisted = s.log := by
    rw [hx.left, PsbtSession.record_events, h.events_eq]
    rfl
  rcases update_spec hu with ⟨hnil, -⟩ | ⟨log, hlog, hlen, -⟩
  · rw [hfresh] at hnil
    exact absurd hnil (by simp)
  · rw [hid, hrow.log_eq, hg.log] at hlog
    obtain rfl := Option.some.inj hlog
    rw [hpersisted, List.length_append] at hlen
    obtain rfl : es = [] := List.eq_nil_of_length_eq_zero (by omega)
    have hfind : sessions.find? id = some s.log := by
      rw [hrow.log_eq, hg.log, List.append_nil]
    exact ⟨findById_eq_ok_iff.mpr ⟨_, hfind, h.events_eq, h.grammatical.loaded⟩, hfind, h.id_eq,
      h.events_eq, h.grammatical⟩

/-! ## What one task writes at once -/

/-- At most one event is written to the table: the first of a proposed session, or the event that
a command recorded on what the row holds. -/
inductive Writes (sessions : PsbtSessions) :
    Option (PsbtSessionId × PsbtSessionEvent) → PsbtSessions → Prop
  | nothing : Writes sessions none sessions
  | proposal {n : NewPsbtSession} {s : PsbtSession} {sessions' : PsbtSessions}
      (loaded : Loaded n.proposed) (create : sessions.create n = .ok (s, sessions')) :
      Writes sessions (some (n.id,
        .initialized n.id n.walletId n.proposedBy n.spend n.threshold n.keystores)) sessions'
  | event {id : PsbtSessionId} {s s' : PsbtSession} {c : PsbtSessionCommand}
      {e : PsbtSessionEvent} {sessions' : PsbtSessions} (row : Row sessions id s)
      (executes : Executes s c e s') (update : sessions.update s' = .ok sessions') :
      Writes sessions (some (id, e)) sessions'

theorem Snapshot.writes (h : Snapshot sessions id s) (hx : Executes s c e s')
    (hu : sessions.update s' = .ok sessions') : Writes sessions (some (id, e)) sessions' :=
  .event (h.row_of_update hx hu) hx hu

variable {w : Option (PsbtSessionId × PsbtSessionEvent)}

/-- The row that an event was written to. -/
theorem Row.of_executes (h : Row sessions id s) (hx : Executes s c e s')
    (hu : sessions.update s' = .ok sessions') :
    ∃ s'', Row sessions' id s'' ∧ Grown s'' s [e] := by
  have hid := h.id_eq
  subst hid
  obtain rfl := hx.applied
  have hrow := h.update c hu
  rw [hx.left] at hrow
  exact ⟨_, hrow, Platform.grown_record s e⟩

theorem Writes.sound (h : Writes sessions w sessions') (hs : Sound sessions) : Sound sessions' := by
  cases h with
  | nothing => exact hs
  | proposal loaded create => exact hs.create loaded create
  | event row executes update =>
    obtain rfl := executes.applied
    exact hs.update row _ update

/-- A row of the table after the write was there before, or holds the event written. -/
theorem Writes.row (h : Writes sessions w sessions') (hrow : Row sessions' id s') :
    (Row sessions id s' ∧ ∀ e, w ≠ some (id, e)) ∨
    (∃ n : NewPsbtSession, w = some (id,
        .initialized n.id n.walletId n.proposedBy n.spend n.threshold n.keystores) ∧
      Grown s' n.proposed []) ∨
    ∃ s c e, w = some (id, e) ∧ Row sessions id s ∧ Step s c e ∧ Grown s' s [e] := by
  cases h with
  | nothing => exact Or.inl ⟨hrow, fun _ => by simp⟩
  | proposal loaded create =>
    rename_i n s
    obtain ⟨-, -, hfind⟩ := create_spec create
    by_cases hid : id = n.id
    · subst hid
      have hlog := hfind n.id
      rw [if_pos rfl] at hlog
      have hnew := row_of_log (Grammatical.proposed loaded) hlog
      obtain rfl := Except.ok.inj (hrow.found.symm.trans hnew.found)
      exact Or.inr (Or.inl ⟨n, rfl, rfl, rfl, rfl, rfl, rfl, rfl⟩)
    · have hold := hfind id
      rw [if_neg hid] at hold
      refine Or.inl ⟨hrow.congr hold.symm, fun e he => hid ?_⟩
      exact (Prod.mk.inj (Option.some.inj he)).1.symm
  | event row executes update =>
    rename_i id₀ s s₁ c e
    by_cases hid : id = id₀
    · subst hid
      obtain ⟨s'', hrow'', hg⟩ := row.of_executes executes update
      obtain rfl := Except.ok.inj (hrow.found.symm.trans hrow''.found)
      exact Or.inr (Or.inr ⟨s, c, e, rfl, row, executes.step, hg⟩)
    · obtain rfl := executes.applied
      have hold := row.find?_update c update id
      rw [if_neg hid] at hold
      refine Or.inl ⟨hrow.congr hold.symm, fun e he => hid ?_⟩
      exact (Prod.mk.inj (Option.some.inj he)).1.symm

theorem Writes.grows (h : Writes sessions w sessions') : Grows sessions' sessions := by
  cases h with
  | nothing => exact Grows.refl sessions
  | proposal loaded create =>
    rename_i n s
    obtain ⟨-, hnone, hfind⟩ := create_spec create
    intro id s hrow
    refine ⟨s, [], hrow.congr ?_, Grown.refl s⟩
    rw [hfind]
    split
    · rename_i hid
      rw [← hid, hrow.log_eq] at hnone
      exact absurd hnone (by simp)
    · rfl
  | event row executes update =>
    rename_i id₀ s₀ s₁ c e
    intro id s hrow
    by_cases hid : id = id₀
    · subst hid
      obtain rfl := Except.ok.inj (hrow.found.symm.trans row.found)
      obtain ⟨s'', hrow'', hg⟩ := row.of_executes executes update
      exact ⟨s'', [e], hrow'', hg⟩
    · obtain rfl := executes.applied
      have hsame := row.find?_update c update id
      rw [if_neg hid] at hsame
      exact ⟨s, [], hrow.congr hsame, Grown.refl s⟩

/-- The event is in the log of the row it was written to. -/
theorem Writes.row_written (h : Writes sessions (some (id, e)) sessions') :
    ∃ s', Row sessions' id s' ∧ e ∈ s'.log := by
  cases h with
  | proposal loaded create =>
    rename_i n s
    obtain ⟨-, -, hfind⟩ := create_spec create
    have hlog := hfind n.id
    rw [if_pos rfl] at hlog
    exact ⟨_, row_of_log (Grammatical.proposed loaded) hlog, List.mem_cons_self⟩
  | event row executes update =>
    obtain ⟨s', hrow, hg⟩ := row.of_executes executes update
    refine ⟨s', hrow, ?_⟩
    rw [hg.log]
    exact List.mem_append_right _ List.mem_cons_self

/-- **Only a recorded signature makes a session ready.** -/
theorem Writes.ready (h : Writes sessions w sessions') (hrow : Row sessions' id s')
    (hready : s'.Ready) :
    (Row sessions id s' ∧ ∀ e, w ≠ some (id, e)) ∨
    ∃ fp hash, w = some (id, .signatureAdded fp hash) := by
  rcases h.row hrow with hold | ⟨n, -, hg⟩ | ⟨s, c, e, hw, hold, hstep, hg⟩
  · exact Or.inl hold
  · refine absurd hready.1 ?_
    unfold PsbtSession.status
    rw [hg.log]
    simp [PsbtSessionStatus.ofLog, PsbtSessionEvent.status, latest]
  · obtain ⟨fp, hash, rfl⟩ := hold.grammatical.signed_of_ready hstep hrow.grammatical hg hready
    exact Or.inr ⟨fp, hash, hw⟩

end PsbtSessions

end Kota
