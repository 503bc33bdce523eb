import Kota.PsbtSession.Grammar

/-!
# What an acknowledgement says about the status

A command that answers `Ok`, executed or already applied, tells its caller that the session is
where the command takes it. Each command decides by a scan of its own over the log, and `status()`
by another; this file compares them in every state of every run.

* `sightings_reflected_iff`: an accepted sighting shows exactly until the transaction is
  invalidated after having been seen, since nothing resets the guard of `mark_broadcast_seen`
  (`resighted_stays_invalidated`).
* `invalidations_reflected_iff`: an accepted invalidation shows exactly while no first sighting
  is recorded over an invalidation, which the guard of `invalidate` does not count as a reset
  (`older_invalidation_swallows`).
* `cancellations_reflected_iff`: a cancellation is acknowledged before broadcast only, exactly
  until the chain speaks after a cancellation (`cancelled_then_sighted_acknowledged`).

The states of a run are those of its prefixes, and what they record is a prefix of its log
(`forall_states_not_iff`); so each condition on a state becomes one on the log of the whole run.
-/

namespace Kota

open EventLog

namespace PsbtSession

/-- An `Ok` answer leaves the session in one of `statuses`. -/
def Acknowledges (r : Except PsbtSessionError (Idempotent Unit) × PsbtSession)
    (statuses : List PsbtSessionStatus) : Prop :=
  ∀ answer, r.1 = .ok answer → r.2.status ∈ statuses

theorem acknowledges_ok {answer : Idempotent Unit} {s : PsbtSession}
    {statuses : List PsbtSessionStatus} :
    Acknowledges (.ok answer, s) statuses ↔ s.status ∈ statuses :=
  ⟨fun h => h answer rfl, fun h _ _ => h⟩

theorem acknowledges_error {e : PsbtSessionError} {s : PsbtSession}
    {statuses : List PsbtSessionStatus} : Acknowledges (.error e, s) statuses :=
  fun _ h => absurd h (by simp)

/-! ## The states of a run -/

theorem run_append (s : PsbtSession) (cs cs' : List PsbtSessionCommand) :
    s.run (cs ++ cs') = (s.run cs).run cs' := List.foldl_append

theorem log_prefix_run (s : PsbtSession) (cs : List PsbtSessionCommand) :
    s.log <+: (s.run cs).log :=
  run_induction (P := fun s' => s.log <+: s'.log)
    (fun {s' _ e} h _ => record_log s' e ▸ h.trans (List.prefix_append _ _)) List.prefix_rfl cs

/-- Every log between the first and the last of a run is that of one of its states. -/
theorem exists_state_of_log {s : PsbtSession} {cs : List PsbtSessionCommand}
    {pre : List PsbtSessionEvent} (hfirst : s.log <+: pre) (hlast : pre <+: (s.run cs).log) :
    ∃ cs₁, cs₁ <+: cs ∧ (s.run cs₁).log = pre := by
  induction cs using List.reverseRecOn with
  | nil => exact ⟨[], List.prefix_rfl, hfirst.eq_of_length_le hlast.length_le⟩
  | append_singleton cs c ih =>
    by_cases heq : pre = (s.run (cs ++ [c])).log
    · exact ⟨cs ++ [c], List.prefix_rfl, heq.symm⟩
    · have hbefore : pre <+: (s.run cs).log := by
        rw [run_append] at hlast heq
        rcases apply_spec (s.run cs) c with ⟨e, -, he⟩ | ⟨-, he⟩
        · rw [run, List.foldl_cons, List.foldl_nil, he, record_log] at hlast heq
          exact (List.prefix_concat_iff.mp hlast).resolve_left heq
        · rwa [run, List.foldl_cons, List.foldl_nil, he] at hlast
      obtain ⟨cs₁, hcs, hlog⟩ := ih hbefore
      exact ⟨cs₁, hcs.trans (List.prefix_append _ _), hlog⟩

/-- No state of a run has a log with `P` exactly when no prefix of its log has `P`. -/
theorem forall_states_not_iff {P : List PsbtSessionEvent → Prop} (hnil : ¬ P [])
    (n : NewPsbtSession) (cs : List PsbtSessionCommand) :
    (∀ cs₁, cs₁ <+: cs → ¬ P (n.proposed.run cs₁).log) ↔
      ¬ ∃ pre, pre <+: (n.proposed.run cs).log ∧ P pre := by
  constructor
  · rintro h ⟨pre, hpre, hp⟩
    -- a nonempty prefix begins with the `Initialized` that every state has
    have hfirst : n.proposed.log <+: pre := by
      refine List.prefix_of_prefix_length_le (log_prefix_run n.proposed cs) hpre ?_
      rw [NewPsbtSession.proposed_log, List.length_singleton]
      exact List.length_pos_of_ne_nil fun hnone => hnil (hnone ▸ hp)
    obtain ⟨cs₁, hcs, rfl⟩ := exists_state_of_log hfirst hpre
    exact h cs₁ hcs hp
  · rintro h cs₁ ⟨cs₂, rfl⟩ hp
    exact h ⟨_, run_append n.proposed cs₁ cs₂ ▸ log_prefix_run _ cs₂, hp⟩

/-! ## Sightings -/

/-- An invalidation was recorded after the transaction had been seen. -/
def InvalidatedAfterSighting (log : List PsbtSessionEvent) : Prop :=
  ∃ pre reason post, log = pre ++ .invalidated reason :: post ∧
    ∃ e ∈ pre, e.isBroadcastSeen = true

/-- The session cannot be shown as seen again: the sighting is in its log, and an invalidation is
what `status()` reads. -/
def SightingSpent (log : List PsbtSessionEvent) : Prop :=
  (∃ e ∈ log, e.isBroadcastSeen = true) ∧ PsbtSessionStatus.ofLog log = .invalidated

/-- A sighting is acknowledged and not shown exactly when it is one of the finalized transaction
and spent. -/
theorem markBroadcastSeen_acknowledges_iff {s : PsbtSession} (h : Grammatical s) (txid : Txid) :
    Acknowledges (s.markBroadcastSeen txid) [.broadcast, .confirmed] ↔
      ¬ (s.finalization.map FinalizationRecord.txid = some txid ∧ SightingSpent s.log) := by
  unfold markBroadcastSeen
  split
  · rename_i hnone
    exact iff_of_true acknowledges_error (by simp [hnone])
  · rename_i f hsome
    split
    · rename_i hne
      exact iff_of_true acknowledges_error (by simp [hsome, hne])
    · rename_i heq
      have htxid : s.finalization.map FinalizationRecord.txid = some txid := by
        simpa [hsome] using heq
      rw [not_and, forall_prop_of_true htxid]
      split
      · rename_i hguard
        obtain ⟨x, hx, hseen⟩ := alreadyApplied_iff_exists.mp hguard
        rw [acknowledges_ok, SightingSpent, and_iff_right ⟨x, hx, hseen⟩]
        rcases status_of_chain h.admitted hx (Or.inl hseen) with hs | hs | hs <;>
          simp [status, hs]
      · rename_i hguard
        have hfresh : ¬ SightingSpent s.log := by
          rintro ⟨⟨x, hx, hseen⟩, -⟩
          exact absurd hseen (by simp [once_of_guard hguard x hx])
        refine iff_of_true ?_ hfresh
        split
        · rename_i hconfirmed
          rw [acknowledges_ok, hconfirmed]
          simp
        · rw [acknowledges_ok]
          simp [status, log, PsbtSessionEvent.status]

/-- A lifecycle status is read off the newest event that has one. -/
theorem ofLog_eq_iff {log : List PsbtSessionEvent} {status : PsbtSessionStatus}
    (hne : status ≠ .pending) :
    PsbtSessionStatus.ofLog log = status ↔
      ∃ pre e post, log = pre ++ e :: post ∧ e.status = some status ∧
        ∀ x ∈ post, x.status = none := by
  rw [← latest_eq_some_iff]
  unfold PsbtSessionStatus.ofLog
  cases latest PsbtSessionEvent.status log with
  | none => simp [hne.symm]
  | some status' => simp

/-- Some prefix of a log has a status while `P` exactly when the event of this status came while
`P`, for a `P` that the events without status leave alone. -/
theorem exists_prefix_status_iff {P : List PsbtSessionEvent → Prop} {status : PsbtSessionStatus}
    (hne : status ≠ .pending) {log : List PsbtSessionEvent}
    (hquiet : ∀ pre e post, e.status = some status → (∀ x ∈ post, x.status = none) →
      P (pre ++ e :: post) → P (pre ++ [e])) :
    (∃ pre, pre <+: log ∧ P pre ∧ PsbtSessionStatus.ofLog pre = status) ↔
      ∃ pre e post, log = pre ++ e :: post ∧ e.status = some status ∧ P (pre ++ [e]) := by
  constructor
  · rintro ⟨pre, ⟨rest, rfl⟩, hP, hstatus⟩
    obtain ⟨before, e, after, rfl, he, hafter⟩ := (ofLog_eq_iff hne).mp hstatus
    exact ⟨before, e, after ++ rest, by simp, he, hquiet before e after he hafter hP⟩
  · rintro ⟨pre, e, post, rfl, he, hP⟩
    refine ⟨pre ++ [e], ⟨post, by simp⟩, hP, ?_⟩
    rw [PsbtSessionStatus.ofLog_concat, he]
    rfl

/-- Some prefix of a log is spent exactly when an invalidation follows the sighting. -/
theorem exists_spent_prefix_iff {log : List PsbtSessionEvent} :
    (∃ pre, pre <+: log ∧ SightingSpent pre) ↔ InvalidatedAfterSighting log := by
  unfold SightingSpent InvalidatedAfterSighting
  rw [exists_prefix_status_iff (by simp)]
  · constructor
    · rintro ⟨pre, e, post, rfl, he, x, hx, hseen⟩
      cases e with
      | invalidated reason =>
        rcases List.mem_append.mp hx with hx | hx
        · exact ⟨pre, reason, post, rfl, x, hx, hseen⟩
        · obtain rfl := List.mem_singleton.mp hx
          exact absurd hseen (by simp [PsbtSessionEvent.isBroadcastSeen])
      | _ => exact absurd he (by simp [PsbtSessionEvent.status])
    · rintro ⟨pre, reason, post, rfl, x, hx, hseen⟩
      exact ⟨pre, _, post, rfl, rfl, x, List.mem_append_left _ hx, hseen⟩
  · rintro pre e post he hpost ⟨x, hx, hseen⟩
    refine ⟨x, ?_, hseen⟩
    rw [← List.singleton_append, ← List.append_assoc] at hx
    refine (List.mem_append.mp hx).resolve_right fun hx => ?_
    have hnone := hpost x hx
    cases x <;> simp_all [PsbtSessionEvent.status, PsbtSessionEvent.isBroadcastSeen]

/-- A session whose transaction was seen has its finalization recorded. -/
theorem Grammatical.finalization_of_sighting {s : PsbtSession} (h : Grammatical s)
    (hseen : ∃ e ∈ s.log, e.isBroadcastSeen = true) : s.finalization ≠ none := by
  obtain ⟨e, he, hb⟩ := hseen
  obtain ⟨x, hx, hf⟩ := finalized_of_admitted h.admitted he (Or.inl hb)
  cases x with
  | finalized txid hash sigsUsed => simp [h.finalization_eq hx]
  | _ => exact absurd hf (by simp [PsbtSessionEvent.isFinalized])

/-- All sightings of a state are shown exactly when the one in its log is not spent. -/
theorem forall_markBroadcastSeen_acknowledges_iff {s : PsbtSession} (h : Grammatical s) :
    (∀ txid, Acknowledges (s.markBroadcastSeen txid) [.broadcast, .confirmed]) ↔
      ¬ SightingSpent s.log := by
  constructor
  · intro hall hspent
    obtain ⟨f, hf⟩ := Option.ne_none_iff_exists'.mp (h.finalization_of_sighting hspent.1)
    exact (markBroadcastSeen_acknowledges_iff h f.txid).mp (hall f.txid) ⟨by rw [hf]; rfl, hspent⟩
  · intro hspent txid
    exact (markBroadcastSeen_acknowledges_iff h txid).mpr fun hbad => hspent hbad.2

/-- **Accepted sightings are reflected, exactly.** In any state of any session, an accepted sighting
leaves it `Broadcast` or `Confirmed` unless it is one of the finalized transaction, which was seen
before and is `Invalidated` now; and it does so in all states of a run exactly when the run records
no invalidation after the sighting. -/
theorem sightings_reflected_iff {n : NewPsbtSession} {s₀ : PsbtSession}
    (hs : tryFromEvents (.load n.id n.intoEvents.iterAll) = .ok s₀)
    (cs : List PsbtSessionCommand) :
    (∀ txid, Acknowledges ((s₀.run cs).markBroadcastSeen txid) [.broadcast, .confirmed] ↔
      ¬ ((s₀.run cs).finalization.map FinalizationRecord.txid = some txid ∧
        SightingSpent (s₀.run cs).log)) ∧
    ((∀ cs₁, cs₁ <+: cs → ∀ txid,
        Acknowledges ((s₀.run cs₁).markBroadcastSeen txid) [.broadcast, .confirmed]) ↔
      ¬ InvalidatedAfterSighting (s₀.run cs).log) := by
  obtain ⟨hevents, hloaded⟩ := tryFromEvents_eq_ok_iff.mp hs
  obtain rfl := hloaded.eq_proposed hevents
  have hgram := (Grammatical.proposed hloaded).run
  refine ⟨markBroadcastSeen_acknowledges_iff (hgram cs), ?_⟩
  simp only [forall_markBroadcastSeen_acknowledges_iff (hgram _)]
  rw [forall_states_not_iff (P := SightingSpent) (by simp [SightingSpent]) n cs,
    exists_spent_prefix_iff]

/-- The session of `soloSession`, as far as its finalization. -/
def finalizeSolo : List PsbtSessionCommand :=
  [.recordPsbtCreated ⟨Vector.replicate 32 0⟩, .addSignature 1 ⟨Vector.replicate 32 1⟩,
    .finalize ⟨9⟩ ⟨Vector.replicate 32 2⟩ [1]]

theorem sightings_reflected_solo :
    (∀ cs₁, cs₁ <+: finalizeSolo → ∀ txid, Acknowledges
        ((soloSession.proposed.run cs₁).markBroadcastSeen txid) [.broadcast, .confirmed]) ↔
      ¬ InvalidatedAfterSighting (soloSession.proposed.run finalizeSolo).log :=
  (@sightings_reflected_iff soloSession soloSession.proposed (by decide) finalizeSolo).2

/-- **A transaction seen again stays invalidated**: its second sighting, after a reorganisation, is
answered as already applied. -/
theorem resighted_stays_invalidated :
    ((soloSession.proposed.run
        (finalizeSolo ++ [.markBroadcastSeen ⟨9⟩, .invalidate .reorged])).markBroadcastSeen ⟨9⟩).1 =
      .ok .alreadyApplied ∧
    ((soloSession.proposed.run
        (finalizeSolo ++ [.markBroadcastSeen ⟨9⟩, .invalidate .reorged])).markBroadcastSeen
          ⟨9⟩).2.status = .invalidated :=
  ⟨rfl, rfl⟩

/-! ## Invalidations -/

/-- The first sighting was recorded while the newest of `Confirmed` and `Invalidated` was
`Invalidated`. -/
def SightedAfterInvalidation (log : List PsbtSessionEvent) : Prop :=
  ∃ pre txid post, log = pre ++ .broadcastSeen txid :: post ∧
    latest PsbtSessionEvent.tip pre = some .invalidated

/-- The session is shown as seen, and the guard of `invalidate` still finds an invalidation. -/
def InvalidationSpent (log : List PsbtSessionEvent) : Prop :=
  latest PsbtSessionEvent.tip log = some .invalidated ∧
    PsbtSessionStatus.ofLog log = .broadcast

/-- Status `Confirmed` is that of a newest `Confirmed`. -/
theorem tip_of_status_confirmed {log : List PsbtSessionEvent}
    (h : PsbtSessionStatus.ofLog log = .confirmed) :
    latest PsbtSessionEvent.tip log = some .confirmed := by
  obtain ⟨pre, e, post, rfl, he, hpost⟩ := (ofLog_eq_iff (by simp)).mp h
  refine latest_eq_some_iff.mpr ⟨pre, e, post, rfl, ?_, fun x hx => ?_⟩
  · cases e <;> simp_all [PsbtSessionEvent.status, PsbtSessionEvent.tip]
  · have hnone := hpost x hx
    cases x <;> simp_all [PsbtSessionEvent.status, PsbtSessionEvent.tip]

/-- An invalidation is acknowledged and not shown exactly when it is spent. -/
theorem invalidate_acknowledges_iff {s : PsbtSession} (h : Grammatical s)
    (reason : InvalidationReason) :
    Acknowledges (s.invalidate reason) [.invalidated] ↔ ¬ InvalidationSpent s.log := by
  unfold invalidate
  split
  · rename_i hguard
    have htip := guard_invalidated_iff.mp hguard
    obtain ⟨x, hx, hsome⟩ := latest_mem htip
    rw [acknowledges_ok, InvalidationSpent, and_iff_right htip]
    rcases status_of_chain h.admitted hx (Or.inr (by simp [hsome])) with hs | hs | hs
    · simp [status, hs]
    · exact absurd (htip.symm.trans (tip_of_status_confirmed hs)) (by simp)
    · simp [status, hs]
  · rename_i hguard
    have hfresh : ¬ InvalidationSpent s.log :=
      fun hspent => hguard (guard_invalidated_iff.mpr hspent.1)
    refine iff_of_true ?_ hfresh
    split
    · rw [acknowledges_ok]
      simp [status, log, PsbtSessionEvent.status]
    · rw [acknowledges_ok]
      simp [status, log, PsbtSessionEvent.status]
    · exact acknowledges_error

/-- Some prefix of a log is spent exactly when a first sighting follows an invalidation that no
confirmation has answered. -/
theorem exists_invalidation_spent_iff {log : List PsbtSessionEvent} :
    (∃ pre, pre <+: log ∧ InvalidationSpent pre) ↔ SightedAfterInvalidation log := by
  unfold InvalidationSpent SightedAfterInvalidation
  rw [exists_prefix_status_iff (by simp)]
  · constructor
    · rintro ⟨pre, e, post, rfl, he, htip⟩
      cases e with
      | broadcastSeen txid =>
        rw [latest_concat] at htip
        exact ⟨pre, txid, post, rfl, htip⟩
      | _ => exact absurd he (by simp [PsbtSessionEvent.status])
    · rintro ⟨pre, txid, post, rfl, htip⟩
      refine ⟨pre, _, post, rfl, rfl, ?_⟩
      rw [latest_concat, htip]
      rfl
  · intro pre e post he hpost htip
    have hquiet : latest PsbtSessionEvent.tip post = none :=
      latest_eq_none_iff.mpr fun x hx => by
        have hnone := hpost x hx
        cases x <;> simp_all [PsbtSessionEvent.status, PsbtSessionEvent.tip]
    rw [← List.singleton_append, ← List.append_assoc, latest_append, hquiet] at htip
    exact htip

/-- **Accepted invalidations are reflected, exactly.** In any state of any session, an accepted
invalidation leaves it `Invalidated` unless it is `Broadcast` while the newest of `Confirmed` and
`Invalidated` is `Invalidated`; and it does so in all states of a run exactly when the run records
no sighting over an invalidation. -/
theorem invalidations_reflected_iff {n : NewPsbtSession} {s₀ : PsbtSession}
    (hs : tryFromEvents (.load n.id n.intoEvents.iterAll) = .ok s₀)
    (cs : List PsbtSessionCommand) :
    (∀ reason, Acknowledges ((s₀.run cs).invalidate reason) [.invalidated] ↔
      ¬ InvalidationSpent (s₀.run cs).log) ∧
    ((∀ cs₁, cs₁ <+: cs → ∀ reason,
        Acknowledges ((s₀.run cs₁).invalidate reason) [.invalidated]) ↔
      ¬ SightedAfterInvalidation (s₀.run cs).log) := by
  obtain ⟨hevents, hloaded⟩ := tryFromEvents_eq_ok_iff.mp hs
  obtain rfl := hloaded.eq_proposed hevents
  have hgram := (Grammatical.proposed hloaded).run
  refine ⟨invalidate_acknowledges_iff (hgram cs), ?_⟩
  simp only [invalidate_acknowledges_iff (hgram _)]
  have hany : ∀ cs₁, (InvalidationReason → ¬ InvalidationSpent (n.proposed.run cs₁).log) ↔
      ¬ InvalidationSpent (n.proposed.run cs₁).log :=
    fun _ => ⟨fun h => h .reorged, fun h _ => h⟩
  simp only [hany]
  rw [forall_states_not_iff (P := InvalidationSpent) (by simp [InvalidationSpent]) n cs,
    exists_invalidation_spent_iff]

theorem invalidations_reflected_solo :
    (∀ cs₁, cs₁ <+: finalizeSolo → ∀ reason, Acknowledges
        ((soloSession.proposed.run cs₁).invalidate reason) [.invalidated]) ↔
      ¬ SightedAfterInvalidation (soloSession.proposed.run finalizeSolo).log :=
  (@invalidations_reflected_iff soloSession soloSession.proposed (by decide) finalizeSolo).2

/-- **An older invalidation swallows a newer one**: the transaction is sighted for the first time
after a reorganisation, and its eviction from the mempool is answered as already applied. -/
theorem older_invalidation_swallows :
    (soloSession.proposed.run (finalizeSolo ++
        [.confirm ⟨9⟩ 100 ⟨1⟩, .invalidate .reorged, .markBroadcastSeen ⟨9⟩])).status =
      .broadcast ∧
    ((soloSession.proposed.run (finalizeSolo ++
        [.confirm ⟨9⟩ 100 ⟨1⟩, .invalidate .reorged, .markBroadcastSeen ⟨9⟩])).invalidate
          .mempoolEvicted).1 = .ok .alreadyApplied ∧
    ((soloSession.proposed.run (finalizeSolo ++
        [.confirm ⟨9⟩ 100 ⟨1⟩, .invalidate .reorged, .markBroadcastSeen ⟨9⟩])).invalidate
          .mempoolEvicted).2.status = .broadcast :=
  ⟨rfl, rfl, rfl⟩

/-! ## Cancellations -/

/-- The chain has spoken after a cancellation. -/
def ChainAfterCancellation (log : List PsbtSessionEvent) : Prop :=
  ∃ pre cancelledBy reason post, log = pre ++ .cancelled cancelledBy reason :: post ∧
    ∃ e ∈ post, e.isBroadcastSeen = true ∨ e.tip ≠ none

/-- What `cancel` promises of a state: it is acknowledged only where it shows, and refused once
the transaction is out. -/
structure CancelsEarly (s : PsbtSession) (cancelledBy : UserId) (reason : String) : Prop where
  shown : Acknowledges (s.cancel cancelledBy reason) [.cancelled]
  refused : s.status ∈ [.broadcast, .confirmed, .invalidated] →
    s.cancel cancelledBy reason = (.error (.cannotCancel s.id s.status), s)

/-- After a cancellation only the chain changes the status. -/
theorem chainAfterCancellation_iff {keystores : List KeyFingerprint}
    {log : List PsbtSessionEvent} (h : Admitted (Admits keystores) log) :
    ChainAfterCancellation log ↔
      (∃ e ∈ log, e.isCancelled = true) ∧ PsbtSessionStatus.ofLog log ≠ .cancelled := by
  constructor
  · rintro ⟨pre, cancelledBy, reason, post, rfl, e, he, hchain⟩
    refine ⟨⟨.cancelled cancelledBy reason, by simp, rfl⟩, fun hstatus => ?_⟩
    have hmem : e ∈ pre ++ .cancelled cancelledBy reason :: post :=
      List.mem_append_right _ (List.mem_cons_of_mem _ he)
    rcases status_of_chain h hmem hchain with hs | hs | hs <;>
      exact absurd (hstatus.symm.trans hs) (by simp)
  · rintro ⟨⟨c, hc, hcancelled⟩, hstatus⟩
    cases c with
    | cancelled cancelledBy reason =>
      obtain ⟨pre, post, rfl⟩ := List.append_of_mem hc
      refine ⟨pre, cancelledBy, reason, post, rfl, ?_⟩
      by_contra hquiet
      refine hstatus ((ofLog_eq_iff (by simp)).mpr ⟨pre, _, post, rfl, rfl, fun x hx => ?_⟩)
      obtain ⟨mid, rest, rfl⟩ := List.append_of_mem hx
      -- what the grammar admits behind the cancellation has no status or is the chain's
      have ha := h (pre ++ .cancelled cancelledBy reason :: mid) x rest (by simp)
      have hbefore : PsbtSessionEvent.cancelled cancelledBy reason ∈
          pre ++ .cancelled cancelledBy reason :: mid := by simp
      cases x with
      | initialized | signatureAdded => rfl
      | psbtCreated => exact absurd (ha _ hbefore) (by simp [PsbtSessionEvent.status])
      | finalized => exact absurd (ha.2 _ hbefore).2 (by simp [PsbtSessionEvent.isCancelled])
      | cancelled => exact absurd (ha _ hbefore).1 (by simp [PsbtSessionEvent.isCancelled])
      | broadcastSeen | confirmed | invalidated =>
        exact absurd ⟨_, hx, by simp [PsbtSessionEvent.isBroadcastSeen, PsbtSessionEvent.tip]⟩
          hquiet
    | _ => exact absurd hcancelled (by simp [PsbtSessionEvent.isCancelled])

/-- A cancellation keeps its promise exactly while the chain has not overruled one. -/
theorem cancelsEarly_iff {s : PsbtSession} (h : Grammatical s) (cancelledBy : UserId)
    (reason : String) :
    CancelsEarly s cancelledBy reason ↔ ¬ ChainAfterCancellation s.log := by
  rw [chainAfterCancellation_iff h.admitted]
  by_cases hcancelled : ∃ e ∈ s.log, e.isCancelled = true
  · rw [and_iff_right hcancelled, not_not]
    have hguard : s.guard PsbtSessionEvent.isCancelled (fun _ => false) = true :=
      alreadyApplied_iff_exists.mpr hcancelled
    have hanswer : s.cancel cancelledBy reason = (.ok .alreadyApplied, s) := if_pos hguard
    constructor
    · intro hc
      have hshown := hc.shown
      rw [hanswer, acknowledges_ok] at hshown
      exact List.mem_singleton.mp hshown
    · intro hstatus
      refine ⟨?_, fun hchain => ?_⟩
      · rw [hanswer, acknowledges_ok]
        exact List.mem_singleton.mpr hstatus
      · rw [show s.status = .cancelled from hstatus] at hchain
        exact absurd hchain (by simp)
  · refine iff_of_true ?_ (fun hbad => hcancelled hbad.1)
    have hguard : ¬ s.guard PsbtSessionEvent.isCancelled (fun _ => false) = true :=
      fun hg => hcancelled (alreadyApplied_iff_exists.mp hg)
    have hshows : Acknowledges (.ok (.executed ()), { s with
        events := s.events.push (.cancelled cancelledBy reason) }) [.cancelled] := by
      rw [acknowledges_ok]
      simp [status, log, PsbtSessionEvent.status]
    constructor
    · unfold cancel
      rw [if_neg hguard]
      split
      · exact hshows
      · exact hshows
      · exact hshows
      · exact acknowledges_error
    · intro hchain
      unfold cancel
      rw [if_neg hguard]
      split
      · rename_i hs
        exact absurd hchain (by simp [hs])
      · rename_i hs
        exact absurd hchain (by simp [hs])
      · rename_i hs
        exact absurd hchain (by simp [hs])
      · rfl

/-- The chain goes on having spoken. -/
theorem ChainAfterCancellation.of_prefix {log log' : List PsbtSessionEvent}
    (h : ChainAfterCancellation log) (hlog : log <+: log') : ChainAfterCancellation log' := by
  obtain ⟨pre, cancelledBy, reason, post, rfl, e, he, hchain⟩ := h
  obtain ⟨rest, rfl⟩ := hlog
  exact ⟨pre, cancelledBy, reason, post ++ rest, by simp, e, List.mem_append_left _ he, hchain⟩

/-- **Cancellation is acknowledged before broadcast only, exactly** until the chain speaks after
a cancellation: in any state of any session, and in all states of a run. -/
theorem cancellations_reflected_iff {n : NewPsbtSession} {s₀ : PsbtSession}
    (hs : tryFromEvents (.load n.id n.intoEvents.iterAll) = .ok s₀)
    (cs : List PsbtSessionCommand) :
    (∀ cancelledBy reason, CancelsEarly (s₀.run cs) cancelledBy reason ↔
      ¬ ChainAfterCancellation (s₀.run cs).log) ∧
    ((∀ cs₁, cs₁ <+: cs → ∀ cancelledBy reason, CancelsEarly (s₀.run cs₁) cancelledBy reason) ↔
      ¬ ChainAfterCancellation (s₀.run cs).log) := by
  obtain ⟨hevents, hloaded⟩ := tryFromEvents_eq_ok_iff.mp hs
  obtain rfl := hloaded.eq_proposed hevents
  have hgram := (Grammatical.proposed hloaded).run
  refine ⟨cancelsEarly_iff (hgram cs), fun h => ?_, ?_⟩
  · exact (cancelsEarly_iff (hgram cs) ⟨0⟩ "").mp (h cs List.prefix_rfl ⟨0⟩ "")
  · rintro hno cs₁ ⟨cs₂, rfl⟩ cancelledBy reason
    refine (cancelsEarly_iff (hgram cs₁) cancelledBy reason).mpr fun hbad => hno ?_
    rw [run_append]
    exact hbad.of_prefix (log_prefix_run _ cs₂)

theorem cancellations_reflected_solo :
    (∀ cs₁, cs₁ <+: finalizeSolo → ∀ cancelledBy reason,
        CancelsEarly (soloSession.proposed.run cs₁) cancelledBy reason) ↔
      ¬ ChainAfterCancellation (soloSession.proposed.run finalizeSolo).log :=
  (@cancellations_reflected_iff soloSession soloSession.proposed (by decide) finalizeSolo).2

/-- **Cancelling a transaction that is out is acknowledged** when it was cancelled before it was
seen: the answer is that the work is done, and the status stays `Broadcast`. -/
theorem cancelled_then_sighted_acknowledged :
    (soloSession.proposed.run (finalizeSolo ++
        [.cancel ⟨7⟩ "abandoned", .markBroadcastSeen ⟨9⟩])).status = .broadcast ∧
    ((soloSession.proposed.run (finalizeSolo ++
        [.cancel ⟨7⟩ "abandoned", .markBroadcastSeen ⟨9⟩])).cancel ⟨7⟩ "abandoned").1 =
      .ok .alreadyApplied ∧
    ((soloSession.proposed.run (finalizeSolo ++
        [.cancel ⟨7⟩ "abandoned", .markBroadcastSeen ⟨9⟩])).cancel ⟨7⟩ "abandoned").2.status =
      .broadcast :=
  ⟨rfl, rfl, rfl⟩

end PsbtSession

end Kota
