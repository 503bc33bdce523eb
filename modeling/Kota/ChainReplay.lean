import Kota.Jobs
import Kota.PsbtSession.ChainView

/-!
# Delivering chain observations twice

A restarted sync delivers observations it has already delivered.

* `Tracks` says that a session log is in a `ChainView`. Every log written by commands is in one
  (`exists_tracks`), and **`Tracks.apply`** is the simulation: the entity accepts an observation
  when the view does, and moves with it.
* `deliver` is `apply_chain_observation` over a sequence; `deliver_spec` carries the simulation
  over to the table.
* **`redelivery_converges_iff`**: when a second delivery leaves the status as it was.
* The sequence `Confirmed, Invalidated, Broadcast` does not converge: the sighting that the first
  delivery ends with is not repeated by the second (`late_sighting_diverges`).
-/

namespace Kota

open EventLog

/-! ## The entity moves as the view does -/

namespace ChainObservation

def kind : ChainObservation → ObservationKind
  | .broadcast _ => .broadcast
  | .confirmed .. => .confirmed
  | .invalidated _ => .invalidated

/-- The observation is about the finalized transaction, as far as it names one. -/
def About (f : FinalizationRecord) : ChainObservation → Prop
  | .broadcast txid => f.txid = txid
  | .confirmed txid _ _ => f.txid = txid
  | .invalidated _ => True

end ChainObservation

/-- The log is in the view, with the status `base` while the chain has not spoken. -/
structure Tracks (base : PsbtSessionStatus) (log : List PsbtSessionEvent) (v : ChainView) :
    Prop where
  valid : v.Valid
  seen : (∃ e ∈ log, e.isBroadcastSeen = true) ↔ v.seen = true
  tip : latest PsbtSessionEvent.tip log = v.phase.tip
  status : PsbtSessionStatus.ofLog log = v.phase.status.getD base
  off_chain : base ≠ .broadcast ∧ base ≠ .confirmed ∧ base ≠ .invalidated

section Simulation

variable {base : PsbtSessionStatus} {s : PsbtSession} {v : ChainView} {f : FinalizationRecord}

/-- The status tells the phase, as far as the commands look. -/
theorem Tracks.status_eq_confirmed (h : Tracks base s.log v) :
    s.status = .confirmed ↔ v.phase = .confirmed := by
  have hstatus : s.status = v.phase.status.getD base := h.status
  have hbase := h.off_chain
  cases hp : v.phase <;> simp [hstatus, hp, ChainPhase.status, hbase.2.1]

/-- Two logs with the same start have the same status when their phases have. -/
theorem Tracks.status_eq_iff {s₁ s₂ : PsbtSession} {v₁ v₂ : ChainView}
    (h₁ : Tracks base s₁.log v₁) (h₂ : Tracks base s₂.log v₂) :
    s₂.status = s₁.status ↔ v₂.phase.status = v₁.phase.status := by
  have hs₁ : s₁.status = v₁.phase.status.getD base := h₁.status
  have hs₂ : s₂.status = v₂.phase.status.getD base := h₂.status
  obtain ⟨hb, hc, hi⟩ := h₁.off_chain
  rw [hs₁, hs₂]
  constructor
  · intro heq
    cases hp₁ : v₁.phase <;> cases hp₂ : v₂.phase <;>
      simp_all [ChainPhase.status, eq_comm]
  · exact fun heq => by rw [heq]

theorem Tracks.of_push {log : List PsbtSessionEvent} {e : PsbtSessionEvent} {v' : ChainView}
    (h : Tracks base log v) {k : ObservationKind} (hk : v.observe k = some v')
    (hseen : v'.seen = (v.seen || e.isBroadcastSeen))
    (htip : v'.phase.tip = e.tip.or v.phase.tip) (hstatus : e.status = v'.phase.status)
    (hspoken : v'.phase ≠ .idle) : Tracks base (log ++ [e]) v' where
  valid := h.valid.observe hk
  seen := by
    rw [hseen, Bool.or_eq_true, ← h.seen]
    simp [or_and_right, exists_or]
  tip := by rw [latest_concat, htip, h.tip]
  status := by
    rw [PsbtSessionStatus.ofLog_concat, hstatus]
    cases hp : v'.phase with
    | idle => exact absurd hp hspoken
    | _ => rfl
  off_chain := h.off_chain

theorem Tracks.markBroadcastSeen (h : Tracks base s.log v) (hf : s.finalization = some f) :
    ∃ v' a, v.observe .broadcast = some v' ∧ (s.markBroadcastSeen f.txid).1 = .ok a ∧
      Tracks base (s.markBroadcastSeen f.txid).2.log v' := by
  have hguard : s.guard PsbtSessionEvent.isBroadcastSeen (fun _ => false) = true ↔
      v.seen = true := alreadyApplied_iff_exists.trans h.seen
  have hcommand : s.markBroadcastSeen f.txid =
      if s.guard PsbtSessionEvent.isBroadcastSeen (fun _ => false) then (.ok .alreadyApplied, s)
      else if s.status = .confirmed then (.ok .alreadyApplied, s)
      else (.ok (.executed ()), s.record (.broadcastSeen f.txid)) := by
    simp [PsbtSession.markBroadcastSeen, PsbtSession.record, hf]
  rw [hcommand]
  split
  · rename_i hseen
    exact ⟨v, .alreadyApplied, by simp [ChainView.observe, hguard.mp hseen], rfl, h⟩
  · rename_i hseen
    rw [hguard, Bool.not_eq_true] at hseen
    split
    · rename_i hp
      rw [h.status_eq_confirmed] at hp
      exact ⟨v, .alreadyApplied, by simp [ChainView.observe, hp], rfl, h⟩
    · rename_i hp
      rw [h.status_eq_confirmed] at hp
      have hobserve : v.observe .broadcast = some ⟨true, v.phase.sight⟩ := by
        simp [ChainView.observe, hseen, hp]
      refine ⟨_, .executed (), hobserve, rfl, ?_⟩
      rw [PsbtSession.record_log]
      refine h.of_push hobserve (by simp [PsbtSessionEvent.isBroadcastSeen]) ?_ ?_ ?_
      · cases hphase : v.phase <;> first
          | rfl
          | exact absurd hphase hp
      · cases v.phase <;> rfl
      · cases v.phase <;> simp [ChainPhase.sight]

theorem Tracks.confirm (h : Tracks base s.log v) (hf : s.finalization = some f) (height : UInt64)
    (blockHash : BlockHash) :
    ∃ v' a, v.observe .confirmed = some v' ∧ (s.confirm f.txid height blockHash).1 = .ok a ∧
      Tracks base (s.confirm f.txid height blockHash).2.log v' := by
  have hcommand : s.confirm f.txid height blockHash =
      if s.guard PsbtSessionEvent.isConfirmed PsbtSessionEvent.isInvalidated then
        (.ok .alreadyApplied, s)
      else (.ok (.executed ()), s.record (.confirmed f.txid height blockHash)) := by
    simp [PsbtSession.confirm, PsbtSession.record, hf]
  rw [hcommand]
  split
  · rename_i hguard
    rw [PsbtSession.guard_confirmed_iff, h.tip] at hguard
    refine ⟨v, .alreadyApplied, ?_, rfl, h⟩
    obtain ⟨seen, p⟩ := v
    cases p <;> first
      | rfl
      | exact absurd hguard (by simp [ChainPhase.tip])
  · refine ⟨⟨v.seen, .confirmed⟩, .executed (), rfl, rfl, ?_⟩
    rw [PsbtSession.record_log]
    exact h.of_push (k := .confirmed) rfl (by simp [PsbtSessionEvent.isBroadcastSeen]) rfl rfl
      (by simp)

theorem Tracks.invalidate (h : Tracks base s.log v) (reason : InvalidationReason) :
    (v.phase = .idle ∧ ∃ e, (s.invalidate reason).1 = .error e) ∨
    ∃ v' a, v.observe .invalidated = some v' ∧ (s.invalidate reason).1 = .ok a ∧
      Tracks base (s.invalidate reason).2.log v' := by
  have hstatus : s.status = v.phase.status.getD base := h.status
  obtain ⟨hb1, hb2, hb3⟩ := h.off_chain
  unfold PsbtSession.invalidate
  split
  · rename_i hguard
    rw [PsbtSession.guard_invalidated_iff, h.tip] at hguard
    refine Or.inr ⟨v, .alreadyApplied, ?_, rfl, h⟩
    obtain ⟨seen, p⟩ := v
    cases p <;> simp_all [ChainPhase.tip, ChainView.observe, ChainPhase.settle]
  · rename_i hguard
    rw [PsbtSession.guard_invalidated_iff, h.tip] at hguard
    have hpush : v.phase = .sighted ∨ v.phase = .confirmed →
        v.observe .invalidated = some ⟨v.seen, .invalidated⟩ ∧
          Tracks base (s.record (.invalidated reason)).log ⟨v.seen, .invalidated⟩ := by
      intro hp
      have hobserve : v.observe .invalidated = some ⟨v.seen, .invalidated⟩ := by
        rcases hp with hp | hp <;> simp [ChainView.observe, hp, ChainPhase.settle]
      refine ⟨hobserve, ?_⟩
      rw [PsbtSession.record_log]
      exact h.of_push hobserve (by simp [PsbtSessionEvent.isBroadcastSeen]) rfl rfl (by simp)
    cases hp : v.phase with
    | idle =>
      refine Or.inl ⟨rfl, ?_⟩
      rw [hp] at hstatus
      split
      · exact absurd (hstatus.symm.trans ‹_›) hb1
      · exact absurd (hstatus.symm.trans ‹_›) hb2
      · exact ⟨_, rfl⟩
    | sighted =>
      obtain ⟨hobserve, htracks⟩ := hpush (Or.inl hp)
      rw [hp] at hstatus
      rw [hstatus]
      exact Or.inr ⟨_, _, hobserve, rfl, htracks⟩
    | confirmed =>
      obtain ⟨hobserve, htracks⟩ := hpush (Or.inr hp)
      rw [hp] at hstatus
      rw [hstatus]
      exact Or.inr ⟨_, _, hobserve, rfl, htracks⟩
    | invalidated => exact absurd (by rw [hp]; rfl) hguard
    | resighted => exact absurd (by rw [hp]; rfl) hguard

/-- **The entity accepts an observation exactly when it is about the finalized transaction and
the view moves**, and then its log is in the view moved to. -/
theorem Tracks.apply (h : Tracks base s.log v) (hf : s.finalization = some f)
    (o : ChainObservation) :
    (∃ v' a, o.About f ∧ v.observe o.kind = some v' ∧ (s.apply o.command).1 = .ok a ∧
      Tracks base (s.apply o.command).2.log v') ∨
    (¬ (o.About f ∧ ∃ v', v.observe o.kind = some v') ∧
      ∃ e, (s.apply o.command).1 = .error e) := by
  cases o with
  | broadcast txid =>
    by_cases htxid : f.txid = txid
    · subst htxid
      obtain ⟨v', a, hv', ha, htracks⟩ := h.markBroadcastSeen hf
      exact Or.inl ⟨v', a, rfl, hv', ha, htracks⟩
    · refine Or.inr ⟨fun hm => htxid hm.1, .txidMismatch, ?_⟩
      simp [ChainObservation.command, PsbtSession.apply, PsbtSession.markBroadcastSeen, hf, htxid]
  | confirmed txid height blockHash =>
    by_cases htxid : f.txid = txid
    · subst htxid
      obtain ⟨v', a, hv', ha, htracks⟩ := h.confirm hf height blockHash
      exact Or.inl ⟨v', a, rfl, hv', ha, htracks⟩
    · refine Or.inr ⟨fun hm => htxid hm.1, .txidMismatch, ?_⟩
      simp [ChainObservation.command, PsbtSession.apply, PsbtSession.confirm, hf, htxid]
  | invalidated reason =>
    rcases h.invalidate reason with ⟨hidle, he⟩ | ⟨v', a, hv', ha, htracks⟩
    · refine Or.inr ⟨?_, he⟩
      rintro ⟨-, v', hv'⟩
      exact absurd hv' (by simp [ChainObservation.kind, ChainView.observe, hidle])
    · exact Or.inl ⟨v', a, trivial, hv', ha, htracks⟩

theorem finalization_apply (s : PsbtSession) (o : ChainObservation) :
    (s.apply o.command).2.finalization = s.finalization := by
  rcases PsbtSession.apply_spec s o.command with ⟨e, hs, he⟩ | ⟨-, he⟩
  · rw [he]
    cases o <;> cases hs <;> rfl
  · rw [he]

/-- The last word on the chain in any log whose status is `Confirmed`. -/
theorem tip_of_status_confirmed {log : List PsbtSessionEvent}
    (h : PsbtSessionStatus.ofLog log = .confirmed) :
    latest PsbtSessionEvent.tip log = some .confirmed := by
  induction log using List.reverseRecOn with
  | nil => exact absurd h (by simp [PsbtSessionStatus.ofLog])
  | append_singleton log e ih =>
    rw [PsbtSessionStatus.ofLog_concat] at h
    rw [latest_concat]
    cases e <;> simp_all [PsbtSessionEvent.status, PsbtSessionEvent.tip]

/-- **Every log written by session commands is in some view.** -/
theorem exists_tracks {keystores : List KeyFingerprint} {log : List PsbtSessionEvent}
    (h : Admitted (PsbtSession.Admits keystores) log) : ∃ v base, Tracks base log v := by
  have hseen : (∃ e ∈ log, e.isBroadcastSeen = true) ↔
      log.any PsbtSessionEvent.isBroadcastSeen = true := by
    rw [List.any_eq_true]
  have hbroadcast : PsbtSessionStatus.ofLog log = .broadcast →
      log.any PsbtSessionEvent.isBroadcastSeen = true := by
    intro hs
    obtain ⟨e, he, hstatus⟩ := PsbtSession.mem_of_status hs (by simp)
    refine List.any_eq_true.mpr ⟨e, he, ?_⟩
    cases e <;> simp_all [PsbtSessionEvent.status, PsbtSessionEvent.isBroadcastSeen]
  have hinvalidated : PsbtSessionStatus.ofLog log = .invalidated →
      latest PsbtSessionEvent.tip log ≠ none := by
    intro hs hnone
    obtain ⟨e, he, hstatus⟩ := PsbtSession.mem_of_status hs (by simp)
    have := latest_eq_none_iff.mp hnone e he
    cases e <;> simp_all [PsbtSessionEvent.status, PsbtSessionEvent.tip]
  cases htip : latest PsbtSessionEvent.tip log with
  | some tip =>
    obtain ⟨x, hx, hxtip⟩ := latest_mem htip
    cases tip with
    | confirmed =>
      have hstatus := PsbtSession.status_of_tip_confirmed h htip
      exact ⟨⟨log.any PsbtSessionEvent.isBroadcastSeen, .confirmed⟩, .pending,
        ⟨fun _ => ⟨by simp, by simp⟩, fun _ => by simp⟩, hseen, htip, hstatus, by simp⟩
    | invalidated =>
      rcases PsbtSession.status_of_chain h hx (Or.inr (by simp [hxtip])) with hs | hs | hs
      · have hany := hbroadcast hs
        exact ⟨⟨log.any PsbtSessionEvent.isBroadcastSeen, .resighted⟩, .pending,
          ⟨fun hf => absurd (hany.symm.trans hf) (by simp), fun _ => by simp⟩, hseen, htip, hs,
          by simp⟩
      · exact absurd ((tip_of_status_confirmed hs).symm.trans htip) (by simp)
      · exact ⟨⟨log.any PsbtSessionEvent.isBroadcastSeen, .invalidated⟩, .pending,
          ⟨fun _ => ⟨by simp, by simp⟩, fun _ => by simp⟩, hseen, htip, hs, by simp⟩
  | none =>
    have hconfirmed : PsbtSessionStatus.ofLog log ≠ .confirmed := fun hs =>
      absurd ((tip_of_status_confirmed hs).symm.trans htip) (by simp)
    cases hany : log.any PsbtSessionEvent.isBroadcastSeen with
    | true =>
      obtain ⟨x, hx, hxseen⟩ := List.any_eq_true.mp hany
      refine ⟨⟨true, .sighted⟩, .pending, ⟨fun hf => absurd hf (by simp), fun _ => by simp⟩,
        hseen.trans (by rw [hany]), htip, ?_, by simp⟩
      rcases PsbtSession.status_of_chain h hx (Or.inl hxseen) with hs | hs | hs
      · exact hs
      · exact absurd hs hconfirmed
      · exact absurd htip (hinvalidated hs)
    | false =>
      refine ⟨⟨false, .idle⟩, PsbtSessionStatus.ofLog log, ⟨fun _ => ⟨by simp, by simp⟩,
        fun hf => absurd hf (by simp)⟩, hseen.trans (by rw [hany]), htip, rfl, ?_, hconfirmed, ?_⟩
      · intro hs
        exact absurd ((hbroadcast hs).symm.trans hany) (by simp)
      · exact fun hs => hinvalidated hs htip

end Simulation

/-! ## The platform -/

/-- Observations of session `id`, delivered in order; `none` when one is refused. -/
def deliver (sessions : PsbtSessions) (id : PsbtSessionId) :
    List ChainObservation → Option PsbtSessions
  | [] => some sessions
  | o :: rest =>
    match applyChainObservation sessions id o with
    | (.ok (), sessions) => deliver sessions id rest
    | (.error _, _) => none

/-- The status of session `id` as loaded. -/
def PsbtSessions.statusOf (sessions : PsbtSessions) (id : PsbtSessionId) :
    Except FindError PsbtSessionStatus :=
  (sessions.findById id).map PsbtSession.status

section Delivery

variable {sessions : PsbtSessions} {id : PsbtSessionId} {s : PsbtSession}

theorem PsbtSessions.Row.statusOf (h : sessions.Row id s) :
    sessions.statusOf id = .ok s.status := by
  unfold PsbtSessions.statusOf
  rw [h.found]
  rfl

/-- An observation is accepted when the command it stands for is, and leaves its result. -/
theorem applyChainObservation_spec (h : sessions.Row id s) (o : ChainObservation) :
    (∃ a sessions', (s.apply o.command).1 = .ok a ∧
      applyChainObservation sessions id o = (.ok (), sessions') ∧
      sessions'.Row id { (s.apply o.command).2 with
        events := .load id (s.apply o.command).2.log }) ∨
    (∃ e, (s.apply o.command).1 = .error e ∧
      applyChainObservation sessions id o = (.error (.session e), sessions)) := by
  unfold applyChainObservation
  rw [h.found]
  dsimp only
  cases happly : s.apply o.command with
  | mk answer s' =>
    have hs' : s' = (s.apply o.command).2 := by rw [happly]
    cases answer with
    | error e => exact Or.inr ⟨e, rfl, rfl⟩
    | ok a =>
      refine Or.inl ⟨a, ?_⟩
      cases a with
      | alreadyApplied =>
        have hsame : s' = s := by
          rcases PsbtSession.apply_spec s o.command with ⟨e, -, he⟩ | ⟨-, he⟩
          · rw [he] at happly
            exact absurd (Prod.mk.inj happly).1 (by simp)
          · rw [hs', he]
        subst hsame
        refine ⟨sessions, rfl, by simp [Idempotent.didExecute], ?_⟩
        have hevents : ({ s' with events := .load id s'.log } : PsbtSession) = s' := by
          rw [← h.events_eq]
        rw [hevents]
        exact h
      | executed u =>
        obtain ⟨sessions', hu⟩ := h.update_isOk o.command
        have hrow := h.update o.command hu
        rw [happly] at hu hrow
        refine ⟨sessions', rfl, ?_, hrow⟩
        simp [Idempotent.didExecute, PsbtSessions.persist, hu]

variable {base : PsbtSessionStatus} {v : ChainView} {f : FinalizationRecord}

/-- **A delivery on the table is a delivery on the view.** -/
theorem deliver_spec (h : sessions.Row id s) (hf : s.finalization = some f)
    (ht : Tracks base s.log v) (os : List ChainObservation) :
    (∃ sessions' s' v', (∀ o ∈ os, o.About f) ∧
      v.observeAll (os.map ChainObservation.kind) = some v' ∧
      deliver sessions id os = some sessions' ∧ sessions'.Row id s' ∧
      s'.finalization = some f ∧ Tracks base s'.log v') ∨
    (deliver sessions id os = none ∧
      ¬ ((∀ o ∈ os, o.About f) ∧ ∃ v', v.observeAll (os.map ChainObservation.kind) = some v')) := by
  induction os generalizing sessions s v with
  | nil => exact Or.inl ⟨sessions, s, v, fun o ho => absurd ho List.not_mem_nil, rfl, rfl, h, hf, ht⟩
  | cons o os ih =>
    have hstep := applyChainObservation_spec h o
    rcases ht.apply hf o with ⟨v', a, habout, hv', ha, ht'⟩ | ⟨hno, e, he⟩
    · rcases hstep with ⟨_, sessions', -, hdeliver, hrow⟩ | ⟨e, he, -⟩
      · have hlog : ({ (s.apply o.command).2 with
            events := .load id (s.apply o.command).2.log } : PsbtSession).log =
            (s.apply o.command).2.log := EntityEvents.iterAll_load _ _
        have hrest := ih hrow ((finalization_apply s o).trans hf) (hlog ▸ ht')
        simp only [deliver, hdeliver, List.map_cons, ChainView.observeAll, hv', Option.bind_some,
          List.forall_mem_cons, habout, true_and]
        exact hrest
      · exact absurd (ha.symm.trans he) (by simp)
    · rcases hstep with ⟨a, _, ha, -, -⟩ | ⟨_, -, hdeliver⟩
      · exact absurd (ha.symm.trans he) (by simp)
      · refine Or.inr ⟨by simp [deliver, hdeliver], ?_⟩
        rintro ⟨habout, v', hv'⟩
        obtain ⟨v'', hv'', -⟩ := Option.bind_eq_some_iff.mp hv'
        exact hno ⟨habout o List.mem_cons_self, v'', hv''⟩

end Delivery

/-- **Replayed observations, exactly.** Any observations that a session with a recorded
finalization accepts are accepted again, and leave the status they led to, exactly when they
converge from what its log says about the chain. -/
theorem redelivery_converges_iff {n : NewPsbtSession} {s₀ : PsbtSession}
    (hs : PsbtSession.tryFromEvents (.load n.id n.intoEvents.iterAll) = .ok s₀)
    (cs : List PsbtSessionCommand) {sessions sessions₁ : PsbtSessions}
    (hrow : sessions.find? n.id = some (s₀.run cs).log)
    (hfinal : (s₀.run cs).finalization ≠ none) {observations : List ChainObservation}
    (h₁ : deliver sessions n.id observations = some sessions₁) :
    (∃ sessions₂, deliver sessions₁ n.id observations = some sessions₂ ∧
      sessions₂.statusOf n.id = sessions₁.statusOf n.id) ↔
    Converges ((s₀.run cs).log.any PsbtSessionEvent.isBroadcastSeen)
      (latest PsbtSessionEvent.tip (s₀.run cs).log) (observations.map ChainObservation.kind) := by
  obtain ⟨hevents, hloaded⟩ := PsbtSession.tryFromEvents_eq_ok_iff.mp hs
  obtain rfl := hloaded.eq_proposed hevents
  have hgram := (PsbtSession.Grammatical.proposed hloaded).run cs
  have hid : (n.proposed.run cs).id = n.id := PsbtSession.id_run _ cs
  obtain ⟨f, hf⟩ := Option.ne_none_iff_exists'.mp hfinal
  obtain ⟨v, base, ht⟩ := exists_tracks hgram.admitted
  generalize n.proposed.run cs = s at *
  rw [← hid] at hrow h₁ ⊢
  have hstart := PsbtSessions.row_of_log hgram hrow
  have hlog : ({ s with events := .load s.id s.log } : PsbtSession).log = s.log :=
    EntityEvents.iterAll_load _ _
  rcases deliver_spec hstart hf (hlog ▸ ht) observations with
    ⟨_, s₁, v₁, habout, hv₁, hd₁, hrow₁, hf₁, ht₁⟩ | ⟨hnone, -⟩
  · obtain rfl := Option.some.inj (h₁.symm.trans hd₁)
    obtain ⟨v₂, hv₂, hiff⟩ := ChainView.deliver_twice_iff ht.valid hv₁
    rcases deliver_spec hrow₁ hf₁ ht₁ observations with
      ⟨sessions₂, s₂, v₂', -, hv₂', hd₂, hrow₂, -, ht₂⟩ | ⟨-, hno⟩
    · obtain rfl := Option.some.inj (hv₂.symm.trans hv₂')
      have hseen : s.log.any PsbtSessionEvent.isBroadcastSeen = v.seen := by
        rw [Bool.eq_iff_iff, List.any_eq_true]
        exact ht.seen
      rw [hseen, ht.tip, ← hiff]
      rw [← Tracks.status_eq_iff ht₁ ht₂]
      constructor
      · rintro ⟨sessions₂', hd, heq⟩
        obtain rfl := Option.some.inj (hd₂.symm.trans hd)
        rw [hrow₁.statusOf, hrow₂.statusOf] at heq
        exact Except.ok.inj heq
      · intro heq
        exact ⟨sessions₂, hd₂, by rw [hrow₁.statusOf, hrow₂.statusOf, heq]⟩
    · exact absurd ⟨habout, v₂, hv₂⟩ hno
  · exact absurd (h₁.symm.trans hnone) (by simp)

/-- The session of `soloSession`, finalized, alone in its table. -/
def finalizedSolo : PsbtSession :=
  PsbtSession.soloSession.proposed.run [.recordPsbtCreated ⟨Vector.replicate 32 0⟩,
    .addSignature 1 ⟨Vector.replicate 32 1⟩, .finalize ⟨9⟩ ⟨Vector.replicate 32 2⟩ [1]]

def finalizedSoloTable : PsbtSessions := ⟨[(⟨3⟩, finalizedSolo.log)]⟩

/-- A confirmation, its reorganisation, and a first sighting in the mempool. -/
def lateSighting : List ChainObservation :=
  [.confirmed ⟨9⟩ 100 ⟨1⟩, .invalidated .reorged, .broadcast ⟨9⟩]

/-- A sighting, a confirmation, its reorganisation, and the confirmation on the new chain. -/
def reorganised : List ChainObservation :=
  [.broadcast ⟨9⟩, .confirmed ⟨9⟩ 100 ⟨1⟩, .invalidated .reorged, .confirmed ⟨9⟩ 101 ⟨2⟩]

theorem redelivery_converges_reorganised :
    ∃ sessions₂, deliver ((deliver finalizedSoloTable ⟨3⟩ reorganised).getD .empty) ⟨3⟩
        reorganised = some sessions₂ ∧ sessions₂.statusOf ⟨3⟩ = .ok .confirmed :=
  (@redelivery_converges_iff PsbtSession.soloSession PsbtSession.soloSession.proposed (by decide)
    [.recordPsbtCreated ⟨Vector.replicate 32 0⟩, .addSignature 1 ⟨Vector.replicate 32 1⟩,
      .finalize ⟨9⟩ ⟨Vector.replicate 32 2⟩ [1]] finalizedSoloTable _ rfl (by decide)
    reorganised rfl).mpr (by decide)

/-- **The second delivery undoes a late sighting**: both are accepted, the first ends in
`Broadcast`, the second in `Invalidated`. -/
theorem late_sighting_diverges :
    ∃ sessions₁ sessions₂, deliver finalizedSoloTable ⟨3⟩ lateSighting = some sessions₁ ∧
      deliver sessions₁ ⟨3⟩ lateSighting = some sessions₂ ∧
      sessions₁.statusOf ⟨3⟩ = .ok .broadcast ∧ sessions₂.statusOf ⟨3⟩ = .ok .invalidated :=
  ⟨_, _, rfl, rfl, rfl, rfl⟩

end Kota
