import Kota.PsbtSession.Grammar
import Kota.Wallet.Repo

/-!
# The session repository

Model of `psbt_session/repo.rs` over the table of event logs.

`PsbtSessions.Sound` is what the table satisfies when every log was written by session commands.
A session loaded from a sound table has the grammar of `Grammar.lean`, and
`Sound.find?_update` says what writing back a command's result does to the table.
-/

namespace Kota

open EventLog

abbrev PsbtSessions := Store PsbtSessionId PsbtSessionEvent

namespace PsbtSessions

def create (sessions : PsbtSessions) (n : NewPsbtSession) :
    Except CreateError (PsbtSession × PsbtSessions) :=
  match Store.create sessions n.id n.intoEvents.iterAll with
  | none => .error .duplicateId
  | some sessions => .ok (n.proposed, sessions)

def findById (sessions : PsbtSessions) (id : PsbtSessionId) : Except FindError PsbtSession :=
  match sessions.find? id with
  | none => .error .notFound
  | some log =>
    match PsbtSession.tryFromEvents (.load id log) with
    | .error e => .error (.hydration e)
    | .ok session => .ok session

/-- Write the fresh events, unless the log grew since the session was loaded. -/
def update (sessions : PsbtSessions) (session : PsbtSession) : Except ModifyError PsbtSessions :=
  if session.events.fresh.isEmpty then .ok sessions
  else match sessions.append session.id session.events with
    | none => .error .concurrentModification
    | some sessions => .ok sessions

/-! ## What the calls do -/

theorem create_spec {sessions sessions' : PsbtSessions} {n : NewPsbtSession} {s : PsbtSession}
    (h : sessions.create n = .ok (s, sessions')) :
    s = n.proposed ∧ sessions.find? n.id = none ∧
      ∀ j, sessions'.find? j = if j = n.id then some n.proposed.log else sessions.find? j := by
  unfold create at h
  split at h
  · exact absurd h (by simp)
  · rename_i sessions'' hc
    obtain ⟨rfl, rfl⟩ := Prod.mk.inj (Except.ok.inj h)
    exact ⟨rfl, Store.create_isSome_iff.mp (by rw [hc]; rfl), Store.find?_create hc⟩

theorem findById_eq_ok_iff {sessions : PsbtSessions} {id : PsbtSessionId} {s : PsbtSession} :
    sessions.findById id = .ok s ↔
      ∃ log, sessions.find? id = some log ∧ s.events = .load id log ∧ PsbtSession.Loaded s := by
  unfold findById
  cases hlog : sessions.find? id with
  | none => simp
  | some log =>
    simp only [Option.some.injEq, exists_eq_left', ← PsbtSession.tryFromEvents_eq_ok_iff]
    cases PsbtSession.tryFromEvents (.load id log) <;> simp

theorem findById_congr {sessions sessions' : PsbtSessions} {id : PsbtSessionId}
    (h : sessions'.find? id = sessions.find? id) :
    sessions'.findById id = sessions.findById id := by
  unfold findById
  rw [h]

/-- A successful update writes nothing, or the fresh events after the log they were computed
from. -/
theorem update_spec {sessions sessions' : PsbtSessions} {s : PsbtSession}
    (h : sessions.update s = .ok sessions') :
    (s.events.fresh = [] ∧ sessions' = sessions) ∨
    ∃ log, sessions.find? s.id = some log ∧ log.length ≤ s.events.persisted.length ∧
      ∀ j, sessions'.find? j = if j = s.id then some (log ++ s.events.fresh)
        else sessions.find? j := by
  unfold update at h
  split at h
  · rename_i hempty
    exact Or.inl ⟨List.isEmpty_iff.mp hempty, (Except.ok.inj h).symm⟩
  · split at h
    · exact absurd h (by simp)
    · rename_i sessions'' happend
      obtain rfl := Except.ok.inj h
      exact Or.inr (Store.append_spec happend)

/-! ## A table of session logs -/

/-- The table holds `s` under `id`, with a log its commands could have written. -/
structure Row (sessions : PsbtSessions) (id : PsbtSessionId) (s : PsbtSession) : Prop where
  found : sessions.findById id = .ok s
  log_eq : sessions.find? id = some s.log
  id_eq : s.id = id
  events_eq : s.events = .load id s.log
  grammatical : PsbtSession.Grammatical s

/-- Every log in the table is that of a session under its own id, as its commands leave it. -/
def Sound (sessions : PsbtSessions) : Prop :=
  ∀ id log, sessions.find? id = some log → ∃ s, Row sessions id s

theorem sound_empty : Sound Store.empty := fun id log h => by
  rw [Store.find?_empty] at h
  exact absurd h (by simp)

theorem Sound.row {sessions : PsbtSessions} (h : Sound sessions) {id : PsbtSessionId}
    {s : PsbtSession} (hs : sessions.findById id = .ok s) : Row sessions id s := by
  obtain ⟨log, hlog, -⟩ := findById_eq_ok_iff.mp hs
  obtain ⟨s', hrow⟩ := h id log hlog
  obtain rfl := Except.ok.inj (hs.symm.trans hrow.found)
  exact hrow

/-- A session whose log stands in the table is what the table loads. -/
theorem row_of_log {sessions : PsbtSessions} {s : PsbtSession} (h : PsbtSession.Grammatical s)
    (hlog : sessions.find? s.id = some s.log) :
    Row sessions s.id { s with events := .load s.id s.log } := by
  have hload := h.loaded.of_log_eq (EntityEvents.iterAll_load s.id s.log)
  have hsame : ({ s with events := .load s.id s.log } : PsbtSession).log = s.log :=
    EntityEvents.iterAll_load _ _
  refine ⟨findById_eq_ok_iff.mpr ⟨_, hlog, rfl, hload⟩, ?_, rfl, ?_, hload, ?_⟩
  · rw [hsame, hlog]
  · rw [hsame]
  · rw [hsame]
    exact h.admitted

theorem Row.congr {sessions sessions' : PsbtSessions} {id : PsbtSessionId} {s : PsbtSession}
    (h : Row sessions id s) (hfind : sessions'.find? id = sessions.find? id) :
    Row sessions' id s :=
  ⟨(findById_congr hfind).trans h.found, hfind.trans h.log_eq, h.id_eq, h.events_eq, h.grammatical⟩

theorem Sound.create {sessions sessions' : PsbtSessions} (h : Sound sessions)
    {n : NewPsbtSession} (hn : PsbtSession.Loaded n.proposed) {s : PsbtSession}
    (hc : sessions.create n = .ok (s, sessions')) : Sound sessions' := by
  obtain ⟨-, -, hfind⟩ := create_spec hc
  have hlog : sessions'.find? n.id = some n.proposed.log := by
    rw [hfind, if_pos rfl]
  refine Store.forall_of_written h hfind ⟨_, row_of_log (PsbtSession.Grammatical.proposed hn) hlog⟩ ?_
  rintro j hsame ⟨s, hrow⟩
  exact ⟨s, hrow.congr hsame⟩

section Update

variable {sessions sessions' : PsbtSessions} {id : PsbtSessionId} {s : PsbtSession}

theorem Row.persisted (h : Row sessions id s) (c : PsbtSessionCommand) :
    (s.apply c).2.events.persisted = s.log := by
  rw [PsbtSession.apply_persisted, h.events_eq]
  rfl

/-- Writing back what a command left puts its log into the table, and nothing else. -/
theorem Row.find?_update (h : Row sessions id s) (c : PsbtSessionCommand)
    (hu : sessions.update (s.apply c).2 = .ok sessions') (j : PsbtSessionId) :
    sessions'.find? j = if j = id then some (s.apply c).2.log else sessions.find? j := by
  have hid : (s.apply c).2.id = id := (PsbtSession.apply_id s c).trans h.id_eq
  have hrow : sessions.find? (s.apply c).2.id = some (s.apply c).2.events.persisted := by
    rw [hid, h.log_eq, h.persisted c]
  have hfind := Store.find?_written hrow (update_spec hu) j
  rwa [hid] at hfind

/-- A command's result can be written back while the log is the one it was loaded with. -/
theorem Row.update_isOk (h : Row sessions id s) (c : PsbtSessionCommand) :
    ∃ sessions', sessions.update (s.apply c).2 = .ok sessions' := by
  unfold update
  split
  · exact ⟨_, rfl⟩
  · have hrow : sessions.find? (s.apply c).2.id = some s.log := by
      rw [PsbtSession.apply_id, h.id_eq, h.log_eq]
    obtain ⟨sessions', happend⟩ := Store.append_eq_some hrow (Nat.le_of_eq
      (congrArg List.length (h.persisted c)).symm)
    rw [happend]
    exact ⟨_, rfl⟩

/-- The row after a command's result was written back. -/
theorem Row.update (h : Row sessions id s) (c : PsbtSessionCommand)
    (hu : sessions.update (s.apply c).2 = .ok sessions') :
    Row sessions' id { (s.apply c).2 with events := .load id (s.apply c).2.log } := by
  have hid : (s.apply c).2.id = id := (PsbtSession.apply_id s c).trans h.id_eq
  have hrow := h.find?_update c hu id
  rw [if_pos rfl] at hrow
  have hgram := PsbtSession.apply_induction PsbtSession.Grammatical.record h.grammatical c
  rw [← hid] at hrow ⊢
  exact row_of_log hgram hrow

/-- **Writing back what a command left keeps the table sound.** -/
theorem Sound.update (h : Sound sessions) (hrow : Row sessions id s) (c : PsbtSessionCommand)
    (hu : sessions.update (s.apply c).2 = .ok sessions') : Sound sessions' := by
  refine Store.forall_of_written h (hrow.find?_update c hu) ⟨_, hrow.update c hu⟩ ?_
  rintro j hsame ⟨s', hrow'⟩
  exact ⟨s', hrow'.congr hsame⟩

end Update

end PsbtSessions

end Kota
