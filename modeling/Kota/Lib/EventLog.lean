import Mathlib.Data.List.Basic
import Mathlib.Data.List.Induction
import Mathlib.Data.List.Nodup

/-!
# Event logs

An event-sourced entity keeps its history as a list of events, oldest first: the events loaded
from the database followed by the events recorded since (`EntityEvents`). Commands read the
history in two ways.

* `latest f log` is the newest non-`none` value of `f`, the reading of a `for event in log.rev()`
  loop that returns at the first event it recognises.
* `alreadyApplied applied resets log` is the reading of an idempotency guard: going backwards, it
  answers `true` at the first event in `applied`, `false` at the first event in `resets`.

Both are determined on `log ++ [e]` by `e` and their value on `log` (`latest_concat`,
`alreadyApplied_concat`), which is all an induction over the history needs. A guard is a `latest`
query (`alreadyApplied_iff_latest`), so a guard and a state read off the same events can be
compared.

`Admitted admits log` states a grammar: every event of the history is admitted after the events
before it.

`Store` is the table of persisted histories. `append` writes events after position `at` and fails
as a whole when the history has grown past `at`, the effect of a unique key on
`(id, sequence number)`.
-/

namespace EventLog

variable {ι ε α : Type}

/-! ## Reading a history -/

/-- The newest non-`none` value of `f`. -/
def latest (f : ε → Option α) (log : List ε) : Option α := log.reverse.findSome? f

@[simp] theorem latest_nil (f : ε → Option α) : latest f [] = none := rfl

@[simp] theorem latest_concat (f : ε → Option α) (log : List ε) (e : ε) :
    latest f (log ++ [e]) = (f e).or (latest f log) := by
  unfold latest
  rw [List.reverse_append]
  simp only [List.reverse_cons, List.reverse_nil, List.nil_append, List.singleton_append,
    List.findSome?_cons]
  cases f e <;> rfl

theorem latest_append (f : ε → Option α) (log log' : List ε) :
    latest f (log ++ log') = (latest f log').or (latest f log) := by
  unfold latest
  rw [List.reverse_append, List.findSome?_append]

theorem latest_eq_none_iff {f : ε → Option α} {log : List ε} :
    latest f log = none ↔ ∀ e ∈ log, f e = none := by
  simp [latest, List.findSome?_eq_none_iff]

theorem latest_mem {f : ε → Option α} {log : List ε} {a : α} (h : latest f log = some a) :
    ∃ e ∈ log, f e = some a := by
  obtain ⟨e, he, hf⟩ := List.exists_of_findSome?_eq_some h
  exact ⟨e, List.mem_reverse.mp he, hf⟩

/-- The newest reading is that of an event with nothing to read after it. -/
theorem latest_eq_some_iff {f : ε → Option α} {log : List ε} {a : α} :
    latest f log = some a ↔
      ∃ pre e post, log = pre ++ e :: post ∧ f e = some a ∧ ∀ x ∈ post, f x = none := by
  constructor
  · intro h
    obtain ⟨post, e, pre, hlog, hf, hpost⟩ := List.findSome?_eq_some_iff.mp h
    refine ⟨pre.reverse, e, post.reverse, ?_, hf, fun x hx => hpost x (List.mem_reverse.mp hx)⟩
    rw [← List.reverse_reverse log, hlog]
    simp
  · rintro ⟨pre, e, post, rfl, hf, hpost⟩
    rw [← List.singleton_append, latest_append, latest_append, latest_eq_none_iff.mpr hpost]
    simp [latest, hf]

/-- When at most one event has a reading, that is what is read. -/
theorem latest_of_once {f : ε → Option α} {p : ε → Bool} (hp : ∀ e, p e = (f e).isSome)
    {log : List ε} (honce : log.countP p ≤ 1) {e : ε} {a : α} (he : e ∈ log)
    (hf : f e = some a) : latest f log = some a := by
  induction log using List.reverseRecOn with
  | nil => exact absurd he List.not_mem_nil
  | append_singleton log x ih =>
    rw [List.countP_append, List.countP_singleton] at honce
    rw [latest_concat]
    rcases List.mem_append.mp he with he | he
    · have hpos : 0 < log.countP p := List.countP_pos_iff.mpr ⟨e, he, by rw [hp, hf]; rfl⟩
      cases hx : f x with
      | none => exact ih (by omega) he
      | some b =>
        rw [if_pos (by rw [hp, hx]; rfl)] at honce
        omega
    · obtain rfl := List.mem_singleton.mp he
      rw [hf]
      rfl

/-- The scan of an idempotency guard over the history, newest event first. -/
def scan (applied resets : ε → Bool) : List ε → Bool
  | [] => false
  | e :: es => if applied e then true else if resets e then false else scan applied resets es

/-- The idempotency guard on a history. -/
def alreadyApplied (applied resets : ε → Bool) (log : List ε) : Bool :=
  scan applied resets log.reverse

@[simp] theorem alreadyApplied_nil (applied resets : ε → Bool) :
    alreadyApplied applied resets [] = false := rfl

@[simp] theorem alreadyApplied_concat (applied resets : ε → Bool) (log : List ε) (e : ε) :
    alreadyApplied applied resets (log ++ [e]) =
      if applied e then true else if resets e then false else alreadyApplied applied resets log := by
  unfold alreadyApplied
  rw [List.reverse_append]
  rfl

/-- A guard that nothing resets asks whether an applied event is anywhere in the history. -/
theorem alreadyApplied_iff_exists {applied : ε → Bool} {log : List ε} :
    alreadyApplied applied (fun _ => false) log = true ↔ ∃ e ∈ log, applied e = true := by
  induction log using List.reverseRecOn with
  | nil => simp
  | append_singleton log e ih =>
    rw [alreadyApplied_concat]
    simp only [Bool.false_eq_true, if_false, List.mem_append, List.mem_singleton]
    cases he : applied e with
    | true => simp [he]
    | false =>
      simp only [Bool.false_eq_true, if_false, ih]
      constructor
      · rintro ⟨x, hx, hp⟩
        exact ⟨x, Or.inl hx, hp⟩
      · rintro ⟨x, hx | rfl, hp⟩
        · exact ⟨x, hx, hp⟩
        · rw [he] at hp
          exact absurd hp Bool.false_ne_true

/-- A guard is a `latest` query: it fires when the newest event in `applied` or `resets` is in
`applied`. -/
theorem alreadyApplied_iff_latest {applied resets : ε → Bool} {f : ε → Option α} {a : α}
    (happ : ∀ e, applied e = true ↔ f e = some a)
    (hres : ∀ e, (applied e = false ∧ resets e = false) ↔ f e = none) (log : List ε) :
    alreadyApplied applied resets log = true ↔ latest f log = some a := by
  induction log using List.reverseRecOn with
  | nil => simp
  | append_singleton log e ih =>
    rw [alreadyApplied_concat, latest_concat]
    cases hf : f e with
    | none =>
      obtain ⟨h1, h2⟩ := (hres e).mpr hf
      simp [h1, h2, ih]
    | some b =>
      cases ha : applied e with
      | true =>
        have hb := (happ e).mp ha
        rw [hf] at hb
        simpa using hb
      | false =>
        have hne : f e ≠ some a := fun h => by
          rw [(happ e).mpr h] at ha
          exact absurd ha.symm Bool.false_ne_true
        have hr : resets e = true := by
          cases hr : resets e with
          | true => rfl
          | false =>
            rw [(hres e).mp ⟨ha, hr⟩] at hf
            exact absurd hf (by simp)
        rw [hf] at hne
        simpa [hr] using hne

/-- Between two events that read `a`, with the second one written only while the newest reading
was not `a`, stands an event that reads something else. -/
theorem exists_between {f : ε → Option α} {a : α} {pre mid : List ε} {x : ε} (hx : f x = some a)
    (h : latest f (pre ++ x :: mid) ≠ some a) : ∃ e ∈ mid, ∃ b, b ≠ a ∧ f e = some b := by
  rw [← List.singleton_append, ← List.append_assoc, latest_append, latest_concat, hx] at h
  cases hmid : latest f mid with
  | none =>
    rw [hmid] at h
    exact absurd rfl h
  | some b =>
    rw [hmid] at h
    obtain ⟨e, he, hf⟩ := latest_mem hmid
    exact ⟨e, he, b, fun hb => h (by rw [hb]; rfl), hf⟩

/-! ## Grammars of histories -/

/-- Every event of the history is admitted after the events before it. -/
def Admitted (admits : List ε → ε → Prop) (log : List ε) : Prop :=
  ∀ pre e post, log = pre ++ e :: post → admits pre e

section Grammar

variable {admits : List ε → ε → Prop}

theorem admitted_nil : Admitted admits [] := fun pre _ _ h => by
  cases pre <;> exact absurd h (by simp)

/-- A history grows by an event that is admitted after it. -/
theorem admitted_concat {log : List ε} {e : ε} :
    Admitted admits (log ++ [e]) ↔ Admitted admits log ∧ admits log e := by
  constructor
  · intro h
    refine ⟨fun pre x post hlog => h pre x (post ++ [e]) ?_, h log e [] rfl⟩
    rw [hlog, List.append_assoc, List.cons_append]
  · rintro ⟨h, he⟩ pre x post hlog
    rcases List.eq_nil_or_concat post with rfl | ⟨post, y, rfl⟩
    · obtain ⟨rfl, hx⟩ := List.append_inj' hlog rfl
      obtain rfl := (List.cons.inj hx).1
      exact he
    · rw [List.concat_eq_append, ← List.cons_append, ← List.append_assoc] at hlog
      obtain ⟨hlog, -⟩ := List.append_inj' hlog rfl
      exact h pre x post hlog

/-- What is admitted about an event of the history holds of some events before it. -/
theorem Admitted.of_mem {log : List ε} (h : Admitted admits log) {e : ε} (he : e ∈ log) :
    ∃ pre post, log = pre ++ e :: post ∧ admits pre e := by
  obtain ⟨pre, post, rfl⟩ := List.append_of_mem he
  exact ⟨pre, post, rfl, h pre e post rfl⟩

/-- Events admitted only when none of their kind came before occur at most once. -/
theorem Admitted.countP_le_one {p : ε → Bool} {log : List ε} (h : Admitted admits log)
    (honce : ∀ pre e, admits pre e → p e = true → ∀ x ∈ pre, p x = false) :
    log.countP p ≤ 1 := by
  induction log using List.reverseRecOn with
  | nil => simp
  | append_singleton log e ih =>
    obtain ⟨hlog, he⟩ := admitted_concat.mp h
    rw [List.countP_append, List.countP_singleton]
    split
    · rename_i hp
      have hzero : log.countP p = 0 := List.countP_eq_zero.mpr fun x hx => by
        rw [honce log e he hp x hx]
        exact Bool.false_ne_true
      omega
    · exact ih hlog

end Grammar

/-! ## The events of one entity -/

/-- The events of an entity: those already persisted, then the ones recorded since it was
loaded. -/
structure EntityEvents (ι ε : Type) where
  entityId : ι
  persisted : List ε
  fresh : List ε
  deriving DecidableEq, Repr

namespace EntityEvents

/-- The events of a new entity, none of them persisted yet. -/
def init (id : ι) (events : List ε) : EntityEvents ι ε := ⟨id, [], events⟩

/-- The events of an entity as loaded from its persisted history. -/
def load (id : ι) (log : List ε) : EntityEvents ι ε := ⟨id, log, []⟩

/-- All events, oldest first. -/
def iterAll (es : EntityEvents ι ε) : List ε := es.persisted ++ es.fresh

/-- Record one more event. -/
def push (es : EntityEvents ι ε) (e : ε) : EntityEvents ι ε := { es with fresh := es.fresh ++ [e] }

@[simp] theorem iterAll_init (id : ι) (events : List ε) : (init id events).iterAll = events := rfl

@[simp] theorem iterAll_load (id : ι) (log : List ε) : (load id log).iterAll = log :=
  List.append_nil log

@[simp] theorem iterAll_push (es : EntityEvents ι ε) (e : ε) :
    (es.push e).iterAll = es.iterAll ++ [e] := by
  simp [iterAll, push]

@[simp] theorem persisted_push (es : EntityEvents ι ε) (e : ε) :
    (es.push e).persisted = es.persisted := rfl

@[simp] theorem fresh_push (es : EntityEvents ι ε) (e : ε) :
    (es.push e).fresh = es.fresh ++ [e] := rfl

end EntityEvents

/-- The answer of a command that may find its work already done. -/
inductive Idempotent (α : Type) where
  | executed (a : α)
  | alreadyApplied
  deriving DecidableEq, Repr

namespace Idempotent

def map {β : Type} (f : α → β) : Idempotent α → Idempotent β
  | .executed a => .executed (f a)
  | .alreadyApplied => .alreadyApplied

def didExecute : Idempotent α → Bool
  | .executed _ => true
  | .alreadyApplied => false

def wasAlreadyApplied : Idempotent α → Bool
  | .executed _ => false
  | .alreadyApplied => true

theorem eq_executed {a : Idempotent α} (h : ¬ a.wasAlreadyApplied = true) :
    ∃ x, a = .executed x := by
  cases a with
  | executed x => exact ⟨x, rfl⟩
  | alreadyApplied => exact absurd rfl h

end Idempotent

/-! ## The table of persisted histories -/

/-- The persisted histories, one row an entity. -/
structure Store (ι ε : Type) where
  rows : List (ι × List ε)
  deriving Repr

namespace Store

variable [DecidableEq ι]

def empty : Store ι ε := ⟨[]⟩

/-- The persisted history of `id`. -/
def find? (S : Store ι ε) (id : ι) : Option (List ε) := S.rows.lookup id

/-- Insert a row; `none` when `id` has one. -/
def create (S : Store ι ε) (id : ι) (events : List ε) : Option (Store ι ε) :=
  match S.find? id with
  | some _ => none
  | none => some ⟨S.rows ++ [(id, events)]⟩

/-- Write the fresh events after the persisted ones. `none` when a sequence number they need is
taken, that is, when the history grew since it was loaded. -/
def append (S : Store ι ε) (id : ι) (es : EntityEvents ι ε) : Option (Store ι ε) :=
  match S.find? id with
  | none => none
  | some log =>
    if es.persisted.length < log.length then none
    else some ⟨S.rows.map fun r => if r.1 = id then (r.1, r.2 ++ es.fresh) else r⟩

@[simp] theorem find?_empty (id : ι) : (empty : Store ι ε).find? id = none := rfl

theorem lookup_append_single (rows : List (ι × List ε)) (id j : ι) (events : List ε)
    (h : rows.lookup id = none) :
    (rows ++ [(id, events)]).lookup j = if j = id then some events else rows.lookup j := by
  induction rows with
  | nil =>
    by_cases hj : j = id
    · simp [hj]
    · have hj' : (j == id) = false := by simpa using hj
      simp [List.lookup_cons, hj, hj']
  | cons r rows ih =>
    obtain ⟨k, l⟩ := r
    rw [List.lookup_cons] at h
    by_cases hk : id = k
    · subst hk
      simp at h
    · have hk' : (id == k) = false := by simpa using hk
      rw [hk'] at h
      simp only [List.cons_append, List.lookup_cons, ih h]
      by_cases hj : j = k
      · subst hj
        have : ¬ j = id := fun e => hk e.symm
        simp [this]
      · have hj' : (j == k) = false := by simpa using hj
        rw [hj']

theorem find?_create {S S' : Store ι ε} {id : ι} {events : List ε}
    (h : S.create id events = some S') (j : ι) :
    S'.find? j = if j = id then some events else S.find? j := by
  unfold create at h
  split at h
  · exact absurd h (by simp)
  · rename_i hn
    obtain rfl := Option.some.inj h
    exact lookup_append_single S.rows id j events hn

theorem create_isSome_iff {S : Store ι ε} {id : ι} {events : List ε} :
    (S.create id events).isSome ↔ S.find? id = none := by
  unfold create
  cases S.find? id <;> simp

theorem lookup_map_append (rows : List (ι × List ε)) (id j : ι) (fresh : List ε) :
    (rows.map fun r => if r.1 = id then (r.1, r.2 ++ fresh) else r).lookup j =
      if j = id then (rows.lookup j).map (· ++ fresh) else rows.lookup j := by
  induction rows with
  | nil => simp
  | cons r rows ih =>
    obtain ⟨k, l⟩ := r
    simp only [List.map_cons]
    by_cases hk : k = id
    · subst hk
      rw [if_pos rfl, List.lookup_cons, List.lookup_cons, ih]
      by_cases hj : j = k
      · subst hj
        simp
      · have hj' : (j == k) = false := by simpa using hj
        rw [hj']
    · rw [if_neg hk, List.lookup_cons, List.lookup_cons, ih]
      by_cases hj : j = k
      · subst hj
        simp [hk]
      · have hj' : (j == k) = false := by simpa using hj
        rw [hj']

/-- What a successful `append` does: the history it was computed from is not longer now, and it
gains exactly the fresh events; every other history is unchanged. -/
theorem append_spec {S S' : Store ι ε} {id : ι} {es : EntityEvents ι ε}
    (h : S.append id es = some S') :
    ∃ log, S.find? id = some log ∧ log.length ≤ es.persisted.length ∧
      ∀ j, S'.find? j = if j = id then some (log ++ es.fresh) else S.find? j := by
  unfold append at h
  split at h
  · exact absurd h (by simp)
  · rename_i log hlog
    split at h
    · exact absurd h (by simp)
    · rename_i hlen
      obtain rfl := Option.some.inj h
      refine ⟨log, hlog, Nat.not_lt.mp hlen, fun j => ?_⟩
      have := lookup_map_append S.rows id j es.fresh
      unfold find? at hlog ⊢
      rw [this]
      by_cases hj : j = id
      · subst hj
        simp [hlog]
      · simp [hj]

theorem append_eq_some {S : Store ι ε} {id : ι} {es : EntityEvents ι ε} {log : List ε}
    (hlog : S.find? id = some log) (hlen : log.length ≤ es.persisted.length) :
    ∃ S', S.append id es = some S' := by
  unfold append
  rw [hlog]
  exact ⟨_, if_neg (Nat.not_lt.mpr hlen)⟩

/-- Writing back an entity whose history is as it was loaded leaves all its events in the table,
and every other history unchanged. -/
theorem find?_written {S S' : Store ι ε} {id : ι} {es : EntityEvents ι ε}
    (hrow : S.find? id = some es.persisted)
    (h : (es.fresh = [] ∧ S' = S) ∨
      ∃ log, S.find? id = some log ∧ log.length ≤ es.persisted.length ∧
        ∀ j, S'.find? j = if j = id then some (log ++ es.fresh) else S.find? j) (j : ι) :
    S'.find? j = if j = id then some es.iterAll else S.find? j := by
  unfold EntityEvents.iterAll
  rcases h with ⟨hfresh, rfl⟩ | ⟨log, hlog, -, hfind⟩
  · rw [hfresh, List.append_nil]
    split
    · rename_i hj
      rw [hj, hrow]
    · rfl
  · obtain rfl := Option.some.inj (hlog.symm.trans hrow)
    exact hfind j

/-- The ids of the rows, in order. -/
def ids (S : Store ι ε) : List ι := S.rows.map Prod.fst

theorem find?_eq_none_iff {S : Store ι ε} {id : ι} : S.find? id = none ↔ id ∉ S.ids := by
  unfold find? ids
  rw [List.lookup_eq_none_iff]
  simp only [bne_iff_ne, ne_eq, List.mem_map, not_exists, not_and]
  exact forall₂_congr fun _ _ => not_congr eq_comm

/-- With one row an id, every row is the one its id finds. -/
theorem find?_of_mem {S : Store ι ε} (hids : S.ids.Nodup) {id : ι} {log : List ε}
    (h : (id, log) ∈ S.rows) : S.find? id = some log := by
  obtain ⟨pre, post, hrows⟩ := List.append_of_mem h
  unfold ids at hids
  rw [hrows, List.map_append, List.map_cons] at hids
  have hfresh : id ∉ pre.map Prod.fst := fun hm =>
    (List.nodup_append.mp hids).2.2 id hm id List.mem_cons_self rfl
  have hnone : pre.lookup id = none := (find?_eq_none_iff (S := ⟨pre⟩)).mpr hfresh
  unfold find?
  rw [hrows, List.lookup_append, hnone, List.lookup_cons_self]
  rfl

/-- A new row has a new id. -/
theorem nodup_ids_create {S S' : Store ι ε} {id : ι} {events : List ε}
    (h : S.create id events = some S') (hids : S.ids.Nodup) : S'.ids.Nodup := by
  have hfresh := find?_eq_none_iff.mp (create_isSome_iff.mp (by rw [h]; rfl))
  unfold create at h
  split at h
  · exact absurd h (by simp)
  · obtain rfl := Option.some.inj h
    unfold ids at hids hfresh ⊢
    rw [List.map_append]
    refine List.nodup_append.mpr ⟨hids, List.nodup_singleton _, ?_⟩
    rintro a ha b hb rfl
    obtain rfl : a = id := List.mem_singleton.mp hb
    exact hfresh ha

/-- Appending to a history changes no id. -/
theorem ids_append {S S' : Store ι ε} {id : ι} {es : EntityEvents ι ε}
    (h : S.append id es = some S') : S'.ids = S.ids := by
  unfold append at h
  split at h
  · exact absurd h (by simp)
  · split at h
    · exact absurd h (by simp)
    · obtain rfl := Option.some.inj h
      unfold ids
      rw [List.map_map]
      refine List.map_congr_left fun r _ => ?_
      rw [Function.comp_apply]
      split <;> rfl

/-- **What holds of every row** is kept by a write to one of them that makes it hold there. -/
theorem forall_of_written {S S' : Store ι ε} {id : ι} {log : List ε} {P P' : ι → Prop}
    (h : ∀ j log, S.find? j = some log → P j)
    (hfind : ∀ j, S'.find? j = if j = id then some log else S.find? j) (hnew : P' id)
    (hkeep : ∀ j, S'.find? j = S.find? j → P j → P' j) :
    ∀ j log, S'.find? j = some log → P' j := by
  intro j log hlog
  by_cases hj : j = id
  · exact hj ▸ hnew
  · have hsame := hfind j
    rw [if_neg hj] at hsame
    exact hkeep j hsame (h j log (hsame ▸ hlog))

end Store

end EventLog
