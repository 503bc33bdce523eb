import Mathlib.Data.List.Sort
import Kota.Lib.EventLog

/-!
# Event logs in two tables

An entity kind is kept in two tables of a relational database: an index table, one row an entity,
with columns computed from its history, and an events table, one row an event, numbered within
the entity. What the database checks is what its constraints say and nothing else: the primary key
and the unique columns of the index, that the columns take the values of an event row, that
`(id, sequence)` is unique, and the reference from an event to its entity.

* `Tables.create` and `Tables.update` are the two write transactions, `Tables.find?` the ordered
  read.
* `Represents`: the tables represent the histories of a `Store`, in whatever order the events of
  different entities were written.
* **`Represents.find?_eq`**: the ordered read returns the history that was appended.
* **`Represents.create_eq`, `Represents.update_eq`**: what each constraint turns down, in terms of
  the store; a write numbered after a history that has grown meets the key on `(id, sequence)`, so
  the tables implement the check of `Store.append` for rows that their columns take.
-/

namespace EventTable

open EventLog

variable {ι κ ε π : Type}

/-- Two answers that are the same error, or successes that are related. -/
def Agree {δ α β : Type} (R : α → β → Prop) : Except δ α → Except δ β → Prop
  | .error e, .error e' => e = e'
  | .ok a, .ok b => R a b
  | _, _ => False

theorem Agree.of_ok {δ α β : Type} {R : α → β → Prop} {a : α} {r : Except δ β}
    (h : Agree R (.ok a) r) : ∃ b, r = .ok b ∧ R a b := by
  cases r with
  | error e => exact absurd h id
  | ok b => exact ⟨b, rfl, h⟩

theorem Agree.isOk_iff {δ α β : Type} {R : α → β → Prop} {l : Except δ α} {r : Except δ β}
    (h : Agree R l r) : (∃ a, l = .ok a) ↔ ∃ b, r = .ok b := by
  cases l <;> cases r <;> simp_all [Agree]

/-- A row of the events table. -/
structure EventRow (ι π : Type) where
  id : ι
  sequence : Nat
  event : π

/-- The index table and the events table of an entity kind. -/
structure Tables (ι κ π : Type) where
  index : List (ι × κ)
  events : List (EventRow ι π)

/-- The constraint a statement violates. -/
inductive Violation where
  | primaryKey
  | foreignKey
  | uniqueColumn
  | uniqueSequence
  /-- A value its column does not take. -/
  | columnType
  deriving DecidableEq, Repr

/-- The rows of an `INSERT` of several events: `ROW_NUMBER() OVER () + offset`. -/
def numbered (id : ι) (offset : Nat) (events : List π) : List (EventRow ι π) :=
  events.mapIdx fun i event => ⟨id, i + 1 + offset, event⟩

/-- `ORDER BY sequence`. -/
def BySequence (a b : EventRow ι π) : Prop := a.sequence ≤ b.sequence

instance : DecidableRel (BySequence (ι := ι) (π := π)) := fun a b =>
  inferInstanceAs (Decidable (a.sequence ≤ b.sequence))

instance : Std.Total (BySequence (ι := ι) (π := π)) := ⟨fun _ _ => Nat.le_total _ _⟩

instance : IsTrans (EventRow ι π) BySequence := ⟨fun _ _ _ => Nat.le_trans⟩

namespace Tables

variable [DecidableEq ι]

def empty : Tables ι κ π := ⟨[], []⟩

def ids (T : Tables ι κ π) : List ι := T.index.map Prod.fst

/-! ## Statements -/

section Statements

variable (clash : κ → κ → Bool) (takes : EventRow ι π → Bool)

/-- `INSERT INTO index`. -/
def insertIndex (T : Tables ι κ π) (id : ι) (columns : κ) : Except Violation (Tables ι κ π) :=
  if T.ids.contains id then .error .primaryKey
  else if T.index.any fun row => clash row.2 columns then .error .uniqueColumn
  else .ok { T with index := T.index ++ [(id, columns)] }

/-- `UPDATE index SET … WHERE id = …`. -/
def updateIndex (T : Tables ι κ π) (id : ι) (columns : κ) : Except Violation (Tables ι κ π) :=
  if T.index.any fun row => row.1 != id && clash row.2 columns then .error .uniqueColumn
  else .ok { T with index := T.index.map fun row => if row.1 = id then (row.1, columns) else row }

/-- `INSERT INTO events`. -/
def insertEvents (T : Tables ι κ π) (id : ι) (offset : Nat) (events : List π) :
    Except Violation (Tables ι κ π) :=
  let rows := numbered id offset events
  if !rows.all takes then .error .columnType
  else if rows.any fun row => T.events.any fun r => r.id == row.id && r.sequence == row.sequence
  then .error .uniqueSequence
  else if !rows.isEmpty && !T.ids.contains id then .error .foreignKey
  else .ok { T with events := T.events ++ rows }

/-- The transaction that stores a new entity. -/
def create (T : Tables ι κ π) (id : ι) (columns : κ) (events : List π) :
    Except Violation (Tables ι κ π) := do
  let T ← T.insertIndex clash id columns
  T.insertEvents takes id 0 events

/-- The transaction that stores the new events of an entity, numbered after the `offset` ones it
was loaded with. -/
def update (T : Tables ι κ π) (id : ι) (columns : κ) (offset : Nat) (events : List π) :
    Except Violation (Tables ι κ π) := do
  let T ← T.updateIndex clash id columns
  T.insertEvents takes id offset events

end Statements

/-- `SELECT … FROM index JOIN events … WHERE index.id = … ORDER BY sequence`. -/
def select (T : Tables ι κ π) (id : ι) : List (EventRow ι π) :=
  (T.index.filter fun row => row.1 = id).flatMap fun row =>
    (T.events.filter fun r => r.id = row.1).insertionSort BySequence

/-- The events of an entity; without a row there is no entity. -/
def find? (T : Tables ι κ π) (id : ι) : Option (List π) :=
  if (T.select id).isEmpty then none else some ((T.select id).map EventRow.event)

/-- `SELECT id FROM index WHERE …`. -/
def idsWhere (T : Tables ι κ π) (p : κ → Bool) : List ι :=
  (T.index.filter fun row => p row.2).map Prod.fst

end Tables

section InsertEvents

variable [DecidableEq ι] {T T' : Tables ι κ π} {takes : EventRow ι π → Bool} {id : ι} {offset : Nat}
variable {events : List π}

/-- Event rows of an entity in the index that the columns take, under free numbers, are inserted. -/
theorem Tables.insertEvents_ok (hid : id ∈ T.ids)
    (htakes : (numbered id offset events).all takes = true)
    (hfree : ¬ ((numbered id offset events).any fun row =>
      T.events.any fun r => r.id == row.id && r.sequence == row.sequence) = true) :
    T.insertEvents takes id offset events =
      .ok { T with events := T.events ++ numbered id offset events } := by
  unfold Tables.insertEvents
  dsimp only
  rw [htakes, if_neg (by simp), if_neg hfree, List.contains_iff_mem.mpr hid, Bool.not_true,
    Bool.and_false, if_neg Bool.false_ne_true]

theorem Tables.insertEvents_refused (hrefused : (numbered id offset events).all takes = false) :
    T.insertEvents takes id offset events = .error .columnType := by
  unfold Tables.insertEvents
  dsimp only
  rw [hrefused, if_pos (by simp)]

/-- Rows that were inserted were rows the columns take. -/
theorem Tables.takes_of_insertEvents (h : T.insertEvents takes id offset events = .ok T') :
    (numbered id offset events).all takes = true := by
  cases htakes : (numbered id offset events).all takes with
  | true => rfl
  | false =>
    rw [Tables.insertEvents_refused htakes] at h
    exact absurd h (by simp)

theorem Tables.takes_of_create {clash : κ → κ → Bool} {columns : κ}
    (h : T.create clash takes id columns events = .ok T') :
    (numbered id 0 events).all takes = true := by
  unfold Tables.create at h
  cases hindex : T.insertIndex clash id columns with
  | error v =>
    rw [hindex] at h
    exact absurd h (by simp [bind, Except.bind])
  | ok T₁ =>
    rw [hindex] at h
    exact takes_of_insertEvents h

theorem Tables.takes_of_update {clash : κ → κ → Bool} {columns : κ}
    (h : T.update clash takes id columns offset events = .ok T') :
    (numbered id offset events).all takes = true := by
  unfold Tables.update at h
  cases hindex : T.updateIndex clash id columns with
  | error v =>
    rw [hindex] at h
    exact absurd h (by simp [bind, Except.bind])
  | ok T₁ =>
    rw [hindex] at h
    exact takes_of_insertEvents h

end InsertEvents

theorem mem_rows_of_find? [DecidableEq ι] {S : Store ι ε} {id : ι} {log : List ε}
    (h : S.find? id = some log) : (id, log) ∈ S.rows := by
  obtain ⟨pre, post, hrows, -⟩ := List.lookup_eq_some_iff.mp h
  rw [hrows]
  exact List.mem_append_right _ List.mem_cons_self

theorem Tables.mem_idsWhere {T : Tables ι κ π} {p : κ → Bool} {id : ι} :
    id ∈ T.idsWhere p ↔ ∃ cols, (id, cols) ∈ T.index ∧ p cols = true := by
  unfold Tables.idsWhere
  rw [List.mem_map]
  constructor
  · rintro ⟨⟨k, cols⟩, hrow, rfl⟩
    exact ⟨cols, List.mem_filter.mp hrow⟩
  · rintro ⟨cols, hrow, hp⟩
    exact ⟨(id, cols), List.mem_filter.mpr ⟨hrow, hp⟩, rfl⟩

/-! ## Numbered rows -/

theorem mem_numbered {id : ι} {offset : Nat} {events : List π} {row : EventRow ι π} :
    row ∈ numbered id offset events ↔
      row.id = id ∧ ∃ i, i < events.length ∧ row.sequence = i + 1 + offset ∧
        events[i]? = some row.event := by
  unfold numbered
  rw [List.mem_mapIdx]
  constructor
  · rintro ⟨i, hi, rfl⟩
    exact ⟨rfl, i, hi, rfl, List.getElem?_eq_getElem hi⟩
  · rintro ⟨rfl, i, hi, hseq, hev⟩
    refine ⟨i, hi, ?_⟩
    rw [List.getElem?_eq_getElem hi, Option.some.injEq] at hev
    rw [hev, ← hseq]

@[simp] theorem length_numbered (id : ι) (offset : Nat) (events : List π) :
    (numbered id offset events).length = events.length := by
  simp [numbered]

theorem numbered_append (id : ι) (events new : List π) :
    numbered id 0 (events ++ new) = numbered id 0 events ++ numbered id events.length new := by
  unfold numbered
  rw [List.mapIdx_append]
  congr 1
  refine List.mapIdx_eq_mapIdx_iff.mpr fun i _ => ?_
  rw [Nat.add_zero, Nat.add_right_comm]

theorem map_event_numbered (id : ι) (offset : Nat) (events : List π) :
    (numbered id offset events).map EventRow.event = events := by
  refine List.ext_getElem (by simp) fun i h h' => ?_
  simp [numbered]

theorem pairwise_numbered (id : ι) (offset : Nat) (events : List π) :
    (numbered id offset events).Pairwise fun a b => a.sequence < b.sequence := by
  unfold numbered
  rw [List.pairwise_iff_getElem]
  intro i j hi hj hij
  rw [List.getElem_mapIdx, List.getElem_mapIdx]
  dsimp only
  omega

/-- A number stands at one row. -/
theorem numbered_inj {id : ι} {offset : Nat} {events : List π} {a b : EventRow ι π}
    (ha : a ∈ numbered id offset events) (hb : b ∈ numbered id offset events)
    (hab : a.sequence = b.sequence) : a = b := by
  obtain ⟨hida, i, -, hi, hia⟩ := mem_numbered.mp ha
  obtain ⟨hidb, j, -, hj, hjb⟩ := mem_numbered.mp hb
  obtain rfl : i = j := by omega
  obtain ⟨ida, seqa, eva⟩ := a
  obtain ⟨idb, seqb, evb⟩ := b
  obtain rfl : eva = evb := Option.some.inj (hia.symm.trans hjb)
  obtain rfl : seqa = seqb := hab
  obtain rfl : ida = idb := hida.trans hidb.symm
  rfl

/-! ## The histories that tables hold -/

variable [DecidableEq ι]

/-- The tables hold the histories of the store: a row of the index for each, with the columns of
that history, and the history's events under the numbers from one on. -/
structure Represents (columns : List ε → Option κ) (store : ε → π) (T : Tables ι κ π) (S : Store ι ε) :
    Prop where
  index : T.index.map (fun row => (row.1, some row.2)) = S.rows.map fun row => (row.1, columns row.2)
  events : T.events.Perm (S.rows.flatMap fun row => numbered row.1 0 (row.2.map store))
  nodup : S.ids.Nodup
  nonempty : ∀ row ∈ S.rows, row.2 ≠ []

namespace Represents

variable {columns : List ε → Option κ} {store : ε → π} {T : Tables ι κ π} {S : Store ι ε}

omit [DecidableEq ι] in
theorem empty (columns : List ε → Option κ) (store : ε → π) :
    Represents columns store (Tables.empty : Tables ι κ π) Store.empty :=
  ⟨rfl, .refl _, List.nodup_nil, fun _ h => absurd h List.not_mem_nil⟩

omit [DecidableEq ι] in
theorem ids_eq (h : Represents columns store T S) : T.ids = S.ids := by
  have := congrArg (List.map Prod.fst) h.index
  rwa [List.map_map, List.map_map] at this

/-- The rows of the events table that belong to one entity. -/
theorem events_of (h : Represents columns store T S) {id : ι} {log : List ε}
    (hlog : S.find? id = some log) :
    (T.events.filter fun r => r.id = id).Perm (numbered id 0 (log.map store)) := by
  have hkeep : ∀ (k : ι) (l : List ε), (numbered k 0 (l.map store)).filter (fun r => r.id = id) =
      if k = id then numbered k 0 (l.map store) else [] := by
    intro k l
    split
    · rename_i hk
      exact List.filter_eq_self.mpr fun r hr => by
        rw [decide_eq_true_eq, (mem_numbered.mp hr).1, hk]
    · rename_i hk
      exact List.filter_eq_nil_iff.mpr fun r hr => by
        rw [decide_eq_true_eq, (mem_numbered.mp hr).1]
        exact hk
  refine (h.events.filter _).trans ?_
  rw [List.filter_flatMap]
  obtain ⟨pre, post, hrows, hpre⟩ := List.lookup_eq_some_iff.mp hlog
  have hnodup := h.nodup
  unfold Store.ids at hnodup
  rw [hrows, List.map_append, List.map_cons] at hnodup
  have hother : ∀ rows : List (ι × List ε), (∀ row ∈ rows, row.1 ≠ id) →
      rows.flatMap (fun row => (numbered row.1 0 (row.2.map store)).filter fun r => r.id = id) =
        [] := by
    intro rows hne
    refine List.flatMap_eq_nil_iff.mpr fun row hrow => ?_
    rw [hkeep, if_neg (hne row hrow)]
  have hpost : ∀ row ∈ post, row.1 ≠ id := by
    rintro row hrow rfl
    have hcons := (List.nodup_append.mp hnodup).2.1
    exact (List.nodup_cons.mp hcons).1 (List.mem_map.mpr ⟨row, hrow, rfl⟩)
  rw [hrows, List.flatMap_append, List.flatMap_cons, hother post hpost,
    hother pre fun row hrow hid => absurd hid.symm (by simpa using hpre row hrow), hkeep,
    if_pos rfl, List.nil_append, List.append_nil]

/-- An entity of the store has exactly one row in the index. -/
theorem index_of (h : Represents columns store T S) {id : ι} {log : List ε}
    (hlog : S.find? id = some log) :
    ∃ row, (T.index.filter fun row => row.1 = id) = [row] ∧ row.1 = id ∧
      columns log = some row.2 := by
  obtain ⟨pre, post, hrows, -⟩ := List.lookup_eq_some_iff.mp hlog
  have hindex := h.index
  rw [hrows, List.map_append, List.map_cons] at hindex
  obtain ⟨pre', rest, hsplit, hpre', hrest⟩ := List.map_eq_append_iff.mp hindex
  obtain ⟨row, post', rfl, hrow, hpost'⟩ := List.map_eq_cons_iff.mp hrest
  obtain ⟨hid, hcols⟩ := Prod.mk.inj hrow
  have hnodup : (T.ids).Nodup := h.ids_eq ▸ h.nodup
  unfold Tables.ids at hnodup
  rw [hsplit, List.map_append, List.map_cons, hid] at hnodup
  obtain ⟨-, hcons, hdisj⟩ := List.nodup_append.mp hnodup
  refine ⟨row, ?_, hid, hcols.symm⟩
  have hpre : pre'.filter (fun r => r.1 = id) = [] := List.filter_eq_nil_iff.mpr fun r hr => by
    rw [decide_eq_true_eq]
    exact hdisj _ (List.mem_map_of_mem hr) _ List.mem_cons_self
  have hpost : post'.filter (fun r => r.1 = id) = [] := List.filter_eq_nil_iff.mpr fun r hr => by
    rw [decide_eq_true_eq]
    rintro rfl
    exact (List.nodup_cons.mp hcons).1 (List.mem_map_of_mem hr)
  rw [hsplit, List.filter_append, List.filter_cons_of_pos (by simpa using hid), hpre, hpost,
    List.nil_append]

theorem mem_events (h : Represents columns store T S) {id : ι} {log : List ε}
    (hlog : S.find? id = some log) {r : EventRow ι π} :
    (r ∈ T.events ∧ r.id = id) ↔ r ∈ numbered id 0 (log.map store) := by
  rw [← (h.events_of hlog).mem_iff, List.mem_filter, decide_eq_true_eq]

/-- The ordered read of one entity. -/
theorem select_eq (h : Represents columns store T S) (id : ι) :
    T.select id = match S.find? id with
      | none => []
      | some log => numbered id 0 (log.map store) := by
  have hids := h.ids_eq
  unfold Tables.select
  cases hlog : S.find? id with
  | none =>
    have hnot : id ∉ T.ids := by
      rw [hids]
      exact Store.find?_eq_none_iff.mp hlog
    have hnil : (T.index.filter fun row => row.1 = id) = [] :=
      List.filter_eq_nil_iff.mpr fun row hrow => by
        rw [decide_eq_true_eq]
        rintro rfl
        exact hnot (List.mem_map_of_mem hrow)
    rw [hnil]
    rfl
  | some log =>
    obtain ⟨row, hfilter, hid, -⟩ := h.index_of hlog
    rw [hfilter, List.flatMap_singleton, hid]
    have hperm := (List.perm_insertionSort BySequence _).trans (h.events_of hlog)
    have hanti : ∀ a b, a ∈ (T.events.filter fun r => r.id = id).insertionSort BySequence →
        b ∈ numbered id 0 (log.map store) → BySequence a b → BySequence b a → a = b :=
      fun a b ha hb hab hba => numbered_inj (hperm.mem_iff.mp ha) hb (Nat.le_antisymm hab hba)
    exact List.Perm.eq_of_pairwise hanti (List.pairwise_insertionSort _ _)
      ((pairwise_numbered id 0 (log.map store)).imp Nat.le_of_lt) hperm

/-- **The ordered read returns the history that was appended.** -/
theorem find?_eq (h : Represents columns store T S) (id : ι) :
    T.find? id = (S.find? id).map fun log => log.map store := by
  unfold Tables.find?
  rw [h.select_eq]
  cases hlog : S.find? id with
  | none => rfl
  | some log =>
    have hne : log ≠ [] := h.nonempty _ (mem_rows_of_find? hlog)
    have hrows : (numbered id 0 (log.map store)).isEmpty = false := by
      rw [List.isEmpty_eq_false_iff, ← List.length_pos_iff, length_numbered, List.length_map]
      exact List.length_pos_iff.mpr hne
    dsimp only
    rw [hrows, map_event_numbered]
    rfl

omit [DecidableEq ι] in
theorem id_mem_of_event (h : Represents columns store T S) {r : EventRow ι π} (hr : r ∈ T.events) :
    r.id ∈ S.ids := by
  obtain ⟨row, hrow, hmem⟩ := List.mem_flatMap.mp (h.events.mem_iff.mp hr)
  rw [(mem_numbered.mp hmem).1]
  exact List.mem_map_of_mem hrow

/-! ### Writes -/

section Writes

variable {clash : κ → κ → Bool} {id : ι} {cols : κ}

omit [DecidableEq ι] in
/-- A search of the index for columns is one of the store for histories that have them. -/
theorem any_index (h : Represents columns store T S) (p : ι → κ → Bool) :
    (T.index.any fun row => p row.1 row.2) =
      S.rows.any fun row => (columns row.2).any (p row.1) := by
  have := congrArg (List.any · fun row => row.2.any (p row.1)) h.index
  simpa only [List.any_map, Function.comp_def, Option.any_some] using this

/-- The event rows of a write meet the key on `(id, sequence)` exactly when the history has grown
past the number they start after. -/
theorem sequence_taken_iff (h : Represents columns store T S) {id : ι} {log : List ε}
    (hlog : S.find? id = some log) {offset : Nat} {events : List π} (hne : events ≠ []) :
    ((numbered id offset events).any fun row =>
      T.events.any fun r => r.id == row.id && r.sequence == row.sequence) = true ↔
      offset < log.length := by
  simp only [List.any_eq_true, Bool.and_eq_true, beq_iff_eq]
  constructor
  · rintro ⟨row, hrow, r, hr, hid, hseq⟩
    obtain ⟨hrowid, i, -, hi, -⟩ := mem_numbered.mp hrow
    have hmem := (h.mem_events hlog).mp ⟨hr, hid.trans hrowid⟩
    obtain ⟨-, j, hj, hj', -⟩ := mem_numbered.mp hmem
    rw [List.length_map] at hj
    omega
  · intro hlt
    obtain ⟨event, rest, rfl⟩ := List.exists_cons_of_ne_nil hne
    have htaken : (⟨id, offset + 1, store log[offset]⟩ : EventRow ι π) ∈
        numbered id 0 (log.map store) :=
      mem_numbered.mpr ⟨rfl, offset, by simpa using hlt, rfl, by simp [hlt]⟩
    obtain ⟨hmem, -⟩ := (h.mem_events hlog).mpr htaken
    refine ⟨⟨id, 0 + 1 + offset, event⟩, mem_numbered.mpr ⟨rfl, 0, by simp, rfl, rfl⟩, _, hmem,
      rfl, ?_⟩
    show offset + 1 = 0 + 1 + offset
    omega

omit [DecidableEq ι] in
/-- The ids of the rows whose columns pass a test are those of the histories whose columns do. -/
theorem idsWhere_eq (h : Represents columns store T S) (p : κ → Bool) :
    T.idsWhere p = (S.rows.filter fun row => (columns row.2).any p).map Prod.fst := by
  have hfilter := congrArg (fun l => (l.filter fun x => x.2.any p).map Prod.fst) h.index
  simp only [List.filter_map, List.map_map, Function.comp_def, Option.any_some] at hfilter
  exact hfilter

/-- The rows of the index are those of the histories, with their columns. -/
theorem mem_index (h : Represents columns store T S) {id : ι} {cols : κ} :
    (id, cols) ∈ T.index ↔ ∃ log, S.find? id = some log ∧ columns log = some cols := by
  have hmem : (id, cols) ∈ T.index ↔
      (id, some cols) ∈ T.index.map fun row => (row.1, some row.2) := by
    constructor
    · exact fun hrow => List.mem_map.mpr ⟨_, hrow, rfl⟩
    · intro hrow
      obtain ⟨⟨k, c⟩, hk, heq⟩ := List.mem_map.mp hrow
      obtain ⟨rfl, hc⟩ := Prod.mk.inj heq
      exact Option.some.inj hc ▸ hk
  rw [hmem, h.index, List.mem_map]
  constructor
  · rintro ⟨⟨k, log⟩, hrow, heq⟩
    obtain ⟨rfl, hc⟩ := Prod.mk.inj heq
    exact ⟨log, Store.find?_of_mem h.nodup hrow, hc⟩
  · rintro ⟨log, hlog, hc⟩
    exact ⟨(id, log), mem_rows_of_find? hlog, by rw [hc]⟩

/-- The store turns the columns of another history down. -/
def Taken (columns : List ε → Option κ) (clash : κ → κ → Bool) (S : Store ι ε) (id : ι)
    (cols : κ) : Bool :=
  S.rows.any fun row => (columns row.2).any fun c => row.1 != id && clash c cols

theorem taken_of_new (h : Represents columns store T S) (hnew : S.find? id = none) :
    (T.index.any fun row => clash row.2 cols) = Taken columns clash S id cols := by
  have hids : ∀ row ∈ T.index, row.1 ≠ id := by
    rintro row hrow rfl
    refine Store.find?_eq_none_iff.mp hnew ?_
    rw [← h.ids_eq]
    exact List.mem_map_of_mem hrow
  unfold Taken
  rw [← h.any_index fun k c => k != id && clash c cols]
  rw [Bool.eq_iff_iff, List.any_eq_true, List.any_eq_true]
  refine exists_congr fun row => and_congr_right fun hrow => ?_
  rw [bne_iff_ne.mpr (hids row hrow), Bool.true_and]

/-- **Storing a new entity**: its id must be new, its columns free and its rows such as the columns
take, and then the tables hold its history too. -/
theorem create_eq (h : Represents columns store T S) (clash : κ → κ → Bool)
    (takes : EventRow ι π → Bool) (id : ι) {log : List ε} (hcols : columns log = some cols)
    (hne : log ≠ []) :
    (S.find? id ≠ none ∧ T.create clash takes id cols (log.map store) = .error .primaryKey) ∨
    (S.find? id = none ∧ Taken columns clash S id cols = true ∧
      T.create clash takes id cols (log.map store) = .error .uniqueColumn) ∨
    (S.find? id = none ∧ (numbered id 0 (log.map store)).all takes = false ∧
      T.create clash takes id cols (log.map store) = .error .columnType) ∨
    (Taken columns clash S id cols = false ∧ (numbered id 0 (log.map store)).all takes = true ∧
      ∃ T' S', T.create clash takes id cols (log.map store) = .ok T' ∧ S.create id log = some S' ∧
        Represents columns store T' S') := by
  unfold Tables.create Tables.insertIndex
  by_cases hnew : S.find? id = none
  · have hids : T.ids.contains id = false := by
      rw [h.ids_eq, ← Bool.not_eq_true, List.contains_iff_mem]
      exact Store.find?_eq_none_iff.mp hnew
    rw [hids, h.taken_of_new hnew]
    cases htaken : Taken columns clash S id cols with
    | true => exact Or.inr (Or.inl ⟨hnew, rfl, rfl⟩)
    | false =>
      cases htakes : (numbered id 0 (log.map store)).all takes with
      | false =>
        exact Or.inr (Or.inr (Or.inl ⟨hnew, rfl, Tables.insertEvents_refused htakes⟩))
      | true =>
        refine Or.inr (Or.inr (Or.inr ⟨rfl, rfl,
          ⟨T.index ++ [(id, cols)], T.events ++ numbered id 0 (log.map store)⟩,
          ⟨S.rows ++ [(id, log)]⟩, ?_, by unfold Store.create; rw [hnew], ?_⟩))
        · refine Tables.insertEvents_ok (T := { T with index := _ }) ?_ htakes ?_
          · simp [Tables.ids]
          · rw [List.any_eq_true]
            rintro ⟨row, hrow, hclash⟩
            obtain ⟨r, hr, hboth⟩ := List.any_eq_true.mp hclash
            rw [Bool.and_eq_true, beq_iff_eq, beq_iff_eq, (mem_numbered.mp hrow).1] at hboth
            exact Store.find?_eq_none_iff.mp hnew (hboth.1 ▸ h.id_mem_of_event hr)
        · refine ⟨?_, ?_, Store.nodup_ids_create (by unfold Store.create; rw [hnew]) h.nodup, ?_⟩
          · rw [List.map_append, List.map_append, h.index, List.map_singleton, List.map_singleton,
              hcols]
          · rw [List.flatMap_append, List.flatMap_singleton]
            exact h.events.append_right _
          · intro row hrow
            rcases List.mem_append.mp hrow with hrow | hrow
            · exact h.nonempty row hrow
            · rw [List.mem_singleton.mp hrow]
              exact hne
  · have hids : T.ids.contains id = true := by
      rw [h.ids_eq, List.contains_iff_mem]
      exact Decidable.of_not_not fun hnot => hnew (Store.find?_eq_none_iff.mpr hnot)
    rw [hids]
    exact Or.inl ⟨hnew, rfl⟩

/-- The store after an append, row by row. -/
theorem rows_append {es : EntityEvents ι ε} {S' : Store ι ε} (happend : S.append id es = some S') :
    S'.rows = S.rows.map fun r => if r.1 = id then (r.1, r.2 ++ es.fresh) else r := by
  unfold Store.append at happend
  split at happend
  · exact absurd happend (by simp)
  · split at happend
    · exact absurd happend (by simp)
    · rw [← Option.some.inj happend]

/-- What holds of every event is kept by an append of events it holds of. -/
theorem forall_events_append {P : ε → Prop} (h : ∀ row ∈ S.rows, ∀ e ∈ row.2, P e)
    {es : EntityEvents ι ε} (hfresh : ∀ e ∈ es.fresh, P e) {S' : Store ι ε}
    (happend : S.append id es = some S') : ∀ row ∈ S'.rows, ∀ e ∈ row.2, P e := by
  intro row hrow
  rw [rows_append happend] at hrow
  obtain ⟨r, hr, rfl⟩ := List.mem_map.mp hrow
  split
  · intro e he
    rcases List.mem_append.mp he with he | he
    · exact h r hr e he
    · exact hfresh e he
  · exact h r hr

theorem rows_create {events : List ε} {S' : Store ι ε} (hcreate : S.create id events = some S') :
    S'.rows = S.rows ++ [(id, events)] := by
  unfold Store.create at hcreate
  split at hcreate
  · exact absurd hcreate (by simp)
  · rw [← Option.some.inj hcreate]

theorem forall_events_create {P : ε → Prop} (h : ∀ row ∈ S.rows, ∀ e ∈ row.2, P e)
    {events : List ε} (hnew : ∀ e ∈ events, P e) {S' : Store ι ε}
    (hcreate : S.create id events = some S') : ∀ row ∈ S'.rows, ∀ e ∈ row.2, P e := by
  intro row hrow
  rw [rows_create hcreate] at hrow
  rcases List.mem_append.mp hrow with hrow | hrow
  · exact h row hrow
  · rw [List.mem_singleton.mp hrow]
    exact hnew

/-- The tables after an update hold what the store holds after the append. -/
theorem append (h : Represents columns store T S) {es : EntityEvents ι ε} {log : List ε}
    (hlog : S.find? id = some log) (hlen : es.persisted.length = log.length)
    (hcols : columns (log ++ es.fresh) = some cols) {S' : Store ι ε}
    (happend : S.append id es = some S') :
    Represents columns store
      ⟨T.index.map fun row => if row.1 = id then (row.1, cols) else row,
        T.events ++ numbered id es.persisted.length (es.fresh.map store)⟩ S' := by
  have hrows' := rows_append happend
  refine ⟨?_, ?_, Store.ids_append happend ▸ h.nodup, ?_⟩
  · let renew : ι × Option κ → ι × Option κ := fun x => if x.1 = id then (x.1, some cols) else x
    have hleft : (T.index.map fun row => if row.1 = id then (row.1, cols) else row).map
          (fun row => (row.1, some row.2)) =
        (T.index.map fun row => (row.1, some row.2)).map renew := by
      rw [List.map_map, List.map_map]
      refine List.map_congr_left fun row _ => ?_
      simp only [Function.comp_apply, renew]
      split <;> rfl
    have hright : S'.rows.map (fun row => (row.1, columns row.2)) =
        (S.rows.map fun row => (row.1, columns row.2)).map renew := by
      rw [hrows', List.map_map, List.map_map]
      refine List.map_congr_left fun row hrow => ?_
      simp only [Function.comp_apply, renew]
      split
      · rename_i hid
        have hfound := Store.find?_of_mem h.nodup (show (row.1, row.2) ∈ S.rows from hrow)
        rw [hid, hlog, Option.some.injEq] at hfound
        rw [← hfound, hcols]
      · rfl
    rw [hleft, hright, h.index]
  · obtain ⟨pre, post, hrows, hpre⟩ := List.lookup_eq_some_iff.mp hlog
    have hnodup := h.nodup
    unfold Store.ids at hnodup
    rw [hrows, List.map_append, List.map_cons] at hnodup
    have hsame : ∀ rows : List (ι × List ε), (∀ row ∈ rows, row.1 ≠ id) →
        (rows.map fun r => if r.1 = id then (r.1, r.2 ++ es.fresh) else r) = rows := by
      intro rows hne
      rw [List.map_congr_left fun row hrow => if_neg (hne row hrow), List.map_id']
    have hpost : ∀ row ∈ post, row.1 ≠ id := by
      rintro row hrow rfl
      have hcons := (List.nodup_append.mp hnodup).2.1
      exact (List.nodup_cons.mp hcons).1 (List.mem_map.mpr ⟨row, hrow, rfl⟩)
    have hpre' : ∀ row ∈ pre, row.1 ≠ id :=
      fun row hrow hid => absurd hid.symm (by simpa using hpre row hrow)
    have hevents := h.events
    rw [hrows, List.flatMap_append, List.flatMap_cons] at hevents
    rw [hrows', hrows, List.map_append, List.map_cons, hsame pre hpre', hsame post hpost, if_pos rfl,
      List.flatMap_append, List.flatMap_cons, List.map_append, numbered_append, List.length_map,
      ← hlen]
    refine (hevents.append_right _).trans ?_
    simp only [List.append_assoc]
    refine List.Perm.append_left _ (List.Perm.append_left _ ?_)
    exact List.perm_append_comm
  · intro row hrow
    rw [hrows'] at hrow
    obtain ⟨r, hr, rfl⟩ := List.mem_map.mp hrow
    split
    · exact fun hnil => h.nonempty r hr (List.append_eq_nil_iff.mp hnil).1
    · exact h.nonempty r hr

/-- **Storing the new events of an entity**: its columns must be free, its new rows such as the
columns take and its history as long as when it was loaded, and then the tables hold the longer
history. -/
theorem update_eq (h : Represents columns store T S) (clash : κ → κ → Bool)
    (takes : EventRow ι π → Bool) {es : EntityEvents ι ε} {log : List ε}
    (hlog : S.find? id = some log) (hpersisted : es.persisted.length ≤ log.length)
    (hcols : es.persisted.length = log.length → columns (log ++ es.fresh) = some cols)
    (hfresh : es.fresh ≠ []) :
    (Taken columns clash S id cols = true ∧
      T.update clash takes id cols es.persisted.length (es.fresh.map store) =
        .error .uniqueColumn) ∨
    ((numbered id es.persisted.length (es.fresh.map store)).all takes = false ∧
      T.update clash takes id cols es.persisted.length (es.fresh.map store) =
        .error .columnType) ∨
    (Taken columns clash S id cols = false ∧ es.persisted.length < log.length ∧
      T.update clash takes id cols es.persisted.length (es.fresh.map store) =
        .error .uniqueSequence) ∨
    (Taken columns clash S id cols = false ∧ es.persisted.length = log.length ∧ ∃ T' S',
      T.update clash takes id cols es.persisted.length (es.fresh.map store) = .ok T' ∧
        S.append id es = some S' ∧ Represents columns store T' S') := by
  have hdocs : es.fresh.map store ≠ [] := fun hnil => hfresh (List.map_eq_nil_iff.mp hnil)
  have hfree : _ ↔ es.persisted.length < log.length := h.sequence_taken_iff hlog hdocs
  have hid : id ∈ T.ids := by
    rw [h.ids_eq]
    exact Decidable.of_not_not fun hnot => by
      rw [Store.find?_eq_none_iff.mpr hnot] at hlog
      exact absurd hlog (by simp)
  have hid' : id ∈ (T.index.map fun row => if row.1 = id then (row.1, cols) else row).map
      Prod.fst := by
    obtain ⟨row, hrow, hrowid⟩ := List.mem_map.mp hid
    exact List.mem_map.mpr ⟨_, List.mem_map_of_mem hrow, by rw [if_pos hrowid]; exact hrowid⟩
  have hcheck : (T.index.any fun row => row.1 != id && clash row.2 cols) =
      Taken columns clash S id cols := h.any_index fun k c => k != id && clash c cols
  unfold Tables.update Tables.updateIndex
  rw [hcheck]
  cases htaken : Taken columns clash S id cols with
  | true => exact Or.inl ⟨rfl, rfl⟩
  | false =>
    cases htakes : (numbered id es.persisted.length (es.fresh.map store)).all takes with
    | false => exact Or.inr (Or.inl ⟨rfl, Tables.insertEvents_refused htakes⟩)
    | true =>
      by_cases hlt : es.persisted.length < log.length
      · refine Or.inr (Or.inr (Or.inl ⟨rfl, hlt, ?_⟩))
        show Tables.insertEvents takes ⟨_, T.events⟩ id _ _ = _
        unfold Tables.insertEvents
        dsimp only
        rw [htakes, if_neg (by simp), if_pos (hfree.mpr hlt)]
      · have hlen : es.persisted.length = log.length := Nat.le_antisymm hpersisted (by omega)
        obtain ⟨S', happend⟩ := Store.append_eq_some hlog (Nat.le_of_eq hlen.symm)
        refine Or.inr (Or.inr (Or.inr ⟨rfl, hlen, _, S', ?_, happend,
          h.append hlog hlen (hcols hlen) happend⟩))
        exact Tables.insertEvents_ok (T := ⟨_, T.events⟩) hid' htakes fun htaken' =>
          hlt (hfree.mp htaken')

end Writes

end Represents

end EventTable
