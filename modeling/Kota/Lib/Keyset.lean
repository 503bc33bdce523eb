import Mathlib.Data.List.Sort
import Mathlib.Order.Basic
import Kota.Lib.Matched

/-!
# Reading a table page by page

`SELECT … WHERE key > cursor ORDER BY key LIMIT limit`, asked again and again, each time with the
last row of the pages before as the cursor. The table may change in any way between two pages.

* `ListOrder`: what rows are ordered by, a key that no two ids share.
* `walk`: the pages one after another.
* **`walk_ok`**: when every row loads, so does every page, and the pages are `Complete`: no row
  comes twice, each page holds what was there when it was read, and once a page is short nothing
  was missed that was there all along.
-/

namespace Keyset

variable {ι δ α : Type}

/-- What rows are ordered by. -/
structure ListOrder (ι : Type) where
  Key : Type
  linear : LinearOrder Key
  key : ι → Key
  injective : Function.Injective key

namespace ListOrder

instance (o : ListOrder ι) : LinearOrder o.Key := o.linear

/-- `DESC` instead of `ASC`. -/
def reverse (o : ListOrder ι) : ListOrder ι where
  Key := o.Keyᵒᵈ
  linear := inferInstance
  key id := OrderDual.toDual (o.key id)
  injective := OrderDual.toDual.injective.comp o.injective

variable (o : ListOrder ι)

def Before (a b : ι) : Prop := o.key a < o.key b

def AtMost (a b : ι) : Prop := o.key a ≤ o.key b

instance : DecidableRel o.Before := fun a b => inferInstanceAs (Decidable (o.key a < o.key b))

instance : DecidableRel o.AtMost := fun a b => inferInstanceAs (Decidable (o.key a ≤ o.key b))

instance : Std.Total o.AtMost := ⟨fun _ _ => le_total _ _⟩

instance : IsTrans ι o.AtMost := ⟨fun _ _ _ => le_trans⟩

variable {o}

theorem AtMost.before {a b : ι} (h : o.AtMost a b) (hne : a ≠ b) : o.Before a b :=
  lt_of_le_of_ne h fun heq => hne (o.injective heq)

theorem Before.trans {a b c : ι} (h : o.Before a b) (h' : o.Before b c) : o.Before a c :=
  lt_trans h h'

theorem Before.ne {a b : ι} (h : o.Before a b) : a ≠ b := fun heq =>
  lt_irrefl _ (heq ▸ h : o.Before a a)

end ListOrder

/-! ## Pages -/

/-- What a page is read from: the ids that a query selects, which of them a join keeps, and what
loading an id gives. -/
structure Reading (ι δ α : Type) where
  ids : List ι
  joined : ι → Bool
  load : ι → Except δ α

/-- `WHERE COALESCE(key > cursor, true) ORDER BY key LIMIT limit`. -/
def pageIds (o : ListOrder ι) (limit : Nat) (after : Option ι) (ids : List ι) : List ι :=
  ((ids.filter fun id => (after.map fun cursor => decide (o.Before cursor id)).getD true
    ).insertionSort o.AtMost).take limit

/-- One page: its rows, loaded. -/
def Reading.page (o : ListOrder ι) (limit : Nat) (after : Option ι) (r : Reading ι δ α) :
    Except δ (List α) :=
  ((pageIds o limit after r.ids).filter r.joined).mapM r.load

/-- Where the next page begins: after the last row of this one, if it has any. -/
def cursorAfter (after : Option ι) (page : List ι) : Option ι := page.getLast?.or after

/-- The pages read one after another. -/
def walk (idOf : α → ι) (o : ListOrder ι) (limit : Nat) :
    Option ι → List (Reading ι δ α) → Except δ (List (List α))
  | _, [] => .ok []
  | after, r :: later => do
    let page ← r.page o limit after
    let pages ← walk idOf o limit (cursorAfter after (page.map idOf)) later
    return page :: pages

/-- The pages of a query that takes the cursor, asked of one state after another. -/
def readPages {β : Type} (idOf : α → ι) (query : Option ι → β → Except δ (List α)) :
    Option ι → List β → Except δ (List (List α))
  | _, [] => .ok []
  | after, b :: later => do
    let page ← query after b
    let pages ← readPages idOf query (cursorAfter after (page.map idOf)) later
    return page :: pages

/-- A walk asks for the pages of its readings. -/
theorem readPages_eq_walk {β : Type} (idOf : α → ι) (o : ListOrder ι) (limit : Nat)
    (reading : β → Reading ι δ α) (after : Option ι) (reads : List β) :
    readPages idOf (fun after b => (reading b).page o limit after) after reads =
      walk idOf o limit after (reads.map reading) := by
  induction reads generalizing after with
  | nil => rfl
  | cons b later ih => simp only [readPages, List.map_cons, walk, ih]

/-- The ids of these pages. -/
def walkIds (o : ListOrder ι) (limit : Nat) : Option ι → List (List ι) → List (List ι)
  | _, [] => []
  | after, ids :: later =>
    pageIds o limit after ids ::
      walkIds o limit (cursorAfter after (pageIds o limit after ids)) later

section Pages

variable {o : ListOrder ι} {limit : Nat} {after : Option ι} {ids : List ι} {id : ι}

/-- The rows after the cursor, all of them in order. -/
theorem mem_rest :
    id ∈ (ids.filter fun id => (after.map fun cursor => decide (o.Before cursor id)).getD true
      ).insertionSort o.AtMost ↔ id ∈ ids ∧ ∀ cursor ∈ after, o.Before cursor id := by
  rw [List.mem_insertionSort, List.mem_filter]
  cases after <;> simp

variable (o after) in
theorem pairwise_rest (h : ids.Nodup) :
    ((ids.filter fun id => (after.map fun cursor => decide (o.Before cursor id)).getD true
      ).insertionSort o.AtMost).Pairwise o.Before := by
  have hsorted := List.pairwise_insertionSort o.AtMost
    (ids.filter fun id => (after.map fun cursor => decide (o.Before cursor id)).getD true)
  have hnodup := (List.perm_insertionSort o.AtMost _).nodup_iff.mpr (h.filter
    fun id => (after.map fun cursor => decide (o.Before cursor id)).getD true)
  exact (hsorted.and hnodup).imp fun hab => hab.1.before hab.2

theorem of_mem_pageIds (h : id ∈ pageIds o limit after ids) :
    id ∈ ids ∧ ∀ cursor ∈ after, o.Before cursor id :=
  mem_rest.mp (List.mem_of_mem_take h)

variable (o limit after) in
theorem pairwise_pageIds (h : ids.Nodup) : (pageIds o limit after ids).Pairwise o.Before :=
  (pairwise_rest o after h).sublist (List.take_sublist _ _)

/-- A short page has every row after the cursor. -/
theorem mem_pageIds_of_short (hshort : (pageIds o limit after ids).length < limit) (hid : id ∈ ids)
    (hafter : ∀ cursor ∈ after, o.Before cursor id) : id ∈ pageIds o limit after ids := by
  unfold pageIds at hshort ⊢
  rw [List.length_take] at hshort
  rw [List.take_of_length_le (by omega)]
  exact mem_rest.mpr ⟨hid, hafter⟩

/-- A row that a page leaves out is after the page's cursor. -/
theorem before_of_notMem (h : ids.Nodup) (hid : id ∈ ids)
    (hafter : ∀ cursor ∈ after, o.Before cursor id) (hnot : id ∉ pageIds o limit after ids) :
    ∀ cursor ∈ cursorAfter after (pageIds o limit after ids), o.Before cursor id := by
  intro cursor hcursor
  unfold cursorAfter at hcursor
  cases hlast : (pageIds o limit after ids).getLast? with
  | none =>
    rw [hlast, Option.none_or] at hcursor
    exact hafter cursor hcursor
  | some last =>
    rw [hlast, Option.some_or] at hcursor
    obtain rfl := Option.some.inj hcursor
    have hrest := mem_rest.mpr ⟨hid, hafter⟩
    have hpairwise := pairwise_rest o after h
    rw [← List.take_append_drop limit
      (List.insertionSort o.AtMost _)] at hrest hpairwise
    exact (List.pairwise_append.mp hpairwise).2.2 _ (List.mem_of_getLast? hlast) _
      ((List.mem_append.mp hrest).resolve_left hnot)

/-- Every row of a page is at most its cursor. -/
theorem atMost_cursorAfter (h : ids.Nodup) (hid : id ∈ pageIds o limit after ids) {cursor : ι}
    (hcursor : cursor ∈ cursorAfter after (pageIds o limit after ids)) : o.AtMost id cursor := by
  unfold cursorAfter at hcursor
  cases hlast : (pageIds o limit after ids).getLast? with
  | none => exact absurd hid (List.getLast?_eq_none_iff.mp hlast ▸ List.not_mem_nil)
  | some last =>
    rw [hlast, Option.some_or] at hcursor
    obtain rfl := Option.some.inj hcursor
    obtain ⟨pre, hpre⟩ := List.getLast?_eq_some_iff.mp hlast
    have hpairwise := pairwise_pageIds o limit after h
    rw [hpre] at hid hpairwise
    rcases List.mem_append.mp hid with hid | hid
    · exact le_of_lt ((List.pairwise_append.mp hpairwise).2.2 _ hid _ (List.mem_singleton_self _))
    · exact le_of_eq (congrArg o.key (List.mem_singleton.mp hid))

/-- The cursor does not go back. -/
theorem before_cursorAfter {cursor : ι} (hcursor : cursor ∈ after)
    (h : ∀ next ∈ cursorAfter after (pageIds o limit after ids), o.Before next id) :
    o.Before cursor id := by
  unfold cursorAfter at h
  cases hlast : (pageIds o limit after ids).getLast? with
  | none =>
    rw [hlast, Option.none_or] at h
    exact h cursor hcursor
  | some last =>
    rw [hlast, Option.some_or] at h
    exact ((of_mem_pageIds (List.mem_of_getLast? hlast)).2 cursor hcursor).trans (h last rfl)

end Pages

/-! ## Walks -/

section Walks

variable {o : ListOrder ι} {limit : Nat} {after : Option ι} {reads : List (List ι)} {id : ι}

/-- No row comes twice, and every one comes after the first cursor. -/
theorem pairwise_walkIds (h : ∀ ids ∈ reads, ids.Nodup) :
    (walkIds o limit after reads).flatten.Pairwise o.Before ∧
      ∀ id ∈ (walkIds o limit after reads).flatten, ∀ cursor ∈ after, o.Before cursor id := by
  induction reads generalizing after with
  | nil => exact ⟨.nil, fun id hid => absurd hid List.not_mem_nil⟩
  | cons ids later ih =>
    have hids := h ids List.mem_cons_self
    obtain ⟨hlater, hafter⟩ :=
      @ih (cursorAfter after (pageIds o limit after ids))
        fun ids hmem => h ids (List.mem_cons_of_mem _ hmem)
    unfold walkIds
    rw [List.flatten_cons]
    constructor
    · refine List.pairwise_append.mpr ⟨pairwise_pageIds o limit after hids, hlater, fun a ha b hb => ?_⟩
      cases hcursor : cursorAfter after (pageIds o limit after ids) with
      | none =>
        unfold cursorAfter at hcursor
        rw [Option.or_eq_none_iff, List.getLast?_eq_none_iff] at hcursor
        exact absurd ha (hcursor.1 ▸ List.not_mem_nil)
      | some cursor =>
        rw [hcursor] at hb hafter
        exact lt_of_le_of_lt (atMost_cursorAfter hids ha hcursor) (hafter b hb cursor rfl)
    · intro id hid cursor hcursor
      rcases List.mem_append.mp hid with hid | hid
      · exact (of_mem_pageIds hid).2 cursor hcursor
      · exact before_cursorAfter hcursor (hafter id hid)

/-- Once a page is short, nothing was missed that was there all along. -/
theorem mem_walkIds (h : ∀ ids ∈ reads, ids.Nodup) (hid : ∀ ids ∈ reads, id ∈ ids)
    (hafter : ∀ cursor ∈ after, o.Before cursor id) {last : List ι}
    (hlast : (walkIds o limit after reads).getLast? = some last) (hshort : last.length < limit) :
    id ∈ (walkIds o limit after reads).flatten := by
  induction reads generalizing after with
  | nil => exact absurd hlast (by simp [walkIds])
  | cons ids later ih =>
    unfold walkIds at hlast ⊢
    rw [List.flatten_cons]
    by_cases hpage : id ∈ pageIds o limit after ids
    · exact List.mem_append_left _ hpage
    · have hnext := before_of_notMem (h ids List.mem_cons_self) (hid ids List.mem_cons_self) hafter
        hpage
      refine List.mem_append_right _ ?_
      cases later with
      | nil =>
        obtain rfl := Option.some.inj hlast
        exact absurd (mem_pageIds_of_short hshort (hid ids List.mem_cons_self) hafter) hpage
      | cons ids' later =>
        refine ih (fun ids hmem => h ids (List.mem_cons_of_mem _ hmem))
          (fun ids hmem => hid ids (List.mem_cons_of_mem _ hmem)) hnext ?_
        unfold walkIds at hlast ⊢
        rwa [List.getLast?_cons_cons] at hlast

/-- What pages hold is in the tables they were read from. -/
theorem walkIds_current (o : ListOrder ι) (limit : Nat) (after : Option ι)
    (reads : List (List ι)) :
    List.Forall₂ (fun ids page => ∀ id ∈ page, id ∈ ids) reads (walkIds o limit after reads) := by
  induction reads generalizing after with
  | nil => exact .nil
  | cons ids later ih => exact .cons (fun id hid => (of_mem_pageIds hid).1) (ih _)

/-- Full pages run out. -/
theorem length_walkIds_le (h : ∀ ids ∈ reads, ids.Nodup) {all : List ι}
    (hall : ∀ ids ∈ reads, ids ⊆ all)
    (hfull : ∀ page ∈ walkIds o limit after reads, page.length = limit) :
    (walkIds o limit after reads).length * limit ≤ all.length := by
  have hnodup : (walkIds o limit after reads).flatten.Nodup :=
    (pairwise_walkIds h).1.imp ListOrder.Before.ne
  have hsub : (walkIds o limit after reads).flatten ⊆ all := by
    intro id hid
    obtain ⟨page, hpage, hmem⟩ := List.mem_flatten.mp hid
    obtain ⟨ids, hids, hcurrent⟩ :=
      Matched.exists_of_mem_right (walkIds_current o limit after reads) hpage
    exact hall ids hids (hcurrent id hmem)
  have hlength : (walkIds o limit after reads).flatten.length =
      (walkIds o limit after reads).length * limit := by
    have hlengths : (walkIds o limit after reads).map List.length =
        List.replicate (walkIds o limit after reads).length limit :=
      List.eq_replicate_iff.mpr ⟨List.length_map _, by simpa using hfull⟩
    rw [List.length_flatten, hlengths, List.sum_replicate_nat]
  rw [← hlength]
  exact (List.subperm_of_subset hnodup hsub).length_le

end Walks

/-- What there is to say of pages read one after another. -/
structure Complete (idOf : α → ι) (o : ListOrder ι) (limit : Nat) (reads : List (Reading ι δ α))
    (pages : List (List α)) : Prop where
  /-- no row comes twice, and they come in order -/
  ordered : pages.flatten.Pairwise fun a b => o.Before (idOf a) (idOf b)
  /-- a page holds what was there when it was read -/
  current : List.Forall₂ (fun r page => ∀ a ∈ page, idOf a ∈ r.ids ∧ r.load (idOf a) = .ok a)
    reads pages
  /-- what was there all along is found by the time a page is short -/
  covers : ∀ last, pages.getLast? = some last → last.length < limit →
    ∀ id, (∀ r ∈ reads, id ∈ r.ids) → ∃ a ∈ pages.flatten, idOf a = id
  /-- and it is short after so many -/
  ends : ∀ all : List ι, (∀ r ∈ reads, r.ids ⊆ all) → (∀ page ∈ pages, page.length = limit) →
    pages.length * limit ≤ all.length

/-- One row an id, each of which is joined and loads. -/
structure Reading.Sound (idOf : α → ι) (r : Reading ι δ α) : Prop where
  nodup : r.ids.Nodup
  joined : ∀ id ∈ r.ids, r.joined id = true
  loads : ∀ id ∈ r.ids, ∃ a, r.load id = .ok a ∧ idOf a = id

variable {idOf : α → ι} (o : ListOrder ι) (limit : Nat)

/-- A page of rows that load is the rows of its ids. -/
theorem Reading.Sound.page_ok {r : Reading ι δ α} (h : r.Sound idOf) (after : Option ι) :
    ∃ page, r.page o limit after = .ok page ∧ page.map idOf = pageIds o limit after r.ids ∧
      ∀ a ∈ page, idOf a ∈ r.ids ∧ r.load (idOf a) = .ok a := by
  have hids : ∀ id ∈ pageIds o limit after r.ids, id ∈ r.ids := fun id hid => (of_mem_pageIds hid).1
  unfold Reading.page
  rw [List.filter_eq_self.mpr fun id hid => h.joined id (hids id hid)]
  obtain ⟨page, hpage⟩ := Matched.mapM_isOk_iff.mpr fun id hid =>
    (h.loads id (hids id hid)).imp fun _ ha => ha.1
  have hmatched : List.Forall₂ (fun a id => idOf a = id ∧ r.load id = .ok a) page
      (pageIds o limit after r.ids) := by
    refine Matched.imp_mem_right (Matched.mapM_eq_ok hpage).flip fun a id hid ha => ⟨?_, ha⟩
    obtain ⟨a', ha', hidOf⟩ := h.loads id (hids id hid)
    rw [Except.ok.inj (ha.symm.trans ha'), hidOf]
  refine ⟨page, hpage, ?_, fun a ha => ?_⟩
  · have hmap := List.forall₂_map_left_iff.mpr (hmatched.imp fun _ _ h => h.1)
    rwa [List.forall₂_eq_eq_eq] at hmap
  · obtain ⟨id, hid, rfl, hload⟩ := Matched.exists_of_mem_left hmatched ha
    exact ⟨hids _ hid, hload⟩

/-- A walk over rows that load is the walk over their ids. -/
theorem walk_eq_ok {reads : List (Reading ι δ α)} (h : ∀ r ∈ reads, r.Sound idOf)
    (after : Option ι) :
    ∃ pages, walk idOf o limit after reads = .ok pages ∧
      pages.map (List.map idOf) = walkIds o limit after (reads.map Reading.ids) ∧
      List.Forall₂ (fun r page => ∀ a ∈ page, idOf a ∈ r.ids ∧ r.load (idOf a) = .ok a)
        reads pages := by
  induction reads generalizing after with
  | nil => exact ⟨[], rfl, rfl, .nil⟩
  | cons r later ih =>
    obtain ⟨page, hpage, hids, hcurrent⟩ :=
      (h r List.mem_cons_self).page_ok o limit after
    obtain ⟨pages, hpages, hids', hcurrent'⟩ :=
      ih (fun r hr => h r (List.mem_cons_of_mem _ hr)) (cursorAfter after (page.map idOf))
    refine ⟨page :: pages, ?_, ?_, .cons hcurrent hcurrent'⟩
    · unfold walk
      rw [hpage]
      show (walk idOf o limit (cursorAfter after (page.map idOf)) later >>= _) = _
      rw [hpages]
      rfl
    · rw [List.map_cons, List.map_cons, hids', hids]
      rfl

/-- **A walk misses nothing and repeats nothing**, whatever happens between its pages. -/
theorem walk_ok (idOf : α → ι) (o : ListOrder ι) (limit : Nat) (reads : List (Reading ι δ α))
    (h : ∀ r ∈ reads, r.Sound idOf) :
    ∃ pages, walk idOf o limit none reads = .ok pages ∧ Complete idOf o limit reads pages := by
  obtain ⟨pages, hpages, hids, hcurrent⟩ := walk_eq_ok o limit h none
  have hnodup : ∀ ids ∈ reads.map Reading.ids, ids.Nodup := by
    intro ids hmem
    obtain ⟨r, hr, rfl⟩ := List.mem_map.mp hmem
    exact (h r hr).nodup
  have hflatten : pages.flatten.map idOf =
      (walkIds o limit none (reads.map Reading.ids)).flatten := by
    rw [List.map_flatten, hids]
  refine ⟨pages, hpages, ?_, hcurrent, fun last hlast hshort id hid => ?_, fun all hall hfull => ?_⟩
  · rw [← List.pairwise_map, hflatten]
    exact (pairwise_walkIds hnodup).1
  · have hlastIds : (walkIds o limit none (reads.map Reading.ids)).getLast? =
        some (last.map idOf) := by
      rw [← hids, List.getLast?_map, hlast]
      rfl
    have hmem : id ∈ (walkIds o limit none (reads.map Reading.ids)).flatten := by
      refine mem_walkIds hnodup (fun ids hmem => ?_)
        (fun cursor hcursor => absurd hcursor (by simp)) hlastIds (by rwa [List.length_map])
      obtain ⟨r, hr, rfl⟩ := List.mem_map.mp hmem
      exact hid r hr
    rw [← hflatten] at hmem
    exact List.mem_map.mp hmem
  · rw [← List.length_map (List.map idOf), hids]
    refine length_walkIds_le hnodup (fun ids hmem => ?_) fun page hpage => ?_
    · obtain ⟨r, hr, rfl⟩ := List.mem_map.mp hmem
      exact hall r hr
    · rw [← hids] at hpage
      obtain ⟨loaded, hloaded, rfl⟩ := List.mem_map.mp hpage
      rw [List.length_map]
      exact hfull loaded hloaded

end Keyset
