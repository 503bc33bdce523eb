import Kota.Lib.EventLog

/-!
# A part of a system

What some of the entities of a system see of it, when the others are left out.

* Of a list of tasks, those that satisfy `p`, numbered among themselves: `rank p l i` is the number
  that the `i`-th element gets. Setting an element is setting it there (`filter_set`), or nothing.
* Of a store of histories, those of the ids that satisfy `p` (`SameOn`). What is written under such
  an id is written alike in two stores that agree; what is written under another is not seen.
-/

namespace Selection

/-! ## Of a list -/

section Rank

variable {α : Type} (p : α → Bool)

/-- The number of the `i`-th element among those that satisfy `p`. -/
def rank (l : List α) (i : Nat) : Nat := (l.take i).countP p

variable {p} {l : List α} {i : Nat} {x y : α}

theorem exists_split (h : l[i]? = some x) : ∃ pre post, l = pre ++ x :: post ∧ pre.length = i := by
  obtain ⟨hlt, rfl⟩ := List.getElem?_eq_some_iff.mp h
  refine ⟨l.take i, l.drop (i + 1), ?_, List.length_take_of_le (Nat.le_of_lt hlt)⟩
  rw [← List.drop_eq_getElem_cons hlt, List.take_append_drop]

theorem rank_append (pre post : List α) :
    rank p (pre ++ post) pre.length = (pre.filter p).length := by
  unfold rank
  rw [List.take_left, List.countP_eq_length_filter]

theorem rank_map {β : Type} (f : β → α) (l : List β) (i : Nat) :
    rank p (l.map f) i = rank (fun b => p (f b)) l i := by
  unfold rank
  rw [← List.map_take, List.countP_map]
  rfl

/-- The selected element stands at its number. -/
theorem getElem?_rank (h : l[i]? = some x) (hx : p x = true) :
    (l.filter p)[rank p l i]? = some x := by
  obtain ⟨pre, post, rfl, rfl⟩ := exists_split h
  rw [rank_append, List.filter_append, List.getElem?_append_right (Nat.le_refl _), Nat.sub_self,
    List.filter_cons_of_pos hx]
  rfl

theorem filter_set (h : l[i]? = some x) (hx : p x = true) (hy : p y = true) :
    (l.set i y).filter p = (l.filter p).set (rank p l i) y := by
  obtain ⟨pre, post, rfl, rfl⟩ := exists_split h
  rw [rank_append, List.set_append_right _ _ (Nat.le_refl _), Nat.sub_self, List.set_cons_zero,
    List.filter_append, List.filter_append, List.filter_cons_of_pos hx, List.filter_cons_of_pos hy,
    List.set_append_right _ _ (Nat.le_refl _), Nat.sub_self, List.set_cons_zero]

/-- What is not selected may change. -/
theorem filter_set_of_not (h : l[i]? = some x) (hx : p x = false) (hy : p y = false) :
    (l.set i y).filter p = l.filter p := by
  obtain ⟨pre, post, rfl, rfl⟩ := exists_split h
  rw [List.set_append_right _ _ (Nat.le_refl _), Nat.sub_self, List.set_cons_zero,
    List.filter_append, List.filter_append, List.filter_cons_of_neg (by simp [hy]),
    List.filter_cons_of_neg (by simp [hx])]

end Rank

/-! ## Of a store -/

section SameOn

open EventLog

variable {ι ε : Type} [DecidableEq ι]

/-- The stores have the same histories under the ids that satisfy `p`. -/
def SameOn (p : ι → Bool) (S' S : Store ι ε) : Prop := ∀ id, p id = true → S'.find? id = S.find? id

variable {p : ι → Bool} {S S' T : Store ι ε} {id : ι} {es : EntityEvents ι ε} {events : List ε}

/-- What was done to both stores alike. -/
theorem SameOn.of_find? {T' : Store ι ε} (h : SameOn p S' S) {log : List ε}
    (hT : ∀ j, T.find? j = if j = id then some log else S.find? j)
    (hT' : ∀ j, T'.find? j = if j = id then some log else S'.find? j) : SameOn p T' T := by
  intro j hj
  rw [hT, hT', h j hj]

theorem SameOn.create (h : SameOn p S' S) (hid : p id = true) (events : List ε) :
    (S.create id events = none ∧ S'.create id events = none) ∨
    ∃ T T', S.create id events = some T ∧ S'.create id events = some T' ∧ SameOn p T' T := by
  cases hc : S.create id events with
  | none =>
    refine Or.inl ⟨rfl, ?_⟩
    rw [← Option.not_isSome_iff_eq_none] at hc ⊢
    rwa [Store.create_isSome_iff, h id hid, ← Store.create_isSome_iff]
  | some T =>
    have hnone := Store.create_isSome_iff.mp (by rw [hc]; rfl : (S.create id events).isSome)
    obtain ⟨T', hc'⟩ := Option.isSome_iff_exists.mp
      (Store.create_isSome_iff.mpr ((h id hid).trans hnone) : (S'.create id events).isSome)
    exact Or.inr ⟨T, T', rfl, hc', h.of_find? (Store.find?_create hc) (Store.find?_create hc')⟩

theorem SameOn.append (h : SameOn p S' S) (hid : p id = true) (es : EntityEvents ι ε) :
    (S.append id es = none ∧ S'.append id es = none) ∨
    ∃ T T', S.append id es = some T ∧ S'.append id es = some T' ∧ SameOn p T' T := by
  have hback : ∀ {S S' : Store ι ε} {T}, S'.find? id = S.find? id → S.append id es = some T →
      ∃ T', S'.append id es = some T' := by
    intro S S' T hfind ha
    obtain ⟨log, hlog, hlen, -⟩ := Store.append_spec ha
    exact Store.append_eq_some (hfind.trans hlog) hlen
  cases ha : S.append id es with
  | none =>
    refine Or.inl ⟨rfl, ?_⟩
    cases ha' : S'.append id es with
    | none => rfl
    | some T' =>
      obtain ⟨T, hT⟩ := hback (h id hid).symm ha'
      exact absurd (ha.symm.trans hT) (by simp)
  | some T =>
    obtain ⟨T', ha'⟩ := hback (h id hid) ha
    obtain ⟨log, hlog, -, hfind⟩ := Store.append_spec ha
    obtain ⟨log', hlog', -, hfind'⟩ := Store.append_spec ha'
    obtain rfl : log' = log := Option.some.inj (hlog'.symm.trans ((h id hid).trans hlog))
    exact Or.inr ⟨T, T', rfl, ha', h.of_find? hfind hfind'⟩

/-- A write under another id is not seen. -/
theorem SameOn.aside (h : SameOn p S' S) (hid : p id = false) {log : List ε}
    (hT : ∀ j, T.find? j = if j = id then some log else S.find? j) : SameOn p S' T := by
  intro j hj
  rw [h j hj, hT, if_neg]
  rintro rfl
  exact absurd (hj.symm.trans hid) (by simp)

end SameOn

end Selection
