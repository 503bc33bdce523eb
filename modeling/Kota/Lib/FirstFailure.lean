import Mathlib.Data.List.Basic

/-!
# The first failure of a loop

A loop that checks the elements of a list one after another and stops at the first failure, with
the position of an element among what its check reads. `errorOf` is the failure of one check.

Result: **`find_eq_some_iff`**: the loop fails as the first element that fails does.
-/

namespace FirstFailure

/-- How a computation failed, if it did. -/
def errorOf {ε α : Type} : Except ε α → Option ε
  | .error e => some e
  | .ok _ => none

@[simp] theorem errorOf_error {ε α : Type} (e : ε) : errorOf (.error e : Except ε α) = some e := rfl

@[simp] theorem errorOf_ok {ε α : Type} (a : α) : errorOf (.ok a : Except ε α) = none := rfl

theorem errorOf_eq_some_iff {ε α : Type} {r : Except ε α} {e : ε} :
    errorOf r = some e ↔ r = .error e := by
  cases r <;> simp

theorem errorOf_eq_none_iff {ε α : Type} {r : Except ε α} :
    errorOf r = none ↔ ∃ a, r = .ok a := by
  cases r <;> simp

section Loop

variable {α ε : Type} (check : Nat → α → Option ε)

/-- The loop, from position `idx` on. -/
def find (idx : Nat) : List α → Option ε
  | [] => none
  | a :: l =>
    match check idx a with
    | some e => some e
    | none => find (idx + 1) l

/-- Element `i` fails with `e`, and none before it fails. -/
structure First (idx : Nat) (l : List α) (i : Nat) (e : ε) : Prop where
  fails : ∃ a, l[i]? = some a ∧ check (idx + i) a = some e
  earlier : ∀ j < i, ∀ a, l[j]? = some a → check (idx + j) a = none

variable {check} {idx : Nat} {l : List α} {e : ε}

theorem find_eq_none_iff :
    find check idx l = none ↔ ∀ i a, l[i]? = some a → check (idx + i) a = none := by
  induction l generalizing idx with
  | nil => simp [find]
  | cons a l ih =>
    unfold find
    cases hcheck : check idx a with
    | some e =>
      simp only [reduceCtorEq, false_iff]
      exact fun h => absurd (hcheck.symm.trans (h 0 a rfl)) (by simp)
    | none =>
      rw [ih]
      constructor
      · intro h i b hb
        cases i with
        | zero =>
          obtain rfl := Option.some.inj hb
          exact hcheck
        | succ i =>
          have := h i b hb
          rwa [show idx + 1 + i = idx + (i + 1) by omega] at this
      · intro h i b hb
        have := h (i + 1) b hb
        rwa [show idx + (i + 1) = idx + 1 + i by omega] at this

/-- **The loop fails as the first element that fails does.** -/
theorem find_eq_some_iff : find check idx l = some e ↔ ∃ i, First check idx l i e := by
  induction l generalizing idx with
  | nil =>
    simp only [find, reduceCtorEq, false_iff, not_exists]
    rintro i ⟨⟨a, ha, -⟩, -⟩
    exact absurd ha (by simp)
  | cons a l ih =>
    unfold find
    cases hcheck : check idx a with
    | some e' =>
      constructor
      · intro h
        obtain rfl := Option.some.inj h
        exact ⟨0, ⟨a, rfl, hcheck⟩, fun j hj => absurd hj (Nat.not_lt_zero j)⟩
      · rintro ⟨i, ⟨b, hb, hfails⟩, hearlier⟩
        cases i with
        | zero =>
          obtain rfl := Option.some.inj hb
          exact hcheck.symm.trans hfails
        | succ i =>
          exact absurd (hcheck.symm.trans (hearlier 0 (Nat.succ_pos i) a rfl)) (by simp)
    | none =>
      rw [ih]
      constructor
      · rintro ⟨i, ⟨b, hb, hfails⟩, hearlier⟩
        rw [show idx + 1 + i = idx + (i + 1) by omega] at hfails
        refine ⟨i + 1, ⟨b, hb, hfails⟩, fun j hj c hc => ?_⟩
        cases j with
        | zero =>
          obtain rfl := Option.some.inj hc
          exact hcheck
        | succ j =>
          have := hearlier j (Nat.lt_of_succ_lt_succ hj) c hc
          rwa [show idx + 1 + j = idx + (j + 1) by omega] at this
      · rintro ⟨i, ⟨b, hb, hfails⟩, hearlier⟩
        cases i with
        | zero =>
          obtain rfl := Option.some.inj hb
          exact absurd (hcheck.symm.trans hfails) (by simp)
        | succ i =>
          rw [show idx + (i + 1) = idx + 1 + i by omega] at hfails
          refine ⟨i, ⟨b, hb, hfails⟩, fun j hj c hc => ?_⟩
          have := hearlier (j + 1) (Nat.succ_lt_succ hj) c hc
          rwa [show idx + (j + 1) = idx + 1 + j by omega] at this

end Loop

end FirstFailure
