import Mathlib.Data.List.Basic
import Mathlib.Data.Nat.Find

/-!
# The shortest prefix with a property

A loop that takes the elements of a list one after another, gives up at the first one it cannot
take, and answers as soon as what it has taken has a property. `search_eq_some_iff`: its answer is
the shortest prefix that has the property, when all of it can be taken.
-/

namespace Shortest

variable {α : Type}

/-- The loop, with what it has taken so far. -/
def search (ok : α → Prop) (p : List α → Prop) [DecidablePred ok] [DecidablePred p]
    (taken : List α) : List α → Option (List α)
  | [] => none
  | a :: rest =>
    if ¬ ok a then none
    else if p (taken ++ [a]) then some (taken ++ [a])
    else search ok p (taken ++ [a]) rest

/-- The first `n` elements are the shortest prefix with the property. -/
structure First (p : List α → Prop) (l : List α) (n : Nat) : Prop where
  le : n ≤ l.length
  holds : p (l.take n)
  before : ∀ k, k < n → ¬ p (l.take k)

theorem First.unique {p : List α → Prop} {l : List α} {m n : Nat} (h : First p l m)
    (h' : First p l n) : m = n := by
  rcases Nat.lt_trichotomy m n with hlt | heq | hlt
  · exact absurd h.holds (h'.before m hlt)
  · exact heq
  · exact absurd h'.holds (h.before n hlt)

theorem exists_first {p : List α → Prop} {l : List α} (h : p l) : ∃ n, First p l n := by
  classical
  have hex : ∃ n, p (l.take n) := ⟨l.length, by rwa [List.take_length]⟩
  refine ⟨Nat.find hex, ?_, Nat.find_spec hex, fun k => Nat.find_min hex⟩
  exact Nat.find_min' hex (by rwa [List.take_length])

theorem first_cons_iff {p : List α → Prop} {a : α} {l : List α} {n : Nat} :
    First p (a :: l) (n + 1) ↔ ¬ p [] ∧ First (fun l => p (a :: l)) l n := by
  constructor
  · intro h
    refine ⟨h.before 0 (Nat.succ_pos n), ⟨Nat.le_of_succ_le_succ h.le, h.holds, fun k hk => ?_⟩⟩
    exact h.before (k + 1) (Nat.succ_lt_succ hk)
  · rintro ⟨hnil, h⟩
    refine ⟨Nat.succ_le_succ h.le, h.holds, fun k hk => ?_⟩
    cases k with
    | zero => exact hnil
    | succ k => exact h.before k (Nat.lt_of_succ_lt_succ hk)

/-- **What the loop answers.** -/
theorem search_eq_some_iff {ok : α → Prop} {p : List α → Prop} [DecidablePred ok]
    [DecidablePred p] {taken rest l : List α} (hp : ¬ p taken) :
    search ok p taken rest = some l ↔
      ∃ n, First (fun l => p (taken ++ l)) rest n ∧ (∀ a ∈ rest.take n, ok a) ∧
        l = taken ++ rest.take n := by
  induction rest generalizing taken with
  | nil =>
    simp only [search, reduceCtorEq, List.take_nil, false_iff, not_exists, not_and]
    exact fun n hn => absurd (by simpa using hn.holds) hp
  | cons a rest ih =>
    unfold search
    -- the empty prefix is out, so the loop takes `a`
    have hpos : ∀ n, First (fun l => p (taken ++ l)) (a :: rest) n → ∃ k, n = k + 1 := by
      intro n hn
      cases n with
      | zero => exact absurd (by simpa using hn.holds) hp
      | succ k => exact ⟨k, rfl⟩
    have hshift : ∀ k, First (fun l => p (taken ++ l)) (a :: rest) (k + 1) ↔
        First (fun l => p (taken ++ [a] ++ l)) rest k := by
      intro k
      rw [first_cons_iff]
      simp [hp]
    split
    · rename_i hok
      simp only [reduceCtorEq, false_iff, not_exists, not_and]
      intro n hn hall
      obtain ⟨k, rfl⟩ := hpos n hn
      exact absurd (hall a (by simp)) hok
    rename_i hok
    rw [not_not] at hok
    split
    · rename_i hnow
      have hfirst : First (fun l => p (taken ++ [a] ++ l)) rest 0 :=
        ⟨Nat.zero_le _, by simpa using hnow, fun k hk => absurd hk (Nat.not_lt_zero k)⟩
      rw [Option.some.injEq]
      constructor
      · rintro rfl
        exact ⟨1, (hshift 0).mpr hfirst, by simpa using hok, by simp⟩
      · rintro ⟨n, hn, -, rfl⟩
        obtain ⟨k, rfl⟩ := hpos n hn
        obtain rfl := ((hshift k).mp hn).unique hfirst
        simp
    · rename_i hlater
      rw [ih hlater]
      constructor
      · rintro ⟨k, hk, hall, rfl⟩
        exact ⟨k + 1, (hshift k).mpr hk, by simpa using ⟨hok, hall⟩, by simp⟩
      · rintro ⟨n, hn, hall, rfl⟩
        obtain ⟨k, rfl⟩ := hpos n hn
        exact ⟨k, (hshift k).mp hn, fun x hx => hall x (by simp [hx]), by simp⟩

end Shortest
