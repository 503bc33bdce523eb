import Mathlib.Data.List.Destutter
import Mathlib.Data.List.Sort

/-!
# Duplicate detection by sorting

`sort` is `slice::sort` (stable; on a linear order the result is the one sorted permutation) and
`dedup` is `Vec::dedup`, which drops an element equal to the one kept before it. `adjacentDup` is
the search `windows(2).find(|w| w[0] == w[1])`.

On a sorted list equal elements are adjacent, so both detect duplicates exactly:
`length_dedup_sort_iff`, `adjacentDup_sort_eq_none_iff`.
-/

namespace Sorting

variable {α : Type} [LinearOrder α]

/-- `slice::sort`. -/
def sort (l : List α) : List α := l.insertionSort (· ≤ ·)

/-- `Vec::dedup`. -/
def dedup (l : List α) : List α := l.destutter (· ≠ ·)

/-- The first element of `windows(2)` whose two halves are equal. -/
def adjacentDup : List α → Option α
  | a :: b :: rest => if a = b then some a else adjacentDup (b :: rest)
  | _ => none

theorem sort_perm (l : List α) : (sort l).Perm l := List.perm_insertionSort _ l

theorem sort_sorted (l : List α) : (sort l).Pairwise (· ≤ ·) := List.pairwise_insertionSort _ l

theorem mem_sort {l : List α} {a : α} : a ∈ sort l ↔ a ∈ l := (sort_perm l).mem_iff

@[simp] theorem length_sort (l : List α) : (sort l).length = l.length := (sort_perm l).length_eq

theorem nodup_sort {l : List α} : (sort l).Nodup ↔ l.Nodup := (sort_perm l).nodup_iff

theorem isChain_lt_of_ne : ∀ {l : List α}, l.IsChain (· ≤ ·) → l.IsChain (· ≠ ·) →
    l.IsChain (· < ·)
  | [], _, _ => .nil
  | [_], _, _ => .singleton _
  | a :: b :: rest, hle, hne => by
    rw [List.isChain_cons_cons] at hle hne ⊢
    exact ⟨lt_of_le_of_ne hle.1 hne.1, isChain_lt_of_ne hle.2 hne.2⟩

/-- On a sorted list, no two neighbours are equal iff no two elements are. -/
theorem isChain_ne_iff_nodup {l : List α} (hs : l.Pairwise (· ≤ ·)) :
    l.IsChain (· ≠ ·) ↔ l.Nodup := by
  constructor
  · intro hc
    have hlt : l.IsChain (· < ·) := isChain_lt_of_ne hs.isChain hc
    exact (List.isChain_iff_pairwise.mp hlt).imp fun h => ne_of_lt h
  · intro hn
    exact List.Pairwise.isChain hn

/-- Sorting and deduplicating keeps every element exactly when there was no duplicate. -/
theorem length_dedup_sort_iff {l : List α} :
    (dedup (sort l)).length = l.length ↔ l.Nodup := by
  rw [← nodup_sort, ← isChain_ne_iff_nodup (sort_sorted l), ← length_sort l]
  have hsub : (dedup (sort l)).Sublist (sort l) := List.destutter_sublist _ _
  constructor
  · intro h
    have heq : dedup (sort l) = sort l := hsub.eq_of_length h
    exact (List.destutter_eq_self_iff _ _).mp heq
  · intro h
    have heq : dedup (sort l) = sort l := (List.destutter_eq_self_iff _ _).mpr h
    rw [heq]

theorem dedup_sort_of_nodup {l : List α} (h : l.Nodup) : dedup (sort l) = sort l :=
  (List.destutter_eq_self_iff _ _).mpr
    ((isChain_ne_iff_nodup (sort_sorted l)).mpr (nodup_sort.mpr h))

theorem adjacentDup_eq_none_iff : ∀ l : List α, adjacentDup l = none ↔ l.IsChain (· ≠ ·)
  | [] => by simp [adjacentDup]
  | [a] => by simp [adjacentDup]
  | a :: b :: rest => by
    unfold adjacentDup
    rw [List.isChain_cons_cons, ← adjacentDup_eq_none_iff (b :: rest)]
    split
    · rename_i h
      simp [h]
    · rename_i h
      simp [h]

/-- The search for equal neighbours in the sorted list finds a duplicate iff there is one. -/
theorem adjacentDup_sort_eq_none_iff {l : List α} : adjacentDup (sort l) = none ↔ l.Nodup := by
  rw [adjacentDup_eq_none_iff, isChain_ne_iff_nodup (sort_sorted l), nodup_sort]

end Sorting
