import Mathlib.Data.Char
import Mathlib.Data.List.SplitOn
import Mathlib.Data.List.Sort

/-!
# Reading a canonical text back

Texts are lists of characters, assembled from fields with separators that the fields do not
contain. Each lemma recovers what one step of the assembly put in: `append_sep_inj` the field in
front of a separator, `intercalate_inj` a separated list, `toDigits_injective` a number,
`flatMap_utf8EncodeChar_injective` the text behind its UTF-8 bytes.

`insertionSort_key_eq`: a list sorted by a key is determined by its elements.
-/

namespace Text

variable {α : Type}

/-- A separator that neither front part contains cuts both texts at one place. -/
theorem append_sep_inj {c : α} : ∀ {a a' b b' : List α}, c ∉ a → c ∉ a' →
    a ++ c :: b = a' ++ c :: b' → a = a' ∧ b = b'
  | [], [], _, _, _, _, h => ⟨rfl, (List.cons.inj h).2⟩
  | [], x :: a', _, _, _, hc', h => absurd (List.cons.inj h).1 fun he => hc' (he ▸ List.mem_cons_self)
  | x :: a, [], _, _, hc, _, h =>
    absurd (List.cons.inj h).1 fun he => hc (he ▸ List.mem_cons_self)
  | x :: a, y :: a', _, _, hc, hc', h => by
    obtain ⟨rfl, hrest⟩ := List.cons.inj h
    obtain ⟨rfl, rfl⟩ := append_sep_inj (fun hm => hc (List.mem_cons_of_mem _ hm))
      (fun hm => hc' (List.mem_cons_of_mem _ hm)) hrest
    exact ⟨rfl, rfl⟩

/-- A separated list is read back, when no element contains the separator. -/
theorem intercalate_inj [DecidableEq α] {c : α} {l l' : List (List α)} (hl : l ≠ []) (hl' : l' ≠ [])
    (hc : ∀ a ∈ l, c ∉ a) (hc' : ∀ a ∈ l', c ∉ a)
    (h : List.intercalate [c] l = List.intercalate [c] l') : l = l' := by
  rw [← List.splitOn_intercalate c hc hl, h, List.splitOn_intercalate c hc' hl']

theorem toDigits_injective : Function.Injective (Nat.toDigits 10) := by
  intro m n h
  rw [← Nat.ofDigitChars_ten_toDigits (n := m), h, Nat.ofDigitChars_ten_toDigits]

theorem not_mem_toDigits {c : Char} (hc : c.isDigit = false) (n : Nat) : c ∉ Nat.toDigits 10 n := by
  intro h
  have := Nat.isDigit_of_mem_toDigits (by omega) (by omega) h
  rw [hc] at this
  exact absurd this (by simp)

/-- A text is determined by its UTF-8 bytes. -/
theorem flatMap_utf8EncodeChar_injective :
    Function.Injective fun s : List Char => s.flatMap String.utf8EncodeChar := by
  intro s t h
  have hbytes : (String.ofList s).toByteArray = (String.ofList t).toByteArray := by
    rw [String.toByteArray_ofList, String.toByteArray_ofList]
    exact congrArg List.toByteArray h
  exact String.ofList_injective (String.toByteArray_inj.mp hbytes)

/-- Two arrangements of the same elements sort to one list, when the key tells the elements
apart. -/
theorem insertionSort_key_eq {β : Type} [LinearOrder β] {key : α → β} {l l' : List α}
    (hkey : ∀ a ∈ l, ∀ b ∈ l, key a = key b → a = b) (h : l.Perm l') :
    l.insertionSort (fun a b => key a ≤ key b) = l'.insertionSort (fun a b => key a ≤ key b) := by
  have : Std.Total fun a b : α => key a ≤ key b := ⟨fun a b => le_total _ _⟩
  have : IsTrans α fun a b => key a ≤ key b := ⟨fun _ _ _ => le_trans⟩
  have hsort := List.perm_insertionSort (fun a b => key a ≤ key b) l
  have hsort' := List.perm_insertionSort (fun a b => key a ≤ key b) l'
  refine (hsort.trans (h.trans hsort'.symm)).eq_of_pairwise (fun a b ha hb hab hba => ?_)
    (List.pairwise_insertionSort _ l) (List.pairwise_insertionSort _ l')
  have hb' := h.mem_iff.mpr (hsort'.mem_iff.mp hb)
  exact hkey a (hsort.mem_iff.mp ha) b hb' (le_antisymm hab hba)

end Text
