import Mathlib.Data.List.Basic
import Mathlib.Data.List.Induction
import Std.Data.ExtTreeMap.Lemmas

/-!
# Writing a list of entries into a map

Two loops write entries into a map one after another. `overwrite` replaces what is there, so of
two entries with one key the **later** stays; `fill` writes into free keys only, so the value
already there, or else the **earlier** entry, stays. `getElem?_overwrite` and `getElem?_fill` say
what each leaves at a key.

Which source comes first matters only where two of them disagree: a search through sources that
`Agree` finds whatever one of them gives (`findSome?_eq_some_iff`).
-/

namespace MapMerge

open Std

variable {κ β : Type} [DecidableEq κ]

/-! ## Searching sources that agree -/

section Agree

variable {α : Type} {f : α → Option β} {l : List α}

/-- No two sources give different values. -/
def Agree (f : α → Option β) (l : List α) : Prop :=
  ∀ a ∈ l, ∀ a' ∈ l, ∀ b b' : β, f a = some b → f a' = some b' → b = b'

theorem findSome?_eq_some_iff (h : Agree f l) {b : β} :
    l.findSome? f = some b ↔ ∃ a ∈ l, f a = some b := by
  constructor
  · exact List.exists_of_findSome?_eq_some
  · rintro ⟨a, ha, hb⟩
    cases hf : l.findSome? f with
    | none => exact absurd hb (by simp [List.findSome?_eq_none_iff.mp hf a ha])
    | some b' =>
      obtain ⟨a', ha', hb'⟩ := List.exists_of_findSome?_eq_some hf
      rw [h a' ha' a ha b' b hb' hb]

end Agree

/-! ## Searching a list of entries -/

/-- The value of an entry, if it is one for `k`. -/
def valueAt (k : κ) (e : κ × β) : Option β := if e.1 = k then some e.2 else none

theorem findSome?_valueAt_eq_some {entries : List (κ × β)} {k : κ} {b : β}
    (h : entries.findSome? (valueAt k) = some b) : (k, b) ∈ entries := by
  obtain ⟨e, he, hv⟩ := List.exists_of_findSome?_eq_some h
  unfold valueAt at hv
  split at hv
  · rename_i hk
    obtain rfl := Option.some.inj hv
    obtain rfl := hk
    exact he
  · exact absurd hv (by simp)

theorem findSome?_valueAt_eq_none_iff {entries : List (κ × β)} {k : κ} :
    entries.findSome? (valueAt k) = none ↔ ∀ b, (k, b) ∉ entries := by
  rw [List.findSome?_eq_none_iff]
  constructor
  · intro h b hm
    have := h _ hm
    simp [valueAt] at this
  · rintro h ⟨a, b⟩ he
    unfold valueAt
    split
    · rename_i hk
      obtain rfl : a = k := hk
      exact absurd he (h b)
    · rfl

/-- In entries with at most one value a key, a search finds it. -/
theorem findSome?_valueAt_of_mem {entries : List (κ × β)} {k : κ} {b : β}
    (huniq : ∀ b', (k, b') ∈ entries → b' = b) (h : (k, b) ∈ entries) :
    entries.findSome? (valueAt k) = some b := by
  cases hf : entries.findSome? (valueAt k) with
  | none => exact absurd h (findSome?_valueAt_eq_none_iff.mp hf b)
  | some b' => rw [huniq b' (findSome?_valueAt_eq_some hf)]

/-! ## Writing entries -/

variable [Ord κ] [TransOrd κ] [LawfulEqOrd κ]

omit [DecidableEq κ] [LawfulEqOrd κ] in
theorem contains_eq_false_iff {m : ExtTreeMap κ β compare} {k : κ} :
    m.contains k = false ↔ m[k]? = none := by
  rw [ExtTreeMap.contains_eq_isSome_getElem?, Option.isSome_eq_false_iff,
    Option.isNone_iff_eq_none]

/-- `insert` for every entry. -/
def overwrite (m : ExtTreeMap κ β compare) (entries : List (κ × β)) : ExtTreeMap κ β compare :=
  entries.foldl (fun m e => m.insert e.1 e.2) m

/-- `entry(..).or_insert(..)` for every entry. -/
def fill (m : ExtTreeMap κ β compare) (entries : List (κ × β)) : ExtTreeMap κ β compare :=
  entries.foldl (fun m e => m.insertIfNew e.1 e.2) m

theorem getElem?_insert_eq (m : ExtTreeMap κ β compare) (a k : κ) (b : β) :
    (m.insert a b)[k]? = (valueAt k (a, b)).or m[k]? := by
  rw [ExtTreeMap.getElem?_insert]
  unfold valueAt
  by_cases h : a = k
  · subst h
    simp
  · have hc : compare a k ≠ .eq := fun he => h (LawfulEqOrd.eq_of_compare he)
    simp [h, hc]

theorem getElem?_insertIfNew_eq (m : ExtTreeMap κ β compare) (a k : κ) (b : β) :
    (m.insertIfNew a b)[k]? = m[k]?.or (valueAt k (a, b)) := by
  rw [ExtTreeMap.getElem?_insertIfNew]
  unfold valueAt
  by_cases h : a = k
  · subst h
    cases hm : m[a]? with
    | none =>
      have : ¬ a ∈ m := by
        rw [ExtTreeMap.mem_iff_isSome_getElem?, hm]
        simp
      simp [this]
    | some b' =>
      have : a ∈ m := by
        rw [ExtTreeMap.mem_iff_isSome_getElem?, hm]
        simp
      simp [this]
  · have hc : compare a k ≠ .eq := fun he => h (LawfulEqOrd.eq_of_compare he)
    simp [h, hc]

/-- After `overwrite`, the last entry for a key, or what was there. -/
theorem getElem?_overwrite (m : ExtTreeMap κ β compare) (entries : List (κ × β)) (k : κ) :
    (overwrite m entries)[k]? = (entries.reverse.findSome? (valueAt k)).or m[k]? := by
  induction entries using List.reverseRecOn with
  | nil => simp [overwrite]
  | append_singleton entries e ih =>
    unfold overwrite at ih ⊢
    rw [List.foldl_append, List.foldl_cons, List.foldl_nil, getElem?_insert_eq, ih]
    simp only [List.reverse_append, List.reverse_cons, List.reverse_nil, List.nil_append,
      List.singleton_append, List.findSome?_cons]
    cases valueAt k e <;> simp

/-- An entry stays exactly as long as no later entry has its key. -/
theorem getElem?_overwrite_last (m : ExtTreeMap κ β compare) (pre post : List (κ × β)) (k : κ)
    (b : β) :
    (∀ e ∈ post, e.1 ≠ k) ∧ (overwrite m (pre ++ (k, b) :: post))[k]? = some b ∨
      ∃ b', (k, b') ∈ post ∧ (overwrite m (pre ++ (k, b) :: post))[k]? = some b' := by
  have hsplit : overwrite m (pre ++ (k, b) :: post) =
      overwrite ((overwrite m pre).insert k b) post := by
    unfold overwrite
    rw [List.foldl_append, List.foldl_cons]
  rw [hsplit, getElem?_overwrite]
  cases hf : post.reverse.findSome? (valueAt k) with
  | some b' =>
    exact Or.inr ⟨b', List.mem_reverse.mp (findSome?_valueAt_eq_some hf), rfl⟩
  | none =>
    refine Or.inl ⟨?_, by simp⟩
    rintro ⟨k', b'⟩ he rfl
    exact findSome?_valueAt_eq_none_iff.mp hf b' (List.mem_reverse.mpr he)

/-- Entries with different keys all stay. -/
theorem getElem?_overwrite_of_nodup (m : ExtTreeMap κ β compare) {entries : List (κ × β)}
    (hkeys : (entries.map Prod.fst).Nodup) {k : κ} {b : β} (h : (k, b) ∈ entries) :
    (overwrite m entries)[k]? = some b := by
  obtain ⟨pre, post, rfl⟩ := List.append_of_mem h
  rcases getElem?_overwrite_last m pre post k b with ⟨-, hget⟩ | ⟨b', hb', -⟩
  · exact hget
  · rw [List.map_append, List.map_cons] at hkeys
    have hfresh := (List.nodup_cons.mp (List.nodup_append.mp hkeys).2.1).1
    exact absurd (List.mem_map.mpr ⟨_, hb', rfl⟩) hfresh

/-- After `fill`, what was there, or the first entry for a key. -/
theorem getElem?_fill (m : ExtTreeMap κ β compare) (entries : List (κ × β)) (k : κ) :
    (fill m entries)[k]? = m[k]?.or (entries.findSome? (valueAt k)) := by
  induction entries generalizing m with
  | nil => simp [fill]
  | cons e entries ih =>
    unfold fill at ih ⊢
    rw [List.foldl_cons, ih, getElem?_insertIfNew_eq, List.findSome?_cons]
    cases m[k]? <;> cases valueAt k e <;> simp

theorem findSome?_valueAt_toList (m : ExtTreeMap κ β compare) (k : κ) :
    m.toList.findSome? (valueAt k) = m[k]? := by
  cases hf : m.toList.findSome? (valueAt k) with
  | some b =>
    have := findSome?_valueAt_eq_some hf
    rw [ExtTreeMap.mem_toList_iff_getElem?_eq_some] at this
    exact this.symm
  | none =>
    cases hm : m[k]? with
    | none => rfl
    | some b =>
      have := findSome?_valueAt_eq_none_iff.mp hf b
      rw [ExtTreeMap.mem_toList_iff_getElem?_eq_some] at this
      exact absurd hm this

/-- Filling a map from another one keeps its entries and adds the missing ones. -/
theorem getElem?_fill_toList (m m' : ExtTreeMap κ β compare) (k : κ) :
    (fill m m'.toList)[k]? = m[k]?.or m'[k]? := by
  rw [getElem?_fill, findSome?_valueAt_toList]

/-- Writing the entries that `m'` has and `m` has not gives `m'`, when `m'` extends `m`. -/
theorem overwrite_new {m m' : ExtTreeMap κ β compare}
    (hext : ∀ (k : κ) (b : β), m[k]? = some b → m'[k]? = some b) :
    overwrite m (m'.toList.filter fun e => !m.contains e.1) = m' := by
  refine ExtTreeMap.ext_getElem? fun k => ?_
  rw [getElem?_overwrite]
  set entries := (m'.toList.filter fun e => !m.contains e.1).reverse with hentries
  have hmem : ∀ b, (k, b) ∈ entries ↔ m'[k]? = some b ∧ m[k]? = none := by
    intro b
    rw [hentries, List.mem_reverse, List.mem_filter, ExtTreeMap.mem_toList_iff_getElem?_eq_some]
    simp only [ExtTreeMap.contains_eq_isSome_getElem?]
    cases m[k]? <;> simp
  cases hm : m[k]? with
  | some b =>
    have hnone : entries.findSome? (valueAt k) = none :=
      findSome?_valueAt_eq_none_iff.mpr fun b' hb' => by
        have := ((hmem b').mp hb').2
        rw [hm] at this
        exact absurd this (by simp)
    rw [hnone, hext k b hm]
    rfl
  | none =>
    cases hm' : m'[k]? with
    | none =>
      have hnone : entries.findSome? (valueAt k) = none :=
        findSome?_valueAt_eq_none_iff.mpr fun b' hb' => by
          have := ((hmem b').mp hb').1
          rw [hm'] at this
          exact absurd this (by simp)
      rw [hnone]
      rfl
    | some b =>
      have hfound := findSome?_valueAt_of_mem (b := b) (fun b' hb' => by
        have := ((hmem b').mp hb').1
        rw [hm'] at this
        exact (Option.some.inj this).symm) ((hmem b).mpr ⟨hm', hm⟩)
      rw [hfound]
      rfl

end MapMerge
