import Mathlib.Data.List.Perm.Subperm

/-!
# Lists without duplicates

Counting facts about duplicate-free lists, and keyed lists: pairs whose first components are
distinct, in which a key finds exactly one entry.
-/

namespace Distinct

variable {α β : Type}

/-- A duplicate-free part of a duplicate-free list and what is left of it add up. -/
theorem length_filter_not_mem_add [DecidableEq α] {l part : List α} (hl : l.Nodup)
    (hp : part.Nodup) (hsub : ∀ a ∈ part, a ∈ l) :
    (l.filter fun a => !part.contains a).length + part.length = l.length := by
  have hin : (l.filter fun a => part.contains a).Perm part := by
    refine (List.perm_ext_iff_of_nodup (hl.filter _) hp).mpr fun a => ?_
    simp only [List.mem_filter, List.contains_iff_mem]
    exact ⟨fun h => h.2, fun h => ⟨hsub a h, h⟩⟩
  have hsplit := List.length_eq_length_filter_add (l := l) fun a => part.contains a
  have heq := hin.length_eq
  omega

/-- A duplicate-free list is no longer than a list that holds its elements. -/
theorem length_le_of_subset {l part : List α} (hp : part.Nodup) (hsub : ∀ a ∈ part, a ∈ l) :
    part.length ≤ l.length :=
  (hp.subperm fun _ h => hsub _ h).length_le

/-- Distinct things, each of which someone answers for, have distinct people who answer for them,
when nobody answers for two. -/
theorem exists_preimages {r : α → β → Prop} (hr : ∀ a b c, r a b → r a c → b = c) {l : List β}
    (hl : l.Nodup) (h : ∀ b ∈ l, ∃ a, r a b) :
    ∃ as : List α, as.Nodup ∧ as.length = l.length ∧ (∀ a ∈ as, ∃ b ∈ l, r a b) ∧
      ∀ b ∈ l, ∃ a ∈ as, r a b := by
  induction l with
  | nil =>
    refine ⟨[], List.nodup_nil, rfl, ?_, ?_⟩
    · exact fun a ha => absurd ha List.not_mem_nil
    · exact fun b hb => absurd hb List.not_mem_nil
  | cons b l ih =>
    rw [List.nodup_cons] at hl
    obtain ⟨as, hnodup, hlen, hback, hforth⟩ := ih hl.2 fun c hc => h c (List.mem_cons_of_mem _ hc)
    obtain ⟨a, ha⟩ := h b List.mem_cons_self
    refine ⟨a :: as, List.nodup_cons.mpr ⟨fun hm => ?_, hnodup⟩, by simp [hlen], ?_, ?_⟩
    · obtain ⟨c, hc, hac⟩ := hback a hm
      exact hl.1 (hr a b c ha hac ▸ hc)
    · rintro x hx
      rcases List.mem_cons.mp hx with rfl | hx
      · exact ⟨b, List.mem_cons_self, ha⟩
      · obtain ⟨c, hc, hxc⟩ := hback x hx
        exact ⟨c, List.mem_cons_of_mem _ hc, hxc⟩
    · rintro c hc
      rcases List.mem_cons.mp hc with rfl | hc
      · exact ⟨a, List.mem_cons_self, ha⟩
      · obtain ⟨x, hx, hxc⟩ := hforth c hc
        exact ⟨x, List.mem_cons_of_mem _ hx, hxc⟩

/-- In a keyed list, the search for a key finds the entry that has it. -/
theorem find?_of_mem [DecidableEq α] {l : List (α × β)} (hk : (l.map Prod.fst).Nodup)
    {a : α} {b : β} (h : (a, b) ∈ l) : (l.find? fun e => e.1 == a) = some (a, b) := by
  induction l with
  | nil => exact absurd h List.not_mem_nil
  | cons e l ih =>
    rw [List.map_cons, List.nodup_cons] at hk
    rw [List.find?_cons]
    rcases List.mem_cons.mp h with rfl | h
    · simp
    · have hne : (e.1 == a) = false := by
        simp only [beq_eq_false_iff_ne, ne_eq]
        rintro rfl
        exact hk.1 (List.mem_map.mpr ⟨_, h, rfl⟩)
      rw [hne]
      exact ih hk.2 h

theorem find?_eq_none_iff [DecidableEq α] {l : List (α × β)} {a : α} :
    (l.find? fun e => e.1 == a) = none ↔ a ∉ l.map Prod.fst := by
  simp only [List.find?_eq_none, beq_iff_eq, List.mem_map, not_exists, not_and]

theorem mem_of_find? [DecidableEq α] {l : List (α × β)} {a c : α} {b : β}
    (h : (l.find? fun e => e.1 == a) = some (c, b)) : c = a ∧ (a, b) ∈ l := by
  have hp := List.find?_some h
  have hm := List.mem_of_find?_eq_some h
  simp only [beq_iff_eq] at hp
  exact ⟨hp, hp ▸ hm⟩

end Distinct
