import Mathlib.Data.List.Forall2

/-!
# Lists matched element by element

`List.Forall₂ R l l'` read by position and by membership, and as what `mapM` returns.
-/

namespace Matched

variable {α β : Type} {R : α → β → Prop}

/-- Collecting what every element has gives a matched list. -/
theorem filterMap_of_forall {f : α → Option β} {l : List α}
    (h : ∀ a ∈ l, ∃ b, f a = some b ∧ R a b) : List.Forall₂ R l (l.filterMap f) := by
  induction l with
  | nil => exact .nil
  | cons a l ih =>
    obtain ⟨b, hb, hab⟩ := h a List.mem_cons_self
    rw [List.filterMap_cons_some hb]
    exact .cons hab (ih fun x hx => h x (List.mem_cons_of_mem _ hx))

/-- Every element having a match, there is a matched list. -/
theorem exists_of_forall {l : List α} (h : ∀ a ∈ l, ∃ b, R a b) : ∃ l', List.Forall₂ R l l' := by
  induction l with
  | nil => exact ⟨[], .nil⟩
  | cons a l ih =>
    obtain ⟨b, hab⟩ := h a List.mem_cons_self
    obtain ⟨l', hl⟩ := ih fun x hx => h x (List.mem_cons_of_mem _ hx)
    exact ⟨b :: l', .cons hab hl⟩

theorem exists_of_mem_right {l : List α} {l' : List β} (h : List.Forall₂ R l l') {b : β}
    (hb : b ∈ l') : ∃ a ∈ l, R a b := by
  induction h with
  | nil => exact absurd hb List.not_mem_nil
  | cons hab _ ih =>
    rcases List.mem_cons.mp hb with rfl | hb
    · exact ⟨_, List.mem_cons_self, hab⟩
    · obtain ⟨a, ha, hR⟩ := ih hb
      exact ⟨a, List.mem_cons_of_mem _ ha, hR⟩

theorem exists_of_mem_left {l : List α} {l' : List β} (h : List.Forall₂ R l l') {a : α}
    (ha : a ∈ l) : ∃ b ∈ l', R a b :=
  exists_of_mem_right h.flip ha

theorem exists_of_getElem?_right {l : List α} {l' : List β} (h : List.Forall₂ R l l') {i : Nat}
    {b : β} (hb : l'[i]? = some b) : ∃ a, l[i]? = some a ∧ R a b := by
  induction h generalizing i with
  | nil => exact absurd hb (by simp)
  | cons hab _ ih =>
    cases i with
    | zero =>
      obtain rfl := Option.some.inj hb
      exact ⟨_, rfl, hab⟩
    | succ i => exact ih hb

theorem exists_of_getElem?_left {l : List α} {l' : List β} (h : List.Forall₂ R l l') {i : Nat}
    {a : α} (ha : l[i]? = some a) : ∃ b, l'[i]? = some b ∧ R a b :=
  exists_of_getElem?_right h.flip ha

theorem set_both {l : List α} {l' : List β} (h : List.Forall₂ R l l') (i : Nat) {a : α} {b : β}
    (hab : R a b) : List.Forall₂ R (l.set i a) (l'.set i b) := by
  induction h generalizing i with
  | nil => exact .nil
  | cons hab' hrest ih =>
    cases i with
    | zero => exact .cons hab hrest
    | succ i => exact .cons hab' (ih i)

/-- A split of the first list splits the second. -/
theorem split_left {pre post : List α} {a : α} {l' : List β}
    (h : List.Forall₂ R (pre ++ a :: post) l') :
    ∃ pre' b post', l' = pre' ++ b :: post' ∧ List.Forall₂ R pre pre' ∧ R a b ∧
      List.Forall₂ R post post' := by
  induction pre generalizing l' with
  | nil =>
    cases h with
    | cons hab hrest => exact ⟨[], _, _, rfl, .nil, hab, hrest⟩
  | cons c pre ih =>
    cases h with
    | cons hcb hrest =>
      obtain ⟨pre', b, post', rfl, hpre, hab, hpost⟩ := ih hrest
      exact ⟨_ :: pre', b, post', rfl, .cons hcb hpre, hab, hpost⟩

theorem imp_mem_right {S : α → β → Prop} {l : List α} {l' : List β} (h : List.Forall₂ R l l')
    (himp : ∀ a, ∀ b ∈ l', R a b → S a b) : List.Forall₂ S l l' := by
  induction h with
  | nil => exact .nil
  | cons hab _ ih =>
    exact .cons (himp _ _ List.mem_cons_self hab)
      (ih fun a b hb => himp a b (List.mem_cons_of_mem _ hb))

theorem comp {γ : Type} {S : β → γ → Prop} {l : List α} {l' : List β} {l'' : List γ}
    (h : List.Forall₂ R l l') (h' : List.Forall₂ S l' l'') :
    List.Forall₂ (fun a c => ∃ b, R a b ∧ S b c) l l'' := by
  induction h generalizing l'' with
  | nil =>
    rw [List.forall₂_nil_left_iff] at h'
    exact h' ▸ .nil
  | cons hab _ ih =>
    cases h' with
    | cons hbc hrest => exact .cons ⟨_, hab, hbc⟩ (ih hrest)

/-! ## What `mapM` returns -/

theorem mapM_eq_some_iff {f : α → Option β} {l : List α} {l' : List β} :
    l.mapM f = some l' ↔ List.Forall₂ (fun a b => f a = some b) l l' := by
  induction l generalizing l' with
  | nil =>
    rw [List.mapM_nil, List.forall₂_nil_left_iff]
    exact ⟨fun h => (Option.some.inj h).symm, fun h => h ▸ rfl⟩
  | cons a l ih =>
    rw [List.mapM_cons, List.forall₂_cons_left_iff]
    cases hf : f a with
    | none => simp
    | some b =>
      cases hl : l.mapM f with
      | none =>
        simp only [Option.bind_eq_bind, Option.bind_some, Option.bind_none, reduceCtorEq, false_iff,
          not_exists, not_and]
        intro b' l'' _ hall
        rw [ih.mpr hall] at hl
        exact absurd hl (by simp)
      | some l'' =>
        simp only [Option.bind_eq_bind, Option.bind_some, Option.pure_def, Option.some.injEq]
        constructor
        · rintro rfl
          exact ⟨b, l'', rfl, ih.mp hl, rfl⟩
        · rintro ⟨b', l₃, rfl, hall, rfl⟩
          rw [Option.some.inj (hl.symm.trans (ih.mpr hall))]

theorem mapM_isSome_iff {f : α → Option β} {l : List α} :
    (l.mapM f).isSome ↔ ∀ a ∈ l, (f a).isSome := by
  induction l with
  | nil => simp
  | cons a l ih =>
    rw [List.mapM_cons, List.forall_mem_cons, ← ih]
    cases f a <;> cases l.mapM f <;> simp

theorem mapM_eq_ok {ε : Type} {f : α → Except ε β} {l : List α} {l' : List β}
    (h : l.mapM f = .ok l') : List.Forall₂ (fun a b => f a = .ok b) l l' := by
  induction l generalizing l' with
  | nil =>
    obtain rfl := Except.ok.inj h
    exact .nil
  | cons a l ih =>
    rw [List.mapM_cons] at h
    cases hf : f a with
    | error e =>
      rw [hf] at h
      exact absurd h (by simp [bind, Except.bind])
    | ok b =>
      cases hl : l.mapM f with
      | error e =>
        rw [hf, hl] at h
        exact absurd h (by simp [bind, Except.bind])
      | ok l'' =>
        rw [hf, hl] at h
        obtain rfl := Except.ok.inj h
        exact .cons hf (ih hl)

theorem mapM_isOk_iff {ε : Type} {f : α → Except ε β} {l : List α} :
    (∃ l', l.mapM f = .ok l') ↔ ∀ a ∈ l, ∃ b, f a = .ok b := by
  constructor
  · rintro ⟨l', h⟩ a ha
    obtain ⟨b, -, hb⟩ := exists_of_mem_left (mapM_eq_ok h) ha
    exact ⟨b, hb⟩
  · intro h
    induction l with
    | nil => exact ⟨[], rfl⟩
    | cons a l ih =>
      obtain ⟨b, hb⟩ := h a List.mem_cons_self
      obtain ⟨l', hl'⟩ := ih fun x hx => h x (List.mem_cons_of_mem _ hx)
      exact ⟨b :: l', by rw [List.mapM_cons, hb, hl']; rfl⟩

/-- The error is that of the first element that has one. -/
theorem mapM_eq_error_iff {ε : Type} {f : α → Except ε β} {l : List α} {e : ε} :
    l.mapM f = .error e ↔
      ∃ pre a post, l = pre ++ a :: post ∧ (∀ x ∈ pre, ∃ b, f x = .ok b) ∧ f a = .error e := by
  constructor
  · intro h
    induction l with
    | nil => exact absurd h (by simp [pure, Except.pure])
    | cons a l ih =>
      rw [List.mapM_cons] at h
      cases hf : f a with
      | error e' =>
        rw [hf] at h
        obtain rfl := Except.error.inj h
        exact ⟨[], a, l, rfl, fun _ hx => absurd hx List.not_mem_nil, hf⟩
      | ok b =>
        cases hl : l.mapM f with
        | error e' =>
          rw [hf, hl] at h
          obtain rfl := Except.error.inj h
          obtain ⟨pre, x, post, rfl, hpre, hx⟩ := ih hl
          exact ⟨a :: pre, x, post, rfl, List.forall_mem_cons.mpr ⟨⟨b, hf⟩, hpre⟩, hx⟩
        | ok l' =>
          rw [hf, hl] at h
          exact absurd h (by simp [bind, Except.bind, pure, Except.pure])
  · rintro ⟨pre, a, post, rfl, hpre, ha⟩
    obtain ⟨l', hl'⟩ := mapM_isOk_iff.mpr hpre
    rw [List.mapM_append, hl', List.mapM_cons, ha]
    rfl

/-- What holds between any two elements of one list holds between those matched with them. -/
theorem pairwise_iff {S : α → α → Prop} {T : β → β → Prop} {l : List α} {l' : List β}
    (h : List.Forall₂ R l l') (hiff : ∀ {a a' b b'}, R a b → R a' b' → (S a a' ↔ T b b')) :
    l.Pairwise S ↔ l'.Pairwise T := by
  induction h with
  | nil => exact iff_of_true .nil .nil
  | cons hab hrest ih =>
    rw [List.pairwise_cons, List.pairwise_cons, ih]
    refine and_congr_left fun _ => ⟨fun hall b' hb' => ?_, fun hall a' ha' => ?_⟩
    · obtain ⟨a', ha', hab'⟩ := exists_of_mem_right hrest hb'
      exact (hiff hab hab').mp (hall a' ha')
    · obtain ⟨b', hb', hab'⟩ := exists_of_mem_left hrest ha'
      exact (hiff hab hab').mpr (hall b' hb')

end Matched
