import Kota.Bitcoin.Extern
import Kota.Lib.Matched

/-!
# Which keys derive

What `Extern.DerivesKeys` says of a descriptor, key by key. A key derives at an index, is refused,
or panics (`DescriptorPublicKey.DerivesAt`, `DescriptorPublicKey.PanicsAt`), and a descriptor is as
good as its first key that does not derive.

* **`Descriptor.atDerivationIndex_isOk_iff`**: it derives exactly where all its keys do.
* **`Descriptor.atDerivationIndex_panics_iff`**: it panics exactly where the first of its keys that
  does not derive panics.
-/

namespace Kota

variable {X : Extern}

/-! ## One key -/

/-- The key stands for one public key at the index. -/
def DescriptorPublicKey.DerivesAt (index : UInt32) (key : DescriptorPublicKey) : Prop :=
  key.isDerivable = true ∧ key.Takes index

instance (index : UInt32) (key : DescriptorPublicKey) : Decidable (key.DerivesAt index) :=
  inferInstanceAs (Decidable (_ ∧ _))

/-- Putting the index in its place leaves the key with a hardened step. -/
def DescriptorPublicKey.PanicsAt (index : UInt32) (key : DescriptorPublicKey) : Prop :=
  key.isHardened = true ∧ key.Takes index

/-- What the key is at the index: an extended one has the index in place of the wildcard. -/
def DescriptorPublicKey.replaced (index : UInt32) : DescriptorPublicKey → DescriptorPublicKey
  | .xPub k => k.replaced index
  | key => key

namespace Extern.DerivesKeys

variable (hX : X.DerivesKeys) {key : DescriptorPublicKey} {index : UInt32}
include hX

/-- **What an extended key becomes**, in all three cases. -/
theorem xPub_cases (k : DescriptorXKey) (index : UInt32) :
    ((DescriptorPublicKey.xPub k).DerivesAt index ∧ ∃ derived : DefiniteDescriptorKey,
        X.atDerivationIndex (.xPub k) index = .ok derived ∧ derived.key = k.replaced index) ∨
      ((DescriptorPublicKey.xPub k).PanicsAt index ∧
        ∃ message, X.atDerivationIndex (.xPub k) index = .error (.panic message)) ∨
      (¬ (DescriptorPublicKey.xPub k).Takes index ∧
        X.atDerivationIndex (.xPub k) index = .error (.error .hardenedStep)) := by
  by_cases htakes : (DescriptorPublicKey.xPub k).Takes index
  · cases hderivable : (DescriptorPublicKey.xPub k).isDerivable with
    | true =>
      exact Or.inl ⟨⟨hderivable, htakes⟩, _,
        hX.xPub k index htakes ((k.isDefinite_replaced index).trans hderivable), rfl⟩
    | false =>
      have hhardened : (DescriptorPublicKey.xPub k).isHardened = true := by
        rw [DescriptorPublicKey.isHardened_xPub, hderivable]
        rfl
      exact Or.inr (Or.inl ⟨⟨hhardened, htakes⟩, hX.hardened k index htakes hhardened⟩)
  · exact Or.inr (Or.inr ⟨htakes, hX.outOfRange k index htakes⟩)

/-- A key that derives is the one given, with the index in place of the wildcard. -/
theorem key_eq {derived : DefiniteDescriptorKey} (h : X.atDerivationIndex key index = .ok derived) :
    derived.key = key.replaced index := by
  cases key with
  | single k =>
    obtain rfl := Except.ok.inj ((hX.single k index).symm.trans h)
    rfl
  | multiXPub k => exact absurd ((hX.multiXPub k index).symm.trans h) (by simp)
  | xPub k =>
    rcases hX.xPub_cases k index with ⟨-, derived', hok, hkey⟩ | ⟨-, message, herr⟩ | ⟨-, herr⟩
    · obtain rfl := Except.ok.inj (hok.symm.trans h)
      exact hkey
    · exact absurd (herr.symm.trans h) (by simp)
    · exact absurd (herr.symm.trans h) (by simp)

theorem isOk_iff :
    (∃ derived, X.atDerivationIndex key index = .ok derived) ↔ key.DerivesAt index := by
  cases key with
  | single k => exact iff_of_true ⟨_, hX.single k index⟩ ⟨rfl, trivial⟩
  | multiXPub k =>
    refine iff_of_false ?_ fun h => absurd h.1 Bool.false_ne_true
    rintro ⟨derived, h⟩
    exact absurd ((hX.multiXPub k index).symm.trans h) (by simp)
  | xPub k =>
    rcases hX.xPub_cases k index with
      ⟨hderives, derived, hok, -⟩ | ⟨hpanics, message, herr⟩ | ⟨hout, herr⟩
    · exact iff_of_true ⟨derived, hok⟩ hderives
    · refine iff_of_false ?_ fun h => ?_
      · rintro ⟨derived, h⟩
        exact absurd (herr.symm.trans h) (by simp)
      · have hhardened := hpanics.1
        rw [DescriptorPublicKey.isHardened_xPub, h.1] at hhardened
        exact absurd hhardened Bool.false_ne_true
    · refine iff_of_false ?_ fun h => hout h.2
      rintro ⟨derived, h⟩
      exact absurd (herr.symm.trans h) (by simp)

theorem panics_iff :
    (∃ message, X.atDerivationIndex key index = .error (.panic message)) ↔ key.PanicsAt index := by
  cases key with
  | single k =>
    refine iff_of_false ?_ fun h => absurd h.1 Bool.false_ne_true
    rintro ⟨message, h⟩
    exact absurd ((hX.single k index).symm.trans h) (by simp)
  | multiXPub k =>
    refine iff_of_false ?_ fun h => absurd h.1 Bool.false_ne_true
    rintro ⟨message, h⟩
    exact absurd ((hX.multiXPub k index).symm.trans h) (by simp)
  | xPub k =>
    rcases hX.xPub_cases k index with
      ⟨hderives, derived, hok, -⟩ | ⟨hpanics, message, herr⟩ | ⟨hout, herr⟩
    · refine iff_of_false ?_ fun h => ?_
      · rintro ⟨message, h⟩
        exact absurd (hok.symm.trans h) (by simp)
      · have hhardened := h.1
        rw [DescriptorPublicKey.isHardened_xPub, hderives.1] at hhardened
        exact absurd hhardened Bool.false_ne_true
    · exact iff_of_true ⟨message, herr⟩ hpanics
    · refine iff_of_false ?_ fun h => hout h.2
      rintro ⟨message, h⟩
      exact absurd (herr.symm.trans h) (by simp)

end Extern.DerivesKeys

/-- Every key takes an index that is a normal child number. -/
theorem DescriptorPublicKey.takes_of_lt {index : UInt32} (h : index.toNat < 2 ^ 31)
    (key : DescriptorPublicKey) : key.Takes index := by
  cases key with
  | xPub k => exact Or.inr h
  | single | multiXPub => exact trivial

/-! ## A descriptor -/

namespace Descriptor

variable {d : Descriptor} {index : UInt32}

/-- The first key that does not derive at the index panics. -/
def PanicsAt (d : Descriptor) (index : UInt32) : Prop :=
  ∃ pre key post, d.keys = pre ++ key :: post ∧ (∀ k ∈ pre, k.DerivesAt index) ∧
    key.PanicsAt index

theorem atDerivationIndex_eq_ok {derived : DefiniteDescriptor}
    (h : d.atDerivationIndex X index = .ok derived) :
    derived.threshold = d.threshold ∧
      d.keys.mapM (fun key => X.atDerivationIndex key index) = .ok derived.keys := by
  unfold Descriptor.atDerivationIndex at h
  cases hkeys : d.keys.mapM fun key => X.atDerivationIndex key index with
  | error e =>
    rw [hkeys] at h
    exact absurd h (by simp [bind, Except.bind])
  | ok keys =>
    rw [hkeys] at h
    obtain rfl := Except.ok.inj h
    exact ⟨rfl, rfl⟩

theorem atDerivationIndex_eq_error_iff {e : DerivationFailure} :
    d.atDerivationIndex X index = .error e ↔
      d.keys.mapM (fun key => X.atDerivationIndex key index) = .error e := by
  unfold Descriptor.atDerivationIndex
  cases d.keys.mapM fun key => X.atDerivationIndex key index <;> simp [bind, Except.bind]

/-- **A descriptor derives** at an index with every key. -/
theorem atDerivationIndex_isOk_iff (hX : X.DerivesKeys) :
    (∃ derived, d.atDerivationIndex X index = .ok derived) ↔
      ∀ key ∈ d.keys, key.DerivesAt index := by
  rw [← forall₂_congr fun key (_ : key ∈ d.keys) => hX.isOk_iff, ← Matched.mapM_isOk_iff]
  constructor
  · rintro ⟨derived, h⟩
    exact ⟨_, (atDerivationIndex_eq_ok h).2⟩
  · rintro ⟨keys, h⟩
    unfold Descriptor.atDerivationIndex
    rw [h]
    exact ⟨_, rfl⟩

/-- **A descriptor panics** at an index with the first key that does not derive. -/
theorem atDerivationIndex_panics_iff (hX : X.DerivesKeys) :
    (∃ message, d.atDerivationIndex X index = .error (.panic message)) ↔ d.PanicsAt index := by
  constructor
  · rintro ⟨message, h⟩
    obtain ⟨pre, key, post, hkeys, hpre, hkey⟩ :=
      Matched.mapM_eq_error_iff.mp (atDerivationIndex_eq_error_iff.mp h)
    exact ⟨pre, key, post, hkeys, fun k hk => hX.isOk_iff.mp (hpre k hk),
      hX.panics_iff.mp ⟨message, hkey⟩⟩
  · rintro ⟨pre, key, post, hkeys, hpre, hkey⟩
    obtain ⟨message, h⟩ := hX.panics_iff.mpr hkey
    exact ⟨message, atDerivationIndex_eq_error_iff.mpr (Matched.mapM_eq_error_iff.mpr
      ⟨pre, key, post, hkeys, fun k hk => hX.isOk_iff.mpr (hpre k hk), h⟩)⟩

/-- **A descriptor panics at no index** exactly when each hardened key stands behind one that never
derives. -/
theorem never_panicsAt_iff :
    (∀ index, ¬ d.PanicsAt index) ↔ ∀ pre key post, d.keys = pre ++ key :: post →
      key.isHardened = true → ∃ k ∈ pre, k.isDerivable = false := by
  constructor
  · intro h pre key post hkeys hhardened
    by_contra hnone
    refine h 0 ⟨pre, key, post, hkeys, fun k hk => ⟨?_, k.takes_of_lt (by decide)⟩, hhardened,
      key.takes_of_lt (by decide)⟩
    by_contra hk'
    exact hnone ⟨k, hk, Bool.not_eq_true _ ▸ hk'⟩
  · rintro h index ⟨pre, key, post, hkeys, hpre, hpanics⟩
    obtain ⟨k, hk, hunderivable⟩ := h pre key post hkeys hpanics.1
    have hderives := (hpre k hk).1
    rw [hunderivable] at hderives
    exact absurd hderives Bool.false_ne_true

end Descriptor

end Kota
