import Kota.Lib.Text

/-!
# Hexadecimal text

Bytes printed with two lowercase digits each, and read back by a reader of digits that also takes
the uppercase ones. What a text stands for is its list of digit values: `ofDigits_eq_some_iff` says
which two characters stand for a byte, `map_toDigit_injective_of_lower` that two lowercase texts
with the same values are the same.

A reader that works on the UTF-8 bytes of a text, one character a byte, sees exactly the ASCII
texts for what they are (`map_byteChar_of_digits`, `eq_of_byte_digits`).
-/

namespace Hex

/-! ## Digits -/

/-- The value of a hexadecimal digit, of either case. -/
def toDigit (c : Char) : Option UInt32 :=
  if '0' ≤ c ∧ c ≤ '9' then some (c.val - '0'.val)
  else if 'a' ≤ c ∧ c ≤ 'f' then some (c.val - 'a'.val + 10)
  else if 'A' ≤ c ∧ c ≤ 'F' then some (c.val - 'A'.val + 10)
  else none

/-- A digit as it is printed. -/
def isLower (c : Char) : Bool := ('0' ≤ c && c ≤ '9') || ('a' ≤ c && c ≤ 'f')

/-- A digit that is read and never printed. -/
def isUpper (c : Char) : Bool := 'A' ≤ c && c ≤ 'F'

def lowerDigits : List Char := "0123456789abcdef".toList

def upperDigits : List Char := "ABCDEF".toList

theorem toNat_le_iff {c d : Char} : c ≤ d ↔ c.toNat ≤ d.toNat := by
  rw [Char.le_def, UInt32.le_iff_toNat_le, Char.toNat_val, Char.toNat_val]

theorem mem_of_toNat_mem {cs : List Char} {c : Char} (h : c.toNat ∈ cs.map Char.toNat) :
    c ∈ cs := by
  obtain ⟨d, hd, heq⟩ := List.mem_map.mp h
  rwa [← Char.toNat_inj.mp heq]

theorem isLower_iff {c : Char} : isLower c = true ↔ c ∈ lowerDigits := by
  constructor
  · intro h
    have hrange : (48 ≤ c.toNat ∧ c.toNat ≤ 57) ∨ (97 ≤ c.toNat ∧ c.toNat ≤ 102) := by
      simp only [isLower, Bool.or_eq_true, Bool.and_eq_true, decide_eq_true_eq, toNat_le_iff] at h
      exact h
    apply mem_of_toNat_mem
    have hcodes : lowerDigits.map Char.toNat =
        [48, 49, 50, 51, 52, 53, 54, 55, 56, 57, 97, 98, 99, 100, 101, 102] := rfl
    rw [hcodes]
    simp only [List.mem_cons, List.not_mem_nil]
    omega
  · intro h
    have hall : lowerDigits.all isLower = true := by decide
    exact List.all_eq_true.mp hall c h

theorem isUpper_iff {c : Char} : isUpper c = true ↔ c ∈ upperDigits := by
  constructor
  · intro h
    have hrange : 65 ≤ c.toNat ∧ c.toNat ≤ 70 := by
      simp only [isUpper, Bool.and_eq_true, decide_eq_true_eq, toNat_le_iff] at h
      exact h
    apply mem_of_toNat_mem
    have hcodes : upperDigits.map Char.toNat = [65, 66, 67, 68, 69, 70] := rfl
    rw [hcodes]
    simp only [List.mem_cons, List.not_mem_nil]
    omega
  · intro h
    have hall : upperDigits.all isUpper = true := by decide
    exact List.all_eq_true.mp hall c h

/-- The digits are those of the two cases. -/
theorem toDigit_isSome_iff {c : Char} :
    (toDigit c).isSome = true ↔ isLower c = true ∨ isUpper c = true := by
  unfold toDigit isLower isUpper
  split
  · simp_all
  · split
    · simp_all
    · split <;> simp_all

theorem toDigit_lt {c : Char} {n : UInt32} (h : toDigit c = some n) : n.toNat < 16 := by
  have hdigit := toDigit_isSome_iff.mp (by rw [h]; rfl)
  have hmem : c ∈ lowerDigits ++ upperDigits :=
    List.mem_append.mpr (hdigit.imp isLower_iff.mp isUpper_iff.mp)
  have hall : ((lowerDigits ++ upperDigits).all fun c =>
      (toDigit c).all fun m => decide (m.toNat < 16)) = true := by decide
  have hc := List.all_eq_true.mp hall c hmem
  rw [h] at hc
  exact of_decide_eq_true hc

theorem toDigit_digitChar {n : Nat} (h : n < 16) :
    toDigit (Nat.digitChar n) = some (UInt32.ofNat n) := by
  have hall : ∀ n < 16, toDigit (Nat.digitChar n) = some (UInt32.ofNat n) := by decide
  exact hall n h

theorem isLower_digitChar {n : Nat} (h : n < 16) : isLower (Nat.digitChar n) = true := by
  have hall : ∀ n < 16, isLower (Nat.digitChar n) = true := by decide
  exact hall n h

/-- A value has one lowercase digit. -/
theorem eq_of_lower {c d : Char} (hc : isLower c = true) (hd : isLower d = true)
    (h : toDigit c = toDigit d) : c = d := by
  have hall : (lowerDigits.all fun c => lowerDigits.all fun d =>
      toDigit c != toDigit d || c == d) = true := by decide
  have hcd := List.all_eq_true.mp (List.all_eq_true.mp hall c (isLower_iff.mp hc)) d
    (isLower_iff.mp hd)
  simpa [h] using hcd

theorem not_lower_of_upper {c : Char} (h : isUpper c = true) : isLower c = false := by
  have hall : (upperDigits.all fun c => !isLower c) = true := by decide
  simpa using List.all_eq_true.mp hall c (isUpper_iff.mp h)

/-- Two lowercase texts with the same values are the same. -/
theorem map_toDigit_injective_of_lower : ∀ {s t : List Char}, (∀ c ∈ s, isLower c = true) →
    (∀ c ∈ t, isLower c = true) → s.map toDigit = t.map toDigit → s = t
  | [], [], _, _, _ => rfl
  | [], _ :: _, _, _, h => absurd h (by simp)
  | _ :: _, [], _, _, h => absurd h (by simp)
  | c :: s, d :: t, hs, ht, h => by
    obtain ⟨hhead, htail⟩ := List.cons.inj h
    rw [eq_of_lower (hs c List.mem_cons_self) (ht d List.mem_cons_self) hhead,
      map_toDigit_injective_of_lower (fun c hc => hs c (List.mem_cons_of_mem _ hc))
        (fun c hc => ht c (List.mem_cons_of_mem _ hc)) htail]

/-! ## Bytes -/

/-- `{byte:02x}`. -/
def ofByte (b : UInt8) : List Char := [Nat.digitChar (b.toNat / 16), Nat.digitChar (b.toNat % 16)]

/-- The byte with the given half bytes, as `u32` arithmetic has it. -/
def toByte (hi lo : UInt32) : UInt8 := ((hi <<< 4) ||| lo).toUInt8

/-- The byte that two digits stand for. -/
def ofDigits (a b : Char) : Option UInt8 :=
  match toDigit a, toDigit b with
  | some hi, some lo => some (toByte hi lo)
  | _, _ => none

def encode (bytes : List UInt8) : List Char := bytes.flatMap ofByte

theorem toNat_toByte {hi lo : UInt32} (hhi : hi.toNat < 16) (hlo : lo.toNat < 16) :
    (toByte hi lo).toNat = 16 * hi.toNat + lo.toNat := by
  have hall : ∀ m < 16, ∀ n < 16,
      (toByte (UInt32.ofNat m) (UInt32.ofNat n)).toNat = 16 * m + n := by decide
  have h := hall _ hhi _ hlo
  rwa [UInt32.ofNat_toNat, UInt32.ofNat_toNat] at h

theorem toNat_ofNat_half {n : Nat} (h : n < 16) : (UInt32.ofNat n).toNat = n :=
  UInt32.toNat_ofNat_of_lt' (h.trans (by decide))

/-- A byte is put together from its two digits. -/
theorem toByte_div_mod (b : UInt8) :
    toByte (UInt32.ofNat (b.toNat / 16)) (UInt32.ofNat (b.toNat % 16)) = b := by
  have hb := b.toNat_lt
  have hhi := toNat_ofNat_half (show b.toNat / 16 < 16 by omega)
  have hlo := toNat_ofNat_half (show b.toNat % 16 < 16 by omega)
  apply UInt8.toNat_inj.mp
  rw [toNat_toByte (by omega) (by omega), hhi, hlo]
  omega

/-- **Two characters stand for a byte** exactly when they have the values of its two digits. -/
theorem ofDigits_eq_some_iff {a b : Char} {x : UInt8} :
    ofDigits a b = some x ↔ [a, b].map toDigit = (ofByte x).map toDigit := by
  have hx := x.toNat_lt
  simp only [ofByte, List.map_cons, List.map_nil, List.cons.injEq, and_true,
    toDigit_digitChar (show x.toNat / 16 < 16 by omega),
    toDigit_digitChar (show x.toNat % 16 < 16 by omega)]
  unfold ofDigits
  constructor
  · intro h
    split at h
    · rename_i hi lo ha hb
      obtain rfl := Option.some.inj h
      have hhi := toDigit_lt ha
      have hlo := toDigit_lt hb
      rw [ha, hb, toNat_toByte hhi hlo, show (16 * hi.toNat + lo.toNat) / 16 = hi.toNat by omega,
        show (16 * hi.toNat + lo.toNat) % 16 = lo.toNat by omega, UInt32.ofNat_toNat,
        UInt32.ofNat_toNat]
      exact ⟨rfl, rfl⟩
    · exact absurd h (by simp)
  · rintro ⟨ha, hb⟩
    rw [ha, hb]
    exact congrArg some (toByte_div_mod x)

theorem ofDigits_isSome_iff {a b : Char} :
    (ofDigits a b).isSome = true ↔ (toDigit a).isSome = true ∧ (toDigit b).isSome = true := by
  unfold ofDigits
  cases toDigit a <;> cases toDigit b <;> simp

@[simp] theorem encode_cons (b : UInt8) (bytes : List UInt8) :
    encode (b :: bytes) = ofByte b ++ encode bytes := List.flatMap_cons

theorem ofByte_injective : Function.Injective ofByte := by
  intro x y h
  have hx : ofDigits (Nat.digitChar (x.toNat / 16)) (Nat.digitChar (x.toNat % 16)) = some x :=
    ofDigits_eq_some_iff.mpr rfl
  have hy : ofDigits (Nat.digitChar (x.toNat / 16)) (Nat.digitChar (x.toNat % 16)) = some y :=
    ofDigits_eq_some_iff.mpr (congrArg (List.map toDigit) h)
  exact Option.some.inj (hx.symm.trans hy)

/-- Bytes are determined by their print. -/
theorem encode_injective : Function.Injective encode := by
  intro bytes bytes' h
  induction bytes generalizing bytes' with
  | nil =>
    cases bytes' with
    | nil => rfl
    | cons b bytes' => exact absurd h (by simp [encode, ofByte])
  | cons b bytes ih =>
    cases bytes' with
    | nil => exact absurd h (by simp [encode, ofByte])
    | cons b' bytes' =>
      rw [encode_cons, encode_cons] at h
      obtain ⟨hhead, htail⟩ := List.append_inj h rfl
      rw [ofByte_injective hhead, ih htail]

theorem length_encode (bytes : List UInt8) : (encode bytes).length = 2 * bytes.length := by
  induction bytes with
  | nil => rfl
  | cons b bytes ih =>
    rw [encode_cons, List.length_append, ih, List.length_cons]
    simp only [ofByte, List.length_cons, List.length_nil]
    omega

/-- Bytes are printed in lowercase. -/
theorem isLower_of_mem_encode {bytes : List UInt8} {c : Char} (h : c ∈ encode bytes) :
    isLower c = true := by
  obtain ⟨b, -, hc⟩ := List.mem_flatMap.mp h
  have hb := b.toNat_lt
  simp only [ofByte, List.mem_cons, List.not_mem_nil, or_false] at hc
  rcases hc with rfl | rfl
  · exact isLower_digitChar (by omega)
  · exact isLower_digitChar (by omega)

/-! ## Texts read by their UTF-8 bytes -/

/-- A byte taken for a character: `byte as char`. -/
def byteChar (b : UInt8) : Char := Char.ofNat b.toNat

/-- The digits are ASCII. -/
theorem toNat_lt_of_digit {c : Char} (h : (toDigit c).isSome = true) : c.toNat < 128 := by
  have hmem : c ∈ lowerDigits ++ upperDigits :=
    List.mem_append.mpr ((toDigit_isSome_iff.mp h).imp isLower_iff.mp isUpper_iff.mp)
  have hall : ((lowerDigits ++ upperDigits).all fun c => decide (c.toNat < 128)) = true := by decide
  exact of_decide_eq_true (List.all_eq_true.mp hall c hmem)

theorem toNat_byteChar (b : UInt8) : (byteChar b).toNat = b.toNat := by
  have hvalid : b.toNat.isValidChar := Or.inl (b.toNat_lt.trans (by decide))
  rw [byteChar, Char.ofNat, dif_pos hvalid]
  rfl

theorem utf8EncodeChar_ascii {c : Char} (h : c.toNat < 128) :
    String.utf8EncodeChar c = [UInt8.ofNat c.toNat] := by
  unfold String.utf8EncodeChar
  simp [show ¬ 127 < c.toNat by omega]

theorem byteChar_ofNat {c : Char} (h : c.toNat < 128) : byteChar (UInt8.ofNat c.toNat) = c := by
  apply Char.toNat_inj.mp
  rw [toNat_byteChar, UInt8.toNat_ofNat_of_lt' (h.trans (by decide))]

/-- An ASCII text has one byte a character. -/
theorem utf8_of_ascii {s : List Char} (h : ∀ c ∈ s, c.toNat < 128) :
    s.flatMap String.utf8EncodeChar = s.map fun c => UInt8.ofNat c.toNat := by
  induction s with
  | nil => rfl
  | cons c s ih =>
    rw [List.flatMap_cons, utf8EncodeChar_ascii (h c List.mem_cons_self),
      ih fun c hc => h c (List.mem_cons_of_mem _ hc)]
    rfl

/-- A text of digits is what its bytes are, taken for characters. -/
theorem map_byteChar_of_digits {s : List Char} (h : ∀ c ∈ s, (toDigit c).isSome = true) :
    (s.flatMap String.utf8EncodeChar).map byteChar = s := by
  have hascii : ∀ c ∈ s, c.toNat < 128 := fun c hc => toNat_lt_of_digit (h c hc)
  rw [utf8_of_ascii hascii, List.map_map]
  exact (List.map_congr_left fun c hc => byteChar_ofNat (hascii c hc)).trans (List.map_id s)

/-- A text whose bytes are digits, taken for characters, is these characters. -/
theorem eq_of_byte_digits {s : List Char}
    (h : ∀ b ∈ s.flatMap String.utf8EncodeChar, (toDigit (byteChar b)).isSome = true) :
    (s.flatMap String.utf8EncodeChar).map byteChar = s := by
  apply Text.flatMap_utf8EncodeChar_injective
  have hascii : ∀ c ∈ (s.flatMap String.utf8EncodeChar).map byteChar, c.toNat < 128 := by
    intro c hc
    obtain ⟨b, hb, rfl⟩ := List.mem_map.mp hc
    exact toNat_lt_of_digit (h b hb)
  dsimp only
  rw [utf8_of_ascii hascii, List.map_map]
  refine (List.map_congr_left fun b _ => ?_).trans (List.map_id _)
  rw [Function.comp_apply, toNat_byteChar, UInt8.ofNat_toNat]
  rfl

end Hex
