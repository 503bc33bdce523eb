import Kota.Lib.Hex
import Kota.Wallet.Descriptor

/-!
# Content addresses as text

Model of the `Display` and `FromStr` of `PsbtHash` and `DescriptorFingerprint`: 32 bytes printed
with two lowercase digits each, and a reader that works on the bytes of its argument in chunks of
two. The two readers differ in their error only, so both are `decode32`; indexing past a chunk or
past the array is a panic, written `none`.

* `decode32_spec`: the reader accepts the texts of 64 hexadecimal digits, of either case, and
  answers the bytes with these values; everything else is its error, and nothing panics.
* **`hex_codec_exact_iff`**: printing is undone by reading, and the reader is exact, as its error
  texts describe it, on every text but those of 64 digits with an uppercase one among them
  (`uppercase_address_accepted`).
-/

namespace Kota

/-! ## Model -/

/-- `[u8]::chunks(2)`. -/
def chunks2 : Bytes → List Bytes
  | [] => []
  | [a] => [[a]]
  | a :: b :: rest => [a, b] :: chunks2 rest

section

variable {ε : Type} (e : ε)

/-- The loop of `from_str` from chunk `i` on; `none` is an index out of bounds. -/
def decodeChunks (i : Nat) (inner : Vector UInt8 32) :
    List Bytes → Option (Except ε (Vector UInt8 32))
  | [] => some (.ok inner)
  | chunk :: rest =>
    match chunk[0]? with
    | none => none
    | some c₀ =>
      match Hex.toDigit (Hex.byteChar c₀) with
      | none => some (.error e)
      | some hi =>
        match chunk[1]? with
        | none => none
        | some c₁ =>
          match Hex.toDigit (Hex.byteChar c₁) with
          | none => some (.error e)
          | some lo =>
            if h : i < 32 then decodeChunks (i + 1) (inner.set i (Hex.toByte hi lo)) rest
            else none

/-- The body of both `from_str`, with the error it answers. -/
def decode32 (s : String) : Option (Except ε (Vector UInt8 32)) :=
  let bytes := utf8 s.toList
  if bytes.length ≠ 64 then some (.error e)
  else decodeChunks e 0 (Vector.replicate 32 0) (chunks2 bytes)

end

/-- The loop of both `Display`. -/
def encode32 (inner : Vector UInt8 32) : String := String.ofList (Hex.encode inner.toList)

structure PsbtHashParseError where
  deriving DecidableEq, Repr

structure DescriptorFingerprintParseError where
  deriving DecidableEq, Repr

def PsbtHashParseError.display (_ : PsbtHashParseError) : String :=
  "invalid psbt hash: expected 64 lowercase hex characters"

def DescriptorFingerprintParseError.display (_ : DescriptorFingerprintParseError) : String :=
  "invalid descriptor fingerprint: expected 64 lowercase hex characters"

/-- `PsbtHash`'s `Display`. -/
def PsbtHash.display (hash : PsbtHash) : String := encode32 hash.inner

/-- `PsbtHash::from_str`. -/
def PsbtHash.fromStr (s : String) : Option (Except PsbtHashParseError PsbtHash) :=
  (decode32 PsbtHashParseError.mk s).map fun r => r.map PsbtHash.mk

/-- `DescriptorFingerprint`'s `Display`. -/
def DescriptorFingerprint.display (fingerprint : DescriptorFingerprint) : String :=
  encode32 fingerprint.inner

/-- `DescriptorFingerprint::from_str`. -/
def DescriptorFingerprint.fromStr (s : String) :
    Option (Except DescriptorFingerprintParseError DescriptorFingerprint) :=
  (decode32 DescriptorFingerprintParseError.mk s).map fun r => r.map DescriptorFingerprint.mk

/-! ## The loop -/

/-- The pairs of bytes that an even number of bytes is made of. -/
theorem exists_pairs : ∀ {n : Nat} {bytes : Bytes}, bytes.length = 2 * n →
    ∃ pairs : List (UInt8 × UInt8), pairs.length = n ∧
      bytes = pairs.flatMap (fun p => [p.1, p.2]) ∧
      chunks2 bytes = pairs.map fun p => [p.1, p.2]
  | 0, [], _ => ⟨[], rfl, rfl, rfl⟩
  | 0, _ :: _, h => absurd h (by simp)
  | n + 1, [], h => absurd h (by simp)
  | n + 1, [_], h => absurd h (by simp; omega)
  | n + 1, a :: b :: rest, h => by
    have hrest : rest.length = 2 * n := by
      simp only [List.length_cons] at h
      omega
    obtain ⟨pairs, hlen, hflat, hchunks⟩ := exists_pairs hrest
    exact ⟨(a, b) :: pairs, by rw [List.length_cons, hlen],
      by rw [List.flatMap_cons, ← hflat]; rfl, by rw [List.map_cons, ← hchunks]; rfl⟩

/-- The byte that a pair of bytes stands for, each taken for a character. -/
def ofPair (p : UInt8 × UInt8) : Option UInt8 :=
  Hex.ofDigits (Hex.byteChar p.1) (Hex.byteChar p.2)

section

variable {ε : Type} {e : ε}

theorem decodeChunks_cons {i : Nat} {inner : Vector UInt8 32} {p : UInt8 × UInt8}
    {rest : List Bytes} (hi : i < 32) :
    decodeChunks e i inner ([p.1, p.2] :: rest) =
      match ofPair p with
      | none => some (.error e)
      | some b => decodeChunks e (i + 1) (inner.set i b) rest := by
  rw [decodeChunks, ofPair, Hex.ofDigits]
  simp only [List.getElem?_cons_zero, List.getElem?_cons_succ]
  cases Hex.toDigit (Hex.byteChar p.1) with
  | none => rfl
  | some hi' =>
    cases Hex.toDigit (Hex.byteChar p.2) with
    | none => rfl
    | some lo => simp [hi]

/-- From chunk `i` on the loop writes the remaining bytes, or stops at a pair of characters that
are not both digits. -/
theorem decodeChunks_spec {pairs : List (UInt8 × UInt8)} {i : Nat} {inner : Vector UInt8 32}
    (hlen : i + pairs.length = 32) :
    (∃ bytes v, List.Forall₂ (fun p b => ofPair p = some b) pairs bytes ∧
      decodeChunks e i inner (pairs.map fun p => [p.1, p.2]) = some (.ok v) ∧
      v.toList = inner.toList.take i ++ bytes) ∨
    (∃ p ∈ pairs, ofPair p = none) ∧
      decodeChunks e i inner (pairs.map fun p => [p.1, p.2]) = some (.error e) := by
  induction pairs generalizing i inner with
  | nil =>
    obtain rfl : i = 32 := by simpa using hlen
    exact Or.inl ⟨[], inner, .nil, rfl, by rw [List.take_of_length_le (by simp), List.append_nil]⟩
  | cons p pairs ih =>
    rw [List.length_cons] at hlen
    have hi : i < 32 := by omega
    rw [List.map_cons, decodeChunks_cons hi]
    cases hp : ofPair p with
    | none => exact Or.inr ⟨⟨p, List.mem_cons_self, hp⟩, rfl⟩
    | some b =>
      have hnext : i + 1 + pairs.length = 32 := by omega
      rcases @ih (i + 1) (inner.set i b) hnext with
        ⟨bytes, v, hall, hrun, hv⟩ | ⟨⟨q, hq, hnone⟩, hrun⟩
      · refine Or.inl ⟨b :: bytes, v, .cons hp hall, hrun, ?_⟩
        rw [hv, Vector.toList_set, List.take_add_one]
        simp [hi, List.take_set_of_le]
      · exact Or.inr ⟨⟨q, List.mem_cons_of_mem _ hq, hnone⟩, hrun⟩

/-- The digits of all bytes of a text. -/
theorem forall₂_ofPair_iff {pairs : List (UInt8 × UInt8)} {bytes : Bytes} :
    List.Forall₂ (fun p b => ofPair p = some b) pairs bytes ↔
      ((pairs.flatMap fun p => [p.1, p.2]).map Hex.byteChar).map Hex.toDigit =
        (Hex.encode bytes).map Hex.toDigit := by
  induction pairs generalizing bytes with
  | nil =>
    cases bytes with
    | nil => simp [Hex.encode]
    | cons b bytes => simp [Hex.ofByte]
  | cons p pairs ih =>
    cases bytes with
    | nil => simp [Hex.encode]
    | cons b bytes =>
      rw [List.forall₂_cons, ih, ofPair, Hex.ofDigits_eq_some_iff, Hex.encode_cons,
        List.flatMap_cons, List.map_append, List.map_append, List.map_append]
      constructor
      · rintro ⟨h1, h2⟩
        exact congrArg₂ _ h1 h2
      · exact fun h => List.append_inj h rfl

end

/-- The text has 64 characters, all hexadecimal digits of either case. -/
def IsHex64 (s : String) : Prop :=
  s.toList.length = 64 ∧ ∀ c ∈ s.toList, Hex.isLower c = true ∨ Hex.isUpper c = true

theorem isHex64_iff {s : String} :
    IsHex64 s ↔ s.toList.length = 64 ∧ ∀ c ∈ s.toList, (Hex.toDigit c).isSome = true := by
  unfold IsHex64
  simp only [Hex.toDigit_isSome_iff]

/-- A text of 64 digits is what its bytes are, taken for characters. -/
theorem IsHex64.map_byteChar {s : String} (h : IsHex64 s) :
    (utf8 s.toList).map Hex.byteChar = s.toList :=
  Hex.map_byteChar_of_digits (isHex64_iff.mp h).2

/-- Every printed character is a digit. -/
theorem isSome_of_mem_encode {bytes : Bytes} {d : Option UInt32}
    (h : d ∈ (Hex.encode bytes).map Hex.toDigit) : d.isSome = true := by
  obtain ⟨c, hc, rfl⟩ := List.mem_map.mp h
  exact Hex.toDigit_isSome_iff.mpr (Or.inl (Hex.isLower_of_mem_encode hc))

@[simp] theorem toList_encode32 (inner : Vector UInt8 32) :
    (encode32 inner).toList = Hex.encode inner.toList := String.toList_ofList

/-- **What the reader does**: it answers the bytes that a text of 64 digits stands for, and its
error on every other text. -/
theorem decode32_spec {ε : Type} (e : ε) (s : String) :
    (∃ v : Vector UInt8 32, IsHex64 s ∧ decode32 e s = some (.ok v) ∧
      s.toList.map Hex.toDigit = (encode32 v).toList.map Hex.toDigit) ∨
    ¬ IsHex64 s ∧ decode32 e s = some (.error e) := by
  unfold decode32
  dsimp only
  by_cases hlen : (utf8 s.toList).length = 64
  · rw [if_neg (not_not.mpr hlen)]
    obtain ⟨pairs, hpairs, hflat, hchunks⟩ := exists_pairs (n := 32) hlen
    rw [hchunks]
    rcases @decodeChunks_spec ε e pairs 0 (Vector.replicate 32 0) (by rw [hpairs]) with
      ⟨bytes, v, hall, hrun, hv⟩ | ⟨⟨p, hp, hnone⟩, hrun⟩
    · rw [List.take_zero, List.nil_append] at hv
      obtain rfl := hv
      have hdigits := forall₂_ofPair_iff.mp hall
      rw [← hflat] at hdigits
      have hsome : ∀ b ∈ utf8 s.toList, (Hex.toDigit (Hex.byteChar b)).isSome = true := by
        intro b hb
        refine @isSome_of_mem_encode v.toList _ ?_
        rw [← hdigits]
        exact List.mem_map_of_mem (List.mem_map_of_mem hb)
      have htext : (utf8 s.toList).map Hex.byteChar = s.toList := Hex.eq_of_byte_digits hsome
      rw [htext] at hdigits
      refine Or.inl ⟨v, isHex64_iff.mpr ⟨?_, fun c hc => ?_⟩, hrun, ?_⟩
      · rw [← htext, List.length_map, hlen]
      · refine @isSome_of_mem_encode v.toList _ ?_
        rw [← hdigits]
        exact List.mem_map_of_mem hc
      · rw [toList_encode32, hdigits]
    · refine Or.inr ⟨fun hhex => ?_, hrun⟩
      have hdigit : ∀ b ∈ [p.1, p.2], (Hex.toDigit (Hex.byteChar b)).isSome = true := by
        intro b hb
        have hmem : b ∈ utf8 s.toList := by
          rw [hflat]
          exact List.mem_flatMap.mpr ⟨p, hp, hb⟩
        refine (isHex64_iff.mp hhex).2 _ ?_
        rw [← hhex.map_byteChar]
        exact List.mem_map_of_mem hmem
      have hsome : (ofPair p).isSome = true :=
        Hex.ofDigits_isSome_iff.mpr ⟨hdigit _ (by simp), hdigit _ (by simp)⟩
      rw [hnone] at hsome
      exact absurd hsome (by simp)
  · rw [if_pos hlen]
    refine Or.inr ⟨fun hhex => hlen ?_, rfl⟩
    rw [← List.length_map Hex.byteChar, hhex.map_byteChar]
    exact hhex.1

/-! ## Printing and reading -/

/-- The text has 64 characters, all digits as they are printed. -/
def IsLowerHex64 (s : String) : Prop :=
  s.toList.length = 64 ∧ ∀ c ∈ s.toList, Hex.isLower c = true

theorem encode32_isLower (v : Vector UInt8 32) : IsLowerHex64 (encode32 v) := by
  constructor
  · rw [toList_encode32, Hex.length_encode, Vector.length_toList]
  · rw [toList_encode32]
    exact fun c hc => Hex.isLower_of_mem_encode hc

theorem IsLowerHex64.isHex64 {s : String} (h : IsLowerHex64 s) : IsHex64 s :=
  ⟨h.1, fun c hc => Or.inl (h.2 c hc)⟩

/-- A lowercase text is the print of the bytes it is read as. -/
theorem IsLowerHex64.eq_encode32 {s : String} (h : IsLowerHex64 s) {v : Vector UInt8 32}
    (hdigits : s.toList.map Hex.toDigit = (encode32 v).toList.map Hex.toDigit) :
    encode32 v = s :=
  String.toList_injective (Hex.map_toDigit_injective_of_lower (encode32_isLower v).2 h.2
    hdigits.symm)

theorem encode32_injective : Function.Injective encode32 := by
  intro v w h
  apply Vector.toList_inj.mp
  apply Hex.encode_injective
  rw [← toList_encode32, ← toList_encode32, h]

/-- **Reading undoes printing.** -/
theorem decode32_encode32 {ε : Type} (e : ε) (v : Vector UInt8 32) :
    decode32 e (encode32 v) = some (.ok v) := by
  rcases decode32_spec e (encode32 v) with ⟨w, -, hread, hdigits⟩ | ⟨hno, -⟩
  · rw [hread, encode32_injective ((encode32_isLower v).eq_encode32 hdigits)]
  · exact absurd (encode32_isLower v).isHex64 hno

/-- A reader is exact on a text: it does not panic, it accepts 64 lowercase digits and nothing
else, and what it answers prints as the text. -/
structure ExactOn {ε η : Type} (fromStr : String → Option (Except ε η)) (display : η → String)
    (s : String) : Prop where
  total : fromStr s ≠ none
  accepts : (∃ h, fromStr s = some (.ok h)) ↔ IsLowerHex64 s
  prints : ∀ h, fromStr s = some (.ok h) → display h = s

/-- The text is 64 digits with an uppercase one among them. -/
def HasUppercase (s : String) : Prop := IsHex64 s ∧ ∃ c ∈ s.toList, Hex.isUpper c = true

theorem HasUppercase.not_lower {s : String} (h : HasUppercase s) : ¬ IsLowerHex64 s := by
  obtain ⟨-, c, hc, hupper⟩ := h
  intro hlower
  exact absurd (hlower.2 c hc) (by rw [Hex.not_lower_of_upper hupper]; simp)

theorem IsHex64.isLower {s : String} (h : IsHex64 s) (hno : ¬ HasUppercase s) :
    IsLowerHex64 s := by
  refine ⟨h.1, fun c hc => (h.2 c hc).resolve_right fun hupper => hno ⟨h, c, hc, hupper⟩⟩

/-- The reader of an address kept as 32 bytes is exact on the texts without uppercase digits. -/
theorem exactOn_iff {ε η : Type} (e : ε) {mk : Vector UInt8 32 → η} {inner : η → Vector UInt8 32}
    (hmk : ∀ v, inner (mk v) = v) (s : String) :
    ExactOn (fun s => (decode32 e s).map fun r => r.map mk) (fun h => encode32 (inner h)) s ↔
      ¬ HasUppercase s := by
  rcases decode32_spec e s with ⟨v, hhex, hread, hdigits⟩ | ⟨hno, hread⟩
  · have hanswer : (decode32 e s).map (fun r => r.map mk) = some (.ok (mk v)) := by
      rw [hread]
      rfl
    constructor
    · intro h hupper
      exact hupper.not_lower (h.accepts.mp ⟨mk v, hanswer⟩)
    · intro hupper
      have hlower := hhex.isLower hupper
      refine ⟨fun hnone => ?_, iff_of_true ⟨mk v, hanswer⟩ hlower, fun h hh => ?_⟩
      · exact absurd (hanswer.symm.trans hnone) (by simp)
      · obtain rfl := Except.ok.inj (Option.some.inj (hanswer.symm.trans hh))
        rw [hmk]
        exact hlower.eq_encode32 hdigits
  · have hanswer : (decode32 e s).map (fun r => r.map mk) = some (.error e) := by
      rw [hread]
      rfl
    refine iff_of_true ⟨fun hnone => ?_, iff_of_false ?_ fun h => hno h.isHex64, fun h hh => ?_⟩
      fun h => hno h.1
    · exact absurd (hanswer.symm.trans hnone) (by simp)
    · rintro ⟨h, hh⟩
      exact absurd (hanswer.symm.trans hh) (by simp)
    · exact absurd (hanswer.symm.trans hh) (by simp)

/-- **The text form of content addresses, exactly.** For both kinds of address, reading undoes
printing, and the reader is exact on every text but those of 64 hexadecimal digits with an uppercase
one among them. -/
theorem hex_codec_exact_iff (s : String) (hash : PsbtHash) (fingerprint : DescriptorFingerprint) :
    (PsbtHash.fromStr hash.display = some (.ok hash) ∧
      (ExactOn PsbtHash.fromStr PsbtHash.display s ↔ ¬ HasUppercase s)) ∧
    DescriptorFingerprint.fromStr fingerprint.display = some (.ok fingerprint) ∧
      (ExactOn DescriptorFingerprint.fromStr DescriptorFingerprint.display s ↔
        ¬ HasUppercase s) := by
  refine ⟨⟨?_, exactOn_iff _ (fun _ => rfl) s⟩, ?_, exactOn_iff _ (fun _ => rfl) s⟩
  · rw [PsbtHash.fromStr, PsbtHash.display, decode32_encode32]
    rfl
  · rw [DescriptorFingerprint.fromStr, DescriptorFingerprint.display, decode32_encode32]
    rfl

/-- **An address spelled in uppercase is accepted**: the reader answers, and what it answers
prints as another text. -/
theorem uppercase_address_accepted :
    ¬ IsLowerHex64 (String.ofList (List.replicate 64 'A')) ∧
    ∃ hash, PsbtHash.fromStr (String.ofList (List.replicate 64 'A')) = some (.ok hash) ∧
      hash.display = String.ofList (List.replicate 64 'a') :=
  ⟨fun h => absurd (h.2 'A' (by simp)) (by decide), ⟨Vector.replicate 32 170⟩,
    by decide +kernel, by decide +kernel⟩

end Kota
