import Kota.Psbt.Additive
import Kota.Lib.FirstFailure

/-!
# Why a submission is rejected

The errors of `validate_signed_submission`, said of the two documents without the validator's
loops. The checks have an order: the transaction, the counts, the global fields, the outputs, then
the inputs one after another, and in an input what was lost, what was modified, and the new
signatures in key order. An error is the first check that fails.

* `SignatureOffence`, `InputOffence` and `Offence` say what an error blames, and that all before it
  is as it should be.

Result: **`validateSignedSubmission_eq_error_iff`**.
-/

namespace Kota

open FirstFailure

variable (X : Extern) (original signed : Psbt) (expected : KeyFingerprint)

/-! ## What is blamed -/

/-- What is wrong with one new signature of an input. -/
inductive SignatureOffence (i : Nat) (origIn : PsbtInput) (pk : PublicKey) (sig : EcdsaSignature) :
    PsbtValidationError → Prop
  | notBound (free : origIn.boundTo pk.inner expected = false) :
      SignatureOffence i origIn pk sig (.signatureNotBoundToSigner i pk expected)
  | sighashType (bound : origIn.boundTo pk.inner expected = true)
      (other : sig.sighashType ≠ .all) : SignatureOffence i origIn pk sig (.nonSigHashAllSighash i)
  | noSighash {reason : String} (bound : origIn.boundTo pk.inner expected = true)
      (all : sig.sighashType = .all) (failed : X.sighashMsg original i = .error reason) :
      SignatureOffence i origIn pk sig (.sighashComputation i reason)
  | invalid {msg : Message} (bound : origIn.boundTo pk.inner expected = true)
      (all : sig.sighashType = .all) (computed : X.sighashMsg original i = .ok msg)
      (forged : X.verifyEcdsa msg sig.signature pk.inner = false) :
      SignatureOffence i origIn pk sig (.invalidPartialSignature i)

/-- What is wrong with one input. -/
inductive InputOffence (i : Nat) (origIn signedIn : PsbtInput) : PsbtValidationError → Prop
  | removed {pk : PublicKey} {sig : EcdsaSignature} (had : origIn.partialSigs[pk]? = some sig)
      (lost : signedIn.partialSigs[pk]? ≠ some sig) :
      InputOffence i origIn signedIn (.partialSignatureRemoved i)
  | modified (kept : ∀ (pk : PublicKey) (sig : EcdsaSignature),
        origIn.partialSigs[pk]? = some sig → signedIn.partialSigs[pk]? = some sig)
      (differs : { signedIn with partialSigs := origIn.partialSigs } ≠ origIn) :
      InputOffence i origIn signedIn (.inputFieldModified i)
  | signature {pk : PublicKey} {sig : EcdsaSignature} {e : PsbtValidationError}
      {before after : List (PublicKey × EcdsaSignature)}
      (kept : ∀ (pk : PublicKey) (sig : EcdsaSignature),
        origIn.partialSigs[pk]? = some sig → signedIn.partialSigs[pk]? = some sig)
      (same : { signedIn with partialSigs := origIn.partialSigs } = origIn)
      (entries : signedIn.partialSigs.toList = before ++ (pk, sig) :: after)
      (new : origIn.partialSigs[pk]? = none)
      (offence : SignatureOffence X original expected i origIn pk sig e)
      (first : ∀ entry ∈ before, origIn.partialSigs[entry.1]? = none →
        origIn.boundTo entry.1.inner expected = true ∧ ValidSig X original i entry.1 entry.2) :
      InputOffence i origIn signedIn e

/-- What is wrong outside the input maps. -/
inductive FrameOffence : PsbtValidationError → Prop
  | unsignedTx (differs : signed.unsignedTx ≠ original.unsignedTx) :
      FrameOffence .unsignedTxModified
  | counts (unsignedTx : signed.unsignedTx = original.unsignedTx)
      (differ : signed.inputs.length ≠ original.inputs.length ∨
        signed.outputs.length ≠ original.outputs.length) :
      FrameOffence .inputOutputCountMismatch
  | globals (unsignedTx : signed.unsignedTx = original.unsignedTx)
      (inputs : signed.inputs.length = original.inputs.length)
      (outputs : signed.outputs.length = original.outputs.length)
      (differ : signed.version ≠ original.version ∨ signed.xpub ≠ original.xpub ∨
        signed.proprietary ≠ original.proprietary ∨ signed.unknown ≠ original.unknown) :
      FrameOffence .globalFieldModified
  | output {i : Nat} (inputs : signed.inputs.length = original.inputs.length)
      (outputs : signed.outputs.length = original.outputs.length)
      (same : { signed with inputs := original.inputs, outputs := original.outputs } = original)
      (differs : signed.outputs[i]? ≠ original.outputs[i]?)
      (first : ∀ j < i, signed.outputs[j]? = original.outputs[j]?) :
      FrameOffence (.outputFieldModified i)

/-- The documents agree outside the input maps, of which they have as many. -/
structure SameFrame : Prop where
  inputs : signed.inputs.length = original.inputs.length
  same : { signed with inputs := original.inputs } = original

/-- Input `i` is as the validator accepts it. -/
def AcceptableAt (i : Nat) : Prop :=
  ∀ (origIn signedIn : PsbtInput), original.inputs[i]? = some origIn →
    signed.inputs[i]? = some signedIn → AcceptableInput X original expected i origIn signedIn

/-- Input `i` has a new signature. -/
def SignedAt (i : Nat) : Prop :=
  ∃ (pk : PublicKey) (sig : EcdsaSignature), Added original signed i pk sig

/-- What is wrong with a submission. -/
inductive Offence : PsbtValidationError → Prop
  | frame {e : PsbtValidationError} (offence : FrameOffence original signed e) : Offence e
  | input {i : Nat} {origIn signedIn : PsbtInput} {e : PsbtValidationError}
      (frame : SameFrame original signed) (ofOriginal : original.inputs[i]? = some origIn)
      (ofSigned : signed.inputs[i]? = some signedIn)
      (offence : InputOffence X original expected i origIn signedIn e)
      (first : ∀ j < i, AcceptableAt X original signed expected j) : Offence e
  | nothing (frame : SameFrame original signed)
      (acceptable : ∀ i, AcceptableAt X original signed expected i)
      (none : ∀ i, ¬ SignedAt original signed i) : Offence .noNewSignatures
  | incomplete {i : Nat} (frame : SameFrame original signed)
      (acceptable : ∀ i, AcceptableAt X original signed expected i)
      (unsigned : i < original.inputs.length ∧ ¬ SignedAt original signed i)
      (first : ∀ j < i, SignedAt original signed j) (some : ∃ j, SignedAt original signed j) :
      Offence (.incompleteSubmission i)

/-! ## One input -/

section Input

variable {X : Extern} {original signed : Psbt} {expected : KeyFingerprint} {i : Nat}
variable {origIn signedIn : PsbtInput} {e : PsbtValidationError}

variable (X original expected i origIn) in
/-- The check of one entry: one that the original has needs none. -/
def entryError (entry : PublicKey × EcdsaSignature) : Option PsbtValidationError :=
  if origIn.partialSigs.contains entry.1 then none
  else if !origIn.boundTo entry.1.inner expected then
    some (.signatureNotBoundToSigner i entry.1 expected)
  else errorOf (verifyPartialSig X original i entry.1 entry.2)

theorem entryError_eq_none_iff {entry : PublicKey × EcdsaSignature} :
    entryError X original expected i origIn entry = none ↔
      (origIn.partialSigs[entry.1]? = none →
        origIn.boundTo entry.1.inner expected = true ∧ ValidSig X original i entry.1 entry.2) := by
  rw [← MapMerge.contains_eq_false_iff]
  unfold entryError
  split
  · rename_i hhas
    simp [hhas]
  · rename_i hnew
    rw [Bool.not_eq_true] at hnew
    split
    · rename_i hfree
      rw [Bool.not_eq_true'] at hfree
      simp [hnew, hfree]
    · rename_i hbound
      rw [Bool.not_eq_true', Bool.not_eq_false] at hbound
      rw [errorOf_eq_none_iff]
      simp only [hnew, hbound, true_and, forall_const, ← verifyPartialSig_eq_ok_iff]
      exact ⟨fun ⟨_, h⟩ => h, fun h => ⟨_, h⟩⟩

theorem verifyPartialSig_eq_error_iff {pk : PublicKey} {sig : EcdsaSignature}
    (hbound : origIn.boundTo pk.inner expected = true) :
    verifyPartialSig X original i pk sig = .error e ↔
      SignatureOffence X original expected i origIn pk sig e := by
  unfold verifyPartialSig
  constructor
  · intro h
    split at h
    · rename_i hother
      obtain rfl := Except.error.inj h
      exact .sighashType hbound hother
    · rename_i hall
      rw [not_not] at hall
      split at h
      · rename_i reason hfailed
        obtain rfl := Except.error.inj h
        exact .noSighash hbound hall hfailed
      · rename_i msg hmsg
        split at h
        · exact absurd h (by simp)
        · rename_i hforged
          obtain rfl := Except.error.inj h
          exact .invalid hbound hall hmsg (by simpa using hforged)
  · intro h
    cases h with
    | notBound free => exact absurd (free.symm.trans hbound) (by simp)
    | sighashType _ other => rw [if_pos other]
    | noSighash _ all failed => rw [if_neg (not_not.mpr all), failed]
    | invalid _ all computed forged =>
      rw [if_neg (not_not.mpr all), computed]
      simp [forged]

theorem entryError_eq_some_iff {pk : PublicKey} {sig : EcdsaSignature} :
    entryError X original expected i origIn (pk, sig) = some e ↔
      origIn.partialSigs[pk]? = none ∧ SignatureOffence X original expected i origIn pk sig e := by
  rw [← MapMerge.contains_eq_false_iff]
  unfold entryError
  dsimp only
  cases hnew : origIn.partialSigs.contains pk with
  | true => simp
  | false =>
    cases hbound : origIn.boundTo pk.inner expected with
    | true =>
      simp only [Bool.false_eq_true, if_false, Bool.not_true, true_and]
      rw [errorOf_eq_some_iff, verifyPartialSig_eq_error_iff hbound]
    | false =>
      simp only [Bool.false_eq_true, if_false, Bool.not_false, if_true, true_and,
        Option.some.injEq]
      constructor
      · rintro rfl
        exact .notBound hbound
      · intro h
        cases h with
        | notBound => rfl
        | sighashType bound | noSighash bound | invalid bound =>
          exact absurd (hbound.symm.trans bound) (by simp)

/-- The loop over the entries fails as the first entry that fails. -/
theorem errorOf_extractInput (entries : List (PublicKey × EcdsaSignature)) :
    errorOf (extractInput X original expected i origIn entries) =
      entries.findSome? (entryError X original expected i origIn) := by
  induction entries with
  | nil => rfl
  | cons entry rest ih =>
    obtain ⟨pk, sig⟩ := entry
    rw [List.findSome?_cons, ← ih, extractInput]
    unfold entryError
    dsimp only
    split
    · rfl
    split
    · rfl
    cases verifyPartialSig X original i pk sig with
    | error e => rfl
    | ok u => cases extractInput X original expected i origIn rest <;> rfl

/-- **The error of an input.** -/
theorem validateInput_eq_error_iff :
    validateInput X original expected i origIn signedIn = .error e ↔
      InputOffence X original expected i origIn signedIn e := by
  have hkept : (origIn.partialSigs.toList.any fun e => signedIn.partialSigs[e.1]? != some e.2) =
      true ↔ ∃ (pk : PublicKey) (sig : EcdsaSignature), origIn.partialSigs[pk]? = some sig ∧
        signedIn.partialSigs[pk]? ≠ some sig := by
    simp only [List.any_eq_true, Prod.exists, Std.ExtTreeMap.mem_toList_iff_getElem?_eq_some,
      bne_iff_ne, ne_eq]
  unfold validateInput
  by_cases hlost : ∃ (pk : PublicKey) (sig : EcdsaSignature), origIn.partialSigs[pk]? = some sig ∧
      signedIn.partialSigs[pk]? ≠ some sig
  · rw [if_pos (hkept.mpr hlost)]
    obtain ⟨pk, sig, had, lost⟩ := hlost
    constructor
    · intro h
      obtain rfl := Except.error.inj h
      exact .removed had lost
    · intro h
      cases h with
      | removed => rfl
      | modified kept | signature kept => exact absurd (kept pk sig had) lost
  · rw [if_neg fun h => hlost (hkept.mp h)]
    push Not at hlost
    by_cases hsame : { signedIn with partialSigs := origIn.partialSigs } = origIn
    · rw [if_neg (not_not.mpr hsame), ← errorOf_eq_some_iff, errorOf_extractInput,
        List.findSome?_eq_some_iff]
      constructor
      · rintro ⟨before, ⟨pk, sig⟩, after, hentries, herror, hfirst⟩
        obtain ⟨hnew, hoffence⟩ := entryError_eq_some_iff.mp herror
        exact .signature hlost hsame hentries hnew hoffence fun entry hentry =>
          entryError_eq_none_iff.mp (hfirst entry hentry)
      · intro h
        cases h with
        | removed had lost => exact absurd (hlost _ _ had) lost
        | modified _ differs => exact absurd hsame differs
        | signature _ _ entries new offence first =>
          exact ⟨_, _, _, entries, entryError_eq_some_iff.mpr ⟨new, offence⟩, fun entry hentry =>
            entryError_eq_none_iff.mpr (first entry hentry)⟩
    · rw [if_pos hsame]
      constructor
      · intro h
        obtain rfl := Except.error.inj h
        exact .modified hlost hsame
      · intro h
        cases h with
        | removed had lost => exact absurd (hlost _ _ had) lost
        | modified => rfl
        | signature _ same => exact absurd same hsame

end Input

/-! ## The frame -/

section Frame

variable {original signed : Psbt} {e : PsbtValidationError}

variable (original signed) in
/-- The checks before those of the inputs. -/
def frameError : Option PsbtValidationError :=
  if signed.unsignedTx ≠ original.unsignedTx then some .unsignedTxModified
  else if signed.inputs.length ≠ original.inputs.length ∨
      signed.outputs.length ≠ original.outputs.length then some .inputOutputCountMismatch
  else if signed.version ≠ original.version ∨ signed.xpub ≠ original.xpub ∨
      signed.proprietary ≠ original.proprietary ∨ signed.unknown ≠ original.unknown then
    some .globalFieldModified
  else (modifiedOutput 0 (original.outputs.zip signed.outputs)).map .outputFieldModified

theorem modifiedOutput_eq_find (idx : Nat) (pairs : List (PsbtOutput × PsbtOutput)) :
    modifiedOutput idx pairs = find (fun i p => if p.2 ≠ p.1 then some i else none) idx pairs := by
  induction pairs generalizing idx with
  | nil => rfl
  | cons p rest ih =>
    unfold modifiedOutput find
    split
    · rfl
    · exact ih _

/-- The first output map that differs. -/
theorem modifiedOutput_eq_some_iff {origs signeds : List PsbtOutput} {i : Nat}
    (hlen : signeds.length = origs.length) :
    modifiedOutput 0 (origs.zip signeds) = some i ↔
      signeds[i]? ≠ origs[i]? ∧ ∀ j < i, signeds[j]? = origs[j]? := by
  have hpair : ∀ j < origs.length, ∃ o s, origs[j]? = some o ∧ signeds[j]? = some s ∧
      (origs.zip signeds)[j]? = some (o, s) := by
    intro j hj
    have ho := List.getElem?_eq_getElem hj
    have hs := List.getElem?_eq_getElem (hlen ▸ hj : j < signeds.length)
    exact ⟨_, _, ho, hs, getElem?_zip_eq_some_iff.mpr ⟨ho, hs⟩⟩
  rw [modifiedOutput_eq_find, find_eq_some_iff]
  constructor
  · rintro ⟨i', ⟨⟨p, hp, hfails⟩, hearlier⟩⟩
    obtain ⟨ho, hs⟩ := getElem?_zip_eq_some_iff.mp hp
    rw [Nat.zero_add] at hfails
    split at hfails
    · rename_i hdiffers
      obtain rfl := Option.some.inj hfails
      refine ⟨fun heq => hdiffers (Option.some.inj (hs.symm.trans (heq.trans ho))),
        fun j hj => ?_⟩
      obtain ⟨o, s, ho', hs', hos⟩ := hpair j
        (Nat.lt_trans hj (List.getElem?_eq_some_iff.mp ho).1)
      have hsame := hearlier j hj _ hos
      split at hsame
      · exact absurd hsame (by simp)
      · rename_i heq
        rw [ho', hs']
        exact congrArg some (not_not.mp heq)
    · exact absurd hfails (by simp)
  · rintro ⟨hdiffers, hfirst⟩
    have hi : i < origs.length := by
      by_contra hge
      rw [List.getElem?_eq_none (Nat.not_lt.mp hge),
        List.getElem?_eq_none (hlen ▸ Nat.not_lt.mp hge)] at hdiffers
      exact hdiffers rfl
    obtain ⟨o, s, ho, hs, hos⟩ := hpair i hi
    refine ⟨i, ⟨(o, s), hos, ?_⟩, fun j hj p hp => ?_⟩
    · rw [Nat.zero_add, if_pos]
      intro heq
      exact hdiffers (hs.trans ((congrArg some heq).trans ho.symm))
    · obtain ⟨ho', hs'⟩ := getElem?_zip_eq_some_iff.mp hp
      refine if_neg (not_not.mpr ?_)
      exact Option.some.inj (hs'.symm.trans ((hfirst j hj).trans ho'))

theorem frameError_eq_some_iff : frameError original signed = some e ↔
    FrameOffence original signed e := by
  unfold frameError
  by_cases htx : signed.unsignedTx = original.unsignedTx
  · rw [if_neg (not_not.mpr htx)]
    by_cases hlen : signed.inputs.length ≠ original.inputs.length ∨
        signed.outputs.length ≠ original.outputs.length
    · rw [if_pos hlen]
      constructor
      · intro h
        obtain rfl := Option.some.inj h
        exact .counts htx hlen
      · intro h
        cases h with
        | unsignedTx differs => exact absurd htx differs
        | counts => rfl
        | globals _ inputs outputs | output inputs outputs =>
          exact absurd hlen (by simp [inputs, outputs])
    · rw [if_neg hlen]
      push Not at hlen
      by_cases hglobals : signed.version ≠ original.version ∨ signed.xpub ≠ original.xpub ∨
          signed.proprietary ≠ original.proprietary ∨ signed.unknown ≠ original.unknown
      · rw [if_pos hglobals]
        constructor
        · intro h
          obtain rfl := Option.some.inj h
          exact .globals htx hlen.1 hlen.2 hglobals
        · intro h
          cases h with
          | unsignedTx differs => exact absurd htx differs
          | counts _ differ => exact absurd differ (by simp [hlen.1, hlen.2])
          | globals => rfl
          | output _ _ same =>
            obtain ⟨-, h1, h2, h3, h4, -, -⟩ := Psbt.mk.inj same
            exact absurd hglobals (by simp [h1, h2, h3, h4])
      · rw [if_neg hglobals]
        push Not at hglobals
        obtain ⟨h1, h2, h3, h4⟩ := hglobals
        rw [Option.map_eq_some_iff]
        constructor
        · rintro ⟨i, hi, rfl⟩
          obtain ⟨hdiffers, hfirst⟩ := (modifiedOutput_eq_some_iff hlen.2).mp hi
          refine .output hlen.1 hlen.2 ?_ hdiffers hfirst
          rw [htx, h1, h2, h3, h4]
        · intro h
          cases h with
          | unsignedTx differs => exact absurd htx differs
          | counts _ differ => exact absurd differ (by simp [hlen.1, hlen.2])
          | globals _ _ _ differ => exact absurd differ (by simp [h1, h2, h3, h4])
          | output _ _ _ differs first =>
            exact ⟨_, (modifiedOutput_eq_some_iff hlen.2).mpr ⟨differs, first⟩, rfl⟩
  · rw [if_pos htx]
    constructor
    · intro h
      obtain rfl := Option.some.inj h
      exact .unsignedTx htx
    · intro h
      cases h with
      | unsignedTx => rfl
      | counts unsignedTx | globals unsignedTx => exact absurd unsignedTx htx
      | output _ _ same => exact absurd (Psbt.mk.inj same).1 htx

theorem frameError_eq_none_iff : frameError original signed = none ↔
    SameFrame original signed := by
  unfold frameError
  constructor
  · intro h
    split at h
    · exact absurd h (by simp)
    rename_i htx
    split at h
    · exact absurd h (by simp)
    rename_i hlen
    split at h
    · exact absurd h (by simp)
    rename_i hglobals
    push Not at htx hlen hglobals
    obtain ⟨h1, h2, h3, h4⟩ := hglobals
    rw [Option.map_eq_none_iff, modifiedOutput_eq_none_iff _ _ _ hlen.2] at h
    exact ⟨hlen.1, by rw [htx, h1, h2, h3, h4, h]⟩
  · rintro ⟨hlen, hsame⟩
    obtain ⟨htx, h1, h2, h3, h4, -, hout⟩ := Psbt.mk.inj hsame
    rw [if_neg (not_not.mpr htx), if_neg (by simp [hlen, hout]),
      if_neg (by simp [h1, h2, h3, h4]), Option.map_eq_none_iff,
      modifiedOutput_eq_none_iff _ _ _ (by rw [hout])]
    exact hout

end Frame

/-! ## The inputs -/

section Inputs

variable {X : Extern} {original signed : Psbt} {expected : KeyFingerprint}
variable {e : PsbtValidationError}

/-- The position of an input without a new signature. -/
def unsignedInput (i : Nat) (pair : PsbtInput × PsbtInput) : Option Nat :=
  if (newSignaturesIn i pair.1 pair.2).isEmpty then some i else none

theorem errorOf_validateInputs (idx : Nat) (acc : List ExtractedSignature) (first : Option Nat)
    (pairs : List (PsbtInput × PsbtInput)) :
    errorOf (validateInputs X original expected idx acc first pairs) =
      find (fun i p => errorOf (validateInput X original expected i p.1 p.2)) idx pairs := by
  induction pairs generalizing idx acc first with
  | nil => rfl
  | cons pair rest ih =>
    unfold validateInputs find
    dsimp only
    cases validateInput X original expected idx pair.1 pair.2 with
    | error e => rfl
    | ok added => exact ih _ _ _

/-- The loop over acceptable inputs ends with their new signatures and the first input that has
none. -/
theorem validateInputs_eq_ok {idx : Nat} {acc : List ExtractedSignature} {first : Option Nat}
    {pairs : List (PsbtInput × PsbtInput)}
    (h : ∀ j p, pairs[j]? = some p → AcceptableInput X original expected (idx + j) p.1 p.2) :
    validateInputs X original expected idx acc first pairs =
      .ok (acc ++ newSignatures idx pairs, first.or (find unsignedInput idx pairs)) := by
  induction pairs generalizing idx acc first with
  | nil =>
    unfold validateInputs newSignatures find
    rw [List.append_nil, Option.or_none]
  | cons pair rest ih =>
    have hrest : ∀ j p, rest[j]? = some p →
        AcceptableInput X original expected (idx + 1 + j) p.1 p.2 := by
      intro j p hp
      rw [show idx + 1 + j = idx + (j + 1) by omega]
      exact h (j + 1) p hp
    unfold validateInputs newSignatures find
    dsimp only
    have hpair : AcceptableInput X original expected idx pair.1 pair.2 := h 0 pair rfl
    rw [validateInput_eq_ok_iff.mpr ⟨hpair, rfl⟩]
    dsimp only
    rw [ih hrest, List.append_assoc]
    unfold unsignedInput
    cases first with
    | some i => simp
    | none => cases (newSignaturesIn idx pair.1 pair.2).isEmpty <;> simp

/-- The pairs the loop runs over. -/
theorem pair_of_lt (hlen : signed.inputs.length = original.inputs.length) {i : Nat}
    (hi : i < original.inputs.length) : ∃ p, (original.inputs.zip signed.inputs)[i]? = some p :=
  ⟨_, getElem?_zip_eq_some_iff (p := (original.inputs[i], signed.inputs[i])).mpr
    ⟨List.getElem?_eq_getElem hi, List.getElem?_eq_getElem _⟩⟩

theorem acceptableAt_iff {i : Nat} :
    AcceptableAt X original signed expected i ↔
      ∀ p, (original.inputs.zip signed.inputs)[i]? = some p →
        AcceptableInput X original expected i p.1 p.2 := by
  constructor
  · intro h p hp
    obtain ⟨ho, hs⟩ := getElem?_zip_eq_some_iff.mp hp
    exact h _ _ ho hs
  · intro h o s ho hs
    exact h (o, s) (getElem?_zip_eq_some_iff.mpr ⟨ho, hs⟩)

theorem unsignedInput_eq_some_iff {i j : Nat} {p : PsbtInput × PsbtInput}
    (hp : (original.inputs.zip signed.inputs)[i]? = some p) :
    unsignedInput i p = some j ↔ j = i ∧ ¬ SignedAt original signed i := by
  obtain ⟨ho, hs⟩ := getElem?_zip_eq_some_iff.mp hp
  have hsigned : newSignaturesIn i p.1 p.2 ≠ [] ↔ SignedAt original signed i := by
    rw [newSignaturesIn_ne_nil_iff]
    unfold SignedAt Added
    simp only [Psbt.signature?_of_input ho, Psbt.signature?_of_input hs]
  unfold unsignedInput
  rw [← hsigned, not_not, ← List.isEmpty_iff]
  split
  · rename_i hempty
    simp [hempty, eq_comm]
  · rename_i hsome
    simp [hsome]

theorem newSignatures_eq_nil_iff (hlen : signed.inputs.length = original.inputs.length) :
    newSignatures 0 (original.inputs.zip signed.inputs) = [] ↔
      ∀ i, ¬ SignedAt original signed i := by
  constructor
  · rintro hnil i ⟨pk, sig, hadded⟩
    exact absurd ((mem_newSignatures_zip hlen).mpr hadded) (by simp [hnil])
  · intro h
    refine List.eq_nil_iff_forall_not_mem.mpr fun extracted hmem => ?_
    obtain ⟨i, pk, sig⟩ := extracted
    exact h i ⟨pk, sig, (mem_newSignatures_zip hlen).mp hmem⟩

/-- The first input without a new signature. -/
theorem find_unsignedInput_iff (hlen : signed.inputs.length = original.inputs.length) {i : Nat} :
    find unsignedInput 0 (original.inputs.zip signed.inputs) = some i ↔
      (i < original.inputs.length ∧ ¬ SignedAt original signed i) ∧
        ∀ j < i, SignedAt original signed j := by
  rw [find_eq_some_iff]
  constructor
  · rintro ⟨k, ⟨⟨p, hp, hfails⟩, hearlier⟩⟩
    rw [Nat.zero_add] at hfails
    obtain ⟨rfl, hunsigned⟩ := (unsignedInput_eq_some_iff hp).mp hfails
    have hi := (List.getElem?_eq_some_iff.mp (getElem?_zip_eq_some_iff.mp hp).1).1
    refine ⟨⟨hi, hunsigned⟩, fun j hj => ?_⟩
    obtain ⟨q, hq⟩ := pair_of_lt hlen (Nat.lt_trans hj hi)
    by_contra hnot
    have hsome := (unsignedInput_eq_some_iff hq).mpr ⟨rfl, hnot⟩
    have hnone := hearlier j hj q hq
    rw [Nat.zero_add, hsome] at hnone
    exact absurd hnone (by simp)
  · rintro ⟨⟨hi, hunsigned⟩, hfirst⟩
    obtain ⟨p, hp⟩ := pair_of_lt hlen hi
    refine ⟨i, ⟨p, hp, ?_⟩, fun j hj q hq => ?_⟩
    · rw [Nat.zero_add]
      exact (unsignedInput_eq_some_iff hp).mpr ⟨rfl, hunsigned⟩
    · rw [Nat.zero_add, Option.eq_none_iff_forall_not_mem]
      intro k hk
      exact ((unsignedInput_eq_some_iff hq).mp hk).2 (hfirst j hj)

theorem acceptable_of_no_error {i : Nat} {origIn signedIn : PsbtInput}
    (h : errorOf (validateInput X original expected i origIn signedIn) = none) :
    AcceptableInput X original expected i origIn signedIn := by
  obtain ⟨added, hok⟩ := errorOf_eq_none_iff.mp h
  exact (validateInput_eq_ok_iff.mp hok).1

/-- The loop over the inputs stops at the first input that is not acceptable. -/
theorem validateInputs_eq_error_iff :
    validateInputs X original expected 0 [] none (original.inputs.zip signed.inputs) = .error e ↔
      ∃ i origIn signedIn, original.inputs[i]? = some origIn ∧ signed.inputs[i]? = some signedIn ∧
        InputOffence X original expected i origIn signedIn e ∧
        ∀ j < i, AcceptableAt X original signed expected j := by
  rw [← errorOf_eq_some_iff, errorOf_validateInputs, find_eq_some_iff]
  constructor
  · rintro ⟨i, ⟨⟨p, hp, hfails⟩, hearlier⟩⟩
    obtain ⟨ho, hs⟩ := getElem?_zip_eq_some_iff.mp hp
    rw [Nat.zero_add, errorOf_eq_some_iff, validateInput_eq_error_iff] at hfails
    refine ⟨i, p.1, p.2, ho, hs, hfails, fun j hj => acceptableAt_iff.mpr fun q hq => ?_⟩
    have hnone := hearlier j hj q hq
    rw [Nat.zero_add] at hnone
    exact acceptable_of_no_error hnone
  · rintro ⟨i, o, s, ho, hs, hoffence, hfirst⟩
    refine ⟨i, ⟨(o, s), getElem?_zip_eq_some_iff.mpr ⟨ho, hs⟩, ?_⟩, fun j hj q hq => ?_⟩
    · rw [Nat.zero_add, errorOf_eq_some_iff]
      exact validateInput_eq_error_iff.mpr hoffence
    · rw [Nat.zero_add, errorOf_eq_none_iff]
      exact ⟨_, validateInput_eq_ok_iff.mpr ⟨acceptableAt_iff.mp (hfirst j hj) q hq, rfl⟩⟩

/-- A loop that comes to its end found every input acceptable. -/
theorem acceptableAt_of_ok {r : List ExtractedSignature × Option Nat}
    (h : validateInputs X original expected 0 [] none (original.inputs.zip signed.inputs) = .ok r)
    (i : Nat) : AcceptableAt X original signed expected i := by
  have hnone := errorOf_eq_none_iff.mpr ⟨r, h⟩
  rw [errorOf_validateInputs, find_eq_none_iff] at hnone
  refine acceptableAt_iff.mpr fun p hp => ?_
  have hok := hnone i p hp
  rw [Nat.zero_add] at hok
  exact acceptable_of_no_error hok

end Inputs

/-! ## The submission -/

section Submission

variable {X : Extern} {original signed : Psbt} {expected : KeyFingerprint}
variable {e : PsbtValidationError}

theorem validateSignedSubmission_of_frameError (h : frameError original signed = some e) :
    validateSignedSubmission X original signed expected = .error e := by
  unfold frameError at h
  unfold validateSignedSubmission
  split at h
  · rename_i htx
    obtain rfl := Option.some.inj h
    rw [if_pos htx]
  rename_i htx
  rw [if_neg htx]
  split at h
  · rename_i hlen
    obtain rfl := Option.some.inj h
    rw [if_pos hlen]
  rename_i hlen
  rw [if_neg hlen]
  split at h
  · rename_i hglobals
    obtain rfl := Option.some.inj h
    rw [if_pos hglobals]
  rename_i hglobals
  rw [if_neg hglobals]
  obtain ⟨i, hi, rfl⟩ := Option.map_eq_some_iff.mp h
  rw [hi]

/-- In the same frame, the inputs decide. -/
theorem validateSignedSubmission_of_frame (h : SameFrame original signed) :
    validateSignedSubmission X original signed expected = .error e ↔
      validateInputs X original expected 0 [] none (original.inputs.zip signed.inputs) = .error e ∨
      ∃ extracted first, validateInputs X original expected 0 [] none
          (original.inputs.zip signed.inputs) = .ok (extracted, first) ∧
        (extracted = [] ∧ e = .noNewSignatures ∨
          extracted ≠ [] ∧ ∃ i, first = some i ∧ e = .incompleteSubmission i) := by
  obtain ⟨hlen, hsame⟩ := h
  obtain ⟨htx, h1, h2, h3, h4, -, hout⟩ := Psbt.mk.inj hsame
  unfold validateSignedSubmission
  rw [if_neg (not_not.mpr htx), if_neg (by simp [hlen, hout]), if_neg (by simp [h1, h2, h3, h4]),
    (modifiedOutput_eq_none_iff _ _ _ (by rw [hout])).mpr hout]
  dsimp only
  cases validateInputs X original expected 0 [] none (original.inputs.zip signed.inputs) with
  | error e' => simp
  | ok r =>
    obtain ⟨extracted, first⟩ := r
    dsimp only
    cases extracted with
    | nil => simp [eq_comm]
    | cons sig more => cases first <;> simp [eq_comm]

/-- **Rejections name the first offence.** -/
theorem validateSignedSubmission_eq_error_iff :
    validateSignedSubmission X original signed expected = .error e ↔
      Offence X original signed expected e := by
  cases hframe : frameError original signed with
  | some e' =>
    have hnot : ¬ SameFrame original signed := fun h =>
      absurd (hframe.symm.trans (frameError_eq_none_iff.mpr h)) (by simp)
    rw [validateSignedSubmission_of_frameError hframe]
    constructor
    · intro h
      obtain rfl := Except.error.inj h
      exact .frame (frameError_eq_some_iff.mp hframe)
    · intro h
      cases h with
      | frame offence =>
        exact congrArg _ (Option.some.inj (hframe.symm.trans (frameError_eq_some_iff.mpr offence)))
      | input frame | nothing frame | incomplete frame => exact absurd frame hnot
  | none =>
    have hsame := frameError_eq_none_iff.mp hframe
    have hlen := hsame.inputs
    have hok : (∀ i, AcceptableAt X original signed expected i) →
        validateInputs X original expected 0 [] none (original.inputs.zip signed.inputs) =
          .ok (newSignatures 0 (original.inputs.zip signed.inputs),
            find unsignedInput 0 (original.inputs.zip signed.inputs)) := fun hall =>
      validateInputs_eq_ok fun j p hp => by
        rw [Nat.zero_add]
        exact acceptableAt_iff.mp (hall j) p hp
    rw [validateSignedSubmission_of_frame hsame, validateInputs_eq_error_iff]
    constructor
    · rintro (⟨i, o, s, ho, hs, hoffence, hfirst⟩ | ⟨extracted, first, hrun, hlast⟩)
      · exact .input hsame ho hs hoffence hfirst
      · have hall := acceptableAt_of_ok hrun
        obtain ⟨rfl, rfl⟩ := Prod.mk.inj (Except.ok.inj ((hok hall).symm.trans hrun))
        rcases hlast with ⟨hnil, rfl⟩ | ⟨hsome, i, hi, rfl⟩
        · exact .nothing hsame hall ((newSignatures_eq_nil_iff hlen).mp hnil)
        · obtain ⟨hunsigned, hfirst⟩ := (find_unsignedInput_iff hlen).mp hi
          refine .incomplete hsame hall hunsigned hfirst ?_
          by_contra hnone
          push Not at hnone
          exact hsome ((newSignatures_eq_nil_iff hlen).mpr hnone)
    · intro h
      cases h with
      | frame offence =>
        exact absurd (hframe.symm.trans (frameError_eq_some_iff.mpr offence)) (by simp)
      | input frame ofOriginal ofSigned offence first =>
        exact Or.inl ⟨_, _, _, ofOriginal, ofSigned, offence, first⟩
      | nothing frame acceptable none =>
        exact Or.inr ⟨_, _, hok acceptable,
          Or.inl ⟨(newSignatures_eq_nil_iff hlen).mpr none, rfl⟩⟩
      | incomplete frame acceptable unsigned first some =>
        refine Or.inr ⟨_, _, hok acceptable, Or.inr ⟨fun hnil => ?_, _,
          (find_unsignedInput_iff hlen).mpr ⟨unsigned, first⟩, rfl⟩⟩
        obtain ⟨j, hj⟩ := some
        exact (newSignatures_eq_nil_iff hlen).mp hnil j hj

end Submission

end Kota
