import Kota.Bitcoin.Extern
import Kota.Lib.MapMerge

/-!
# Validation of signer-submitted PSBTs

Model of `psbt.rs`: parsing with the size cap, `validate_signed_submission`, the merge of the
extracted signatures onto the original, and the check of a stored blob before finalization.

* The loop over the inputs runs with its two accumulators, what was extracted so far and the
  first input without a new signature; the first failing check of the first failing input is the
  error.
* A new signature is bound by its curve point (`bip32Derivation`) and verified against it, while
  `partialSigs` is keyed by flag and point.

Results:
* **`validateSignedSubmission_eq_ok_iff`**: a submission is accepted iff it is `Acceptable`, and
  then what is extracted are its new signatures.
* **`mergePartialSigs_eq`**: merged onto the original, they give back the submitted document, so
  the document the platform stores differs from the original in new signatures only.
* `verifyMergedBlob_of_acceptable`: the check before finalization never fails on it.
-/

namespace Kota

/-- `PsbtValidationError`. -/
inductive PsbtValidationError where
  | deserialize (reason : String)
  | tooLarge (size max : Nat)
  | unsignedTxModified
  | inputOutputCountMismatch
  | partialSignatureRemoved (index : Nat)
  | noNewSignatures
  | incompleteSubmission (index : Nat)
  | sighashComputation (index : Nat) (reason : String)
  | nonSigHashAllSighash (index : Nat)
  | invalidPartialSignature (index : Nat)
  | signatureNotBoundToSigner (index : Nat) (pubkey : PublicKey) (expected : KeyFingerprint)
  | globalFieldModified
  | inputFieldModified (index : Nat)
  | outputFieldModified (index : Nat)
  deriving DecidableEq, Repr

/-- Hard cap on accepted PSBT documents, in bytes. -/
def MAX_PSBT_BYTES : Nat := 1024 * 1024

structure ExtractedSignature where
  inputIndex : Nat
  pubkey : PublicKey
  signature : EcdsaSignature
  deriving DecidableEq, Repr

variable (X : Extern)

/-- `parse_psbt`. -/
def parsePsbt (bytes : Bytes) : Except PsbtValidationError Psbt :=
  if MAX_PSBT_BYTES < bytes.length then .error (.tooLarge bytes.length MAX_PSBT_BYTES)
  else match X.deserialize bytes with
    | .error reason => .error (.deserialize reason)
    | .ok psbt => .ok psbt

/-- `verify_partial_sig`: `SIGHASH_ALL`, and valid for the original's sighash. -/
def verifyPartialSig (original : Psbt) (index : Nat) (pubkey : PublicKey) (sig : EcdsaSignature) :
    Except PsbtValidationError Unit :=
  if sig.sighashType ≠ .all then .error (.nonSigHashAllSighash index)
  else match X.sighashMsg original index with
    | .error reason => .error (.sighashComputation index reason)
    | .ok msg =>
      if X.verifyEcdsa msg sig.signature pubkey.inner then .ok ()
      else .error (.invalidPartialSignature index)

/-! ## The validator -/

/-- The key source the original gives for a point names this keystore. -/
def PsbtInput.boundTo (original : PsbtInput) (point : Point) (fingerprint : KeyFingerprint) :
    Bool :=
  match original.bip32Derivation[point]? with
  | some (fp, _) => fp == fingerprint
  | none => false

/-- The loop over the partial signatures of one input: those the original has are skipped, every
other one is bound and verified. -/
def extractInput (original : Psbt) (expected : KeyFingerprint) (idx : Nat) (origIn : PsbtInput) :
    List (PublicKey × EcdsaSignature) → Except PsbtValidationError (List ExtractedSignature)
  | [] => .ok []
  | (pk, sig) :: rest =>
    if origIn.partialSigs.contains pk then extractInput original expected idx origIn rest
    else if !origIn.boundTo pk.inner expected then
      .error (.signatureNotBoundToSigner idx pk expected)
    else match verifyPartialSig X original idx pk sig with
      | .error e => .error e
      | .ok () =>
        match extractInput original expected idx origIn rest with
        | .error e => .error e
        | .ok more => .ok (⟨idx, pk, sig⟩ :: more)

/-- One turn of the loop over the inputs. -/
def validateInput (original : Psbt) (expected : KeyFingerprint) (idx : Nat)
    (origIn signedIn : PsbtInput) : Except PsbtValidationError (List ExtractedSignature) :=
  if origIn.partialSigs.toList.any fun e => signedIn.partialSigs[e.1]? != some e.2 then
    .error (.partialSignatureRemoved idx)
  else if { signedIn with partialSigs := origIn.partialSigs } ≠ origIn then
    .error (.inputFieldModified idx)
  else extractInput X original expected idx origIn signedIn.partialSigs.toList

/-- The loop over the inputs, with what was extracted and the first incomplete input so far. -/
def validateInputs (original : Psbt) (expected : KeyFingerprint) (idx : Nat)
    (extracted : List ExtractedSignature) (firstIncomplete : Option Nat) :
    List (PsbtInput × PsbtInput) →
      Except PsbtValidationError (List ExtractedSignature × Option Nat)
  | [] => .ok (extracted, firstIncomplete)
  | (origIn, signedIn) :: rest =>
    match validateInput X original expected idx origIn signedIn with
    | .error e => .error e
    | .ok added =>
      let firstIncomplete :=
        if added.isEmpty && firstIncomplete.isNone then some idx else firstIncomplete
      validateInputs original expected (idx + 1) (extracted ++ added) firstIncomplete rest

/-- The first output map that differs. -/
def modifiedOutput (idx : Nat) : List (PsbtOutput × PsbtOutput) → Option Nat
  | [] => none
  | (origOut, signedOut) :: rest =>
    if signedOut ≠ origOut then some idx else modifiedOutput (idx + 1) rest

/-- `validate_signed_submission`. -/
def validateSignedSubmission (original signed : Psbt) (expected : KeyFingerprint) :
    Except PsbtValidationError (List ExtractedSignature) :=
  if signed.unsignedTx ≠ original.unsignedTx then .error .unsignedTxModified
  else if signed.inputs.length ≠ original.inputs.length ∨
      signed.outputs.length ≠ original.outputs.length then
    .error .inputOutputCountMismatch
  else if signed.version ≠ original.version ∨ signed.xpub ≠ original.xpub ∨
      signed.proprietary ≠ original.proprietary ∨ signed.unknown ≠ original.unknown then
    .error .globalFieldModified
  else match modifiedOutput 0 (original.outputs.zip signed.outputs) with
    | some idx => .error (.outputFieldModified idx)
    | none =>
      match validateInputs X original expected 0 [] none (original.inputs.zip signed.inputs) with
      | .error e => .error e
      | .ok (extracted, firstIncomplete) =>
        if extracted.isEmpty then .error .noNewSignatures
        else match firstIncomplete with
          | some idx => .error (.incompleteSubmission idx)
          | none => .ok extracted

/-- `merge_partial_sigs`. -/
def mergePartialSigs (original : Psbt) (newSigs : List ExtractedSignature) : Psbt :=
  newSigs.foldl (fun merged sig => { merged with
    inputs := merged.inputs.modify sig.inputIndex fun input =>
      { input with partialSigs := input.partialSigs.insert sig.pubkey sig.signature } }) original

/-- The loop of `verify_merged_blob` over the signatures of one input. -/
def verifyMergedInput (original : Psbt) (idx : Nat) (origIn : PsbtInput) :
    List (PublicKey × EcdsaSignature) → Except PsbtValidationError Unit
  | [] => .ok ()
  | (pk, sig) :: rest =>
    if origIn.partialSigs.contains pk then verifyMergedInput original idx origIn rest
    else match verifyPartialSig X original idx pk sig with
      | .error e => .error e
      | .ok () => verifyMergedInput original idx origIn rest

def verifyMergedInputs (original : Psbt) (idx : Nat) :
    List (PsbtInput × PsbtInput) → Except PsbtValidationError Unit
  | [] => .ok ()
  | (origIn, mergedIn) :: rest =>
    match verifyMergedInput X original idx origIn mergedIn.partialSigs.toList with
    | .error e => .error e
    | .ok () => verifyMergedInputs original (idx + 1) rest

/-- `verify_merged_blob`. -/
def verifyMergedBlob (original merged : Psbt) : Except PsbtValidationError Unit :=
  if merged.unsignedTx ≠ original.unsignedTx then .error .unsignedTxModified
  else if merged.inputs.length ≠ original.inputs.length then .error .inputOutputCountMismatch
  else verifyMergedInputs X original 0 (original.inputs.zip merged.inputs)

/-! ## What is accepted -/

/-- The signature is valid: `SIGHASH_ALL`, and it verifies against the original's sighash. -/
def ValidSig (original : Psbt) (index : Nat) (pubkey : PublicKey) (sig : EcdsaSignature) : Prop :=
  sig.sighashType = .all ∧ ∃ msg, X.sighashMsg original index = .ok msg ∧
    X.verifyEcdsa msg sig.signature pubkey.inner = true

/-- The new signatures of one input, in key order. -/
def newSignaturesIn (idx : Nat) (origIn signedIn : PsbtInput) : List ExtractedSignature :=
  (signedIn.partialSigs.toList.filter fun e => !origIn.partialSigs.contains e.1).map
    fun e => ⟨idx, e.1, e.2⟩

/-- What the validator accepts in one input. -/
structure AcceptableInput (original : Psbt) (expected : KeyFingerprint) (idx : Nat)
    (origIn signedIn : PsbtInput) : Prop where
  kept : ∀ (pk : PublicKey) (sig : EcdsaSignature),
    origIn.partialSigs[pk]? = some sig → signedIn.partialSigs[pk]? = some sig
  same : { signedIn with partialSigs := origIn.partialSigs } = origIn
  bound : ∀ (pk : PublicKey) (sig : EcdsaSignature), signedIn.partialSigs[pk]? = some sig →
    origIn.partialSigs[pk]? = none → origIn.boundTo pk.inner expected = true
  valid : ∀ (pk : PublicKey) (sig : EcdsaSignature), signedIn.partialSigs[pk]? = some sig →
    origIn.partialSigs[pk]? = none → ValidSig X original idx pk sig

variable {X}

theorem verifyPartialSig_eq_ok_iff {original : Psbt} {index : Nat} {pubkey : PublicKey}
    {sig : EcdsaSignature} :
    verifyPartialSig X original index pubkey sig = .ok () ↔ ValidSig X original index pubkey sig := by
  unfold verifyPartialSig ValidSig
  split
  · rename_i h
    simp [h]
  · rename_i h
    rw [not_not] at h
    cases X.sighashMsg original index with
    | error reason => simp
    | ok msg => simp [h]

theorem not_validSig_of_error {original : Psbt} {index : Nat} {pubkey : PublicKey}
    {sig : EcdsaSignature} {e : PsbtValidationError}
    (h : verifyPartialSig X original index pubkey sig = .error e) :
    ¬ ValidSig X original index pubkey sig := by
  intro hvalid
  rw [verifyPartialSig_eq_ok_iff.mpr hvalid] at h
  exact absurd h (by simp)

theorem extractInput_eq_ok_iff {original : Psbt} {expected : KeyFingerprint} {idx : Nat}
    {origIn : PsbtInput} {entries : List (PublicKey × EcdsaSignature)}
    {extracted : List ExtractedSignature} :
    extractInput X original expected idx origIn entries = .ok extracted ↔
      (∀ e ∈ entries, origIn.partialSigs.contains e.1 = false →
        origIn.boundTo e.1.inner expected = true ∧ ValidSig X original idx e.1 e.2) ∧
      extracted = (entries.filter fun e => !origIn.partialSigs.contains e.1).map
        fun e => ⟨idx, e.1, e.2⟩ := by
  induction entries generalizing extracted with
  | nil =>
    constructor
    · intro h
      exact ⟨fun e he => absurd he List.not_mem_nil, (Except.ok.inj h).symm⟩
    · rintro ⟨-, rfl⟩
      rfl
  | cons e rest ih =>
    obtain ⟨pk, sig⟩ := e
    unfold extractInput
    simp only [List.forall_mem_cons]
    cases hc : origIn.partialSigs.contains pk with
    | true => simp [ih, hc]
    | false =>
      cases hb : origIn.boundTo pk.inner expected with
      | false => simp
      | true =>
        simp only [Bool.false_eq_true, if_false, Bool.not_true]
        cases hv : verifyPartialSig X original idx pk sig with
        | error e => simp [not_validSig_of_error hv]
        | ok u =>
          have hvalid := verifyPartialSig_eq_ok_iff.mp hv
          cases hr : extractInput X original expected idx origIn rest with
          | error e =>
            simp only [reduceCtorEq, false_iff, not_and]
            rintro ⟨-, hall⟩
            rw [ih.mpr ⟨hall, rfl⟩] at hr
            exact absurd hr (by simp)
          | ok more =>
            obtain ⟨hall, rfl⟩ := ih.mp hr
            simp only [Except.ok.injEq, List.filter_cons, hc, Bool.not_false, if_true,
              List.map_cons]
            exact ⟨fun h => ⟨⟨fun _ => ⟨trivial, hvalid⟩, hall⟩, h.symm⟩, fun h => h.2.symm⟩

theorem validateInput_eq_ok_iff {original : Psbt} {expected : KeyFingerprint} {idx : Nat}
    {origIn signedIn : PsbtInput} {extracted : List ExtractedSignature} :
    validateInput X original expected idx origIn signedIn = .ok extracted ↔
      AcceptableInput X original expected idx origIn signedIn ∧
        extracted = newSignaturesIn idx origIn signedIn := by
  have hkept : (origIn.partialSigs.toList.any fun e => signedIn.partialSigs[e.1]? != some e.2) =
      false ↔ ∀ (pk : PublicKey) (sig : EcdsaSignature), origIn.partialSigs[pk]? = some sig →
        signedIn.partialSigs[pk]? = some sig := by
    rw [List.any_eq_false]
    simp only [Prod.forall, Std.ExtTreeMap.mem_toList_iff_getElem?_eq_some, bne_iff_ne, ne_eq,
      not_not]
  have hentries : (∀ e ∈ signedIn.partialSigs.toList, origIn.partialSigs.contains e.1 = false →
      origIn.boundTo e.1.inner expected = true ∧ ValidSig X original idx e.1 e.2) ↔
      ∀ (pk : PublicKey) (sig : EcdsaSignature), signedIn.partialSigs[pk]? = some sig →
        origIn.partialSigs[pk]? = none →
        origIn.boundTo pk.inner expected = true ∧ ValidSig X original idx pk sig := by
    simp only [Prod.forall, Std.ExtTreeMap.mem_toList_iff_getElem?_eq_some,
      MapMerge.contains_eq_false_iff]
  unfold validateInput
  split
  · rename_i h
    simp only [reduceCtorEq, false_iff, not_and]
    intro ha
    rw [hkept.mpr ha.kept] at h
    exact absurd h (by simp)
  · rename_i h
    have hk := hkept.mp (by simpa using h)
    split
    · rename_i hsame
      simp only [reduceCtorEq, false_iff, not_and]
      exact fun ha => absurd ha.same hsame
    · rename_i hsame
      rw [extractInput_eq_ok_iff, hentries]
      refine and_congr_left fun _ => ?_
      constructor
      · exact fun hall => ⟨hk, not_not.mp hsame, fun pk sig h1 h2 => (hall pk sig h1 h2).1,
          fun pk sig h1 h2 => (hall pk sig h1 h2).2⟩
      · exact fun ha pk sig h1 h2 => ⟨ha.bound pk sig h1 h2, ha.valid pk sig h1 h2⟩

/-- The new signatures of all inputs, in input and key order. -/
def newSignatures (idx : Nat) : List (PsbtInput × PsbtInput) → List ExtractedSignature
  | [] => []
  | (origIn, signedIn) :: rest =>
    newSignaturesIn idx origIn signedIn ++ newSignatures (idx + 1) rest

/-- The loop over the inputs ends without an incomplete one. -/
theorem validateInputs_eq_ok_iff {original : Psbt} {expected : KeyFingerprint} {idx : Nat}
    {pairs : List (PsbtInput × PsbtInput)} {acc extracted : List ExtractedSignature}
    {firstIncomplete : Option Nat} :
    validateInputs X original expected idx acc firstIncomplete pairs = .ok (extracted, none) ↔
      firstIncomplete = none ∧
      (∀ j p, pairs[j]? = some p → AcceptableInput X original expected (idx + j) p.1 p.2 ∧
        newSignaturesIn (idx + j) p.1 p.2 ≠ []) ∧
      extracted = acc ++ newSignatures idx pairs := by
  induction pairs generalizing idx acc firstIncomplete with
  | nil =>
    unfold validateInputs newSignatures
    simp only [Except.ok.injEq, Prod.mk.injEq, List.append_nil, List.getElem?_nil, reduceCtorEq,
      false_implies, implies_true, true_and]
    exact ⟨fun h => ⟨h.2, h.1.symm⟩, fun h => ⟨h.2.symm, h.1⟩⟩
  | cons pair rest ih =>
    obtain ⟨origIn, signedIn⟩ := pair
    have hsplit : (∀ j p, ((origIn, signedIn) :: rest)[j]? = some p →
        AcceptableInput X original expected (idx + j) p.1 p.2 ∧
          newSignaturesIn (idx + j) p.1 p.2 ≠ []) ↔
        (AcceptableInput X original expected idx origIn signedIn ∧
          newSignaturesIn idx origIn signedIn ≠ []) ∧
        ∀ j p, rest[j]? = some p →
          AcceptableInput X original expected (idx + 1 + j) p.1 p.2 ∧
            newSignaturesIn (idx + 1 + j) p.1 p.2 ≠ [] := by
      constructor
      · intro h
        refine ⟨h 0 _ rfl, fun j p hj => ?_⟩
        have := h (j + 1) p (by simpa using hj)
        rwa [show idx + (j + 1) = idx + 1 + j by omega] at this
      · rintro ⟨h0, h⟩ j p hj
        cases j with
        | zero =>
          obtain rfl := Option.some.inj hj
          exact h0
        | succ j =>
          rw [show idx + (j + 1) = idx + 1 + j by omega]
          exact h j p (by simpa using hj)
    rw [hsplit]
    unfold validateInputs newSignatures
    cases hv : validateInput X original expected idx origIn signedIn with
    | error e =>
      simp only [reduceCtorEq, false_iff, not_and]
      rintro - ⟨⟨ha, -⟩, -⟩
      rw [validateInput_eq_ok_iff.mpr ⟨ha, rfl⟩] at hv
      exact absurd hv (by simp)
    | ok added =>
      obtain ⟨ha, rfl⟩ := validateInput_eq_ok_iff.mp hv
      simp only [ih, List.append_assoc]
      cases firstIncomplete with
      | some i => simp
      | none => simp [ha, List.isEmpty_iff, and_assoc]

/-- What the validator accepts. -/
structure Acceptable (X : Extern) (original signed : Psbt) (expected : KeyFingerprint) :
    Prop where
  unsignedTx : signed.unsignedTx = original.unsignedTx
  version : signed.version = original.version
  xpub : signed.xpub = original.xpub
  proprietary : signed.proprietary = original.proprietary
  unknown : signed.unknown = original.unknown
  outputs : signed.outputs = original.outputs
  length : signed.inputs.length = original.inputs.length
  nonempty : original.inputs ≠ []
  input : ∀ (i : Nat) (origIn signedIn : PsbtInput),
    original.inputs[i]? = some origIn → signed.inputs[i]? = some signedIn →
    AcceptableInput X original expected i origIn signedIn
  complete : ∀ (i : Nat) (origIn signedIn : PsbtInput),
    original.inputs[i]? = some origIn → signed.inputs[i]? = some signedIn →
    ∃ (pk : PublicKey) (sig : EcdsaSignature), signedIn.partialSigs[pk]? = some sig ∧
      origIn.partialSigs[pk]? = none

theorem newSignaturesIn_ne_nil_iff {idx : Nat} {origIn signedIn : PsbtInput} :
    newSignaturesIn idx origIn signedIn ≠ [] ↔
      ∃ (pk : PublicKey) (sig : EcdsaSignature), signedIn.partialSigs[pk]? = some sig ∧
        origIn.partialSigs[pk]? = none := by
  unfold newSignaturesIn
  rw [ne_eq, List.map_eq_nil_iff]
  constructor
  · intro h
    obtain ⟨⟨pk, sig⟩, he⟩ := List.exists_mem_of_ne_nil _ h
    obtain ⟨hm, hnew⟩ := List.mem_filter.mp he
    rw [Std.ExtTreeMap.mem_toList_iff_getElem?_eq_some] at hm
    rw [Bool.not_eq_true', MapMerge.contains_eq_false_iff] at hnew
    exact ⟨pk, sig, hm, hnew⟩
  · rintro ⟨pk, sig, hm, hnew⟩ h
    rw [← Std.ExtTreeMap.mem_toList_iff_getElem?_eq_some] at hm
    rw [← MapMerge.contains_eq_false_iff] at hnew
    exact absurd (List.mem_filter.mpr ⟨hm, by simp [hnew]⟩) (h ▸ List.not_mem_nil)

theorem mem_newSignaturesIn {idx : Nat} {origIn signedIn : PsbtInput} {sig : ExtractedSignature} :
    sig ∈ newSignaturesIn idx origIn signedIn ↔ sig.inputIndex = idx ∧
      signedIn.partialSigs[sig.pubkey]? = some sig.signature ∧
      origIn.partialSigs[sig.pubkey]? = none := by
  obtain ⟨i, pk, s⟩ := sig
  unfold newSignaturesIn
  simp only [List.mem_map, List.mem_filter, Prod.exists,
    Std.ExtTreeMap.mem_toList_iff_getElem?_eq_some, Bool.not_eq_true',
    MapMerge.contains_eq_false_iff, ExtractedSignature.mk.injEq]
  constructor
  · rintro ⟨pk', s', ⟨h1, h2⟩, rfl, rfl, rfl⟩
    exact ⟨rfl, h1, h2⟩
  · rintro ⟨rfl, h1, h2⟩
    exact ⟨pk, s, ⟨h1, h2⟩, rfl, rfl, rfl⟩

theorem mem_newSignatures {idx : Nat} {pairs : List (PsbtInput × PsbtInput)}
    {sig : ExtractedSignature} (h : sig ∈ newSignatures idx pairs) :
    ∃ j p, pairs[j]? = some p ∧ sig ∈ newSignaturesIn (idx + j) p.1 p.2 := by
  induction pairs generalizing idx with
  | nil => exact absurd h List.not_mem_nil
  | cons p rest ih =>
    rcases List.mem_append.mp h with h | h
    · exact ⟨0, p, rfl, h⟩
    · obtain ⟨j, q, hq, hsig⟩ := ih h
      refine ⟨j + 1, q, hq, ?_⟩
      rwa [show idx + (j + 1) = idx + 1 + j by omega]

theorem modifiedOutput_eq_none_iff :
    ∀ (origs signeds : List PsbtOutput) (idx : Nat), signeds.length = origs.length →
      (modifiedOutput idx (origs.zip signeds) = none ↔ signeds = origs)
  | [], [], idx, _ => by simp [modifiedOutput]
  | orig :: origs, signed :: signeds, idx, hlen => by
    have ih := modifiedOutput_eq_none_iff origs signeds (idx + 1) (by simpa using hlen)
    rw [List.zip_cons_cons]
    unfold modifiedOutput
    split
    · rename_i h
      simp [h]
    · rename_i h
      rw [not_not] at h
      rw [ih, h]
      simp

theorem getElem?_zip_eq_some_iff {α β : Type} {l : List α} {l' : List β} {i : Nat}
    {p : α × β} : (l.zip l')[i]? = some p ↔ l[i]? = some p.1 ∧ l'[i]? = some p.2 := by
  rw [List.getElem?_zip_eq_some]

/-- **What is accepted**: exactly the acceptable submissions, and what is extracted are their new
signatures. -/
theorem validateSignedSubmission_eq_ok_iff {original signed : Psbt} {expected : KeyFingerprint}
    {extracted : List ExtractedSignature} :
    validateSignedSubmission X original signed expected = .ok extracted ↔
      Acceptable X original signed expected ∧
        extracted = newSignatures 0 (original.inputs.zip signed.inputs) := by
  unfold validateSignedSubmission
  split
  · rename_i h
    simp only [reduceCtorEq, false_iff, not_and]
    exact fun ha => absurd ha.unsignedTx h
  rename_i htx
  split
  · rename_i h
    simp only [reduceCtorEq, false_iff, not_and]
    exact fun ha => absurd h (by simp [ha.length, ha.outputs])
  rename_i hlen
  split
  · rename_i h
    simp only [reduceCtorEq, false_iff, not_and]
    exact fun ha => absurd h (by simp [ha.version, ha.xpub, ha.proprietary, ha.unknown])
  rename_i hglobal
  push Not at htx hlen hglobal
  have hout := modifiedOutput_eq_none_iff original.outputs signed.outputs 0 hlen.2
  cases hm : modifiedOutput 0 (original.outputs.zip signed.outputs) with
  | some idx =>
    simp only [reduceCtorEq, false_iff, not_and]
    intro ha
    rw [hout.mpr ha.outputs] at hm
    exact absurd hm (by simp)
  | none =>
    have hinputs := fun {ex} => @validateInputs_eq_ok_iff X original expected 0
      (original.inputs.zip signed.inputs) [] ex none
    have hiff : Acceptable X original signed expected ↔
        original.inputs ≠ [] ∧ ∀ j p, (original.inputs.zip signed.inputs)[j]? = some p →
          AcceptableInput X original expected (0 + j) p.1 p.2 ∧
            newSignaturesIn (0 + j) p.1 p.2 ≠ [] := by
      constructor
      · intro ha
        refine ⟨ha.nonempty, fun j p hj => ?_⟩
        obtain ⟨h1, h2⟩ := getElem?_zip_eq_some_iff.mp hj
        rw [Nat.zero_add, newSignaturesIn_ne_nil_iff]
        exact ⟨ha.input j _ _ h1 h2, ha.complete j _ _ h1 h2⟩
      · rintro ⟨hne, hall⟩
        obtain ⟨h1, h2, h3, h4⟩ := hglobal
        refine ⟨htx, h1, h2, h3, h4, hout.mp hm, hlen.1, hne, fun i o s ho hs => ?_,
          fun i o s ho hs => ?_⟩
        · have := (hall i (o, s) (getElem?_zip_eq_some_iff.mpr ⟨ho, hs⟩)).1
          rwa [Nat.zero_add] at this
        · have := (hall i (o, s) (getElem?_zip_eq_some_iff.mpr ⟨ho, hs⟩)).2
          exact newSignaturesIn_ne_nil_iff.mp this
    rw [hiff]
    -- only the result without an incomplete input survives the two final checks
    have hempty : (∀ j p, (original.inputs.zip signed.inputs)[j]? = some p →
        AcceptableInput X original expected (0 + j) p.1 p.2 ∧
          newSignaturesIn (0 + j) p.1 p.2 ≠ []) →
        (newSignatures 0 (original.inputs.zip signed.inputs) = [] ↔ original.inputs = []) := by
      intro hall
      cases ho : original.inputs with
      | nil => simp [newSignatures]
      | cons o os =>
        cases hs : signed.inputs with
        | nil => simp [ho, hs] at hlen
        | cons s ss =>
          rw [ho, hs] at hall
          have h0 := (hall 0 (o, s) rfl).2
          simp only [List.zip_cons_cons, newSignatures, List.append_eq_nil_iff, reduceCtorEq,
            iff_false, not_and]
          exact fun h => absurd h h0
    cases hv : validateInputs X original expected 0 [] none (original.inputs.zip signed.inputs) with
    | error e =>
      simp only [reduceCtorEq, false_iff, not_and]
      rintro ⟨-, hall⟩
      rw [hinputs.mpr ⟨rfl, hall, rfl⟩] at hv
      exact absurd hv (by simp)
    | ok r =>
      obtain ⟨ex, first⟩ := r
      cases first with
      | some idx =>
        have hno : ¬ ∀ j p, (original.inputs.zip signed.inputs)[j]? = some p →
            AcceptableInput X original expected (0 + j) p.1 p.2 ∧
              newSignaturesIn (0 + j) p.1 p.2 ≠ [] := fun hall => by
          rw [hinputs.mpr ⟨rfl, hall, rfl⟩] at hv
          exact absurd hv (by simp)
        simp only [hno, and_false, false_and, iff_false]
        split <;> simp
      | none =>
        obtain ⟨-, hall, rfl⟩ := hinputs.mp hv
        have he := hempty hall
        simp only [List.nil_append]
        split
        · rename_i hnil
          have hnone := he.mp (List.isEmpty_iff.mp hnil)
          simp [hnone]
        · rename_i hnil
          have hsome : original.inputs ≠ [] := fun h => hnil (List.isEmpty_iff.mpr (he.mpr h))
          simp only [Except.ok.injEq]
          exact ⟨fun h => ⟨⟨hsome, hall⟩, h.symm⟩, fun h => h.2.symm⟩

/-! ## The merged document -/

/-- The extracted signatures of input `i`, as entries of its map. -/
def entriesAt (i : Nat) (newSigs : List ExtractedSignature) : List (PublicKey × EcdsaSignature) :=
  (newSigs.filter fun sig => sig.inputIndex == i).map fun sig => (sig.pubkey, sig.signature)

/-- The input with entries written into its partial signatures. -/
def PsbtInput.writeSigs (input : PsbtInput) (entries : List (PublicKey × EcdsaSignature)) :
    PsbtInput :=
  { input with partialSigs := MapMerge.overwrite input.partialSigs entries }

/-- The merge changes the partial signatures only, input by input. -/
theorem mergePartialSigs_spec (original : Psbt) (newSigs : List ExtractedSignature) :
    mergePartialSigs original newSigs =
      { original with inputs := (mergePartialSigs original newSigs).inputs } ∧
    ∀ i : Nat, (mergePartialSigs original newSigs).inputs[i]? =
      original.inputs[i]?.map fun input => input.writeSigs (entriesAt i newSigs) := by
  induction newSigs generalizing original with
  | nil =>
    refine ⟨rfl, fun i => ?_⟩
    show original.inputs[i]? = _
    simp [entriesAt, PsbtInput.writeSigs, MapMerge.overwrite]
  | cons sig rest ih =>
    obtain ⟨h1, h2⟩ := ih { original with
      inputs := original.inputs.modify sig.inputIndex fun input =>
        { input with partialSigs := input.partialSigs.insert sig.pubkey sig.signature } }
    refine ⟨h1, fun i => ?_⟩
    have := h2 i
    unfold mergePartialSigs at this ⊢
    rw [List.foldl_cons, this, List.getElem?_modify]
    by_cases hi : sig.inputIndex = i
    · cases original.inputs[i]? <;> simp [hi, entriesAt, PsbtInput.writeSigs, MapMerge.overwrite]
    · cases original.inputs[i]? <;> simp [hi, entriesAt]

theorem newSignatures_index_lt {idx : Nat} {pairs : List (PsbtInput × PsbtInput)}
    {sig : ExtractedSignature} (h : sig ∈ newSignatures idx pairs) : idx ≤ sig.inputIndex := by
  induction pairs generalizing idx with
  | nil => exact absurd h List.not_mem_nil
  | cons p rest ih =>
    unfold newSignatures at h
    rcases List.mem_append.mp h with h | h
    · obtain ⟨e, -, rfl⟩ := List.mem_map.mp h
      exact Nat.le_refl _
    · exact Nat.le_of_succ_le (ih h)

theorem entriesAt_append (i : Nat) (l l' : List ExtractedSignature) :
    entriesAt i (l ++ l') = entriesAt i l ++ entriesAt i l' := by
  simp [entriesAt]

/-- The entries of one input, among the new signatures of all. -/
theorem entriesAt_newSignatures {idx j : Nat} {pairs : List (PsbtInput × PsbtInput)}
    {p : PsbtInput × PsbtInput} (hp : pairs[j]? = some p) :
    entriesAt (idx + j) (newSignatures idx pairs) =
      p.2.partialSigs.toList.filter fun e => !p.1.partialSigs.contains e.1 := by
  have hsame : ∀ (k : Nat) (q : PsbtInput × PsbtInput), entriesAt k (newSignaturesIn k q.1 q.2) =
      q.2.partialSigs.toList.filter fun e => !q.1.partialSigs.contains e.1 := by
    intro k q
    unfold entriesAt newSignaturesIn
    rw [List.filter_eq_self.mpr, List.map_map]
    · exact List.map_id _
    · intro sig hsig
      obtain ⟨e, -, rfl⟩ := List.mem_map.mp hsig
      simp
  have hother : ∀ (k : Nat) (sigs : List ExtractedSignature),
      (∀ sig ∈ sigs, sig.inputIndex ≠ k) → entriesAt k sigs = [] := by
    intro k sigs h
    unfold entriesAt
    rw [List.map_eq_nil_iff, List.filter_eq_nil_iff]
    intro sig hsig
    simpa using h sig hsig
  induction pairs generalizing idx j with
  | nil => exact absurd hp (by simp)
  | cons q rest ih =>
    unfold newSignatures
    rw [entriesAt_append]
    cases j with
    | zero =>
      obtain rfl := Option.some.inj hp
      rw [Nat.add_zero, hsame, hother idx _ fun sig hsig => ?_, List.append_nil]
      have := newSignatures_index_lt hsig
      omega
    | succ j =>
      have hrest := @ih (idx + 1) j (by simpa using hp)
      rw [show idx + (j + 1) = idx + 1 + j by omega, hrest, hother (idx + 1 + j) _, List.nil_append]
      intro sig hsig
      obtain ⟨e, -, rfl⟩ := List.mem_map.mp hsig
      show idx ≠ idx + 1 + j
      omega

/-- **The merged document is the submitted one.** All that an accepted submission changes are new
signatures, and the merge writes exactly these. -/
theorem mergePartialSigs_eq {original signed : Psbt} {expected : KeyFingerprint}
    (h : Acceptable X original signed expected) :
    mergePartialSigs original (newSignatures 0 (original.inputs.zip signed.inputs)) = signed := by
  obtain ⟨hrest, hinputs⟩ := mergePartialSigs_spec original
    (newSignatures 0 (original.inputs.zip signed.inputs))
  have heq : (mergePartialSigs original
      (newSignatures 0 (original.inputs.zip signed.inputs))).inputs = signed.inputs := by
    refine List.ext_getElem? fun i => ?_
    rw [hinputs]
    cases ho : original.inputs[i]? with
    | none =>
      have hle : signed.inputs.length ≤ i := by
        rw [h.length]
        exact List.getElem?_eq_none_iff.mp ho
      rw [List.getElem?_eq_none_iff.mpr hle]
      rfl
    | some o =>
      have hlt : i < signed.inputs.length := by
        rw [h.length]
        exact (List.getElem?_eq_some_iff.mp ho).1
      have hs := List.getElem?_eq_getElem hlt
      have hacc := h.input i o _ ho hs
      have hentries := @entriesAt_newSignatures 0 i _ _
        (getElem?_zip_eq_some_iff (p := (o, signed.inputs[i])).mpr ⟨ho, hs⟩)
      rw [Nat.zero_add] at hentries
      rw [hs, Option.map_some, PsbtInput.writeSigs, hentries, MapMerge.overwrite_new hacc.kept]
      -- outside the partial signatures the two inputs are the same
      rw [← hacc.same]
  rw [hrest, heq]
  obtain ⟨h1, h2, h3, h4, h5, h6, -⟩ := h
  rw [← h1, ← h2, ← h3, ← h4, ← h5, ← h6]

theorem verifyMergedInput_eq_ok_iff {original : Psbt} {idx : Nat} {origIn : PsbtInput}
    {entries : List (PublicKey × EcdsaSignature)} :
    verifyMergedInput X original idx origIn entries = .ok () ↔
      ∀ e ∈ entries, origIn.partialSigs.contains e.1 = false →
        ValidSig X original idx e.1 e.2 := by
  induction entries with
  | nil => simp [verifyMergedInput]
  | cons e rest ih =>
    obtain ⟨pk, sig⟩ := e
    unfold verifyMergedInput
    simp only [List.forall_mem_cons]
    cases hc : origIn.partialSigs.contains pk with
    | true => simp [ih]
    | false =>
      simp only [Bool.false_eq_true, if_false, forall_const]
      cases hv : verifyPartialSig X original idx pk sig with
      | error e => simp [not_validSig_of_error hv]
      | ok u =>
        have hvalid := verifyPartialSig_eq_ok_iff.mp hv
        simp [ih, hvalid]

theorem verifyMergedInputs_eq_ok {original : Psbt} :
    ∀ (pairs : List (PsbtInput × PsbtInput)) {idx : Nat},
      (∀ j p, pairs[j]? = some p → ∀ e ∈ p.2.partialSigs.toList,
        p.1.partialSigs.contains e.1 = false → ValidSig X original (idx + j) e.1 e.2) →
      verifyMergedInputs X original idx pairs = .ok ()
  | [], _, _ => rfl
  | (o, s) :: rest, idx, h => by
    have hfirst : verifyMergedInput X original idx o s.partialSigs.toList = .ok () :=
      verifyMergedInput_eq_ok_iff.mpr fun e he hc => h 0 (o, s) rfl e he hc
    unfold verifyMergedInputs
    rw [hfirst]
    refine verifyMergedInputs_eq_ok rest fun j p hj e he hc => ?_
    have := h (j + 1) p (by simpa using hj) e he hc
    rwa [show idx + (j + 1) = idx + 1 + j by omega] at this

/-- **The check before finalization passes** on every document that was accepted at upload. -/
theorem verifyMergedBlob_of_acceptable {original signed : Psbt} {expected : KeyFingerprint}
    (h : Acceptable X original signed expected) : verifyMergedBlob X original signed = .ok () := by
  unfold verifyMergedBlob
  rw [if_neg (by simp [h.unsignedTx]), if_neg (by simp [h.length])]
  refine verifyMergedInputs_eq_ok _ fun j p hj e he hc => ?_
  obtain ⟨h1, h2⟩ := getElem?_zip_eq_some_iff.mp hj
  rw [Nat.zero_add]
  rw [Std.ExtTreeMap.mem_toList_iff_getElem?_eq_some] at he
  rw [MapMerge.contains_eq_false_iff] at hc
  exact (h.input j _ _ h1 h2).valid _ _ he hc

/-- An acceptable document adds something. -/
theorem Acceptable.newSignatures_ne_nil {original signed : Psbt} {expected : KeyFingerprint}
    (h : Acceptable X original signed expected) :
    newSignatures 0 (original.inputs.zip signed.inputs) ≠ [] := by
  obtain ⟨input, rest, hinputs⟩ := List.exists_cons_of_ne_nil h.nonempty
  have hlen := h.length
  rw [hinputs] at hlen
  obtain ⟨input', rest', hsigned⟩ := List.exists_cons_of_ne_nil
    (List.ne_nil_of_length_pos (by rw [hlen]; simp))
  rw [hinputs, hsigned, List.zip_cons_cons, newSignatures]
  intro hnil
  exact newSignaturesIn_ne_nil_iff.mpr
    (h.complete 0 input input' (by rw [hinputs]; rfl) (by rw [hsigned]; rfl))
    (List.append_eq_nil_iff.mp hnil).1

/-- **Every extracted signature** is `SIGHASH_ALL`, verifies against the original's sighash, and is
under a key bound to the signer in the original. -/
theorem Acceptable.extracted {original signed : Psbt} {expected : KeyFingerprint}
    (h : Acceptable X original signed expected) {sig : ExtractedSignature}
    (hsig : sig ∈ newSignatures 0 (original.inputs.zip signed.inputs)) :
    ValidSig X original sig.inputIndex sig.pubkey sig.signature ∧
      ∃ origIn, original.inputs[sig.inputIndex]? = some origIn ∧
        origIn.boundTo sig.pubkey.inner expected = true := by
  obtain ⟨j, p, hp, hmem⟩ := mem_newSignatures hsig
  rw [Nat.zero_add] at hmem
  obtain ⟨rfl, hsigned, hnew⟩ := mem_newSignaturesIn.mp hmem
  obtain ⟨h1, h2⟩ := getElem?_zip_eq_some_iff.mp hp
  have hin := h.input _ _ _ h1 h2
  exact ⟨hin.valid _ _ hsigned hnew, p.1, h1, hin.bound _ _ hsigned hnew⟩

theorem parsePsbt_eq_ok_iff {bytes : Bytes} {psbt : Psbt} :
    parsePsbt X bytes = .ok psbt ↔
      bytes.length ≤ MAX_PSBT_BYTES ∧ X.deserialize bytes = .ok psbt := by
  unfold parsePsbt
  split
  · rename_i h
    simp only [reduceCtorEq, false_iff, not_and]
    omega
  · rename_i h
    cases X.deserialize bytes with
    | error reason => simp
    | ok p =>
      simp only [Except.ok.injEq]
      exact ⟨fun e => ⟨Nat.not_lt.mp h, e⟩, fun e => e.2⟩

end Kota
