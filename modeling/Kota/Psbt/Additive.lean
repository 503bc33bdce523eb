import Kota.Psbt.Validation

/-!
# Additive submissions

What a signer may submit, said of the two documents without the validator's loops: outside the
partial signatures they are the same, no signature of the original is lost, and what is added is
bound to the signer, valid, and there for every input.

* `Psbt.signature?` reads one entry, `Added` compares the entries of two documents, and
  `Psbt.stripped` is all the rest of a document.
* `acceptable_iff`: the inputs the validator accepts one by one make an `Additive` submission.

Result: **`validate_exact`**: the validator accepts exactly the additive submissions, extracts
each added signature once, in input order, and merged onto the original these give back the
submission.
-/

namespace Kota

/-! ## Entries of two documents -/

/-- The partial signature of input `i` under a key. -/
def Psbt.signature? (psbt : Psbt) (i : Nat) (pk : PublicKey) : Option EcdsaSignature :=
  psbt.inputs[i]?.bind fun input => input.partialSigs[pk]?

/-- Everything but the partial signatures. -/
def Psbt.stripped (psbt : Psbt) : Psbt :=
  { psbt with inputs := psbt.inputs.map fun input => { input with partialSigs := ∅ } }

/-- An entry that `signed` has under a key for which `original` has none. -/
def Added (original signed : Psbt) (i : Nat) (pk : PublicKey) (sig : EcdsaSignature) : Prop :=
  signed.signature? i pk = some sig ∧ original.signature? i pk = none

/-- An additive, complete submission, bound to one signer. -/
structure Additive (X : Extern) (original signed : Psbt) (expected : KeyFingerprint) : Prop where
  same : signed.stripped = original.stripped
  kept : ∀ (i : Nat) (pk : PublicKey) (sig : EcdsaSignature),
    original.signature? i pk = some sig → signed.signature? i pk = some sig
  bound : ∀ (i : Nat) (pk : PublicKey) (sig : EcdsaSignature), Added original signed i pk sig →
    ∃ (origIn : PsbtInput) (path : DerivationPath), original.inputs[i]? = some origIn ∧
      origIn.bip32Derivation[pk.inner]? = some (expected, path)
  valid : ∀ (i : Nat) (pk : PublicKey) (sig : EcdsaSignature), Added original signed i pk sig →
    ValidSig X original i pk sig
  nonempty : original.inputs ≠ []
  complete : ∀ i < original.inputs.length, ∃ (pk : PublicKey) (sig : EcdsaSignature),
    Added original signed i pk sig

variable {X : Extern} {original signed : Psbt} {expected : KeyFingerprint}

@[simp]
theorem Psbt.signature?_of_input {psbt : Psbt} {i : Nat} {input : PsbtInput} {pk : PublicKey}
    (h : psbt.inputs[i]? = some input) : psbt.signature? i pk = input.partialSigs[pk]? := by
  unfold Psbt.signature?
  rw [h]
  rfl

theorem Psbt.exists_input {psbt : Psbt} {i : Nat} {pk : PublicKey} {sig : EcdsaSignature}
    (h : psbt.signature? i pk = some sig) :
    ∃ input, psbt.inputs[i]? = some input ∧ input.partialSigs[pk]? = some sig :=
  Option.bind_eq_some_iff.mp h

/-- Equal outside the partial signatures, input by input. -/
theorem Psbt.stripped_eq_iff {psbt psbt' : Psbt} :
    psbt.stripped = psbt'.stripped ↔
      psbt.unsignedTx = psbt'.unsignedTx ∧ psbt.version = psbt'.version ∧
      psbt.xpub = psbt'.xpub ∧ psbt.proprietary = psbt'.proprietary ∧
      psbt.unknown = psbt'.unknown ∧ psbt.outputs = psbt'.outputs ∧
      psbt.inputs.length = psbt'.inputs.length ∧
      ∀ (i : Nat) (input input' : PsbtInput), psbt.inputs[i]? = some input →
        psbt'.inputs[i]? = some input' → { input with partialSigs := input'.partialSigs } = input' := by
  have hinput : ∀ input input' : PsbtInput,
      ({ input with partialSigs := ∅ } : PsbtInput) = { input' with partialSigs := ∅ } ↔
        { input with partialSigs := input'.partialSigs } = input' := by
    intro input input'
    cases input
    cases input'
    simp
  constructor
  · intro h
    simp only [Psbt.stripped, Psbt.mk.injEq] at h
    obtain ⟨htx, hversion, hxpub, hproprietary, hunknown, hinputs, houtputs⟩ := h
    have hlen : psbt.inputs.length = psbt'.inputs.length := by
      simpa using congrArg List.length hinputs
    refine ⟨htx, hversion, hxpub, hproprietary, hunknown, houtputs, hlen,
      fun i input input' hi hi' => (hinput input input').mp ?_⟩
    have hat := congrArg (fun l => l[i]?) hinputs
    simpa [hi, hi'] using hat
  · rintro ⟨htx, hversion, hxpub, hproprietary, hunknown, houtputs, hlen, hsame⟩
    simp only [Psbt.stripped, Psbt.mk.injEq]
    refine ⟨htx, hversion, hxpub, hproprietary, hunknown, ?_, houtputs⟩
    refine List.ext_getElem (by simpa using hlen) fun i hi hi' => ?_
    rw [List.getElem_map, List.getElem_map]
    exact (hinput _ _).mpr (hsame i _ _ (List.getElem?_eq_getElem _) (List.getElem?_eq_getElem _))

/-- A document is what it holds outside the partial signatures, and its entries. -/
theorem Psbt.ext_signature? {psbt psbt' : Psbt} (hsame : psbt.stripped = psbt'.stripped)
    (hentries : ∀ (i : Nat) (pk : PublicKey), psbt.signature? i pk = psbt'.signature? i pk) :
    psbt = psbt' := by
  obtain ⟨htx, hversion, hxpub, hproprietary, hunknown, houtputs, hlen, hinput⟩ :=
    Psbt.stripped_eq_iff.mp hsame
  have hinputs : psbt.inputs = psbt'.inputs := by
    refine List.ext_getElem hlen fun i hi hi' => ?_
    have hget := List.getElem?_eq_getElem hi
    have hget' := List.getElem?_eq_getElem hi'
    have hsigs : psbt.inputs[i].partialSigs = psbt'.inputs[i].partialSigs := by
      refine Std.ExtTreeMap.ext_getElem? fun pk => ?_
      rw [← Psbt.signature?_of_input hget, ← Psbt.signature?_of_input hget', hentries]
    rw [← hinput i _ _ hget hget', ← hsigs]
  cases psbt
  cases psbt'
  rw [Psbt.mk.injEq]
  exact ⟨htx, hversion, hxpub, hproprietary, hunknown, hinputs, houtputs⟩

theorem PsbtInput.boundTo_iff {origIn : PsbtInput} {point : Point} {fingerprint : KeyFingerprint} :
    origIn.boundTo point fingerprint = true ↔
      ∃ path : DerivationPath, origIn.bip32Derivation[point]? = some (fingerprint, path) := by
  unfold PsbtInput.boundTo
  cases origIn.bip32Derivation[point]? with
  | none => simp
  | some source =>
    obtain ⟨fp, path⟩ := source
    simp

/-- What the validator accepts input by input, as one statement about the two documents. -/
theorem acceptable_iff :
    Acceptable X original signed expected ↔ Additive X original signed expected := by
  constructor
  · intro h
    have hpair : ∀ {i : Nat} {origIn : PsbtInput}, original.inputs[i]? = some origIn →
        ∃ signedIn, signed.inputs[i]? = some signedIn := by
      intro i origIn ho
      have hlt := (List.getElem?_eq_some_iff.mp ho).1
      exact ⟨_, List.getElem?_eq_getElem (h.length ▸ hlt)⟩
    -- an added entry, read off the two inputs it stands in
    have hadded : ∀ {i : Nat} {pk : PublicKey} {sig : EcdsaSignature},
        Added original signed i pk sig → ∃ origIn signedIn,
          original.inputs[i]? = some origIn ∧ signed.inputs[i]? = some signedIn ∧
          signedIn.partialSigs[pk]? = some sig ∧ origIn.partialSigs[pk]? = none := by
      rintro i pk sig ⟨hsigned, horig⟩
      obtain ⟨signedIn, hs, hsig⟩ := Psbt.exists_input hsigned
      have hlt := (List.getElem?_eq_some_iff.mp hs).1
      have ho := List.getElem?_eq_getElem (h.length ▸ hlt : i < original.inputs.length)
      rw [Psbt.signature?_of_input ho] at horig
      exact ⟨_, signedIn, ho, hs, hsig, horig⟩
    refine ⟨?_, fun i pk sig horig => ?_, fun i pk sig ha => ?_, fun i pk sig ha => ?_,
      h.nonempty, fun i hi => ?_⟩
    · exact Psbt.stripped_eq_iff.mpr ⟨h.unsignedTx, h.version, h.xpub, h.proprietary, h.unknown,
        h.outputs, h.length, fun i signedIn origIn hs ho => (h.input i _ _ ho hs).same⟩
    · obtain ⟨origIn, ho, hsig⟩ := Psbt.exists_input horig
      obtain ⟨signedIn, hs⟩ := hpair ho
      rw [Psbt.signature?_of_input hs]
      exact (h.input i _ _ ho hs).kept pk sig hsig
    · obtain ⟨origIn, signedIn, ho, hs, hsig, hnew⟩ := hadded ha
      obtain ⟨path, hpath⟩ := PsbtInput.boundTo_iff.mp ((h.input i _ _ ho hs).bound pk sig hsig hnew)
      exact ⟨origIn, path, ho, hpath⟩
    · obtain ⟨origIn, signedIn, ho, hs, hsig, hnew⟩ := hadded ha
      exact (h.input i _ _ ho hs).valid pk sig hsig hnew
    · have ho := List.getElem?_eq_getElem hi
      obtain ⟨signedIn, hs⟩ := hpair ho
      obtain ⟨pk, sig, hsig, hnew⟩ := h.complete i _ _ ho hs
      refine ⟨pk, sig, ?_, ?_⟩
      · rw [Psbt.signature?_of_input hs]
        exact hsig
      · rw [Psbt.signature?_of_input ho]
        exact hnew
  · intro h
    obtain ⟨htx, hversion, hxpub, hproprietary, hunknown, houtputs, hlen, hsame⟩ :=
      Psbt.stripped_eq_iff.mp h.same
    have hadded : ∀ {i : Nat} {origIn signedIn : PsbtInput} {pk : PublicKey}
        {sig : EcdsaSignature}, original.inputs[i]? = some origIn →
        signed.inputs[i]? = some signedIn → signedIn.partialSigs[pk]? = some sig →
        origIn.partialSigs[pk]? = none → Added original signed i pk sig := by
      intro i origIn signedIn pk sig ho hs hsig hnew
      refine ⟨?_, ?_⟩
      · rw [Psbt.signature?_of_input hs]
        exact hsig
      · rw [Psbt.signature?_of_input ho]
        exact hnew
    refine ⟨htx, hversion, hxpub, hproprietary, hunknown, houtputs, hlen, h.nonempty,
      fun i origIn signedIn ho hs => ⟨fun pk sig hsig => ?_, hsame i _ _ hs ho,
        fun pk sig hsig hnew => ?_, fun pk sig hsig hnew => ?_⟩, fun i origIn signedIn ho hs => ?_⟩
    · have hkept := h.kept i pk sig
      rw [Psbt.signature?_of_input ho, Psbt.signature?_of_input hs] at hkept
      exact hkept hsig
    · obtain ⟨origIn', path, ho', hpath⟩ := h.bound i pk sig (hadded ho hs hsig hnew)
      obtain rfl := Option.some.inj (ho.symm.trans ho')
      exact PsbtInput.boundTo_iff.mpr ⟨path, hpath⟩
    · exact h.valid i pk sig (hadded ho hs hsig hnew)
    · obtain ⟨pk, sig, hsigned, horig⟩ := h.complete i (List.getElem?_eq_some_iff.mp ho).1
      rw [Psbt.signature?_of_input hs] at hsigned
      rw [Psbt.signature?_of_input ho] at horig
      exact ⟨pk, sig, hsigned, horig⟩

/-! ## The extracted list -/

theorem mem_newSignatures_iff {idx : Nat} {pairs : List (PsbtInput × PsbtInput)}
    {sig : ExtractedSignature} :
    sig ∈ newSignatures idx pairs ↔
      ∃ j p, pairs[j]? = some p ∧ sig ∈ newSignaturesIn (idx + j) p.1 p.2 := by
  refine ⟨mem_newSignatures, ?_⟩
  rintro ⟨j, p, hp, hsig⟩
  induction pairs generalizing idx j with
  | nil => exact absurd hp (by simp)
  | cons q rest ih =>
    unfold newSignatures
    cases j with
    | zero =>
      obtain rfl := Option.some.inj hp
      exact List.mem_append_left _ hsig
    | succ j =>
      refine List.mem_append_right _ (ih (j := j) (by simpa using hp) ?_)
      rwa [show idx + 1 + j = idx + (j + 1) by omega]

/-- The new signatures are the added entries. -/
theorem mem_newSignatures_zip (hlen : signed.inputs.length = original.inputs.length) {i : Nat}
    {pk : PublicKey} {sig : EcdsaSignature} :
    ⟨i, pk, sig⟩ ∈ newSignatures 0 (original.inputs.zip signed.inputs) ↔
      Added original signed i pk sig := by
  rw [mem_newSignatures_iff]
  constructor
  · rintro ⟨j, p, hp, hsig⟩
    obtain ⟨ho, hs⟩ := getElem?_zip_eq_some_iff.mp hp
    rw [Nat.zero_add] at hsig
    obtain ⟨rfl, hsigned, hnew⟩ := mem_newSignaturesIn.mp hsig
    refine ⟨?_, ?_⟩
    · rw [Psbt.signature?_of_input hs]
      exact hsigned
    · rw [Psbt.signature?_of_input ho]
      exact hnew
  · rintro ⟨hsigned, horig⟩
    obtain ⟨signedIn, hs, hsig⟩ := Psbt.exists_input hsigned
    have hlt := (List.getElem?_eq_some_iff.mp hs).1
    have ho := List.getElem?_eq_getElem (hlen ▸ hlt : i < original.inputs.length)
    rw [Psbt.signature?_of_input ho] at horig
    refine ⟨i, (_, signedIn), getElem?_zip_eq_some_iff.mpr ⟨ho, hs⟩, ?_⟩
    rw [Nat.zero_add]
    exact mem_newSignaturesIn.mpr ⟨rfl, hsig, horig⟩

theorem nodup_newSignaturesIn (idx : Nat) (origIn signedIn : PsbtInput) :
    (newSignaturesIn idx origIn signedIn).Nodup := by
  have hkeys := signedIn.partialSigs.distinct_keys_toList
  have hnodup : signedIn.partialSigs.toList.Nodup := by
    refine hkeys.imp fun hne heq => hne ?_
    rw [heq]
    exact Std.ReflCmp.compare_self
  refine (hnodup.filter _).map fun a b hab => ?_
  simp only [ExtractedSignature.mk.injEq, true_and] at hab
  exact Prod.ext hab.1 hab.2

theorem inputIndex_newSignaturesIn {idx : Nat} {origIn signedIn : PsbtInput}
    {sig : ExtractedSignature} (h : sig ∈ newSignaturesIn idx origIn signedIn) :
    sig.inputIndex = idx :=
  (mem_newSignaturesIn.mp h).1

theorem nodup_newSignatures (idx : Nat) (pairs : List (PsbtInput × PsbtInput)) :
    (newSignatures idx pairs).Nodup := by
  induction pairs generalizing idx with
  | nil => exact List.nodup_nil
  | cons p rest ih =>
    refine List.nodup_append.mpr ⟨nodup_newSignaturesIn idx p.1 p.2, ih (idx + 1), ?_⟩
    rintro a ha b hb rfl
    have hfirst := inputIndex_newSignaturesIn ha
    have hrest := newSignatures_index_lt hb
    omega

theorem ascending_newSignatures (idx : Nat) (pairs : List (PsbtInput × PsbtInput)) :
    (newSignatures idx pairs).Pairwise fun a b => a.inputIndex ≤ b.inputIndex := by
  induction pairs generalizing idx with
  | nil => exact List.Pairwise.nil
  | cons p rest ih =>
    refine List.pairwise_append.mpr ⟨?_, ih (idx + 1), ?_⟩
    · refine List.pairwise_of_forall_mem_list fun a ha b hb => ?_
      rw [inputIndex_newSignaturesIn ha, inputIndex_newSignaturesIn hb]
    · intro a ha b hb
      have hfirst := inputIndex_newSignaturesIn ha
      have hrest := newSignatures_index_lt hb
      omega

/-- **The validator is exact.** For all documents and every fingerprint, it accepts exactly the
additive submissions; what it extracts are the added entries, each once and in input order, and
merging them onto the original gives back the submission. -/
theorem validate_exact (X : Extern) (original signed : Psbt) (expected : KeyFingerprint) :
    ((∃ extracted, validateSignedSubmission X original signed expected = .ok extracted) ↔
      Additive X original signed expected) ∧
    ∀ extracted, validateSignedSubmission X original signed expected = .ok extracted →
      (∀ i pk sig, ⟨i, pk, sig⟩ ∈ extracted ↔ Added original signed i pk sig) ∧
      extracted.Nodup ∧ (extracted.Pairwise fun a b => a.inputIndex ≤ b.inputIndex) ∧
      mergePartialSigs original extracted = signed := by
  refine ⟨?_, fun extracted hok => ?_⟩
  · rw [← acceptable_iff]
    constructor
    · rintro ⟨extracted, hok⟩
      exact (validateSignedSubmission_eq_ok_iff.mp hok).1
    · exact fun h => ⟨_, validateSignedSubmission_eq_ok_iff.mpr ⟨h, rfl⟩⟩
  · obtain ⟨h, rfl⟩ := validateSignedSubmission_eq_ok_iff.mp hok
    exact ⟨fun i pk sig => mem_newSignatures_zip h.length, nodup_newSignatures _ _,
      ascending_newSignatures _ _, mergePartialSigs_eq h⟩

end Kota
