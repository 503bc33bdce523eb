import Kota.Documents
import Kota.Psbt.Additive

/-!
# Merged blobs

One upload check, one finalization check and one merge loop meet on the same documents. Upload
accepts a submission and stores the **blob**, the original with the extracted signatures written
into it; finalization verifies every blob and fills the original from them, one signer after
another, where an entry that is already there stays.

* `AcceptedSubmission` carries its acceptance, so a family of them is a list.
* `signature?_combineAll`: what the merge loop leaves under a key is the original's entry, or the
  first one a blob has.
* `AcceptedSubmission.apart`: the key sources of the original name one signer a key, so two signers
  never sign under one key of an input, and the blobs `Agree` (`blobs_agree`).

Result: **`merged_blobs_union`**: finalization passes every accepted blob, and the blobs of
different signers combine, in any order, to the original's entries and all the extracted ones.
-/

namespace Kota

variable {X : Extern} {original : Psbt}

/-! ## Accepted submissions -/

/-- A submission for `original` that `validate_signed_submission` accepts, with what it extracts. -/
structure AcceptedSubmission (X : Extern) (original : Psbt) where
  fingerprint : KeyFingerprint
  signed : Psbt
  extracted : List ExtractedSignature
  accepted : validateSignedSubmission X original signed fingerprint = .ok extracted

namespace AcceptedSubmission

/-- What upload stores for it. -/
def blob (submission : AcceptedSubmission X original) : Psbt :=
  mergePartialSigs original submission.extracted

variable (submission : AcceptedSubmission X original)

theorem acceptable : Acceptable X original submission.signed submission.fingerprint :=
  (validateSignedSubmission_eq_ok_iff.mp submission.accepted).1

theorem blob_eq : submission.blob = submission.signed := by
  obtain ⟨hacceptable, hextracted⟩ := validateSignedSubmission_eq_ok_iff.mp submission.accepted
  unfold blob
  rw [hextracted, mergePartialSigs_eq hacceptable]

theorem additive : Additive X original submission.blob submission.fingerprint := by
  rw [blob_eq]
  exact acceptable_iff.mp submission.acceptable

/-- The extracted signatures are what the blob adds to the original. -/
theorem mem_extracted {i : Nat} {pk : PublicKey} {sig : EcdsaSignature} :
    ⟨i, pk, sig⟩ ∈ submission.extracted ↔ Added original submission.blob i pk sig := by
  obtain ⟨hacceptable, hextracted⟩ := validateSignedSubmission_eq_ok_iff.mp submission.accepted
  rw [hextracted, blob_eq, mem_newSignatures_zip hacceptable.length]

/-- The blob's entries: the original's and the extracted ones. -/
theorem signature?_blob {i : Nat} {pk : PublicKey} {sig : EcdsaSignature} :
    submission.blob.signature? i pk = some sig ↔
      original.signature? i pk = some sig ∨ ⟨i, pk, sig⟩ ∈ submission.extracted := by
  rw [mem_extracted]
  constructor
  · intro hblob
    cases horig : original.signature? i pk with
    | none => exact Or.inr ⟨hblob, horig⟩
    | some sig' => exact Or.inl ((submission.additive.kept i pk sig' horig).symm.trans hblob)
  · rintro (horig | ⟨hblob, -⟩)
    · exact submission.additive.kept i pk sig horig
    · exact hblob

/-- The key source of an extracted signature names the signer. -/
theorem bound {i : Nat} {pk : PublicKey} {sig : EcdsaSignature}
    (h : ⟨i, pk, sig⟩ ∈ submission.extracted) :
    ∃ (origIn : PsbtInput) (path : DerivationPath), original.inputs[i]? = some origIn ∧
      origIn.bip32Derivation[pk.inner]? = some (submission.fingerprint, path) :=
  submission.additive.bound i pk sig (submission.mem_extracted.mp h)

/-- **Different signers sign under different points**, in every input. -/
theorem apart {submission other : AcceptedSubmission X original}
    (hne : submission.fingerprint ≠ other.fingerprint) {e e' : ExtractedSignature}
    (he : e ∈ submission.extracted) (he' : e' ∈ other.extracted)
    (hindex : e.inputIndex = e'.inputIndex) : e.pubkey.inner ≠ e'.pubkey.inner := by
  intro hpoint
  obtain ⟨origIn, path, hinput, hsource⟩ := submission.bound he
  obtain ⟨origIn', path', hinput', hsource'⟩ := other.bound he'
  rw [← hindex, hinput] at hinput'
  obtain rfl := Option.some.inj hinput'
  rw [← hpoint, hsource] at hsource'
  exact hne (congrArg Prod.fst (Option.some.inj hsource'))

end AcceptedSubmission

/-! ## What the merge loop leaves -/

/-- The merge loop writes partial signatures only. -/
theorem combine_stripped (combined signed : Psbt) :
    (combine combined signed).stripped = combined.stripped := by
  refine Psbt.stripped_eq_iff.mpr ⟨rfl, rfl, rfl, rfl, rfl, rfl, List.length_mapIdx, ?_⟩
  intro i input input' hi hi'
  unfold combine at hi
  rw [List.getElem?_mapIdx, hi'] at hi
  obtain rfl := Option.some.inj hi
  cases signed.inputs[i]? <;> rfl

theorem combineAll_stripped (docs : List Psbt) :
    (combineAll original docs).stripped = original.stripped := by
  unfold combineAll
  induction docs generalizing original with
  | nil => rfl
  | cons doc docs ih => rw [List.foldl_cons, ih, combine_stripped]

/-- What is left under a key: the original's entry, or the first one that a document has. -/
theorem signature?_combineAll {docs : List Psbt}
    (hlen : ∀ doc ∈ docs, doc.inputs.length = original.inputs.length) (i : Nat) (pk : PublicKey) :
    (combineAll original docs).signature? i pk =
      (original.signature? i pk).or (docs.findSome? fun doc => doc.signature? i pk) := by
  cases hi : original.inputs[i]? with
  | some input =>
    obtain ⟨sigs, hinput, hsigs⟩ := combineAll_input docs hi
    rw [Psbt.signature?_of_input hinput, Psbt.signature?_of_input hi]
    exact hsigs pk
  | none =>
    have hbeyond : ∀ doc : Psbt, doc.inputs.length = original.inputs.length →
        doc.signature? i pk = none := by
      intro doc hdoc
      unfold Psbt.signature?
      rw [List.getElem?_eq_none (hdoc ▸ List.getElem?_eq_none_iff.mp hi), Option.bind_none]
    rw [hbeyond _ (combineAll_length original docs), hbeyond _ rfl,
      List.findSome?_eq_none_iff.mpr fun doc hdoc => hbeyond doc (hlen doc hdoc), Option.none_or]

/-! ## A family of signers -/

/-- The blobs of a family, in the order of the list. -/
def blobs (family : List (AcceptedSubmission X original)) : List Psbt :=
  family.map AcceptedSubmission.blob

/-- The signers of a family are different. -/
def DifferentSigners (family : List (AcceptedSubmission X original)) : Prop :=
  (family.map AcceptedSubmission.fingerprint).Nodup

variable {family : List (AcceptedSubmission X original)}

theorem DifferentSigners.perm (h : DifferentSigners family)
    {order : List (AcceptedSubmission X original)} (hperm : order.Perm family) :
    DifferentSigners order :=
  (hperm.map _).nodup_iff.mpr h

theorem DifferentSigners.pairwise (h : DifferentSigners family) :
    family.Pairwise fun submission other => submission.fingerprint ≠ other.fingerprint :=
  List.pairwise_map.mp h

theorem length_of_mem_blobs {doc : Psbt} (h : doc ∈ blobs family) :
    doc.inputs.length = original.inputs.length := by
  obtain ⟨submission, -, rfl⟩ := List.mem_map.mp h
  rw [submission.blob_eq]
  exact submission.acceptable.length

/-- **No two blobs disagree under a key**: the entries of the original are in all of them, and an
extracted one is in the blob of one signer. -/
theorem blobs_agree (h : DifferentSigners family) (i : Nat) (pk : PublicKey) :
    MapMerge.Agree (fun doc : Psbt => doc.signature? i pk) (blobs family) := by
  intro doc hdoc doc' hdoc' sig sig' hsig hsig'
  obtain ⟨submission, hmem, rfl⟩ := List.mem_map.mp hdoc
  obtain ⟨other, hmem', rfl⟩ := List.mem_map.mp hdoc'
  rcases submission.signature?_blob.mp hsig with horig | hnew
  · exact Option.some.inj ((other.additive.kept i pk sig horig).symm.trans hsig')
  · rcases other.signature?_blob.mp hsig' with horig | hnew'
    · exact Option.some.inj (hsig.symm.trans (submission.additive.kept i pk sig' horig))
    · -- both extracted it, so the two signers are one
      by_cases hsigner : submission.fingerprint = other.fingerprint
      · obtain rfl := List.inj_on_of_nodup_map h hmem hmem' hsigner
        exact Option.some.inj (hsig.symm.trans hsig')
      · exact (AcceptedSubmission.apart hsigner hnew hnew' rfl rfl).elim

/-- **What a family merges to**: `combined` holds the original's entries and all that the family
extracted; no entry takes the place of another, and nothing else changes. -/
structure MergesTo (family : List (AcceptedSubmission X original)) (combined : Psbt) : Prop where
  entries : ∀ (i : Nat) (pk : PublicKey) (sig : EcdsaSignature),
    combined.signature? i pk = some sig ↔ original.signature? i pk = some sig ∨
      ∃ submission ∈ family, ⟨i, pk, sig⟩ ∈ submission.extracted
  fresh : ∀ submission ∈ family, ∀ e ∈ submission.extracted,
    original.signature? e.inputIndex e.pubkey = none
  apart : family.Pairwise fun submission other => ∀ e ∈ submission.extracted,
    ∀ e' ∈ other.extracted, ¬ (e.inputIndex = e'.inputIndex ∧ e.pubkey = e'.pubkey)
  rest : combined.stripped = original.stripped

/-- At most one document is what a family merges to. -/
theorem MergesTo.unique {combined combined' : Psbt} (h : MergesTo family combined)
    (h' : MergesTo family combined') : combined = combined' := by
  refine Psbt.ext_signature? (h.rest.trans h'.rest.symm) fun i pk => Option.ext fun sig => ?_
  rw [h.entries, h'.entries]

/-- The order of a family does not matter to what it merges to. -/
theorem MergesTo.perm {combined : Psbt} {order : List (AcceptedSubmission X original)}
    (h : MergesTo order combined) (hperm : order.Perm family) : MergesTo family combined where
  entries i pk sig := by
    rw [h.entries]
    simp only [hperm.mem_iff]
  fresh submission hmem := h.fresh submission (hperm.mem_iff.mpr hmem)
  apart := hperm.pairwise h.apart fun hne e he e' he' hsame =>
    hne e' he' e he ⟨hsame.1.symm, hsame.2.symm⟩
  rest := h.rest

theorem mergesTo_combineAll (h : DifferentSigners family) :
    MergesTo family (combineAll original (blobs family)) where
  entries i pk sig := by
    rw [signature?_combineAll fun doc => length_of_mem_blobs, Option.or_eq_some_iff,
      MapMerge.findSome?_eq_some_iff (blobs_agree h i pk)]
    constructor
    · rintro (horig | ⟨hnone, doc, hdoc, hsig⟩)
      · exact Or.inl horig
      · obtain ⟨submission, hmem, rfl⟩ := List.mem_map.mp hdoc
        exact Or.inr ⟨submission, hmem, submission.mem_extracted.mpr ⟨hsig, hnone⟩⟩
    · rintro (horig | ⟨submission, hmem, hnew⟩)
      · exact Or.inl horig
      · obtain ⟨hsig, hnone⟩ := submission.mem_extracted.mp hnew
        exact Or.inr ⟨hnone, submission.blob, List.mem_map_of_mem hmem, hsig⟩
  fresh submission _ e he := (submission.mem_extracted.mp he).2
  apart := h.pairwise.imp fun hne e he e' he' hsame =>
    AcceptedSubmission.apart hne he he' hsame.1 (congrArg PublicKey.inner hsame.2)
  rest := combineAll_stripped _

/-- **Upload and finalization agree on every blob.** The check before finalization passes the blob
of every accepted submission, and the blobs of different signers combine to the original with all
that they extracted, in whatever order the signers come. -/
theorem merged_blobs_union (X : Extern) (original : Psbt)
    (family : List (AcceptedSubmission X original)) (hsigners : DifferentSigners family) :
    (∀ submission : AcceptedSubmission X original,
      verifyMergedBlob X original submission.blob = .ok ()) ∧
    MergesTo family (combineAll original (blobs family)) ∧
    ∀ order : List (AcceptedSubmission X original), order.Perm family →
      combineAll original (blobs order) = combineAll original (blobs family) := by
  refine ⟨fun submission => ?_, mergesTo_combineAll hsigners, fun order hperm => ?_⟩
  · rw [submission.blob_eq]
    exact verifyMergedBlob_of_acceptable submission.acceptable
  · have horder := mergesTo_combineAll (hsigners.perm hperm)
    exact (horder.perm hperm).unique (mergesTo_combineAll hsigners)

/-! ## Two signers -/

namespace Extern.Sample

def firstSubmission : AcceptedSubmission (.sample []) pairUnsigned :=
  ⟨1, addSignatures pairUnsigned true 10, [⟨0, ⟨true, ⟨10⟩⟩, ⟨sign ⟨1⟩ ⟨10⟩, .all⟩⟩],
    by decide +kernel⟩

def secondSubmission : AcceptedSubmission (.sample []) pairUnsigned :=
  ⟨2, addSignatures pairUnsigned true 20, [⟨0, ⟨true, ⟨20⟩⟩, ⟨sign ⟨1⟩ ⟨20⟩, .all⟩⟩],
    by decide +kernel⟩

end Extern.Sample

open Extern.Sample in
theorem merged_blobs_union_pair :
    verifyMergedBlob (.sample []) pairUnsigned firstSubmission.blob = .ok () ∧
    MergesTo [firstSubmission, secondSubmission]
      (combineAll pairUnsigned [firstSubmission.blob, secondSubmission.blob]) ∧
    combineAll pairUnsigned [secondSubmission.blob, firstSubmission.blob] =
      combineAll pairUnsigned [firstSubmission.blob, secondSubmission.blob] := by
  obtain ⟨hverify, hmerges, horder⟩ := merged_blobs_union (.sample []) pairUnsigned
    [firstSubmission, secondSubmission] (by unfold DifferentSigners; decide +kernel)
  exact ⟨hverify _, hmerges, horder _ (.swap _ _ [])⟩

end Kota
