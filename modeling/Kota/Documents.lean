import Kota.Lib.Matched
import Kota.Platform
import Kota.Wallet.Realisable

/-!
# The documents of a session

What the blob store holds for a session after any run: the PSBT that was built for it
(`Platform.Unsigned`) and, for every recorded signature, the document that was submitted
(`Platform.Inv.documents`). Reading them back needs that the stored blobs have distinct digests and
that a stored PSBT is what its bytes deserialise to.

`Covers` says what a list of documents is worth to the finaliser: together they hold signatures,
under the compressed form of the script keys, at enough positions of every input.
**`combineAll_finalizes_iff`**: that is when the documents, combined, finalise.
-/

namespace Kota

open EventLog

variable {X : Extern} {network : Network}

/-- A stored PSBT is what its bytes deserialise to. -/
def BlobStore.RoundTrips (X : Extern) (blobs : BlobStore) : Prop :=
  ∀ psbt, X.serialize psbt ∈ blobs.entries.map Prod.snd →
    X.deserialize (X.serialize psbt) = .ok psbt

theorem BlobStore.RoundTrips.deserialize {blobs : BlobStore} (h : blobs.RoundTrips X)
    {hash : PsbtHash} {psbt : Psbt} (hm : (hash, X.serialize psbt) ∈ blobs.entries) :
    X.deserialize (X.serialize psbt) = .ok psbt :=
  h psbt (List.mem_map.mpr ⟨_, hm, rfl⟩)

/-- The documents of a table survive, if nothing outside the table is stored. -/
theorem Extern.Sample.roundTrips {table : List Psbt} {blobs : BlobStore} (hlt : table.length < 256)
    (hout : [UInt8.ofNat table.length] ∉ blobs.entries.map Prod.snd) :
    blobs.RoundTrips (.sample table) := by
  intro psbt hm
  show deserialize table [UInt8.ofNat (table.idxOf psbt)] = .ok psbt
  have hidx : table.idxOf psbt < table.length := by
    refine Nat.lt_of_le_of_ne List.idxOf_le_length fun he => hout ?_
    rw [← he]
    exact hm
  have hbyte : (UInt8.ofNat (table.idxOf psbt)).toNat = table.idxOf psbt :=
    Nat.mod_eq_of_lt (by omega)
  unfold deserialize
  dsimp only
  rw [hbyte, List.getElem?_eq_getElem hidx, List.getElem_idxOf]

/-! ## Reading the stored documents -/

/-- The document is within the size cap of `parse_psbt`. -/
def Sized (X : Extern) (doc : Psbt) : Prop := (X.serialize doc).length ≤ MAX_PSBT_BYTES

instance (doc : Psbt) : Decidable (Sized X doc) := by
  unfold Sized
  infer_instance

/-- The documents at the recorded addresses, in recording order. -/
def documents (X : Extern) (blobs : BlobStore) (s : PsbtSession) : List Psbt :=
  s.signatures.filterMap fun r => (blobs.fetchVerified X r.signedPsbtHash).toOption.bind
    fun bytes => (X.deserialize bytes).toOption

namespace Platform

/-- `original` is the unsigned PSBT of the session: it stands at the recorded address and was built
from the descriptor of the session's wallet `w`. -/
structure Unsigned (X : Extern) (network : Network) (p : Platform) (s : PsbtSession) (w : Wallet)
    (original : Psbt) : Prop where
  wallet : p.wallets.Row X s.walletId w
  active : w.status = .active
  threshold : s.threshold = w.threshold
  stored : ∃ hash, s.unsignedPsbtHash = some hash ∧
    p.blobs.fetchVerified X hash = .ok (X.serialize original)
  parses : X.deserialize (X.serialize original) = .ok original
  built : ∃ descriptor utxos,
    sortedmultiWshDescriptor X w.threshold.toNat w.keystores = .ok descriptor ∧
    buildUnsignedPsbt X s.spend descriptor utxos network = .ok original

variable {cs : List Command} {p : Platform} {id : PsbtSessionId} {s : PsbtSession}

theorem Inv.unsigned (h : Inv X network cs p) (hc : p.blobs.NoCollision X)
    (hr : p.blobs.RoundTrips X) (hrow : p.sessions.Row id s) {hash : PsbtHash}
    (hhash : s.unsignedPsbtHash = some hash) :
    ∃ w original, Unsigned X network p s w original := by
  have hsession := h.linked id s hrow
  obtain ⟨w, hw, hactive, hthreshold, -⟩ := hsession.wallet
  obtain ⟨original, w', descriptor, utxos, hw', hdescriptor, hbuilt, hstored⟩ :=
    hsession.created hash (hrow.grammatical.loaded.hydrates.psbtCreated_mem hhash)
  obtain rfl := Except.ok.inj (hw.found.symm.trans hw'.found)
  obtain ⟨descriptor', hsorted, hdescriptor', -⟩ := hw.inv.descriptor hactive
  obtain rfl := Option.some.inj (hdescriptor.symm.trans hdescriptor')
  exact ⟨w, original, hw, hactive, hthreshold,
    ⟨hash, hhash, BlobStore.fetchVerified_of_mem h.addressed hc hstored⟩,
    hr.deserialize hstored, descriptor, utxos, hsorted, hbuilt⟩

/-- The recorded unsigned PSBT is what every submission was checked against. -/
theorem SubmittedBy.load {fingerprint : KeyFingerprint} {hash : PsbtHash} {user : UserId}
    {original signed : Psbt}
    (h : SubmittedBy X network cs p s fingerprint hash user original signed)
    (hs : PsbtSession.Grammatical s) (ha : p.blobs.Addressed X) (hc : p.blobs.NoCollision X) :
    ∃ unsignedHash, s.unsignedPsbtHash = some unsignedHash ∧
      loadPsbt X p.blobs unsignedHash = .ok original := by
  obtain ⟨uh, bytes, hcreated, hstored, hparse⟩ := h.unsigned
  refine ⟨uh, hs.unsignedPsbtHash_eq hcreated, ?_⟩
  unfold loadPsbt
  rw [BlobStore.fetchVerified_of_mem ha hc hstored]
  dsimp only
  rw [hparse]

/-- What was submitted was checked against the unsigned PSBT of the session. -/
theorem SubmittedBy.original_eq {fingerprint : KeyFingerprint} {hash : PsbtHash} {user : UserId}
    {w : Wallet} {original original' signed : Psbt}
    (h : SubmittedBy X network cs p s fingerprint hash user original' signed)
    (hu : Unsigned X network p s w original) (hs : PsbtSession.Grammatical s)
    (ha : p.blobs.Addressed X) (hc : p.blobs.NoCollision X) : original' = original := by
  obtain ⟨uh, bytes, hcreated, hstored, hparse⟩ := h.unsigned
  obtain ⟨uh', huh', hfetch⟩ := hu.stored
  obtain rfl := Option.some.inj ((hs.unsignedPsbtHash_eq hcreated).symm.trans huh')
  obtain rfl := Except.ok.inj ((BlobStore.fetchVerified_of_mem ha hc hstored).symm.trans hfetch)
  exact Except.ok.inj ((parsePsbt_eq_ok_iff.mp hparse).2.symm.trans hu.parses)

/-- What is stored for a recorded signature. -/
structure Recorded (X : Extern) (p : Platform) (original : Psbt) (r : SignatureRecord)
    (doc : Psbt) : Prop where
  stored : p.blobs.fetchVerified X r.signedPsbtHash = .ok (X.serialize doc)
  parses : X.deserialize (X.serialize doc) = .ok doc
  acceptable : Acceptable X original doc r.fingerprint

/-- **Every recorded signature has its document**, which was acceptable when it was submitted. -/
theorem Inv.documents (h : Inv X network cs p) (hc : p.blobs.NoCollision X)
    (hr : p.blobs.RoundTrips X) (hrow : p.sessions.Row id s) {w : Wallet} {original : Psbt}
    (hu : Unsigned X network p s w original) :
    List.Forall₂ (Recorded X p original) s.signatures (documents X p.blobs s) := by
  refine Matched.filterMap_of_forall fun r hr' => ?_
  have hevent : .signatureAdded r.fingerprint r.signedPsbtHash ∈ s.log := by
    rw [hrow.grammatical.loaded.hydrates.signatures_eq] at hr'
    obtain ⟨e, he, hread⟩ := List.mem_filterMap.mp hr'
    cases e with
    | signatureAdded fp hash =>
      obtain rfl := Option.some.inj hread
      exact he
    | _ => exact absurd hread (by simp [PsbtSessionEvent.signature])
  obtain ⟨user, original', doc, hsub⟩ := (h.linked id s hrow).signed _ _ hevent
  obtain rfl := hsub.original_eq hu hrow.grammatical h.addressed hc
  have hfetch := BlobStore.fetchVerified_of_mem h.addressed hc hsub.stored
  have hparses := hr.deserialize hsub.stored
  refine ⟨doc, ?_, hfetch, hparses, hsub.acceptable⟩
  rw [hfetch]
  show (X.deserialize (X.serialize doc)).toOption = some doc
  rw [hparses]
  rfl

/-- The input maps of the unsigned PSBT hold no signature, and ask for `threshold` of them. -/
theorem Unsigned.input {w : Wallet} {original : Psbt} (hu : Unsigned X network p s w original)
    {input : PsbtInput} (hi : input ∈ original.inputs) :
    input.partialSigs = ∅ ∧ ∃ keys, input.witnessScript = some (.multi s.threshold.toNat keys) := by
  obtain ⟨descriptor, utxos, hsorted, hbuilt⟩ := hu.built
  obtain ⟨-, -, rfl⟩ := (sortedmultiWshDescriptor_eq_ok_iff X).mp hsorted
  obtain ⟨coins, hinputs, hcoins⟩ := buildUnsignedPsbt_inputs hbuilt
  rw [hinputs] at hi
  obtain ⟨coin, hcoin, rfl⟩ := List.mem_map.mp hi
  obtain ⟨outpoint, -, utxo, -, -, hderived⟩ := Matched.exists_of_mem_right hcoins hcoin
  refine ⟨rfl, coin.derived.scriptKeys X, ?_⟩
  have hthreshold : coin.derived.threshold = w.threshold.toNat :=
    (Descriptor.atDerivationIndex_eq_ok hderived).1
  rw [hu.threshold, ← hthreshold]
  rfl

end Platform

/-! ## What the documents are worth -/

/-- The document holds a signature under the compressed form of this key of input `i`. -/
def Psbt.provides (doc : Psbt) (i : Nat) (key : PublicKey) : Bool :=
  match doc.inputs[i]? with
  | some input => (input.signatureFor key).isSome
  | none => false

/-- Together the documents provide signatures for the keys at `threshold` positions of the witness
script of this input. -/
def CoversInput (docs : List Psbt) (i : Nat) (input : PsbtInput) : Prop :=
  EnoughKeys input.witnessScript fun key => docs.any (·.provides i key)

instance (docs : List Psbt) (i : Nat) (input : PsbtInput) : Decidable (CoversInput docs i input) := by
  unfold CoversInput
  infer_instance

/-- Together the documents cover every input. -/
def Covers (original : Psbt) (docs : List Psbt) : Prop :=
  ∀ i : Fin original.inputs.length, CoversInput docs i original.inputs[i]

instance (original : Psbt) (docs : List Psbt) : Decidable (Covers original docs) := by
  unfold Covers
  infer_instance

/-- The documents, combined one after another onto the original. -/
def combineAll (original : Psbt) (docs : List Psbt) : Psbt := docs.foldl combine original

theorem covers_iff {original : Psbt} {docs : List Psbt} :
    Covers original docs ↔
      ∀ i input, original.inputs[i]? = some input → CoversInput docs i input := by
  constructor
  · intro h i input hi
    obtain ⟨hlt, rfl⟩ := List.getElem?_eq_some_iff.mp hi
    exact h ⟨i, hlt⟩
  · exact fun h i => h i _ (List.getElem?_eq_getElem i.isLt)

/-- More documents cover more. -/
theorem Covers.mono {original : Psbt} {docs docs' : List Psbt} (h : Covers original docs)
    (hsub : ∀ doc ∈ docs, doc ∈ docs') : Covers original docs' := by
  intro i
  have hi := h i
  unfold CoversInput EnoughKeys at hi ⊢
  split at hi
  · refine Nat.le_trans hi (List.countP_mono_left fun key _ hk => ?_)
    obtain ⟨doc, hdoc, hp⟩ := List.any_eq_true.mp hk
    exact List.any_eq_true.mpr ⟨doc, hsub doc hdoc, hp⟩
  · exact hi.elim

/-- The first document of `docs` with a signature under this key in input `i`. -/
def firstSignature (docs : List Psbt) (i : Nat) (pk : PublicKey) : Option EcdsaSignature :=
  docs.findSome? fun doc => doc.inputs[i]?.bind fun input => input.partialSigs[pk]?

@[simp] theorem combineAll_length (original : Psbt) (docs : List Psbt) :
    (combineAll original docs).inputs.length = original.inputs.length := by
  unfold combineAll
  induction docs generalizing original with
  | nil => rfl
  | cons doc docs ih =>
    rw [List.foldl_cons, ih]
    exact List.length_mapIdx

/-- **What a combined document holds**: the original's input maps, with the signatures of the first
document that has one added. -/
theorem combineAll_input {original : Psbt} (docs : List Psbt) {i : Nat} {input : PsbtInput}
    (hi : original.inputs[i]? = some input) :
    ∃ sigs : PartialSigs,
      (combineAll original docs).inputs[i]? = some { input with partialSigs := sigs } ∧
      ∀ pk : PublicKey, sigs[pk]? = input.partialSigs[pk]?.or (firstSignature docs i pk) := by
  induction docs using List.reverseRecOn with
  | nil => exact ⟨input.partialSigs, hi, fun pk => by simp [firstSignature]⟩
  | append_singleton docs doc ih =>
    obtain ⟨sigs, hinput, hsigs⟩ := ih
    have hstep : (combineAll original (docs ++ [doc])).inputs[i]? =
        (combineAll original docs).inputs[i]?.map fun input =>
          match doc.inputs[i]? with
          | some signedIn =>
            { input with partialSigs := MapMerge.fill input.partialSigs signedIn.partialSigs.toList }
          | none => input := by
      unfold combineAll
      rw [List.foldl_append, List.foldl_cons, List.foldl_nil]
      exact List.getElem?_mapIdx
    have hfirst : ∀ pk, firstSignature (docs ++ [doc]) i pk = (firstSignature docs i pk).or
        (doc.inputs[i]?.bind fun input => input.partialSigs[pk]?) := by
      intro pk
      unfold firstSignature
      rw [List.findSome?_append, List.findSome?_singleton]
    rw [hstep, hinput]
    cases hd : doc.inputs[i]? with
    | none =>
      refine ⟨sigs, rfl, fun pk => ?_⟩
      rw [hsigs, hfirst, hd, Option.bind_none, Option.or_none]
    | some signedIn =>
      refine ⟨MapMerge.fill sigs signedIn.partialSigs.toList, rfl, fun pk => ?_⟩
      rw [MapMerge.getElem?_fill_toList, hsigs, hfirst, hd, Option.bind_some, Option.or_assoc]

/-- A combined document holds a signature for a key exactly when one of the documents does. -/
theorem firstSignature_isSome {docs : List Psbt} {i : Nat} {key : PublicKey} :
    (firstSignature docs i ⟨true, key.inner⟩).isSome = docs.any (·.provides i key) := by
  induction docs with
  | nil => rfl
  | cons doc docs ih =>
    rw [List.any_cons, ← ih]
    unfold firstSignature Psbt.provides
    rw [List.findSome?_cons]
    cases doc.inputs[i]? with
    | none => simp
    | some input =>
      simp only [Option.bind_some, PsbtInput.signatureFor]
      cases input.partialSigs[(⟨true, key.inner⟩ : PublicKey)]? <;> simp

/-- **When the combined documents finalise**: exactly when together they cover every input, for an
original that holds no signature itself. -/
theorem combineAll_finalizes_iff (hX : X.ScriptFinalize) {original : Psbt} (docs : List Psbt)
    (hempty : ∀ input ∈ original.inputs, input.partialSigs = ∅) :
    (X.finalize (combineAll original docs)).isSome ↔ Covers original docs := by
  have hcovered : ∀ i input, original.inputs[i]? = some input →
      ∃ combined, (combineAll original docs).inputs[i]? = some combined ∧
        (combined.Covered ↔ CoversInput docs i input) := by
    intro i input hi
    obtain ⟨sigs, hcombined, hsigs⟩ := combineAll_input docs hi
    refine ⟨_, hcombined, ?_⟩
    have hkey : ∀ key : PublicKey, ({ input with partialSigs := sigs } : PsbtInput).signatureFor key =
        firstSignature docs i ⟨true, key.inner⟩ := by
      intro key
      unfold PsbtInput.signatureFor
      rw [hsigs, hempty input (List.mem_of_getElem? hi), Std.ExtTreeMap.getElem?_empty,
        Option.none_or]
    refine iff_of_eq (congrArg (EnoughKeys input.witnessScript) (funext fun key => ?_))
    rw [hkey, firstSignature_isSome]
  rw [hX.finalize_isSome, covers_iff]
  constructor
  · intro h i input hi
    obtain ⟨combined, hcombined, hiff⟩ := hcovered i input hi
    exact hiff.mp (h combined (List.mem_of_getElem? hcombined))
  · intro h combined hm
    obtain ⟨i, hcombined⟩ := List.mem_iff_getElem?.mp hm
    have hlt : i < original.inputs.length := by
      rw [← combineAll_length original docs]
      exact (List.getElem?_eq_some_iff.mp hcombined).1
    obtain ⟨combined', hcombined', hiff⟩ := hcovered i _ (List.getElem?_eq_getElem hlt)
    obtain rfl := Option.some.inj (hcombined.symm.trans hcombined')
    exact hiff.mpr (h i _ (List.getElem?_eq_getElem hlt))

end Kota
