import Kota.Documents

/-!
# Whether an honest signer is accepted

An honest signer adds, to every input of the session's unsigned PSBT, one valid signature under the
key of their own keystore at that input's derivation index, and nothing else (`HonestSigs`,
`signInputs`).

A key source is stored by curve point, and of two keystores that derive one point the later in the
descriptor stays (`boundTo_filledInput`). `add_keystore` compares claimed fingerprints only, so
such keystores do get into a policy.

* **`honest_signer_accepted_iff`**: the submission is accepted and counted iff no later keystore
  derives the signer's point in any input, and both documents are within the size cap.
* **`shadowed_signer_rejected`**: two participants submit one extended key under different claimed
  fingerprints, and the first of them can never sign.
-/

namespace Kota

open EventLog

variable {X : Extern} {network : Network}

/-! ## The honest document -/

/-- The public key of a keystore at a derivation index. -/
def keyAt (X : Extern) (keystore : DescriptorPublicKey) (index : UInt32) : Option PublicKey :=
  match X.atDerivationIndex keystore index with
  | .ok key => some (key.derivePublicKey X)
  | .error _ => none

/-- The document with one more signature in every input. -/
def signInputs (original : Psbt) (sigs : List (PublicKey × EcdsaSignature)) : Psbt :=
  { original with
    inputs := List.zipWith (fun input e =>
      { input with partialSigs := input.partialSigs.insert e.1 e.2 }) original.inputs sigs }

/-- The coin an input spends. -/
def coinOf (funding : List FundingUtxo) (outpoint : OutPointRef) : Option FundingUtxo :=
  funding.find? fun f => f.outpoint == outpoint

/-- One valid signature for every input, under the key of `keystore` at that input's derivation
index. -/
structure HonestSigs (X : Extern) (spend : SpendSpec) (funding : List FundingUtxo)
    (keystore : DescriptorPublicKey) (original : Psbt) (sigs : List (PublicKey × EcdsaSignature)) :
    Prop where
  keys : List.Forall₂ (fun outpoint e => ∃ utxo, coinOf funding outpoint = some utxo ∧
    keyAt X keystore utxo.derivationIndex = some e.1) spend.inputs sigs
  valid : ∀ i e, sigs[i]? = some e → ValidSig X original i e.1 e.2

/-- In no input does a keystore after `keystore` in the descriptor derive the same point. -/
def Unshadowed (X : Extern) (spend : SpendSpec) (funding : List FundingUtxo)
    (descriptor : Descriptor) (keystore : DescriptorPublicKey) : Prop :=
  ∀ outpoint ∈ spend.inputs, ∀ utxo, coinOf funding outpoint = some utxo →
    ∀ pre post, descriptor.keys = pre ++ keystore :: post → ∀ other ∈ post, ∀ key key',
      keyAt X keystore utxo.derivationIndex = some key →
      keyAt X other utxo.derivationIndex = some key' → key'.inner ≠ key.inner

/-! ## Who a point is bound to -/

theorem masterFingerprint_atDerivationIndex (hX : X.DerivesKeys) {keystore : DescriptorPublicKey}
    {index : UInt32} {key : DefiniteDescriptorKey}
    (h : X.atDerivationIndex keystore index = .ok key) :
    key.key.masterFingerprint X = keystoreFingerprint X keystore := by
  rw [keystoreFingerprint_eq, hX.key_eq h]
  cases keystore <;> rfl

/-- Key sources are entered one after another, so of two with one point the later stays. -/
theorem keySources_eq_overwrite (derived : DefiniteDescriptor) (sources : Bip32Derivation) :
    derived.keySources X sources = MapMerge.overwrite sources (derived.keys.map fun d =>
      ((d.derivePublicKey X).inner, (d.key.masterFingerprint X, d.key.fullDerivationPath))) := by
  unfold DefiniteDescriptor.keySources MapMerge.overwrite
  rw [List.foldl_map]

/-- **Who a point is bound to**: the signer's point is the signer's, in the input map the builder
fills, unless a later keystore derives it too. -/
theorem boundTo_filledInput (hX : X.DerivesKeys) {descriptor : Descriptor} {index : UInt32}
    {coin : SpentCoin}
    (hderived : descriptor.atDerivationIndex X index = .ok coin.derived)
    (hfingerprints : (descriptor.keys.map (keystoreFingerprint X)).Nodup)
    {pre post : List DescriptorPublicKey} {keystore : DescriptorPublicKey}
    (hkeys : descriptor.keys = pre ++ keystore :: post) {key : PublicKey}
    (hkey : keyAt X keystore index = some key) :
    (filledInput X coin).boundTo key.inner (keystoreFingerprint X keystore) = true ↔
      ∀ other ∈ post, ∀ key', keyAt X other index = some key' → key'.inner ≠ key.inner := by
  -- what every keystore enters into the map
  have hentries : List.Forall₂ (fun (k : DescriptorPublicKey) (e : Point × KeySource) =>
      (∃ pk, keyAt X k index = some pk ∧ e.1 = pk.inner) ∧ e.2.1 = keystoreFingerprint X k)
      descriptor.keys (coin.derived.keys.map fun d => ((d.derivePublicKey X).inner,
        (d.key.masterFingerprint X, d.key.fullDerivationPath))) := by
    rw [List.forall₂_map_right_iff]
    refine (Matched.mapM_eq_ok (Descriptor.atDerivationIndex_eq_ok hderived).2).imp
      fun k d hd => ⟨⟨d.derivePublicKey X, ?_, rfl⟩, masterFingerprint_atDerivationIndex hX hd⟩
    unfold keyAt
    rw [hd]
  have hsources : (filledInput X coin).bip32Derivation =
      MapMerge.overwrite ∅ (coin.derived.keys.map fun d => ((d.derivePublicKey X).inner,
        (d.key.masterFingerprint X, d.key.fullDerivationPath))) :=
    keySources_eq_overwrite coin.derived ∅
  rw [hkeys] at hentries hfingerprints
  obtain ⟨pre', ⟨point, source⟩, post', hsplit, -, ⟨⟨pk, hpk, hpoint⟩, hsource⟩, hpost⟩ :=
    Matched.split_left hentries
  obtain rfl := Option.some.inj (hkey.symm.trans hpk)
  obtain rfl : point = key.inner := hpoint
  rw [hsplit] at hsources
  unfold PsbtInput.boundTo
  rw [hsources]
  rcases MapMerge.getElem?_overwrite_last ∅ pre' post' key.inner source with
    ⟨hfree, hget⟩ | ⟨source', hmem, hget⟩
  · rw [hget]
    have hbound : (source.1 == keystoreFingerprint X keystore) = true := by
      rw [beq_iff_eq]
      exact hsource
    refine ⟨fun _ other hother key' hkey' hsame => ?_, fun _ => hbound⟩
    obtain ⟨e, he, ⟨pk', hpk', hpoint'⟩, -⟩ := Matched.exists_of_mem_left hpost hother
    obtain rfl := Option.some.inj (hkey'.symm.trans hpk')
    exact hfree e he (hpoint'.trans hsame)
  · rw [hget]
    obtain ⟨other, hother, ⟨pk', hpk', hpoint'⟩, hsource'⟩ :=
      Matched.exists_of_mem_right hpost hmem
    -- the later keystore has another fingerprint
    have hne : source'.1 ≠ keystoreFingerprint X keystore := by
      intro heq
      rw [List.map_append, List.map_cons] at hfingerprints
      have hnot := (List.nodup_cons.mp (List.nodup_append.mp hfingerprints).2.1).1
      exact hnot (List.mem_map.mpr ⟨other, hother, hsource'.symm.trans heq⟩)
    refine ⟨fun hbound => absurd (beq_iff_eq.mp hbound) hne, fun hfree => ?_⟩
    exact absurd hpoint'.symm (hfree other hother pk' hpk')

/-! ## When the document is acceptable -/

theorem signInputs_input {original : Psbt} {sigs : List (PublicKey × EcdsaSignature)} {i : Nat}
    {origIn signedIn : PsbtInput} (ho : original.inputs[i]? = some origIn)
    (hs : (signInputs original sigs).inputs[i]? = some signedIn) :
    ∃ e, sigs[i]? = some e ∧
      signedIn = { origIn with partialSigs := origIn.partialSigs.insert e.1 e.2 } := by
  obtain ⟨origIn', e, ho', he, rfl⟩ := List.getElem?_zipWith_eq_some.mp hs
  obtain rfl := Option.some.inj (ho.symm.trans ho')
  exact ⟨e, he, rfl⟩

/-- Signatures added to empty input maps are acceptable when each is bound to the signer. -/
theorem acceptable_signInputs_iff {original : Psbt} {sigs : List (PublicKey × EcdsaSignature)}
    {fingerprint : KeyFingerprint} (hempty : ∀ input ∈ original.inputs, input.partialSigs = ∅)
    (hne : original.inputs ≠ []) (hlen : sigs.length = original.inputs.length)
    (hvalid : ∀ i e, sigs[i]? = some e → ValidSig X original i e.1 e.2) :
    Acceptable X original (signInputs original sigs) fingerprint ↔
      ∀ (i : Nat) (input : PsbtInput) (e : PublicKey × EcdsaSignature),
        original.inputs[i]? = some input → sigs[i]? = some e →
        input.boundTo e.1.inner fingerprint = true := by
  have hinserted : ∀ {origIn : PsbtInput} {e : PublicKey × EcdsaSignature} {pk : PublicKey},
      origIn ∈ original.inputs → ∀ {sig}, (origIn.partialSigs.insert e.1 e.2)[pk]? = some sig →
        (pk, sig) = e := by
    intro origIn e pk hmem sig hget
    rw [hempty origIn hmem, MapMerge.getElem?_insert_eq, MapMerge.valueAt] at hget
    split at hget
    · rename_i heq
      obtain rfl := Option.some.inj (show some e.2 = some sig from hget)
      obtain rfl : e.1 = pk := heq
      rfl
    · exact absurd hget (by simp)
  have hfound : ∀ {origIn : PsbtInput} {e : PublicKey × EcdsaSignature},
      origIn ∈ original.inputs → (origIn.partialSigs.insert e.1 e.2)[e.1]? = some e.2 ∧
        origIn.partialSigs[e.1]? = none := by
    intro origIn e hmem
    rw [hempty origIn hmem]
    exact ⟨Std.ExtTreeMap.getElem?_insert_self, Std.ExtTreeMap.getElem?_empty⟩
  constructor
  · intro h i input e hi he
    have hsigned : (signInputs original sigs).inputs[i]? =
        some { input with partialSigs := input.partialSigs.insert e.1 e.2 } :=
      List.getElem?_zipWith_eq_some.mpr ⟨input, e, hi, he, rfl⟩
    obtain ⟨hget, hnone⟩ := @hfound input e (List.mem_of_getElem? hi)
    exact (h.input i input _ hi hsigned).bound _ _ hget hnone
  · intro hbound
    refine ⟨rfl, rfl, rfl, rfl, rfl, rfl, ?_, hne, fun i o d ho hd => ?_, fun i o d ho hd => ?_⟩
    · show (List.zipWith _ original.inputs sigs).length = _
      rw [List.length_zipWith, hlen, Nat.min_self]
    · obtain ⟨e, he, rfl⟩ := signInputs_input ho hd
      have hmem := List.mem_of_getElem? ho
      refine ⟨fun pk sig hget => ?_, rfl, fun pk sig hget _ => ?_, fun pk sig hget _ => ?_⟩
      · rw [hempty o hmem, Std.ExtTreeMap.getElem?_empty] at hget
        exact absurd hget (by simp)
      · obtain rfl := hinserted hmem hget
        exact hbound i o _ ho he
      · obtain rfl := hinserted hmem hget
        exact hvalid i _ he
    · obtain ⟨e, he, rfl⟩ := signInputs_input ho hd
      exact ⟨e.1, e.2, hfound (List.mem_of_getElem? ho)⟩

/-- **The honest document is acceptable** exactly when the signer is not shadowed. -/
theorem acceptable_honest_iff (hX : X.DerivesKeys) {spend : SpendSpec} {funding : List FundingUtxo}
    {descriptor : Descriptor} {keystore : DescriptorPublicKey} {original : Psbt}
    {sigs : List (PublicKey × EcdsaSignature)} (hne : spend.inputs ≠ [])
    (hbuilt : buildUnsignedPsbt X spend descriptor funding network = .ok original)
    (hfingerprints : (descriptor.keys.map (keystoreFingerprint X)).Nodup)
    (hkeystore : keystore ∈ descriptor.keys)
    (hsigs : HonestSigs X spend funding keystore original sigs) :
    Acceptable X original (signInputs original sigs) (keystoreFingerprint X keystore) ↔
      Unshadowed X spend funding descriptor keystore := by
  obtain ⟨coins, hinputs, hcoins⟩ := buildUnsignedPsbt_inputs hbuilt
  have hlen : original.inputs.length = spend.inputs.length := by
    rw [hinputs, List.length_map, hcoins.length_eq]
  -- one input: its coin, the index, and the signer's key there
  have hone : ∀ {i : Nat} {outpoint : OutPointRef} {e : PublicKey × EcdsaSignature},
      spend.inputs[i]? = some outpoint → sigs[i]? = some e →
      ∃ coin utxo, original.inputs[i]? = some (filledInput X coin) ∧
        coinOf funding outpoint = some utxo ∧
        descriptor.atDerivationIndex X utxo.derivationIndex = .ok coin.derived ∧
        keyAt X keystore utxo.derivationIndex = some e.1 := by
    intro i outpoint e hi he
    obtain ⟨coin, hcoin, utxo, hfind, -, hderived⟩ := Matched.exists_of_getElem?_left hcoins hi
    obtain ⟨e', he', utxo', hfind', hkey⟩ := Matched.exists_of_getElem?_left hsigs.keys hi
    obtain rfl := Option.some.inj (he.symm.trans he')
    obtain rfl := Option.some.inj ((show coinOf funding outpoint = some utxo from hfind).symm.trans
      hfind')
    refine ⟨coin, utxo, ?_, hfind, hderived, hkey⟩
    rw [hinputs, List.getElem?_map, hcoin]
    rfl
  rw [acceptable_signInputs_iff ?_ ?_ ?_ hsigs.valid]
  · constructor
    · intro hbound outpoint hmem utxo hfind pre post hkeys other hother key key' hkey hkey'
      obtain ⟨i, hi⟩ := List.mem_iff_getElem?.mp hmem
      obtain ⟨e, he, -⟩ := Matched.exists_of_getElem?_left hsigs.keys hi
      obtain ⟨coin, utxo', hinput, hfind', hderived, hkeyAt⟩ := hone hi he
      obtain rfl := Option.some.inj (hfind.symm.trans hfind')
      obtain rfl := Option.some.inj (hkey.symm.trans hkeyAt)
      exact (boundTo_filledInput hX hderived hfingerprints hkeys hkey).mp (hbound i _ e hinput he)
        other hother key' hkey'
    · intro hfree i input e hi he
      have hlt : i < spend.inputs.length := by
        rw [← hlen]
        exact (List.getElem?_eq_some_iff.mp hi).1
      obtain ⟨coin, utxo, hinput, hfind, hderived, hkey⟩ := hone (List.getElem?_eq_getElem hlt) he
      obtain rfl := Option.some.inj (hi.symm.trans hinput)
      obtain ⟨pre, post, hkeys⟩ := List.append_of_mem hkeystore
      exact (boundTo_filledInput hX hderived hfingerprints hkeys hkey).mpr fun other hother key' hkey' =>
        hfree _ (List.getElem_mem hlt) utxo hfind pre post hkeys other hother e.1 key' hkey hkey'
  · intro input hi
    rw [hinputs] at hi
    obtain ⟨coin, -, rfl⟩ := List.mem_map.mp hi
    rfl
  · exact List.ne_nil_of_length_pos (hlen ▸ List.length_pos_iff.mpr hne)
  · rw [hlen, hsigs.keys.length_eq]

/-! ## The submission -/

/-- `add_signature` executes for a keystore of the policy that has not signed. -/
theorem PsbtSession.addSignature_collecting {s : PsbtSession} (h : Hydrates s)
    (hcollecting : s.status = .collecting) {fingerprint : KeyFingerprint}
    (hpolicy : fingerprint ∈ s.keystores) (hunsigned : s.hasSigned fingerprint = false)
    (hash : PsbtHash) :
    s.addSignature fingerprint hash =
      (.ok (.executed ()), s.record (.signatureAdded fingerprint hash)) := by
  have hguard : s.guard (PsbtSessionEvent.isSignatureOf fingerprint) (fun _ => false) = false := by
    rw [Bool.eq_false_iff]
    intro happlied
    obtain ⟨e, he, hsig⟩ := alreadyApplied_iff_exists.mp happlied
    rw [hasSigned_iff.mpr (h.mem_signers.mpr ⟨e, he, hsig⟩)] at hunsigned
    exact absurd hunsigned (by simp)
  unfold addSignature
  rw [hguard, isCollecting_iff.mpr hcollecting, List.contains_iff_mem.mpr hpolicy]
  rfl

/-- The submission is accepted: the call returns `Ok`, and the answer and the stored session count
one signature more. -/
def Accepted (X : Extern) (p : Platform) (id : PsbtSessionId) (user : UserId) (bytes : Bytes)
    (s : PsbtSession) : Prop :=
  ∃ answer stored,
    (Coordination.submitSignedPsbt X p.wallets p.sessions p.blobs id user bytes).1 = .ok answer ∧
    (Coordination.submitSignedPsbt X p.wallets p.sessions p.blobs id user bytes).2.1.findById id =
      .ok stored ∧
    answer.signatureCount = s.signatureCount + 1 ∧ stored.signatureCount = s.signatureCount + 1

namespace Platform

variable {p : Platform} {id : PsbtSessionId} {s : PsbtSession} {user : UserId} {bytes : Bytes}

/-- A submission by a keystore that has not signed is accepted when its checks pass. -/
theorem accepted_iff_checked (hrow : p.sessions.Row id s) (hcollecting : s.status = .collecting)
    {fingerprint : KeyFingerprint} (hpolicy : fingerprint ∈ s.keystores)
    (hunsigned : s.hasSigned fingerprint = false)
    (hsigner : ∀ fp merged, Coordination.checkSubmission X p.wallets p.blobs s user bytes =
      .ok (fp, merged) → fp = fingerprint) :
    Accepted X p id user bytes s ↔ ∃ merged,
      Coordination.checkSubmission X p.wallets p.blobs s user bytes = .ok (fingerprint, merged) := by
  constructor
  · rintro ⟨answer, -, hok, -⟩
    unfold Coordination.submitSignedPsbt Coordination.submitWork at hok
    rw [hrow.found] at hok
    dsimp only at hok
    cases hcheck : Coordination.checkSubmission X p.wallets p.blobs s user bytes with
    | error e =>
      rw [hcheck] at hok
      exact absurd hok (by simp)
    | ok r =>
      obtain ⟨fp, merged⟩ := r
      obtain rfl := hsigner fp merged hcheck
      exact ⟨merged, rfl⟩
  · rintro ⟨merged, hcheck⟩
    have hadd := PsbtSession.addSignature_collecting hrow.grammatical.loaded.hydrates hcollecting
      hpolicy hunsigned (p.blobs.put X (X.serialize merged)).1
    obtain ⟨sessions, hupdate⟩ := hrow.update_isOk
      (.addSignature fingerprint (p.blobs.put X (X.serialize merged)).1)
    have hnew := hrow.update _ hupdate
    have happly : (s.apply (.addSignature fingerprint
        (p.blobs.put X (X.serialize merged)).1)).2 =
        s.record (.signatureAdded fingerprint (p.blobs.put X (X.serialize merged)).1) :=
      congrArg Prod.snd hadd
    rw [happly] at hupdate hnew
    have hrun : Coordination.submitSignedPsbt X p.wallets p.sessions p.blobs id user bytes =
        (.ok (s.record (.signatureAdded fingerprint (p.blobs.put X (X.serialize merged)).1)),
          sessions, (p.blobs.put X (X.serialize merged)).2) := by
      unfold Coordination.submitSignedPsbt Coordination.submitWork
      rw [hrow.found]
      dsimp only
      rw [hcheck]
      dsimp only
      rw [hadd]
      simp only [Idempotent.didExecute, if_true]
      rw [hupdate]
    unfold Accepted
    rw [hrun]
    refine ⟨_, _, rfl, hnew.found, ?_, ?_⟩ <;>
      simp [PsbtSession.signatureCount, PsbtSession.record]

end Platform

/-- **Whether an honest signer is accepted.** After any commands and jobs from empty stores, on a
collecting session whose unsigned PSBT was built from its wallet's descriptor, and for a
participant whose keystore has not signed: the honest document is accepted and counted exactly
when the signer is not shadowed and both documents are within the size cap. -/
theorem honest_signer_accepted_iff (hX : X.DerivesKeys) {cs : List Command}
    {id : PsbtSessionId} {s : PsbtSession}
    (hs : (Platform.empty.run X network cs).sessions.findById id = .ok s)
    (hcollecting : s.status = .collecting) {w : Wallet}
    (hw : (Platform.empty.run X network cs).wallets.findById s.walletId = .ok w)
    {descriptor : Descriptor} (hdescriptor : w.descriptor = some descriptor)
    {funding : List FundingUtxo} {original : Psbt}
    (hbuilt : buildUnsignedPsbt X s.spend descriptor funding network = .ok original)
    (hstored : ∃ hash, s.unsignedPsbtHash = some hash ∧
      (Platform.empty.run X network cs).blobs.fetchVerified X hash = .ok (X.serialize original))
    {user : UserId} {keystore : DescriptorPublicKey} (huser : (user, keystore) ∈ w.submissions)
    (hunsigned : s.hasSigned (keystoreFingerprint X keystore) = false)
    {sigs : List (PublicKey × EcdsaSignature)}
    (hsigs : HonestSigs X s.spend funding keystore original sigs)
    (hround : ∀ psbt ∈ [original, signInputs original sigs],
      X.deserialize (X.serialize psbt) = .ok psbt) :
    Accepted X (Platform.empty.run X network cs) id user
        (X.serialize (signInputs original sigs)) s ↔
      Unshadowed X s.spend funding descriptor keystore ∧ Sized X original ∧
        Sized X (signInputs original sigs) := by
  have hinv := Platform.inv_run X network cs
  generalize Platform.empty.run X network cs = p at *
  have hrow := hinv.sessions.row hs
  have hsession := hinv.linked id s hrow
  obtain ⟨w', hwrow, hactive, -, hpolicy⟩ := hsession.wallet
  obtain rfl := Except.ok.inj (hw.symm.trans hwrow.found)
  -- the keys of the descriptor are the keystores, in another order
  obtain ⟨d, hsorted, hd, -⟩ := hwrow.inv.descriptor hactive
  obtain rfl := Option.some.inj (hdescriptor.symm.trans hd)
  obtain ⟨-, -, rfl⟩ := (sortedmultiWshDescriptor_eq_ok_iff X).mp hsorted
  have hperm := List.perm_insertionSort (fun a b => X.keyToString a ≤ X.keyToString b) w.keystores
  have hkeystore : keystore ∈ w.keystores := List.mem_map.mpr ⟨_, huser, rfl⟩
  have hfingerprint := hwrow.inv.keystoreFingerprintOf_eq huser
  have hacceptable := acceptable_honest_iff hX hsession.spends hbuilt
    ((hperm.map _).nodup_iff.mpr hwrow.inv.fingerprints) (hperm.mem_iff.mpr hkeystore) hsigs
  obtain ⟨horiginal, hdoc⟩ : X.deserialize (X.serialize original) = .ok original ∧
      X.deserialize (X.serialize (signInputs original sigs)) = .ok (signInputs original sigs) :=
    ⟨hround _ (by simp), hround _ (by simp)⟩
  obtain ⟨hash, hhash, hfetch⟩ := hstored
  rw [Platform.accepted_iff_checked hrow hcollecting
    (hpolicy ▸ List.mem_map.mpr ⟨_, hkeystore, rfl⟩) hunsigned, ← hacceptable]
  · constructor
    · rintro ⟨merged, hcheck⟩
      obtain ⟨w', uh, ub, original', hw', -, huh, hub, hparse, hparsed, hacc⟩ :=
        Platform.checkSubmission_eq_ok hcheck
      obtain rfl := Option.some.inj (hhash.symm.trans huh)
      obtain rfl := Except.ok.inj (hfetch.symm.trans hub)
      obtain ⟨hsize, hd⟩ := parsePsbt_eq_ok_iff.mp hparse
      obtain ⟨hsize', hd'⟩ := parsePsbt_eq_ok_iff.mp hparsed
      obtain rfl := Except.ok.inj (horiginal.symm.trans hd)
      obtain rfl := Except.ok.inj (hdoc.symm.trans hd')
      exact ⟨hacc, hsize, hsize'⟩
    · rintro ⟨hacc, hsize, hsize'⟩
      refine ⟨mergePartialSigs original
        (newSignatures 0 (original.inputs.zip (signInputs original sigs).inputs)), ?_⟩
      unfold Coordination.checkSubmission
      rw [hw]
      dsimp only
      rw [hfingerprint]
      dsimp only
      rw [hhash]
      dsimp only
      rw [hfetch]
      dsimp only
      rw [parsePsbt_eq_ok_iff.mpr ⟨hsize, horiginal⟩]
      dsimp only
      rw [parsePsbt_eq_ok_iff.mpr ⟨hsize', hdoc⟩]
      dsimp only
      rw [validateSignedSubmission_eq_ok_iff.mpr ⟨hacc, rfl⟩]
  · intro fp merged hcheck
    obtain ⟨w', -, -, -, hw', hfp', -⟩ := Platform.checkSubmission_eq_ok hcheck
    obtain rfl := Except.ok.inj (hw.symm.trans hw')
    exact Option.some.inj (hfp'.symm.trans hfingerprint)

namespace Extern.Sample

/-- An extended key under a claimed master fingerprint. -/
def claimed (seed : Nat) (fingerprint : KeyFingerprint) : DescriptorPublicKey :=
  .xPub ⟨some (fingerprint, []), ⟨seed⟩, [], .unhardened⟩

/-- The active wallet of a round. -/
def activeWallet (threshold : UInt32) (keystores : List DescriptorPublicKey) : Wallet :=
  let users := (List.range keystores.length).map UserId.mk
  ⟨⟨0⟩, .bitcoin, threshold, users, .load ⟨0⟩ (.initialized ⟨0⟩ .bitcoin threshold users ::
    (keystores.mapIdx fun i keystore => .keystoreAdded keystore ⟨i⟩) ++
    [.activated ⟨threshold.toNat, keystores⟩
      (descriptorFingerprint (.sample []) ⟨threshold.toNat, keystores⟩ .bitcoin)])⟩

/-- The session of a round before anyone signs. -/
def freshSession (threshold : UInt32) (fingerprints : List KeyFingerprint) : PsbtSession :=
  ⟨⟨0⟩, ⟨0⟩, ⟨0⟩, PsbtSession.soloSpend, some (digestOfByte 0), threshold, fingerprints, [], none,
    .load ⟨0⟩ [.initialized ⟨0⟩ ⟨0⟩ ⟨0⟩ PsbtSession.soloSpend threshold fingerprints,
      .psbtCreated (digestOfByte 0)]⟩

/-- The signature of the key with this point for the one input. -/
def soloSigs (point : Nat) : List (PublicKey × EcdsaSignature) :=
  [(⟨true, ⟨point⟩⟩, ⟨sign ⟨1⟩ ⟨point⟩, .all⟩)]

theorem soloSigs_honest {table : List Psbt} {threshold : Nat} {points : List Nat}
    {keystore : DescriptorPublicKey} {original : Psbt}
    (hkey : keyAt (.sample table) keystore 0 = some ⟨true, ⟨10⟩⟩)
    (hmsg : sighashMsg original 0 = .ok ⟨1⟩) :
    HonestSigs (.sample table) PsbtSession.soloSpend [coin threshold points] keystore original
      (soloSigs 10) where
  keys := .cons ⟨coin threshold points, rfl, hkey⟩ .nil
  valid i e he := by
    obtain ⟨rfl, rfl⟩ : i = 0 ∧ e = (⟨true, ⟨10⟩⟩, ⟨sign ⟨1⟩ ⟨10⟩, .all⟩) := by
      cases i with
      | zero => exact ⟨rfl, (Option.some.inj he).symm⟩
      | succ i => exact absurd he (by simp [soloSigs])
    exact ⟨rfl, ⟨1⟩, hmsg, beq_self_eq_true _⟩

/-- Two keystores that are one extended key, under different claimed fingerprints. -/
def twins : List DescriptorPublicKey := [claimed 1 1, claimed 1 9]

def twinUnsigned : Psbt := unsigned 2 twins [10, 10]

/-- The platform on which their owners wait to sign. -/
def twinPlatform : Platform :=
  Platform.empty.run (.sample [twinUnsigned, addSignatures twinUnsigned true 10]) .bitcoin
    (round 2 twins [10, 10] [])

end Extern.Sample

open Extern.Sample in
theorem honest_signer_accepted_iff_solo :
    Accepted (.sample [soloUnsigned, soloSigned true])
      (Platform.empty.run (.sample [soloUnsigned, soloSigned true]) .bitcoin
        (round 1 [key 1] [10] [])) ⟨0⟩ ⟨0⟩ [1] (freshSession 1 [1]) := by
  have hdoc : signInputs soloUnsigned (soloSigs 10) = soloSigned true := by decide +kernel
  have haccepted := (@honest_signer_accepted_iff (.sample [soloUnsigned, soloSigned true]) .bitcoin
    (derivesKeys _) (round 1 [key 1] [10] []) ⟨0⟩ (freshSession 1 [1]) (by decide +kernel)
    (by decide +kernel)
    (activeWallet 1 [key 1]) (by decide +kernel) ⟨1, [key 1]⟩ (by decide +kernel) [coin 1 [10]]
    soloUnsigned (by decide +kernel) ⟨digestOfByte 0, by decide +kernel, by decide +kernel⟩ ⟨0⟩
    (key 1) (by decide +kernel) (by decide +kernel) (soloSigs 10)
    (soloSigs_honest (by decide +kernel) (by decide +kernel)) (by decide +kernel)).mpr
    ⟨fun _ _ _ _ pre post hkeys other hother => ?_, by decide +kernel, by decide +kernel⟩
  · rwa [hdoc] at haccepted
  · have hlen := congrArg List.length hkeys
    simp only [List.length_cons, List.length_nil, List.length_append] at hlen
    obtain rfl : post = [] := List.eq_nil_of_length_eq_zero (by omega)
    exact absurd hother List.not_mem_nil

open Extern.Sample in
/-- **An honest signer can be locked out.** The key sources of the second keystore replaced those of
the first, so the signature of the first user is taken for one of the second. -/
theorem shadowed_signer_rejected :
    twinPlatform.sessions.findById ⟨0⟩ = .ok (freshSession 2 [1, 9]) ∧
    (freshSession 2 [1, 9]).status = .collecting ∧
    twinPlatform.wallets.findById ⟨0⟩ = .ok (activeWallet 2 twins) ∧
    (activeWallet 2 twins).status = .active ∧
    (⟨0⟩, claimed 1 1) ∈ (activeWallet 2 twins).submissions ∧
    (freshSession 2 [1, 9]).hasSigned (keystoreFingerprint (.sample []) (claimed 1 1)) = false ∧
    loadPsbt (.sample [twinUnsigned, addSignatures twinUnsigned true 10]) twinPlatform.blobs
      (digestOfByte 0) = .ok twinUnsigned ∧
    HonestSigs (.sample [twinUnsigned, addSignatures twinUnsigned true 10])
      PsbtSession.soloSpend [coin 2 [10, 10]] (claimed 1 1) twinUnsigned (soloSigs 10) ∧
    signInputs twinUnsigned (soloSigs 10) = addSignatures twinUnsigned true 10 ∧
    (Coordination.submitSignedPsbt (.sample [twinUnsigned, addSignatures twinUnsigned true 10])
      twinPlatform.wallets twinPlatform.sessions twinPlatform.blobs ⟨0⟩ ⟨0⟩ [1]).1 =
        .error (.psbtValidation (.signatureNotBoundToSigner 0 ⟨true, ⟨10⟩⟩ 1)) := by
  refine ⟨by decide +kernel, by decide +kernel, by decide +kernel, by decide +kernel,
    by decide +kernel, by decide +kernel, by decide +kernel,
    soloSigs_honest (by decide +kernel) (by decide +kernel), by decide +kernel, by decide +kernel⟩

end Kota
