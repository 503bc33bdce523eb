import Kota.Finalization

/-!
# Whose signatures authorized a spend

`sigs_used` is computed from the documents the loop had merged, not from the witnesses that come
out. `AuditExact` compares the two: a keystore is listed iff an input of the final transaction
carries a signature under a key bound to it.

* **`audit_exact_iff`**: whatever signatures the finaliser picks, the list is exact iff no document
  of the shortest covering prefix can be left out.
* A listed keystore may have contributed nothing (**`idle_signer_listed`**): its document was
  accepted, and merged before the prefix was long enough, but provides nothing the finaliser uses.
* The other half never fails: whoever contributed is listed (`Collected.listed_of_contributes`).
-/

namespace Kota

open EventLog

variable {X : Extern} {network : Network}

/-- An input of the transaction carries a signature under a key that the unsigned PSBT binds to
this fingerprint. -/
def Contributes (original : Psbt) (tx : Transaction) (fingerprint : KeyFingerprint) : Prop :=
  ∃ pair ∈ original.inputs.zip tx.input, ∃ e ∈ pair.2.witness.signatures,
    pair.1.boundTo e.1.inner fingerprint = true

instance (original : Psbt) (tx : Transaction) (fingerprint : KeyFingerprint) :
    Decidable (Contributes original tx fingerprint) := by
  unfold Contributes
  infer_instance

/-- The list names exactly the keystores that contributed. -/
def AuditExact (X : Extern) (blobs : BlobStore) (s : PsbtSession) (tx : Transaction)
    (sigsUsed : List KeyFingerprint) : Prop :=
  ∃ hash original, s.unsignedPsbtHash = some hash ∧ loadPsbt X blobs hash = .ok original ∧
    ∀ fingerprint, fingerprint ∈ sigsUsed ↔ Contributes original tx fingerprint

/-- Where finalization succeeds, every document of the shortest covering prefix is needed: without
any one of them, the others leave an input uncovered. -/
def Irredundant (X : Extern) (blobs : BlobStore) (s : PsbtSession) : Prop :=
  ∀ hash original n, s.unsignedPsbtHash = some hash → loadPsbt X blobs hash = .ok original →
    Shortest.First (Covers original) (documents X blobs s) n → s.threshold.toNat ≤ n →
    (∀ doc ∈ (documents X blobs s).take n, Sized X doc) →
    ∀ j, j < n → ¬ Covers original (((documents X blobs s).take n).eraseIdx j)

/-! ## What a document provides, and for whom -/

theorem PsbtInput.boundTo_unique {input : PsbtInput} {point : Point} {fp fp' : KeyFingerprint}
    (h : input.boundTo point fp = true) (h' : input.boundTo point fp' = true) : fp = fp' := by
  unfold boundTo at h h'
  cases hsource : input.bip32Derivation[point]? with
  | none =>
    rw [hsource] at h
    exact absurd h (by simp)
  | some source =>
    rw [hsource] at h h'
    exact (beq_iff_eq.mp h).symm.trans (beq_iff_eq.mp h')

theorem getElem?_of_take {α : Type} {l : List α} {n k : Nat} {a : α} (h : (l.take n)[k]? = some a) :
    l[k]? = some a := by
  rw [List.getElem?_take] at h
  split at h
  · exact h
  · exact absurd h (by simp)

namespace Platform

variable {p : Platform} {id : PsbtSessionId} {s : PsbtSession} {original : Psbt}

/-- What a document provides is bound to the keystore it was recorded for. -/
theorem Recorded.bound {r : SignatureRecord} {doc : Psbt} (h : Recorded X p original r doc)
    {i : Nat} {input : PsbtInput} (hi : original.inputs[i]? = some input)
    (hempty : input.partialSigs = ∅) {key : PublicKey} (hp : doc.provides i key = true) :
    input.boundTo key.inner r.fingerprint = true := by
  unfold Psbt.provides at hp
  split at hp
  · rename_i signedIn hsigned
    obtain ⟨sig, hsig⟩ := Option.isSome_iff_exists.mp hp
    refine (h.acceptable.input i input signedIn hi hsigned).bound ⟨true, key.inner⟩ sig hsig ?_
    rw [hempty]
    exact Std.ExtTreeMap.getElem?_empty
  · exact absurd hp (by simp)

/-- The document at position `j` was recorded for the signer at position `j`. -/
theorem Collected.signer (h : Collected X p id s original) {j : Nat} {doc : Psbt}
    (hj : (documents X p.blobs s)[j]? = some doc) :
    ∃ r, s.signers[j]? = some r.fingerprint ∧ Recorded X p original r doc := by
  obtain ⟨r, hr, hrecord⟩ := Matched.exists_of_getElem?_right h.docs hj
  refine ⟨r, ?_, hrecord⟩
  unfold PsbtSession.signers
  rw [List.getElem?_map, hr]
  rfl

/-- Documents at other positions provide nothing under a key bound to this signer. -/
theorem Collected.not_bound_of_eraseIdx (h : Collected X p id s original) {n j : Nat}
    {fp : KeyFingerprint} (hfp : s.signers[j]? = some fp) {i : Nat} {input : PsbtInput}
    (hi : original.inputs[i]? = some input) {key : PublicKey}
    (hp : (((documents X p.blobs s).take n).eraseIdx j).any (·.provides i key) = true) :
    input.boundTo key.inner fp = false := by
  obtain ⟨doc, hdoc, hprovides⟩ := List.any_eq_true.mp hp
  obtain ⟨k, hk, hkj⟩ := List.mem_eraseIdx_iff_getElem?.mp hdoc
  obtain ⟨r, hr, hrecord⟩ := h.signer (getElem?_of_take hkj)
  have hbound := hrecord.bound hi (h.unsigned input (List.mem_of_getElem? hi)) hprovides
  rw [Bool.eq_false_iff]
  intro hother
  obtain rfl := PsbtInput.boundTo_unique hbound hother
  have hnodup := h.row.grammatical.loaded.wellFormed.signers
  have hlt := (List.getElem?_eq_some_iff.mp hr).1
  exact hk ((List.getElem?_inj hlt hnodup).mp (hr.trans hfp.symm))

/-- The input of the combined document that the finaliser is given. -/
theorem Collected.combined_input (h : Collected X p id s original) (docs : List Psbt) {i : Nat}
    {input : PsbtInput} (hi : original.inputs[i]? = some input) :
    ∃ combined, (combineAll original docs).inputs[i]? = some combined ∧
      combined.witnessScript = input.witnessScript ∧
      combined.bip32Derivation = input.bip32Derivation ∧
      ∀ key, (combined.signatureFor key).isSome = docs.any (·.provides i key) := by
  obtain ⟨sigs, hcombined, hsigs⟩ := combineAll_input docs hi
  refine ⟨_, hcombined, rfl, rfl, fun key => ?_⟩
  unfold PsbtInput.signatureFor
  rw [hsigs, h.unsigned input (List.mem_of_getElem? hi), Std.ExtTreeMap.getElem?_empty,
    Option.none_or, firstSignature_isSome]

/-- **Whoever contributed is listed**: a signature in the final transaction was taken from one of
the merged documents. -/
theorem Collected.listed_of_contributes (h : Collected X p id s original) {n : Nat}
    {tx : Transaction}
    (hspends : List.Forall₂ (fun (input : PsbtInput) (txin : TxIn) => input.Spends txin.witness)
      (combineAll original ((documents X p.blobs s).take n)).inputs tx.input)
    {fp : KeyFingerprint} (hc : Contributes original tx fp) : fp ∈ s.signers.take n := by
  obtain ⟨⟨input, txin⟩, hpair, ⟨key, sig⟩, he, hbound⟩ := hc
  obtain ⟨i, hzip⟩ := List.mem_iff_getElem?.mp hpair
  obtain ⟨hi, htxin⟩ := getElem?_zip_eq_some_iff.mp hzip
  obtain ⟨combined, hcombined, hspend⟩ := Matched.exists_of_getElem?_right hspends htxin
  obtain ⟨combined', hcombined', hscript, -, hprovides⟩ := h.combined_input _ hi
  obtain rfl := Option.some.inj (hcombined.symm.trans hcombined')
  obtain ⟨keys, hkeys⟩ := h.script input (List.mem_of_getElem? hi)
  unfold PsbtInput.Spends at hspend
  rw [hscript, hkeys] at hspend
  have hstored := hprovides key
  rw [hspend.2.2 _ he] at hstored
  obtain ⟨doc, hdoc, hp⟩ := List.any_eq_true.mp hstored.symm
  obtain ⟨j, hj⟩ := List.mem_iff_getElem?.mp hdoc
  obtain ⟨r, hr, hrecord⟩ := h.signer (getElem?_of_take hj)
  obtain rfl := PsbtInput.boundTo_unique hbound
    (hrecord.bound hi (h.unsigned input (List.mem_of_getElem? hi)) hp)
  have hlt : j < n := by
    have := (List.getElem?_eq_some_iff.mp hj).1
    rw [List.length_take] at this
    omega
  exact List.mem_of_getElem? (by rw [List.getElem?_take_of_lt hlt]; exact hr)

/-- A signer whose document is needed contributed. -/
theorem Collected.contributes_of_needed (h : Collected X p id s original) {n j : Nat}
    {tx : Transaction}
    (hspends : List.Forall₂ (fun (input : PsbtInput) (txin : TxIn) => input.Spends txin.witness)
      (combineAll original ((documents X p.blobs s).take n)).inputs tx.input)
    {fp : KeyFingerprint} (hfp : s.signers[j]? = some fp)
    (hneeded : ¬ Covers original (((documents X p.blobs s).take n).eraseIdx j)) :
    Contributes original tx fp := by
  rw [covers_iff] at hneeded
  push Not at hneeded
  obtain ⟨i, input, hi, huncovered⟩ := hneeded
  obtain ⟨combined, hcombined, hscript, hderivation, hprovides⟩ :=
    h.combined_input ((documents X p.blobs s).take n) hi
  obtain ⟨keys, hkeys⟩ := h.script input (List.mem_of_getElem? hi)
  obtain ⟨txin, htxin, hspend⟩ := Matched.exists_of_getElem?_left hspends hcombined
  unfold PsbtInput.Spends at hspend
  rw [hscript, hkeys] at hspend
  obtain ⟨hlen, hsub, hstored⟩ := hspend
  unfold CoversInput EnoughKeys at huncovered
  rw [hkeys] at huncovered
  by_contra hnot
  -- no signature of this input is of the signer, so all of them come from the others
  refine huncovered ?_
  have hothers : ∀ e ∈ txin.witness.signatures,
      (((documents X p.blobs s).take n).eraseIdx j).any (·.provides i e.1) = true := by
    intro e he
    have hany := hprovides e.1
    rw [hstored e he] at hany
    obtain ⟨doc, hdoc, hp⟩ := List.any_eq_true.mp hany.symm
    obtain ⟨k, hk⟩ := List.mem_iff_getElem?.mp hdoc
    obtain ⟨r, hr, hrecord⟩ := h.signer (getElem?_of_take hk)
    have hbound := hrecord.bound hi (h.unsigned input (List.mem_of_getElem? hi)) hp
    refine List.any_eq_true.mpr ⟨doc, List.mem_eraseIdx_iff_getElem?.mpr ⟨k, ?_, hk⟩, hp⟩
    rintro rfl
    obtain rfl := Option.some.inj (hr.symm.trans hfp)
    exact hnot ⟨(input, txin), List.mem_of_getElem?
      (getElem?_zip_eq_some_iff.mpr ⟨hi, htxin⟩), e, he, hbound⟩
  calc s.threshold.toNat = (txin.witness.signatures.map Prod.fst).length := by
        rw [List.length_map, hlen]
    _ = (txin.witness.signatures.map Prod.fst).countP fun key =>
          (((documents X p.blobs s).take n).eraseIdx j).any (·.provides i key) := by
        refine (List.countP_eq_length.mpr fun key hkey => ?_).symm
        obtain ⟨e, he, rfl⟩ := List.mem_map.mp hkey
        exact hothers e he
    _ ≤ _ := hsub.countP_le

/-! ## Another finaliser -/

section Finalizer

variable {F : Psbt → Option Psbt} {E : Psbt → Option Transaction}

/-- Acceptance does not depend on the finaliser. -/
theorem Recorded.withFinalizer {r : SignatureRecord} {doc : Psbt}
    (h : Recorded X p original r doc) : Recorded (X.withFinalizer F E) p original r doc := by
  obtain ⟨hstored, hparses, h1, h2, h3, h4, h5, h6, h7, h8, hinput, h10⟩ := h
  refine ⟨hstored, hparses, h1, h2, h3, h4, h5, h6, h7, h8, fun i o d ho hd => ?_, h10⟩
  obtain ⟨hkept, hsame, hbound, hvalid⟩ := hinput i o d ho hd
  exact ⟨hkept, hsame, hbound, hvalid⟩

theorem Collected.withFinalizer (h : Collected X p id s original) :
    Collected (X.withFinalizer F E) p id s original :=
  ⟨h.row, h.load, h.unsigned, h.script, h.uncovered, h.docs.imp fun _ _ hr => hr.withFinalizer⟩

end Finalizer

/-- The signatures under keys bound to `fingerprint`, which a finaliser may do without. -/
def boundBy (fingerprint : KeyFingerprint) (input : PsbtInput) (key : PublicKey) : Bool :=
  input.boundTo key.inner fingerprint

/-- **A signer whose document is not needed may be idle**: the finaliser that does without it
takes none of its signatures. -/
theorem Collected.idle_of_covers (h : Collected X p id s original) {n j : Nat}
    {fp : KeyFingerprint} (hfp : s.signers[j]? = some fp)
    (hcovers : Covers original (((documents X p.blobs s).take n).eraseIdx j)) {done : Psbt}
    {tx : Transaction} (hdone : (X.skipping (boundBy fp)).finalize
      (combineAll original ((documents X p.blobs s).take n)) = some done)
    (htx : (X.skipping (boundBy fp)).extractTx done = some tx) : ¬ Contributes original tx fp := by
  rintro ⟨⟨input, txin⟩, hpair, ⟨key, sig⟩, he, hbound⟩
  obtain ⟨i, hzip⟩ := List.mem_iff_getElem?.mp hpair
  obtain ⟨hi, htxin⟩ := getElem?_zip_eq_some_iff.mp hzip
  obtain ⟨combined, hcombined, k, keys, hscript, -, hwitness⟩ :=
    Matched.exists_of_getElem?_right (X.skipping_witness _ hdone htx) htxin
  obtain ⟨combined', hcombined', hscript', hderivation, hprovides⟩ := h.combined_input _ hi
  obtain rfl := Option.some.inj (hcombined.symm.trans hcombined')
  have hsame : ∀ key, boundBy fp combined key = input.boundTo key.inner fp := by
    intro key
    unfold boundBy PsbtInput.boundTo
    rw [hderivation]
  have hinput := covers_iff.mp hcovers i input hi
  unfold CoversInput EnoughKeys at hinput
  rw [← hscript', hscript] at hinput
  have hothers : k ≤ keys.countP fun key =>
      (combined.signatureFor key).isSome && !boundBy fp combined key := by
    refine Nat.le_trans hinput (List.countP_mono_left fun key _ hkey => ?_)
    rw [hprovides, hsame, h.not_bound_of_eraseIdx hfp hi hkey, Bool.not_false, Bool.and_true]
    obtain ⟨doc, hdoc, hp⟩ := List.any_eq_true.mp hkey
    exact List.any_eq_true.mpr ⟨doc, List.mem_of_mem_eraseIdx hdoc, hp⟩
  rw [hwitness] at he
  have := Extern.Sample.not_skip_of_mem_choose hothers he
  rw [hsame, hbound] at this
  exact absurd this (by simp)

/-- A recorded finalization is that of the shortest covering prefix. -/
theorem Collected.finalizes_spec (h : Collected X p id s original) (hX : X.ScriptFinalize)
    (hstatus : s.status = .collecting) (hmet : s.thresholdMet = true) {tx : Transaction}
    {sigsUsed : List KeyFingerprint} (hfinal : Finalizes X p id s tx sigsUsed) :
    ∃ n done, Shortest.First (Covers original) (documents X p.blobs s) n ∧
      s.threshold.toNat ≤ n ∧ (∀ doc ∈ (documents X p.blobs s).take n, Sized X doc) ∧
      sigsUsed = Sorting.sort (s.signers.take n) ∧
      X.finalize (combineAll original ((documents X p.blobs s).take n)) = some done ∧
      X.extractTx done = some tx := by
  obtain ⟨hfinds, hfails⟩ := h.runFinalization_search hX hstatus hmet
  have hsome : ∃ l, Shortest.search (Sized X) (Covers original) [] (documents X p.blobs s) =
      some l ∧ s.threshold.toNat ≤ l.length := by
    by_contra hnot
    push Not at hnot
    obtain ⟨e, he⟩ := hfails hnot
    rw [hfinal.ok] at he
    exact absurd he (by simp)
  obtain ⟨l, hl, henough⟩ := hsome
  obtain ⟨tx', hfinal'⟩ := hfinds l hl henough
  obtain ⟨n, hfirst, hsized, rfl⟩ := (Shortest.search_eq_some_iff h.uncovered).mp hl
  have hlen : ([] ++ (documents X p.blobs s).take n).length = n := by
    have := hfirst.le
    simp only [List.nil_append, List.length_take]
    omega
  rw [hlen] at henough hfinal'
  have hsigs : sigsUsed = Sorting.sort (s.signers.take n) := by
    have heq := Option.some.inj (hfinal.recorded.symm.trans hfinal'.recorded)
    have hlast := List.cons.inj (List.append_cancel_left heq)
    exact (PsbtSessionEvent.finalized.inj hlast.1).2.2
  obtain ⟨hash, original', done, hhash, hload, hdone, htx⟩ := hfinal.made
  obtain ⟨hash', hhash', hload'⟩ := h.load
  obtain rfl := Option.some.inj (hhash.symm.trans hhash')
  obtain rfl := Except.ok.inj (hload.symm.trans hload')
  have hsignersLen : (s.signers.take n).length = n := by
    have hdocs := h.docs.length_eq
    have := hfirst.le
    rw [List.length_take, PsbtSession.signers, List.length_map]
    omega
  rw [hsigs, Sorting.length_sort, hsignersLen] at hdone
  exact ⟨n, done, hfirst, henough, hsized, hsigs, hdone, htx⟩

end Platform

/-- **The audit answer.** After any commands and jobs from empty stores, on a collecting session
with enough signatures: whichever finaliser of the documented kind runs, `sigs_used` names exactly
the keystores bound to a signature of the final transaction, iff no document of the shortest
covering prefix can be left out. -/
theorem audit_exact_iff {cs : List Command}
    (hc : (Platform.empty.run X network cs).blobs.NoCollision X)
    (hr : (Platform.empty.run X network cs).blobs.RoundTrips X) {id : PsbtSessionId}
    {s : PsbtSession} (hs : (Platform.empty.run X network cs).sessions.findById id = .ok s)
    (hcollecting : s.status = .collecting) (hmet : s.thresholdMet = true) :
    (∀ F E, (X.withFinalizer F E).ScriptFinalize → (X.withFinalizer F E).TakesStored →
      ∀ tx sigsUsed, Platform.Finalizes (X.withFinalizer F E)
          (Platform.empty.run X network cs) id s tx sigsUsed →
        AuditExact X (Platform.empty.run X network cs).blobs s tx sigsUsed) ↔
      Irredundant X (Platform.empty.run X network cs).blobs s := by
  have hinv := Platform.inv_run X network cs
  generalize Platform.empty.run X network cs = p at *
  obtain ⟨original, h⟩ := hinv.collected hc hr hs hmet
  obtain ⟨hash, hhash, hload⟩ := h.load
  have hsigners : s.signers.length = (documents X p.blobs s).length := by
    rw [PsbtSession.signers, List.length_map, h.docs.length_eq]
  constructor
  · intro hexact hash' original' n hhash' hload' hfirst henough hsized j hj hcovers
    obtain rfl := Option.some.inj (hhash.symm.trans hhash')
    obtain rfl := Except.ok.inj (hload.symm.trans hload')
    have hle := hfirst.le
    have hjs : j < s.signers.length := by omega
    have hfp := List.getElem?_eq_getElem hjs
    -- the finaliser that avoids the signer in question
    have h' : Platform.Collected (X.skipping (Platform.boundBy s.signers[j])) p id s original :=
      h.withFinalizer
    have hX := X.skipping_scriptFinalize (Platform.boundBy s.signers[j])
    obtain ⟨tx, hfinal⟩ := (h'.runFinalization_search hX hcollecting hmet).1
      ((documents X p.blobs s).take n)
      ((Shortest.search_eq_some_iff h.uncovered).mpr ⟨n, hfirst, hsized, rfl⟩)
      (by rw [List.length_take]; omega)
    obtain ⟨n', done, hfirst', -, -, hsigs, hdone, htx⟩ :=
      h'.finalizes_spec hX hcollecting hmet hfinal
    obtain rfl := hfirst.unique hfirst'
    obtain ⟨hash', original', hhash'', hload'', haudit⟩ :=
      hexact _ _ hX (X.skipping_takesStored _) tx _ hfinal
    obtain rfl := Option.some.inj (hhash.symm.trans hhash'')
    obtain rfl := Except.ok.inj (hload.symm.trans hload'')
    refine h.idle_of_covers hfp hcovers hdone htx ((haudit _).mp ?_)
    rw [hsigs, Sorting.mem_sort]
    exact List.mem_of_getElem? (by rw [List.getElem?_take_of_lt hj]; exact hfp)
  · intro hneeded F E hX htakes tx sigsUsed hfinal
    have h' := h.withFinalizer (F := F) (E := E)
    obtain ⟨n, done, hfirst, henough, hsized, rfl, hdone, htx⟩ :=
      h'.finalizes_spec hX hcollecting hmet hfinal
    have hspends := htakes _ _ _ hdone htx
    refine ⟨hash, original, hhash, hload, fun fp => ?_⟩
    rw [Sorting.mem_sort]
    constructor
    · intro hfp
      obtain ⟨j, hj⟩ := List.mem_iff_getElem?.mp hfp
      have hlt : j < n := by
        have := (List.getElem?_eq_some_iff.mp hj).1
        rw [List.length_take] at this
        omega
      exact h'.contributes_of_needed hspends (getElem?_of_take hj)
        (hneeded hash original n hhash hload hfirst henough hsized j hlt)
    · exact h'.listed_of_contributes hspends

namespace Extern.Sample

/-- What the finaliser of the small instance makes of the documents. -/
def finalPsbt (original : Psbt) (docs : List Psbt) : Psbt :=
  (finalize (fun _ _ => false) (combineAll original docs)).getD original

def finalTx (original : Psbt) (docs : List Psbt) : Transaction :=
  (extractTx (finalPsbt original docs)).getD original.unsignedTx

/-- A two-of-three wallet. Its first user stores the signature under the uncompressed form of the
key. -/
def trioUnsigned : Psbt := unsigned 2 [key 1, key 2, key 3] [10, 20, 30]

def trioDocs : List Psbt :=
  [addSignatures trioUnsigned false 10, addSignatures trioUnsigned true 20,
    addSignatures trioUnsigned true 30]

def trioRound : List Command :=
  round 2 [key 1, key 2, key 3] [10, 20, 30] [(⟨0⟩, [1]), (⟨1⟩, [2]), (⟨2⟩, [3])]

def trioCollected : PsbtSession :=
  ⟨⟨0⟩, ⟨0⟩, ⟨0⟩, PsbtSession.soloSpend, some (digestOfByte 0), 2, [1, 2, 3],
    [⟨1, digestOfByte 1⟩, ⟨2, digestOfByte 2⟩, ⟨3, digestOfByte 3⟩], none,
    .load ⟨0⟩ [.initialized ⟨0⟩ ⟨0⟩ ⟨0⟩ PsbtSession.soloSpend 2 [1, 2, 3],
      .psbtCreated (digestOfByte 0), .signatureAdded 1 (digestOfByte 1),
      .signatureAdded 2 (digestOfByte 2), .signatureAdded 3 (digestOfByte 3)]⟩

end Extern.Sample

open Extern.Sample in
theorem audit_exact_iff_pair :
    AuditExact (.sample (pairUnsigned :: pairDocs))
      (Platform.empty.run (.sample (pairUnsigned :: pairDocs)) .bitcoin pairRound).blobs
      pairCollected (finalTx pairUnsigned pairDocs) [1, 2] := by
  refine (@audit_exact_iff (.sample (pairUnsigned :: pairDocs)) .bitcoin pairRound
    (by decide +kernel) (roundTrips (by decide +kernel) (by decide +kernel)) ⟨0⟩ pairCollected
    (by decide +kernel) (by decide +kernel) (by decide +kernel)).mpr ?_
    (finalize fun _ _ => false) extractTx
    (sample_scriptFinalize _) (Extern.skipping_takesStored (.sample _) fun _ _ => false) _ _
    ⟨⟨digestOfByte 0, pairUnsigned, finalPsbt pairUnsigned pairDocs, by decide +kernel,
      by decide +kernel, by decide +kernel, by decide +kernel⟩, by decide +kernel,
      by decide +kernel, by decide +kernel⟩
  intro hash original n hhash hload hfirst henough _ j hj
  obtain rfl : digestOfByte 0 = hash := Option.some.inj hhash
  have hload' : loadPsbt (.sample (pairUnsigned :: pairDocs))
      (Platform.empty.run (.sample (pairUnsigned :: pairDocs)) .bitcoin pairRound).blobs
      (digestOfByte 0) = .ok pairUnsigned := by decide +kernel
  obtain rfl := Except.ok.inj (hload'.symm.trans hload)
  have hle : n ≤ 2 := Nat.le_trans hfirst.le (by decide +kernel)
  have hge : 2 ≤ n := henough
  obtain ⟨rfl, rfl | rfl⟩ : n = 2 ∧ (j = 0 ∨ j = 1) := by omega
  · decide +kernel
  · decide +kernel

open Extern.Sample in
/-- **A keystore that contributed nothing is listed.** -/
theorem idle_signer_listed :
    (Extern.sample (trioUnsigned :: trioDocs)).ScriptFinalize ∧
    (Extern.sample (trioUnsigned :: trioDocs)).TakesStored ∧
    (Platform.empty.run (.sample (trioUnsigned :: trioDocs)) .bitcoin trioRound
      ).sessions.findById ⟨0⟩ = .ok trioCollected ∧
    Platform.Finalizes (.sample (trioUnsigned :: trioDocs))
      (Platform.empty.run (.sample (trioUnsigned :: trioDocs)) .bitcoin trioRound) ⟨0⟩
      trioCollected (finalTx trioUnsigned trioDocs) [1, 2, 3] ∧
    ¬ AuditExact (.sample (trioUnsigned :: trioDocs))
      (Platform.empty.run (.sample (trioUnsigned :: trioDocs)) .bitcoin trioRound).blobs
      trioCollected (finalTx trioUnsigned trioDocs) [1, 2, 3] := by
  refine ⟨sample_scriptFinalize _, Extern.skipping_takesStored (.sample _) fun _ _ => false,
    by decide +kernel, ⟨⟨digestOfByte 0, trioUnsigned, finalPsbt trioUnsigned trioDocs,
      by decide +kernel, by decide +kernel, by decide +kernel, by decide +kernel⟩,
      by decide +kernel, by decide +kernel, by decide +kernel⟩, ?_⟩
  rintro ⟨hash, original, hhash, hload, haudit⟩
  obtain rfl : digestOfByte 0 = hash := Option.some.inj hhash
  have hload' : loadPsbt (.sample (trioUnsigned :: trioDocs))
      (Platform.empty.run (.sample (trioUnsigned :: trioDocs)) .bitcoin trioRound).blobs
      (digestOfByte 0) = .ok trioUnsigned := by decide +kernel
  obtain rfl := Except.ok.inj (hload'.symm.trans hload)
  have hidle : ¬ Contributes trioUnsigned (finalTx trioUnsigned trioDocs) 1 := by decide +kernel
  exact hidle ((haudit 1).mp (by decide))

end Kota
