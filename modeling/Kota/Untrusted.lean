import Kota.Agreement
import Kota.Documents
import Kota.Lib.Shortest
import Kota.Psbt.Additive
import Kota.Signer
import Kota.Wallet.Realisable

/-!
# Finalization over untrusted blobs

`run_finalization` reads back what was stored at upload and trusts none of it. Here the blob store
is any store whatsoever: what stands at the recorded addresses need not be what was put there.

* `Settled` is what the loop over the recorded signatures has done when it records something, by
  induction on the records; every document it took passed `verify_merged_blob`.
* `validSig_of_combined`: so every signature of the combined document is valid, whichever document
  it came from and whoever it is for.
* `Extern.FillsWitnesses` is what is assumed of the finaliser: it writes final witness fields, and
  `extract_tx` copies them.

Result: **`finalization_safe`**.
-/

namespace Kota

open EventLog

/-! ## What is assumed of the finaliser -/

/-- The transaction without its witnesses. -/
def Transaction.withoutWitnesses (tx : Transaction) : Transaction :=
  { tx with input := tx.input.map fun txin => { txin with witness := .empty } }

/-- The input spends a P2WSH output and carries no other field. -/
def PsbtInput.IsWsh (input : PsbtInput) : Prop :=
  (∃ txout hash, input.witnessUtxo = some txout ∧ txout.scriptPubkey = .p2wsh hash) ∧
    input.rest = []

/-- One map an input of the transaction, all of P2WSH outputs. -/
structure Psbt.WshOnly (psbt : Psbt) : Prop where
  length : psbt.inputs.length = psbt.unsignedTx.input.length
  input : ∀ input ∈ psbt.inputs, input.IsWsh

/-- The finaliser fills the final witness fields of P2WSH inputs, for a multisig script from
signatures only, and `extract_tx` copies these fields into the transaction. -/
structure Extern.FillsWitnesses (X : Extern) : Prop where
  finalize : ∀ psbt done, psbt.WshOnly → X.finalize psbt = some done →
    done.unsignedTx = psbt.unsignedTx ∧ done.inputs.length = psbt.inputs.length ∧
      ∀ input ∈ done.inputs, input.rest = []
  extract : ∀ done tx, done.inputs.length = done.unsignedTx.input.length →
    (∀ input ∈ done.inputs, input.rest = []) → X.extractTx done = some tx →
    tx = { done.unsignedTx with
      input := List.zipWith (fun txin input =>
        { txin with witness := input.finalScriptWitness.getD .empty })
        done.unsignedTx.input done.inputs }
  signed : ∀ psbt done, X.finalize psbt = some done → ∀ input ∈ psbt.inputs, ∀ k keys,
    input.witnessScript = some (.multi k keys) → 0 < k → input.partialSigs ≠ ∅

variable {X : Extern} {network : Network}

theorem map_zipWith_left {α β γ : Type} {f : α → β → α} {g : α → γ}
    (hfg : ∀ a b, g (f a b) = g a) : ∀ {l : List α} {l' : List β}, l'.length = l.length →
      (List.zipWith f l l').map g = l.map g
  | [], _, _ => by simp
  | a :: l, b :: l', h => by
    rw [List.zipWith_cons_cons, List.map_cons, List.map_cons, hfg,
      map_zipWith_left hfg (by simpa using h)]

/-- **Only witnesses differ** between what is finalised and what is extracted. -/
theorem Extern.FillsWitnesses.withoutWitnesses (hX : X.FillsWitnesses) {psbt done : Psbt}
    {tx : Transaction} (hwsh : psbt.WshOnly) (hdone : X.finalize psbt = some done)
    (htx : X.extractTx done = some tx) :
    tx.withoutWitnesses = psbt.unsignedTx.withoutWitnesses := by
  obtain ⟨hsame, hlen, hrest⟩ := hX.finalize psbt done hwsh hdone
  have hlen' : done.inputs.length = done.unsignedTx.input.length := by
    rw [hlen, hwsh.length, hsame]
  rw [hX.extract done tx hlen' hrest htx, ← hsame]
  have hinput : (List.zipWith (fun (txin : TxIn) (input : PsbtInput) =>
      { txin with witness := input.finalScriptWitness.getD .empty }) done.unsignedTx.input
      done.inputs).map (fun txin => { txin with witness := .empty }) =
      done.unsignedTx.input.map fun txin => { txin with witness := .empty } :=
    map_zipWith_left (by intros; rfl) hlen'
  exact congrArg (fun input => { done.unsignedTx with input }) hinput

/-! ## The combined document -/

theorem combineAll_unsignedTx (original : Psbt) (docs : List Psbt) :
    (combineAll original docs).unsignedTx = original.unsignedTx := by
  unfold combineAll
  induction docs generalizing original with
  | nil => rfl
  | cons doc docs ih =>
    rw [List.foldl_cons, ih]
    rfl

theorem combineAll_wshOnly {original : Psbt} (h : original.WshOnly) (docs : List Psbt) :
    (combineAll original docs).WshOnly := by
  refine ⟨?_, fun input hinput => ?_⟩
  · rw [combineAll_length, combineAll_unsignedTx, h.length]
  · obtain ⟨i, hi⟩ := List.mem_iff_getElem?.mp hinput
    have hlt : i < original.inputs.length := by
      rw [← combineAll_length original docs]
      exact (List.getElem?_eq_some_iff.mp hi).1
    obtain ⟨sigs, hcombined, -⟩ := combineAll_input docs (List.getElem?_eq_getElem hlt)
    obtain rfl := Option.some.inj (hi.symm.trans hcombined)
    exact h.input original.inputs[i] (List.getElem_mem hlt)

theorem valid_of_verifyMergedInputs {original : Psbt} :
    ∀ {pairs : List (PsbtInput × PsbtInput)} {idx : Nat},
      verifyMergedInputs X original idx pairs = .ok () →
      ∀ j p, pairs[j]? = some p → ∀ (pk : PublicKey) (sig : EcdsaSignature),
        p.2.partialSigs[pk]? = some sig → p.1.partialSigs[pk]? = none →
        ValidSig X original (idx + j) pk sig
  | [], _, _, j, p, hj => absurd hj (by simp)
  | (o, s) :: rest, idx, h, j, p, hj => by
    intro pk sig hsig hnew
    unfold verifyMergedInputs at h
    split at h
    · exact absurd h (by simp)
    · rename_i hfirst
      cases j with
      | zero =>
        obtain rfl := Option.some.inj hj
        exact verifyMergedInput_eq_ok_iff.mp hfirst (pk, sig)
          (Std.ExtTreeMap.mem_toList_iff_getElem?_eq_some.mpr hsig)
          (MapMerge.contains_eq_false_iff.mpr hnew)
      | succ j =>
        have hrest := valid_of_verifyMergedInputs h j p (by simpa using hj) pk sig hsig hnew
        rwa [show idx + 1 + j = idx + (j + 1) by omega] at hrest

/-- What `verify_merged_blob` lets through is valid wherever it adds something. -/
theorem valid_of_verifyMergedBlob {original doc : Psbt}
    (h : verifyMergedBlob X original doc = .ok ()) {i : Nat} {pk : PublicKey} {sig : EcdsaSignature}
    (hadded : Added original doc i pk sig) : ValidSig X original i pk sig := by
  unfold verifyMergedBlob at h
  split at h
  · exact absurd h (by simp)
  split at h
  · exact absurd h (by simp)
  rename_i hlen
  rw [not_not] at hlen
  obtain ⟨hdoc, horiginal⟩ := hadded
  obtain ⟨docIn, hd, hsig⟩ := Psbt.exists_input hdoc
  have hlt : i < original.inputs.length := hlen ▸ (List.getElem?_eq_some_iff.mp hd).1
  have ho := List.getElem?_eq_getElem hlt
  rw [Psbt.signature?_of_input ho] at horiginal
  have hvalid := valid_of_verifyMergedInputs h i (_, docIn)
    (getElem?_zip_eq_some_iff.mpr ⟨ho, hd⟩) pk sig hsig horiginal
  rwa [Nat.zero_add] at hvalid

/-- **The invariant of the combined document**: whatever documents passed the check, every
signature they add up to is valid for the original. -/
theorem validSig_of_combined {original : Psbt} {docs : List Psbt}
    (hempty : ∀ input ∈ original.inputs, input.partialSigs = ∅)
    (hdocs : ∀ doc ∈ docs, verifyMergedBlob X original doc = .ok ()) {i : Nat} {pk : PublicKey}
    {sig : EcdsaSignature} (hsig : (combineAll original docs).signature? i pk = some sig) :
    ValidSig X original i pk sig := by
  obtain ⟨combined, hcombined, hsig⟩ := Psbt.exists_input hsig
  have hlt : i < original.inputs.length := by
    rw [← combineAll_length original docs]
    exact (List.getElem?_eq_some_iff.mp hcombined).1
  have ho := List.getElem?_eq_getElem hlt
  have hnone : ∀ pk : PublicKey, original.inputs[i].partialSigs[pk]? = none := by
    intro pk
    rw [hempty _ (List.getElem_mem hlt), Std.ExtTreeMap.getElem?_empty]
  obtain ⟨sigs, hinput, hsigs⟩ := combineAll_input docs ho
  obtain rfl := Option.some.inj (hcombined.symm.trans hinput)
  have hfirst : firstSignature docs i pk = some sig := by
    have := hsigs pk
    rw [hnone, Option.none_or] at this
    exact this.symm.trans hsig
  obtain ⟨doc, hdoc, hentry⟩ := List.exists_of_findSome?_eq_some hfirst
  refine valid_of_verifyMergedBlob (hdocs doc hdoc) ⟨hentry, ?_⟩
  rw [Psbt.signature?_of_input ho, hnone]

/-! ## The loop -/

/-- The document that stands at the address of a recorded signature, whatever it is. -/
def Loads (X : Extern) (blobs : BlobStore) (r : SignatureRecord) (doc : Psbt) : Prop :=
  loadPsbt X blobs r.signedPsbtHash = .ok doc

/-- The documents of these records, combined onto the unsigned PSBT, finalise. -/
def CombinedFinalizes (X : Extern) (blobs : BlobStore) (unsigned : Psbt)
    (records : List SignatureRecord) : Prop :=
  ∃ docs, List.Forall₂ (Loads X blobs) records docs ∧
    (X.finalize (combineAll unsigned docs)).isSome = true

/-- What the loop did, starting from `combined`, when it comes to record something: it took the
documents of the first `n` records, and the last of them was the first to finalise. -/
structure Settled (X : Extern) (blobs : BlobStore) (unsigned combined : Psbt)
    (records : List SignatureRecord) (n : Nat) (docs : List Psbt) (done : Psbt)
    (tx : Transaction) : Prop where
  pos : 0 < n
  le : n ≤ records.length
  loads : List.Forall₂ (Loads X blobs) (records.take n) docs
  verified : ∀ doc ∈ docs, verifyMergedBlob X unsigned doc = .ok ()
  before : ∀ m, 0 < m → m < n → X.finalize (combineAll combined (docs.take m)) = none
  final : X.finalize (combineAll combined docs) = some done
  extracted : X.extractTx done = some tx

theorem Settled.cons {blobs : BlobStore} {unsigned combined doc : Psbt} {record : SignatureRecord}
    {records : List SignatureRecord} {n : Nat} {docs : List Psbt} {done : Psbt} {tx : Transaction}
    (hload : Loads X blobs record doc) (hverify : verifyMergedBlob X unsigned doc = .ok ())
    (hnone : X.finalize (combine combined doc) = none)
    (h : Settled X blobs unsigned (combine combined doc) records n docs done tx) :
    Settled X blobs unsigned combined (record :: records) (n + 1) (doc :: docs) done tx where
  pos := Nat.succ_pos n
  le := Nat.succ_le_succ h.le
  loads := .cons hload h.loads
  verified := List.forall_mem_cons.mpr ⟨hverify, h.verified⟩
  before m hpos hm := by
    obtain ⟨k, rfl⟩ := Nat.exists_eq_succ_of_ne_zero (Nat.pos_iff_ne_zero.mp hpos)
    by_cases hk : k = 0
    · subst hk
      exact hnone
    · exact h.before k (by omega) (by omega)
  final := h.final
  extracted := h.extracted

/-- **What the loop records**, by induction on the records. -/
theorem finalizeLoop_persist {blobs blobs' : BlobStore} {s s' : PsbtSession} {unsigned : Psbt}
    {answer : Txid} {records : List SignatureRecord} {combined : Psbt}
    {sigsUsed : List KeyFingerprint}
    (h : finalizeLoop X blobs s unsigned combined sigsUsed records =
      (.ok (.persist answer s'), blobs')) :
    ∃ n docs done tx applied, Settled X blobs unsigned combined records n docs done tx ∧
      blobs' = (blobs.put X (X.consensusSerialize tx)).2 ∧
      s.finalize (X.computeTxid tx) (PsbtHash.digestOf X (X.consensusSerialize tx))
        (sigsUsed ++ (records.take n).map SignatureRecord.fingerprint) = (.ok applied, s') := by
  induction records generalizing combined sigsUsed with
  | nil => exact absurd h (by simp [finalizeLoop])
  | cons record records ih =>
    unfold finalizeLoop at h
    split at h
    · exact absurd h (by simp)
    rename_i doc hload
    split at h
    · exact absurd h (by simp)
    rename_i hverify
    dsimp only at h
    split at h
    · rename_i hnone
      obtain ⟨n, docs, done, tx, applied, hsettled, hblobs, hfinalize⟩ := ih h
      refine ⟨n + 1, doc :: docs, done, tx, applied, hsettled.cons hload hverify hnone, hblobs, ?_⟩
      rw [List.append_assoc] at hfinalize
      exact hfinalize
    · rename_i done hdone
      split at h
      · exact absurd h (by simp)
      rename_i tx htx
      split at h
      · exact absurd h (by simp)
      · rename_i applied s'' hfinalize
        obtain ⟨hwork, hblobs⟩ := Prod.mk.inj h
        obtain ⟨-, rfl⟩ := Work.persist.inj (Except.ok.inj hwork)
        refine ⟨1, [doc], done, tx, applied, ?_, hblobs.symm, hfinalize⟩
        exact ⟨Nat.one_pos, Nat.succ_le_succ (Nat.zero_le _), .cons hload .nil,
          List.forall_mem_singleton.mpr hverify, fun m hpos hm => by omega, hdone, htx⟩

/-- A finalization to persist comes out of the loop. -/
theorem finalizeSession_persist {blobs blobs' : BlobStore} {s s' : PsbtSession} {answer : Txid}
    (h : finalizeSession X blobs s = (.ok (.persist answer s'), blobs')) :
    ∃ hash unsigned, s.unsignedPsbtHash = some hash ∧ loadPsbt X blobs hash = .ok unsigned ∧
      finalizeLoop X blobs s unsigned unsigned [] s.signatures =
        (.ok (.persist answer s'), blobs') := by
  have hout := finalizeSession_outcome X blobs s
  rw [h] at hout
  generalize hloop : (Except.ok (Work.persist answer s'), blobs') = out at hout
  cases hout with
  | looped _ hhash hload => exact ⟨_, _, hhash, hload, rfl⟩
  | _ => exact absurd (congrArg Prod.fst hloop) (by simp)

/-- **A failed run leaves the sessions alone.** -/
theorem sessions_of_runFinalization_error {sessions : PsbtSessions} {blobs : BlobStore}
    {id : PsbtSessionId} {e : JobsError}
    (h : (runFinalization X sessions blobs id).1 = .error e) :
    (runFinalization X sessions blobs id).2.1 = sessions := by
  unfold runFinalization at h ⊢
  split at h
  · rfl
  · dsimp only at h ⊢
    rename_i s _
    rcases hwork : (finalizeSession X blobs s).1 with e' | (answer | ⟨answer, s'⟩)
    · rfl
    · rfl
    · rw [hwork] at h
      unfold PsbtSessions.persist at h ⊢
      dsimp only at h ⊢
      split at h
      · rfl
      · exact absurd h (by simp)

/-- What stands behind a finalization that `run_finalization` recorded. -/
theorem runFinalization_records {sessions : PsbtSessions} {blobs : BlobStore} {id : PsbtSessionId}
    {s : PsbtSession} {txid : Txid} {hash : PsbtHash} {sigsUsed : List KeyFingerprint}
    (hrow : sessions.Row id s)
    (hlog : (runFinalization X sessions blobs id).2.1.find? id =
      some (s.log ++ [.finalized txid hash sigsUsed])) :
    ∃ uh unsigned n docs done tx, s.unsignedPsbtHash = some uh ∧
      loadPsbt X blobs uh = .ok unsigned ∧
      Settled X blobs unsigned unsigned s.signatures n docs done tx ∧
      (runFinalization X sessions blobs id).2.2 = (blobs.put X (X.consensusSerialize tx)).2 ∧
      txid = X.computeTxid tx ∧ hash = PsbtHash.digestOf X (X.consensusSerialize tx) ∧
      sigsUsed = Sorting.sort ((s.signatures.take n).map SignatureRecord.fingerprint) ∧
      s.threshold.toNat ≤ n ∧
      ((s.signatures.take n).map SignatureRecord.fingerprint).Nodup := by
  have hunchanged : sessions.find? id ≠ some (s.log ++ [.finalized txid hash sigsUsed]) := by
    rw [hrow.log_eq]
    simp
  unfold runFinalization at hlog ⊢
  rw [hrow.found] at hlog ⊢
  dsimp only at hlog ⊢
  cases hwork : finalizeSession X blobs s with
  | mk work blobs' =>
    rw [hwork] at hlog
    rcases work with e | (answer | ⟨answer, s'⟩)
    · exact absurd hlog hunchanged
    · exact absurd hlog hunchanged
    · obtain ⟨uh, unsigned, huh, hload, hloop⟩ := finalizeSession_persist hwork
      obtain ⟨n, docs, done, tx, applied, hsettled, hblobs, hfinalize⟩ :=
        finalizeLoop_persist hloop
      rw [List.nil_append] at hfinalize
      -- what is written back is what the command left
      have happly : (s.apply (.finalize (X.computeTxid tx)
          (PsbtHash.digestOf X (X.consensusSerialize tx))
          ((s.signatures.take n).map SignatureRecord.fingerprint))).2 = s' :=
        congrArg Prod.snd hfinalize
      have hs' : s'.log = s.log ++ [.finalized txid hash sigsUsed] := by
        dsimp only [PsbtSessions.persist] at hlog
        cases hupdate : sessions.update s' with
        | error e =>
          rw [hupdate] at hlog
          exact absurd hlog hunchanged
        | ok sessions' =>
          rw [hupdate] at hlog
          have hfind := hrow.find?_update _ (happly ▸ hupdate) id
          rw [if_pos rfl, happly] at hfind
          exact Option.some.inj (hfind.symm.trans hlog)
      rcases PsbtSession.finalize_spec s (X.computeTxid tx)
        (PsbtHash.digestOf X (X.consensusSerialize tx))
        ((s.signatures.take n).map SignatureRecord.fingerprint) with ⟨e, hstep, he⟩ | ⟨-, hsame⟩
      · rw [hfinalize] at he
        obtain ⟨-, rfl⟩ := Prod.mk.inj he
        rw [PsbtSession.record_log] at hs'
        have hevent := List.cons.inj (List.append_cancel_left hs')
        cases hstep with
        | finalized _ _ _ once collecting enough distinct collected =>
          obtain ⟨rfl, rfl, rfl⟩ := PsbtSessionEvent.finalized.inj hevent.1
          refine ⟨uh, unsigned, n, docs, done, tx, huh, hload, hsettled, hblobs, rfl, rfl, rfl, ?_,
            distinct⟩
          rw [List.length_map, List.length_take] at enough
          omega
      · rw [hfinalize] at hsame
        dsimp only at hsame
        rw [hsame] at hs'
        exact absurd hs' (by simp)

/-! ## The unsigned PSBT -/

theorem assemble_wshOnly {funding : List FundingUtxo} {descriptor : Descriptor} {spend : SpendSpec}
    {coins : List SpentCoin} {outputs : List TxOut} {change : Option (TxOut × DefiniteDescriptor)}
    (h : Realises X network descriptor funding spend coins outputs change) :
    (assemble X coins outputs change).WshOnly := by
  refine ⟨by simp [assemble, assembleTx], fun input hinput => ?_⟩
  obtain ⟨coin, hcoin, rfl⟩ := List.mem_map.mp hinput
  exact ⟨⟨coin.utxo, _, rfl, h.scripts coin hcoin⟩, rfl⟩

/-- Without a signature, what the builder made does not finalise. -/
theorem finalize_built (hX : X.FillsWitnesses) {spend : SpendSpec} {descriptor : Descriptor}
    {funding : List FundingUtxo} {unsigned : Psbt} (hpos : 0 < descriptor.threshold)
    (hne : spend.inputs ≠ [])
    (hbuilt : buildUnsignedPsbt X spend descriptor funding network = .ok unsigned) :
    X.finalize unsigned = none := by
  obtain ⟨coins, hinputs, hpaid⟩ := buildUnsignedPsbt_inputs hbuilt
  obtain ⟨outpoint, outpoints, hoff⟩ := List.exists_cons_of_ne_nil hne
  rw [hoff] at hpaid
  obtain ⟨coin, coins', ⟨utxo, -, -, hderived⟩, -, rfl⟩ := List.forall₂_cons_left_iff.mp hpaid
  cases hfinal : X.finalize unsigned with
  | none => rfl
  | some done =>
    have hmem : filledInput X coin ∈ unsigned.inputs := hinputs ▸ List.mem_cons_self
    refine absurd rfl (hX.signed unsigned done hfinal _ hmem coin.derived.threshold
      (coin.derived.scriptKeys X) rfl ?_)
    rwa [(Descriptor.atDerivationIndex_eq_ok hderived).1]

/-! ## Safety -/

/-- What a recorded finalization rests on: the documents `docs` at the addresses of the first
signatures, and the transaction `tx` that the finaliser made of them. -/
structure SafelyFinalized (X : Extern) (blobs blobs' : BlobStore) (s : PsbtSession)
    (unsigned : Psbt) (txid : Txid) (finalTxHash : PsbtHash) (sigsUsed : List KeyFingerprint)
    (n : Nat) (docs : List Psbt) (tx : Transaction) : Prop where
  shortest : Shortest.First (CombinedFinalizes X blobs unsigned) s.signatures n
  loads : List.Forall₂ (Loads X blobs) (s.signatures.take n) docs
  valid : ∀ (i : Nat) (pk : PublicKey) (sig : EcdsaSignature),
    (combineAll unsigned docs).signature? i pk = some sig → ValidSig X unsigned i pk sig
  final : ∃ done, X.finalize (combineAll unsigned docs) = some done ∧ X.extractTx done = some tx
  transaction : tx.withoutWitnesses = unsigned.unsignedTx.withoutWitnesses
  txid_eq : txid = X.computeTxid tx
  txid_unsigned : txid = X.computeTxid unsigned.unsignedTx
  hash_eq : finalTxHash = PsbtHash.digestOf X (X.consensusSerialize tx)
  stored : (finalTxHash, X.consensusSerialize tx) ∈ blobs'.entries
  used : ∀ fp, fp ∈ sigsUsed ↔ fp ∈ (s.signatures.take n).map SignatureRecord.fingerprint
  enough : s.threshold.toNat ≤ sigsUsed.length
  distinct : sigsUsed.Nodup

/-- **Finalization is safe over any stored blobs.** For every session that any interleaving of
calls left, whose unsigned PSBT the builder made for its wallet, and for every blob store: a run
that fails changes no session, and a run that records `Finalized` recorded what is safely
finalised. -/
theorem finalization_safe (hX : X.FillsWitnesses)
    (htxid : ∀ tx tx', tx.withoutWitnesses = tx'.withoutWitnesses →
      X.computeTxid tx = X.computeTxid tx')
    {actions : List Traffic.Action} {id : PsbtSessionId} {s : PsbtSession}
    (hs : (Traffic.empty.run X network actions).platform.sessions.findById id = .ok s)
    {w : Wallet}
    (hw : (Traffic.empty.run X network actions).platform.wallets.findById s.walletId = .ok w)
    {descriptor : Descriptor} (hd : w.descriptor = some descriptor)
    {blobs : BlobStore} {unsignedHash : PsbtHash} {unsigned : Psbt}
    (hunsigned : s.unsignedPsbtHash = some unsignedHash)
    (hload : loadPsbt X blobs unsignedHash = .ok unsigned)
    {funding : List FundingUtxo} {network' : Network}
    (hbuilt : buildUnsignedPsbt X s.spend descriptor funding network' = .ok unsigned) :
    (∀ e, (runFinalization X (Traffic.empty.run X network actions).platform.sessions blobs id).1 =
        .error e →
      (runFinalization X (Traffic.empty.run X network actions).platform.sessions blobs id).2.1 =
        (Traffic.empty.run X network actions).platform.sessions) ∧
    ∀ txid finalTxHash sigsUsed,
      (runFinalization X (Traffic.empty.run X network actions).platform.sessions blobs id
        ).2.1.find? id = some (s.log ++ [.finalized txid finalTxHash sigsUsed]) →
      ∃ n docs tx, SafelyFinalized X blobs
        (runFinalization X (Traffic.empty.run X network actions).platform.sessions blobs id).2.2
        s unsigned txid finalTxHash sigsUsed n docs tx := by
  have hinv := Traffic.inv_run X network actions
  have hrow := hinv.sessions.row hs
  obtain ⟨w', hwrow, hactive, -, -, hspend⟩ := hinv.agrees id s hrow
  obtain rfl := Except.ok.inj (hw.symm.trans hwrow.found)
  have hpos : 0 < descriptor.threshold := by
    obtain ⟨d, hderived, hd', -⟩ := hwrow.inv.descriptor hactive
    obtain rfl := Option.some.inj (hd.symm.trans hd')
    obtain ⟨hrange, -, rfl⟩ := (sortedmultiWshDescriptor_eq_ok_iff X).mp hderived
    exact hrange.1
  refine ⟨fun e he => sessions_of_runFinalization_error he,
    fun txid finalTxHash sigsUsed hlog => ?_⟩
  obtain ⟨uh, unsigned', n, docs, done, tx, huh, hload', hsettled, hblobs, rfl, rfl, rfl, henough,
    hdistinct⟩ := runFinalization_records hrow hlog
  obtain rfl := Option.some.inj (hunsigned.symm.trans huh)
  obtain rfl := Except.ok.inj (hload.symm.trans hload')
  obtain ⟨coins, outputs, change, hrealises, rfl⟩ := buildUnsignedPsbt_eq_ok_iff.mp hbuilt
  have hwsh := assemble_wshOnly hrealises
  have hempty : ∀ input ∈ (assemble X coins outputs change).inputs, input.partialSigs = ∅ := by
    intro input hinput
    obtain ⟨coin, -, rfl⟩ := List.mem_map.mp hinput
    rfl
  have hbare := hX.withoutWitnesses (combineAll_wshOnly hwsh docs) hsettled.final hsettled.extracted
  rw [combineAll_unsignedTx] at hbare
  refine ⟨n, docs, tx, ?_, hsettled.loads, fun i pk sig => validSig_of_combined hempty
    hsettled.verified, ⟨done, hsettled.final, hsettled.extracted⟩, hbare, rfl, htxid _ _ hbare, rfl,
    ?_, fun fp => Sorting.mem_sort, ?_, Sorting.nodup_sort.mpr hdistinct⟩
  · refine ⟨hsettled.le, ⟨docs, hsettled.loads, by rw [hsettled.final]; rfl⟩, ?_⟩
    rintro k hk ⟨docs', hloads, hfinal⟩
    -- a shorter prefix loads the same documents, and these did not finalise
    have htake : docs' = docs.take k := by
      have hbegins := List.forall₂_take k hsettled.loads
      rw [List.take_take, Nat.min_eq_left (Nat.le_of_lt hk)] at hbegins
      exact List.right_unique_forall₂' (fun r doc doc' h h' => Except.ok.inj (h.symm.trans h'))
        hloads hbegins
    rw [htake] at hfinal
    by_cases hzero : k = 0
    · subst hzero
      have hnone : X.finalize (combineAll (assemble X coins outputs change) []) = none :=
        finalize_built hX hpos (NewPsbtSession.inputs_ne_nil hspend) hbuilt
      rw [List.take_zero, hnone] at hfinal
      exact absurd hfinal (by simp)
    · rw [hsettled.before k (by omega) hk] at hfinal
      exact absurd hfinal (by simp)
  · rw [hblobs]
    exact List.mem_cons_self
  · rw [Sorting.length_sort, List.length_map, List.length_take, Nat.min_eq_left hsettled.le]
    exact henough

/-! ## A round of the small instance -/

namespace Extern.Sample

theorem finalizeInput_rest {skip : PsbtInput → PublicKey → Bool} {input done : PsbtInput}
    (h : finalizeInput skip input = some done) : done.rest = input.rest := by
  unfold finalizeInput at h
  split at h
  · split at h
    · obtain rfl := Option.some.inj h
      rfl
    · exact absurd h (by simp)
  · exact absurd h (by simp)

theorem sample_fillsWitnesses (table : List Psbt) : (Extern.sample table).FillsWitnesses where
  finalize psbt done hwsh h := by
    obtain ⟨inputs, hinputs, rfl⟩ := Option.map_eq_some_iff.mp h
    have hmatched := Matched.mapM_eq_some_iff.mp hinputs
    refine ⟨rfl, hmatched.length_eq.symm, fun input hinput => ?_⟩
    obtain ⟨original, horiginal, hdone⟩ := Matched.exists_of_mem_right hmatched hinput
    rw [finalizeInput_rest hdone]
    exact (hwsh.input original horiginal).2
  extract done tx hlen _ h := by
    obtain ⟨witnesses, hwitnesses, rfl⟩ := Option.map_eq_some_iff.mp h
    have hmatched := Matched.mapM_eq_some_iff.mp hwitnesses
    refine congrArg (fun input => { done.unsignedTx with input }) (List.ext_getElem? fun i => ?_)
    rw [List.getElem?_mapIdx, List.getElem?_zipWith]
    cases hi : done.inputs[i]? with
    | none =>
      have hle := List.getElem?_eq_none_iff.mp hi
      rw [List.getElem?_eq_none_iff.mpr (hmatched.length_eq ▸ hle),
        List.getElem?_eq_none_iff.mpr (hlen ▸ hle)]
      rfl
    | some input =>
      obtain ⟨witness, hw, hinput⟩ := Matched.exists_of_getElem?_left hmatched hi
      have hlt : i < done.unsignedTx.input.length := hlen ▸ (List.getElem?_eq_some_iff.mp hi).1
      rw [hw, List.getElem?_eq_getElem hlt]
      simp only [Option.map_some, inputAt, List.getElem?_eq_getElem hlt, hinput, Option.getD_some]
  signed psbt done h input hinput k keys hscript hpos hempty := by
    obtain ⟨inputs, hinputs, -⟩ := Option.map_eq_some_iff.mp h
    obtain ⟨finalised, -, hdone⟩ :=
      Matched.exists_of_mem_left (Matched.mapM_eq_some_iff.mp hinputs) hinput
    obtain ⟨k', keys', hscript', hle, -⟩ := finalizeInput_spends hdone
    obtain ⟨rfl, rfl⟩ := ScriptBuf.multi.inj (Option.some.inj (hscript.symm.trans hscript'))
    obtain ⟨e, he⟩ := List.exists_mem_of_length_pos (Nat.lt_of_lt_of_le hpos hle)
    have hsig := (mem_available he).2
    unfold PsbtInput.signatureFor at hsig
    rw [hempty, Std.ExtTreeMap.getElem?_empty] at hsig
    exact absurd hsig (by simp)

theorem sample_computeTxid (table : List Psbt) (tx tx' : Transaction)
    (h : tx.withoutWitnesses = tx'.withoutWitnesses) :
    (Extern.sample table).computeTxid tx = (Extern.sample table).computeTxid tx' :=
  congrArg (fun t => (⟨t.output.length⟩ : Txid)) h

/-- A one-of-one wallet, its proposal, the PSBT and the signature. -/
def signing : List Traffic.Action :=
  [.register ⟨0⟩ 1 [⟨0⟩], .call (.wallet ⟨0⟩ (.addKeystore (key 1) ⟨0⟩)), .step 0,
    .call (.proposeSpend ⟨0⟩ ⟨0⟩ ⟨0⟩ PsbtSession.soloSpend), .step 1,
    .call (.session ⟨0⟩ (.runPsbtCreation fun _ _ => .ok [coin 1 [10]])), .step 2, .step 2,
    .call (.session ⟨0⟩ (.submitSignedPsbt ⟨0⟩ [1])), .step 3, .step 3]

/-- A two-of-two wallet, its proposal, the PSBT and both signatures. -/
def pairSigning : List Traffic.Action :=
  [.register ⟨0⟩ 2 [⟨0⟩, ⟨1⟩], .call (.wallet ⟨0⟩ (.addKeystore (key 1) ⟨0⟩)), .step 0,
    .call (.wallet ⟨0⟩ (.addKeystore (key 2) ⟨1⟩)), .step 1,
    .call (.proposeSpend ⟨0⟩ ⟨0⟩ ⟨0⟩ PsbtSession.soloSpend), .step 2,
    .call (.session ⟨0⟩ (.runPsbtCreation fun _ _ => .ok [coin 2 [10, 20]])), .step 3, .step 3,
    .call (.session ⟨0⟩ (.submitSignedPsbt ⟨0⟩ [1])), .step 4, .step 4,
    .call (.session ⟨0⟩ (.submitSignedPsbt ⟨1⟩ [2])), .step 5, .step 5]

/-- A store that holds the PSBT and both documents. -/
def pairBlobs : BlobStore := ⟨[(digestOfByte 2, [2]), (digestOfByte 1, [1]), (digestOfByte 0, [0])]⟩

end Extern.Sample

open Extern.Sample in
theorem finalization_safe_pair :
    ∃ n docs tx, SafelyFinalized (.sample (pairUnsigned :: pairDocs)) pairBlobs
      (runFinalization (.sample (pairUnsigned :: pairDocs))
        (Traffic.empty.run (.sample (pairUnsigned :: pairDocs)) .bitcoin pairSigning
          ).platform.sessions pairBlobs ⟨0⟩).2.2
      pairCollected pairUnsigned ⟨1⟩ txDigest [1, 2] n docs tx :=
  (@finalization_safe (.sample (pairUnsigned :: pairDocs)) .bitcoin (sample_fillsWitnesses _)
    (sample_computeTxid _) pairSigning ⟨0⟩ pairCollected (by decide +kernel)
    (activeWallet 2 [key 1, key 2]) (by decide +kernel) ⟨2, [key 1, key 2]⟩ (by decide +kernel)
    pairBlobs (digestOfByte 0) pairUnsigned rfl
    (by decide +kernel) [coin 2 [10, 20]] .bitcoin (by decide +kernel)).2 ⟨1⟩ txDigest [1, 2]
    (by decide +kernel)

end Kota
