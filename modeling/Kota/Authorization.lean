import Kota.Faults
import Kota.Quorum

/-!
# Who authorized a spend

Quorum safety of the platform with its calls under way (`Traffic`), with what the chain reports and
cancellations among them, and whatever happens to the storage (`Faulty`).

* Every recorded signature is attributed: it was written by a submission, and what that submission
  was computed on, the log before it, names the same unsigned PSBT as the log that is there now
  (`Traffic.signature_authorized`).
* **`quorum_despite_faults`**: a session that was ever finalized has `threshold` distinct
  participants who each submitted a document for it, in a call that returned `Ok`, with signatures
  that verify against the PSBT built for the session and are bound to their keystore.

The submissions that a fault lost are not among them: they did not return `Ok`.
-/

namespace Kota

open EventLog

open PsbtSession (Grammatical)
open PsbtSessions (Row)

/-! ## Statements -/

namespace Traffic

/-- Among the calls, `user` submitted for the session a document whose signatures verify against
`original` under keys that `original` binds to `fingerprint`; the call returned `Ok`. -/
structure Authorizes (X : Extern) (c : Traffic) (sessionId : PsbtSessionId) (original : Psbt)
    (user : UserId) (fingerprint : KeyFingerprint) : Prop where
  call : ∃ i bytes signed extracted,
    c.At i sessionId (.submitSignedPsbt user bytes) (.returned (.ok ())) ∧
    parsePsbt X bytes = .ok signed ∧
    validateSignedSubmission X original signed fingerprint = .ok extracted ∧ extracted ≠ [] ∧
    ∀ sig ∈ extracted, ValidSig X original sig.inputIndex sig.pubkey sig.signature ∧
      ∃ input, original.inputs[sig.inputIndex]? = some input ∧
        input.boundTo sig.pubkey.inner fingerprint = true

/-- Enough distinct participants of the wallet authorized the spend, and `sigs_used` lists
keystores of theirs, each once. -/
def QuorumBehind (X : Extern) (c : Traffic) (sessionId : PsbtSessionId) (w : Wallet)
    (original : Psbt) (sigsUsed : List KeyFingerprint) : Prop :=
  ∃ users : List UserId, users.Nodup ∧ w.threshold.toNat ≤ users.length ∧
    (∀ user ∈ users, user ∈ w.participants ∧ ∃ fingerprint,
      w.keystoreFingerprintOf X user = some fingerprint ∧
      Authorizes X c sessionId original user fingerprint) ∧
    sigsUsed.Nodup ∧
    ∀ fingerprint ∈ sigsUsed, ∃ user ∈ users, w.keystoreFingerprintOf X user = some fingerprint

/-- The document that signers of the session are given: the PSBT built for its spend from the
descriptor of its wallet, which is active, as it reads under the recorded address. -/
structure Drafted (X : Extern) (network : Network) (c : Traffic) (s : PsbtSession) (w : Wallet)
    (original : Psbt) : Prop where
  wallet : c.platform.wallets.findById s.walletId = .ok w
  active : w.status = .active
  threshold : s.threshold = w.threshold
  document : ∃ descriptor utxos psbt, w.descriptor = some descriptor ∧
    buildUnsignedPsbt X s.spend descriptor utxos network = .ok psbt ∧
    s.unsignedPsbtHash = some (PsbtHash.digestOf X (X.serialize psbt)) ∧
    parsePsbt X (X.serialize psbt) = .ok original

end Traffic

/-! ## One signature -/

section Signature

variable {X : Extern} {network : Network} {wallets : Wallets} {blobs : BlobStore}
variable {id : PsbtSessionId} {call : SessionCall} {log : List PsbtSessionEvent}
variable {s s' : PsbtSession} {fingerprint : KeyFingerprint} {hash : PsbtHash}

/-- Only `add_signature` writes a signature. -/
theorem PsbtSession.command_of_signature {c : PsbtSessionCommand} (hs : s.events = .load id log)
    (hsigned : (s.apply c).2.events.fresh = [.signatureAdded fingerprint hash]) :
    c = .addSignature fingerprint hash := by
  rcases PsbtSession.apply_spec s c with ⟨e, hstep, he⟩ | ⟨-, he⟩
  · rw [he, PsbtSession.record_events, hs] at hsigned
    obtain rfl : e = .signatureAdded fingerprint hash := (List.cons.inj hsigned).1
    cases hstep
    rfl
  · rw [he, hs] at hsigned
    exact absurd hsigned (by simp [EntityEvents.load])

/-- Only a submission writes a signature. -/
theorem SessionCall.submission_of_signature (hs : s.events = .load id log)
    (hwork : (call.work X network wallets blobs s).1 = .ok (some s'))
    (hsigned : s'.events.fresh = [.signatureAdded fingerprint hash]) :
    ∃ user bytes, call = .submitSignedPsbt user bytes := by
  have hcommand : ∀ c, (s.apply c).2 = s' → c = .addSignature fingerprint hash := fun c hc =>
    PsbtSession.command_of_signature hs (hc ▸ hsigned)
  have hwritten : ∀ c, s.commandWork c = .ok (some s') → c = .addSignature fingerprint hash := by
    intro c hc
    obtain ⟨e, hx⟩ := PsbtSession.commandWork_eq_some hc
    exact hcommand c hx.applied
  cases call with
  | submitSignedPsbt user bytes => exact ⟨user, bytes, rfl⟩
  | runPsbtCreation funding =>
    obtain ⟨hash', hpersist⟩ := eq_persist_of_toWrite hwork
    obtain ⟨-, applied, hr⟩ := Platform.recordPsbtCreated_of_persist hpersist
    exact absurd (hcommand (.recordPsbtCreated hash') (congrArg Prod.snd hr)) (by simp)
  | runFinalization =>
    obtain ⟨txid, hpersist⟩ := eq_persist_of_toWrite hwork
    obtain ⟨-, -, hfinalized⟩ := @Platform.finalizeSession_spec X blobs s
    obtain ⟨hash', sigs, applied, hr⟩ := hfinalized txid s' hpersist
    exact absurd (hcommand (.finalize txid hash' sigs) (congrArg Prod.snd hr)) (by simp)
  | applyChainObservation observation =>
    have hc := hwritten _ (eq_ok_of_mapError hwork)
    cases observation <;> exact absurd hc (by simp [ChainObservation.command])
  | cancel cancelledBy reason => exact absurd (hwritten _ (eq_ok_of_mapError hwork)) (by simp)

/-- **A call that comes to a signature is a submission that was checked**, against the unsigned
PSBT that the log before it names and the wallet of the session. -/
theorem SessionCall.Effect.signature
    (h : call.Effect X network wallets blobs id log [.signatureAdded fingerprint hash]) :
    ∃ user bytes s w unsignedHash unsignedBytes original signed,
      call = .submitSignedPsbt user bytes ∧ PsbtSession.tryFromEvents (.load id log) = .ok s ∧
      wallets.findById s.walletId = .ok w ∧ w.keystoreFingerprintOf X user = some fingerprint ∧
      s.unsignedPsbtHash = some unsignedHash ∧
      blobs.fetchVerified X unsignedHash = .ok unsignedBytes ∧
      parsePsbt X unsignedBytes = .ok original ∧ parsePsbt X bytes = .ok signed ∧
      Acceptable X original signed fingerprint := by
  obtain ⟨s, left, hs, hwork, hleft, -⟩ := h
  obtain ⟨hevents, -⟩ := PsbtSession.tryFromEvents_eq_ok_iff.mp hs
  cases left with
  | none => exact absurd hleft (by simp [PsbtSession.leftEvents])
  | some s' =>
    obtain ⟨user, bytes, rfl⟩ := SessionCall.submission_of_signature hevents hwork hleft.symm
    obtain ⟨fp, merged, applied, s'', hcheck, hr, hdid, -⟩ :=
      SessionCall.work_submitSignedPsbt hwork
    obtain ⟨w, unsignedHash, unsignedBytes, original, hw, hfp, hunsigned, hfetch, hparse, hsigned,
      haccept⟩ := Platform.checkSubmission_eq_ok hcheck
    -- the signature is of the keystore that was checked
    have hsame : s' = s'' := by
      cases applied with
      | executed u => simpa [Idempotent.didExecute] using hdid
      | alreadyApplied => exact absurd hdid (by simp [Idempotent.didExecute])
    have hadd := PsbtSession.command_of_signature (c := .addSignature fp _) hevents
      ((congrArg (fun r => r.2.events.fresh) hr).trans (hsame ▸ hleft.symm))
    obtain ⟨rfl, -⟩ := PsbtSessionCommand.addSignature.inj hadd
    exact ⟨user, bytes, s, w, unsignedHash, unsignedBytes, original, merged, rfl, hs, hw, hfp,
      hunsigned, hfetch, hparse, hsigned, haccept⟩

end Signature

/-! ## Runs without faults -/

namespace Traffic

section Runs

variable {X : Extern} {network : Network} {c c' : Traffic} {id : PsbtSessionId} {s : PsbtSession}
variable {fingerprint : KeyFingerprint} {hash : PsbtHash}

/-- The unsigned PSBT on record is the one that was built, and it is in store. -/
theorem Backed.unsigned (hback : Backed X network c) (hrow : Row c.platform.sessions id s)
    (hc : c.platform.blobs.NoCollision X) (hhash : s.unsignedPsbtHash = some hash) :
    ∃ w descriptor utxos psbt, Builds X network c s w descriptor utxos psbt ∧
      hash = PsbtHash.digestOf X (X.serialize psbt) ∧
      c.platform.blobs.fetchVerified X hash = .ok (X.serialize psbt) := by
  obtain ⟨w, descriptor, utxos, psbt, hbuilds, hstored⟩ :=
    hback.rows id s hrow _ (hrow.grammatical.loaded.hydrates.psbtCreated_mem hhash)
  exact ⟨w, descriptor, utxos, psbt, hbuilds, (hback.addressed _ hstored).symm,
    BlobStore.fetchVerified_of_mem hback.addressed hc hstored⟩

variable (X network) in
/-- **Every recorded signature is attributed**: a submission that returned `Ok` wrote it, for the
participant of its keystore, over the unsigned PSBT that is on record. -/
theorem signature_authorized (actions : List Action)
    (hc : (empty.run X network actions).platform.blobs.NoCollision X)
    (hrow : Row (empty.run X network actions).platform.sessions id s)
    (hsigned : .signatureAdded fingerprint hash ∈ s.log) :
    ∃ w unsignedHash original user, Drafted X network (empty.run X network actions) s w original ∧
      s.unsignedPsbtHash = some unsignedHash ∧
      loadPsbt X (empty.run X network actions).platform.blobs unsignedHash = .ok original ∧
      w.keystoreFingerprintOf X user = some fingerprint ∧
      Authorizes X (empty.run X network actions) id original user fingerprint := by
  have hback := backed_run X network actions
  have hinv := inv_run X network actions
  have hlinear := linear_run X network id hc actions [] (by rw [List.append_nil])
  generalize empty.run X network actions = c at *
  obtain ⟨e, order, ⟨hdocument, -⟩, hl⟩ := hlinear.present s.log hrow.log_eq
  obtain ⟨rest, hrest⟩ := hl.serial.isPrefix
  -- the log before the signature, and the call that added it
  have hlater : PsbtSessionEvent.signatureAdded fingerprint hash ∈ rest := by
    rw [← hrest] at hsigned
    refine (List.mem_cons.mp hsigned).resolve_left fun heq => ?_
    rw [← heq] at hdocument
    exact absurd hdocument (by simp [PsbtSessionEvent.document])
  obtain ⟨pre, post, rfl⟩ := List.append_of_mem hlater
  obtain ⟨call, hcall, heffect⟩ := hl.serial.computed SessionCall.Effect.length_le_one
    (show s.log = (e :: pre) ++ .signatureAdded fingerprint hash :: post from hrest.symm) (by simp)
  obtain ⟨⟨i, call⟩, hi, rfl⟩ := List.mem_map.mp hcall
  obtain ⟨user, bytes, s₀, w, unsignedHash, unsignedBytes, original, signed, hsubmission, hs₀, hw,
    hfp, hunsigned, hfetch, hparse, hsignedBytes, haccept⟩ := heffect.signature
  dsimp only at hsubmission
  subst hsubmission
  -- what it was computed on has the wallet and the PSBT of the session
  obtain ⟨hevents, hloaded⟩ := PsbtSession.tryFromEvents_eq_ok_iff.mp hs₀
  have hlog₀ : s₀.log = e :: pre := by
    unfold PsbtSession.log
    rw [hevents, EntityEvents.iterAll_load]
  have hgrown : s.log = s₀.log ++ .signatureAdded fingerprint hash :: post := by
    rw [hlog₀, ← hrest]
    rfl
  have hwallet := PsbtSession.walletId_of_append hloaded.hydrates hrow.grammatical hgrown
    (by simp [hlog₀])
  have hcreated : .psbtCreated unsignedHash ∈ s.log := by
    rw [hgrown]
    exact List.mem_append_left _ (hloaded.hydrates.psbtCreated_mem hunsigned)
  have hrecorded := hrow.grammatical.unsignedPsbtHash_eq hcreated
  obtain ⟨w', descriptor, utxos, psbt, hbuilds, hdigest, hfetch'⟩ :=
    hback.unsigned hrow hc hrecorded
  obtain rfl := Except.ok.inj (hfetch.symm.trans hfetch')
  rw [← hwallet] at hw
  obtain rfl := Except.ok.inj (hw.symm.trans hbuilds.row.found)
  obtain ⟨w', hwrow, -, hthreshold, -⟩ := hinv.agrees id s hrow
  obtain rfl := Except.ok.inj (hw.symm.trans hwrow.found)
  have hload : loadPsbt X c.platform.blobs unsignedHash = .ok original := by
    unfold loadPsbt
    rw [hfetch]
    dsimp only
    rw [hparse]
  refine ⟨w, unsignedHash, original, user, ⟨hw, hbuilds.active, hthreshold, descriptor, utxos, psbt,
    hbuilds.descriptor_eq, hbuilds.built, hdigest ▸ hrecorded, hparse⟩, hrecorded, hload, hfp, ⟨i,
    bytes, signed, _,
    (hl.exact _).mp hi, hsignedBytes, validateSignedSubmission_eq_ok_iff.mpr ⟨haccept, rfl⟩,
    haccept.newSignatures_ne_nil, fun sig hsig => haccept.extracted hsig⟩⟩

variable (X network) in
/-- **A finalized session has its quorum**, when nothing happened to the storage. -/
theorem quorum_of_finalized (actions : List Action)
    (hc : (empty.run X network actions).platform.blobs.NoCollision X)
    (hrow : Row (empty.run X network actions).platform.sessions id s) {txid : Txid}
    {sigsUsed : List KeyFingerprint} (hfinal : .finalized txid hash sigsUsed ∈ s.log) :
    ∃ w original, Drafted X network (empty.run X network actions) s w original ∧
      QuorumBehind X (empty.run X network actions) id w original sigsUsed := by
  have hgram := hrow.grammatical
  obtain ⟨henough, hdistinct, hcollected⟩ :=
    hgram.loaded.wellFormed.finalization _ (hgram.finalization_eq hfinal)
  have hauthorized : ∀ fp ∈ sigsUsed, ∃ w unsignedHash original user,
      Drafted X network (empty.run X network actions) s w original ∧
      s.unsignedPsbtHash = some unsignedHash ∧
      loadPsbt X (empty.run X network actions).platform.blobs unsignedHash = .ok original ∧
      w.keystoreFingerprintOf X user = some fp ∧
      Authorizes X (empty.run X network actions) id original user fp := by
    intro fp hfp
    obtain ⟨e, he, hsig⟩ := hgram.loaded.hydrates.mem_signers.mp (hcollected fp hfp)
    cases e with
    | signatureAdded fp' h =>
      obtain rfl : fp' = fp := by simpa [PsbtSessionEvent.isSignatureOf] using hsig
      exact signature_authorized X network actions hc hrow he
    | _ => exact absurd hsig (by simp [PsbtSessionEvent.isSignatureOf])
  -- all of them against the same wallet and the same PSBT
  obtain ⟨fp, rest, hcons⟩ := List.exists_cons_of_ne_nil (l := sigsUsed)
    (List.ne_nil_of_length_pos (Nat.lt_of_lt_of_le hgram.loaded.wellFormed.threshold_pos henough))
  obtain ⟨w, unsignedHash, original, -, hdraft, hhash, hload, -, -⟩ :=
    hauthorized fp (hcons ▸ List.mem_cons_self)
  have hone : ∀ fp ∈ sigsUsed, ∃ user, w.keystoreFingerprintOf X user = some fp ∧
      Authorizes X (empty.run X network actions) id original user fp := by
    intro fp hfp
    obtain ⟨w', unsignedHash', original', user, hdraft', hhash', hload', huser, hauth⟩ :=
      hauthorized fp hfp
    obtain rfl := Except.ok.inj (hdraft.wallet.symm.trans hdraft'.wallet)
    obtain rfl := Option.some.inj (hhash.symm.trans hhash')
    obtain rfl := Except.ok.inj (hload.symm.trans hload')
    exact ⟨user, huser, hauth⟩
  obtain ⟨users, hnodup, hlen, hback, hforth⟩ := Distinct.exists_preimages
    (r := fun user fp => w.keystoreFingerprintOf X user = some fp ∧
      Authorizes X (empty.run X network actions) id original user fp)
    (fun _ _ _ h h' => Option.some.inj (h.1.symm.trans h'.1)) hdistinct hone
  have hwrow := (inv_run X network actions).wallets.row hdraft.wallet
  refine ⟨w, original, hdraft, users, hnodup, ?_, fun user huser => ?_, hdistinct,
    fun fp hfp => ?_⟩
  · rw [hlen, ← hdraft.threshold]
    exact henough
  · obtain ⟨fp, -, hfp, hauth⟩ := hback user huser
    exact ⟨hwrow.inv.participant hfp, fp, hfp, hauth⟩
  · obtain ⟨user, huser, hfp, -⟩ := hforth fp hfp
    exact ⟨user, huser, hfp⟩

end Runs

end Traffic

/-! ## Runs with faults -/

section Faults

variable {X : Extern} {network : Network} {f : Faulty} {c : Traffic}

theorem Faulty.Mirrors.noCollision (h : f.Mirrors c) (hc : f.NoCollision X) :
    c.platform.blobs.NoCollision X := fun _ ha _ hb heq =>
  hc _ (h.put _ (List.mem_map.mpr ⟨_, ha, rfl⟩)) _ (h.put _ (List.mem_map.mpr ⟨_, hb, rfl⟩)) heq

/-- A call that returned in the run without faults was not lost. -/
theorem Faulty.Mirrors.returned (h : f.Mirrors c) {i : Nat} {id : PsbtSessionId}
    {call : SessionCall} {answer : Except Failure Unit} (hi : c.At i id call (.returned answer)) :
    f.traffic.At i id call (.returned answer) := by
  obtain ⟨t', ht', rfl | hlost⟩ := Matched.exists_of_getElem?_right h.tasks hi
  · exact ht'
  · obtain ⟨s, hs⟩ := hlost.loaded
    exact absurd hs (by simp)

theorem Faulty.Mirrors.authorizes (h : f.Mirrors c) {id : PsbtSessionId} {original : Psbt}
    {user : UserId} {fingerprint : KeyFingerprint}
    (ha : Traffic.Authorizes X c id original user fingerprint) :
    Traffic.Authorizes X f.traffic id original user fingerprint := by
  obtain ⟨i, bytes, signed, extracted, hi, hrest⟩ := ha.call
  exact ⟨i, bytes, signed, extracted, h.returned hi, hrest⟩

theorem Faulty.Mirrors.drafted (h : f.Mirrors c) {s : PsbtSession} {w : Wallet} {original : Psbt}
    (hd : Traffic.Drafted X network c s w original) :
    Traffic.Drafted X network f.traffic s w original :=
  { hd with wallet := h.wallets ▸ hd.wallet }

end Faults

/-- **Nothing is finalized without its quorum.** In any interleaving of calls, chain observations
and cancellations among them, in which between any two steps blobs are deleted and the blob store is
replaced by any other one: a session whose log contains `Finalized` has at least `threshold`
distinct users, all participants of its wallet, each of whom made a submission for it that returned
`Ok`, and whose signatures verify against the PSBT built for the session's spend from that wallet
and are bound to the keystore of that user; and `sigs_used` lists keystores of these users. -/
theorem quorum_despite_faults (X : Extern) (network : Network) (incidents : List Incident)
    (hc : (Faulty.empty.run X network incidents).NoCollision X) {id : PsbtSessionId}
    {log : List PsbtSessionEvent} {txid : Txid} {hash : PsbtHash} {sigsUsed : List KeyFingerprint}
    (hlog : (Faulty.empty.run X network incidents).traffic.platform.sessions.find? id = some log)
    (hfinal : .finalized txid hash sigsUsed ∈ log) :
    ∃ s w original,
      (Faulty.empty.run X network incidents).traffic.platform.sessions.findById id = .ok s ∧
      Traffic.Drafted X network (Faulty.empty.run X network incidents).traffic s w original ∧
      Traffic.QuorumBehind X (Faulty.empty.run X network incidents).traffic id w original
        sigsUsed := by
  obtain ⟨actions, -, hm⟩ := Faulty.mirrors_run incidents hc
  rw [hm.sessions] at hlog
  obtain ⟨s, hrow⟩ := (Traffic.inv_run X network actions).sessions id log hlog
  obtain rfl := Option.some.inj (hlog.symm.trans hrow.log_eq)
  obtain ⟨w, original, hdraft, users, hnodup, henough, husers, hdistinct, hlisted⟩ :=
    Traffic.quorum_of_finalized X network actions (hm.noCollision hc) hrow hfinal
  refine ⟨s, w, original, hm.sessions ▸ hrow.found, hm.drafted hdraft, users, hnodup, henough,
    fun user huser => ?_, hdistinct, hlisted⟩
  obtain ⟨hparticipant, fp, hfp, hauth⟩ := husers user huser
  exact ⟨hparticipant, fp, hfp, hm.authorizes hauth⟩

open Extern.Sample in
theorem quorum_despite_faults_damaged :
    ∃ w original, Traffic.QuorumBehind (.sample (pairUnsigned :: pairDocs))
      (Faulty.empty.run (.sample (pairUnsigned :: pairDocs)) .bitcoin damaged).traffic ⟨0⟩ w
      original [1, 2] := by
  obtain ⟨-, w, original, -, -, h⟩ :=
    @quorum_despite_faults (.sample (pairUnsigned :: pairDocs)) .bitcoin damaged
      (by decide +kernel) ⟨0⟩ (pairCollected.log ++ [.finalized ⟨1⟩ txDigest [1, 2]]) ⟨1⟩
      txDigest [1, 2] (by decide +kernel) (by decide +kernel)
  exact ⟨w, original, h⟩

end Kota
