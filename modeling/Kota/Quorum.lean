import Kota.Lib.Distinct
import Kota.Documents

/-!
# Quorum safety

A session is finalized on at least `threshold` signatures of distinct keystores, and each of them
was made and submitted by a participant of its own (**`quorum_safety`**), whatever commands and
jobs ran, in whatever order, from empty stores.

The finalization lists distinct collected fingerprints (`WellFormed`), each collected one comes
from an accepted call (`Platform.SessionInv.signed`), and a participant answers for one
fingerprint only; so the fingerprints have distinct participants (`Distinct.exists_preimages`).
That the calls were checked against one and the same unsigned PSBT needs that the blobs stored
have distinct digests.
-/

namespace Kota

open EventLog

variable {X : Extern} {network : Network}

/-- A participant is whoever a keystore is attributed to. -/
theorem Wallet.Inv.participant {w : Wallet} (h : Wallet.Inv X w) {user : UserId}
    {fingerprint : KeyFingerprint} (hfp : w.keystoreFingerprintOf X user = some fingerprint) :
    user ∈ w.participants := by
  obtain ⟨⟨user', keystore⟩, hsub, -⟩ := Option.map_eq_some_iff.mp hfp
  obtain ⟨-, hm⟩ := Distinct.mem_of_find? hsub
  exact h.members user (List.mem_map.mpr ⟨_, hm, rfl⟩)

/-- Among `commands`, `user` made a `submit_signed_psbt` call on the session that returned `Ok`,
and what it extracted are signatures of `SIGHASH_ALL` that verify against the sighash of
`original` and are under keys that `original` binds to `fingerprint`. -/
structure Authorizes (X : Extern) (network : Network) (commands : List Command)
    (sessionId : PsbtSessionId) (original : Psbt) (user : UserId) (fingerprint : KeyFingerprint) :
    Prop where
  call : ∃ pre bytes post signed extracted,
    commands = pre ++ .submitSignedPsbt sessionId user bytes :: post ∧
    ((Platform.empty.run X network pre).exec X network
      (.submitSignedPsbt sessionId user bytes)).1 = true ∧
    parsePsbt X bytes = .ok signed ∧
    validateSignedSubmission X original signed fingerprint = .ok extracted ∧ extracted ≠ [] ∧
    ∀ sig ∈ extracted, ValidSig X original sig.inputIndex sig.pubkey sig.signature ∧
      ∃ input, original.inputs[sig.inputIndex]? = some input ∧
        input.boundTo sig.pubkey.inner fingerprint = true

theorem Platform.SubmittedBy.authorizes {cs : List Command} {p : Platform} {s : PsbtSession}
    {fingerprint : KeyFingerprint} {hash : PsbtHash} {user : UserId} {original signed : Psbt}
    (h : SubmittedBy X network cs p s fingerprint hash user original signed) :
    Authorizes X network cs s.id original user fingerprint := by
  obtain ⟨pre, bytes, post, hcs, hok, hparse⟩ := h.call
  exact ⟨pre, bytes, post, signed, _, hcs, hok, hparse,
    validateSignedSubmission_eq_ok_iff.mpr ⟨h.acceptable, rfl⟩, h.acceptable.newSignatures_ne_nil,
    fun sig hsig => h.acceptable.extracted hsig⟩

/-- Enough distinct participants of the wallet authorized the spend, and `sigs_used` lists
keystores of theirs, each once. -/
def QuorumBehind (X : Extern) (network : Network) (commands : List Command)
    (sessionId : PsbtSessionId) (w : Wallet) (original : Psbt) (sigsUsed : List KeyFingerprint) :
    Prop :=
  ∃ users : List UserId, users.Nodup ∧ w.threshold.toNat ≤ users.length ∧
    (∀ user ∈ users, user ∈ w.participants ∧ ∃ fingerprint,
      w.keystoreFingerprintOf X user = some fingerprint ∧
      Authorizes X network commands sessionId original user fingerprint) ∧
    sigsUsed.Nodup ∧
    ∀ fingerprint ∈ sigsUsed, ∃ user ∈ users,
      w.keystoreFingerprintOf X user = some fingerprint

/-- **Quorum safety.** After any commands and jobs from empty stores, a session whose log contains
`Finalized` has at least `threshold` distinct users, all participants of its wallet, each of whom
submitted a signed PSBT for it that was accepted and whose signatures verify against its one
unsigned PSBT and are bound to the keystore of that user; and `sigs_used` lists keystores of
these users, each once. -/
theorem quorum_safety {cs : List Command}
    (hc : (Platform.empty.run X network cs).blobs.NoCollision X) {sessionId : PsbtSessionId}
    {log : List PsbtSessionEvent} {txid : Txid} {hash : PsbtHash}
    {sigsUsed : List KeyFingerprint}
    (hlog : (Platform.empty.run X network cs).sessions.find? sessionId = some log)
    (hfinal : .finalized txid hash sigsUsed ∈ log) :
    ∃ s w unsignedHash original,
      (Platform.empty.run X network cs).sessions.findById sessionId = .ok s ∧
      (Platform.empty.run X network cs).wallets.findById s.walletId = .ok w ∧
      s.threshold = w.threshold ∧ s.unsignedPsbtHash = some unsignedHash ∧
      loadPsbt X (Platform.empty.run X network cs).blobs unsignedHash = .ok original ∧
      QuorumBehind X network cs sessionId w original sigsUsed := by
  have hinv := Platform.inv_run X network cs
  generalize Platform.empty.run X network cs = p at *
  obtain ⟨s, hrow⟩ := hinv.sessions sessionId log hlog
  have hsession := hinv.linked sessionId s hrow
  obtain rfl := Option.some.inj (hlog.symm.trans hrow.log_eq)
  obtain ⟨w, hw, hactive, hthreshold, -⟩ := hsession.wallet
  have hgram := hrow.grammatical
  obtain ⟨henough, hdistinct, hcollected⟩ :=
    hgram.loaded.wellFormed.finalization _ (hgram.finalization_eq hfinal)
  -- every collected fingerprint belongs to a user who submitted for it
  have hsubmitted : ∀ fp ∈ sigsUsed, ∃ user original signed hash,
      Platform.SubmittedBy X network cs p s fp hash user original signed := by
    intro fp hfp
    obtain ⟨e, he, hsig⟩ := hgram.loaded.hydrates.mem_signers.mp (hcollected fp hfp)
    cases e with
    | signatureAdded fp' h =>
      obtain rfl : fp' = fp := by simpa [PsbtSessionEvent.isSignatureOf] using hsig
      obtain ⟨user, original, signed, hsub⟩ := hsession.signed fp' h he
      exact ⟨user, original, signed, h, hsub⟩
    | _ => exact absurd hsig (by simp [PsbtSessionEvent.isSignatureOf])
  -- all of them against the same unsigned PSBT
  have hload : ∃ unsignedHash original, s.unsignedPsbtHash = some unsignedHash ∧
      loadPsbt X p.blobs unsignedHash = .ok original := by
    have hpos := hgram.loaded.wellFormed.threshold_pos
    obtain ⟨fp, rest, hcons⟩ := List.exists_cons_of_ne_nil (l := sigsUsed)
      (List.ne_nil_of_length_pos (Nat.lt_of_lt_of_le hpos henough))
    obtain ⟨user, original, signed, h, hsub⟩ := hsubmitted fp (hcons ▸ List.mem_cons_self)
    obtain ⟨uh, huh, hl⟩ := hsub.load hgram hinv.addressed hc
    exact ⟨uh, original, huh, hl⟩
  obtain ⟨unsignedHash, original, hunsigned, hload⟩ := hload
  have hauthorized : ∀ fp ∈ sigsUsed, ∃ user, w.keystoreFingerprintOf X user = some fp ∧
      Authorizes X network cs sessionId original user fp := by
    intro fp hfp
    obtain ⟨user, original', signed, h, hsub⟩ := hsubmitted fp hfp
    obtain ⟨uh, huh, hl⟩ := hsub.load hgram hinv.addressed hc
    obtain rfl := Option.some.inj (hunsigned.symm.trans huh)
    obtain rfl := Except.ok.inj (hload.symm.trans hl)
    obtain ⟨w', hw', -, hbound⟩ := hsub.bound
    obtain rfl := Except.ok.inj (hw.found.symm.trans hw'.found)
    exact ⟨user, hbound, hrow.id_eq ▸ hsub.authorizes⟩
  obtain ⟨users, hnodup, hlen, hback, hforth⟩ := Distinct.exists_preimages
    (r := fun user fp => w.keystoreFingerprintOf X user = some fp ∧
      Authorizes X network cs sessionId original user fp)
    (fun _ _ _ h h' => Option.some.inj (h.1.symm.trans h'.1)) hdistinct hauthorized
  refine ⟨s, w, unsignedHash, original, hrow.found, hw.found, hthreshold, hunsigned, hload, users,
    hnodup, ?_, fun user huser => ?_, hdistinct, fun fp hfp => ?_⟩
  · rw [hlen, ← hthreshold]
    exact henough
  · obtain ⟨fp, -, hfp, hauth⟩ := hback user huser
    exact ⟨hw.inv.participant hfp, fp, hfp, hauth⟩
  · obtain ⟨user, huser, hfp, -⟩ := hforth fp hfp
    exact ⟨user, huser, hfp⟩

open Extern.Sample in
theorem quorum_safety_pair :
    ∃ w original, QuorumBehind (.sample (pairUnsigned :: pairDocs)) .bitcoin
      (pairRound ++ [.runFinalization ⟨0⟩]) ⟨0⟩ w original [1, 2] := by
  obtain ⟨-, w, -, original, -, -, -, -, -, h⟩ :=
    @quorum_safety (.sample (pairUnsigned :: pairDocs)) .bitcoin
      (pairRound ++ [.runFinalization ⟨0⟩]) (by decide +kernel) ⟨0⟩
      (pairCollected.log ++ [.finalized ⟨1⟩ txDigest [1, 2]]) ⟨1⟩ txDigest [1, 2]
      (by decide +kernel) (by decide +kernel)
  exact ⟨w, original, h⟩

end Kota
