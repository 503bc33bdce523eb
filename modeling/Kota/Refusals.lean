import Kota.Psbt.Rejection
import Kota.Queries

/-!
# What a signer is told

`submit_signed_psbt` with an error of the validator, from the signer's side: there is the document
that was downloaded (`unsigned_psbt`), and the document that is handed in, now or much later.

* `Refusal` says why a document is refused, of these two documents alone.
* **`refusals_exact`**: it is refused for exactly that reason, whatever calls came between, and
  nothing is stored.

So what one signer is told does not depend on what the others did, and a document that was refused
once is refused for good. A wallet that is not found, a signer that is not bound, and a write that
fails are other errors.
-/

namespace Kota

open EventLog

open PsbtSessions (Row)

/-- Why a document is refused, for a signer with this fingerprint. -/
inductive Refusal (X : Extern) (original : Psbt) (fingerprint : KeyFingerprint) (bytes : Bytes) :
    PsbtValidationError → Prop
  | tooLarge (large : MAX_PSBT_BYTES < bytes.length) :
      Refusal X original fingerprint bytes (.tooLarge bytes.length MAX_PSBT_BYTES)
  | deserialize {reason : String} (small : bytes.length ≤ MAX_PSBT_BYTES)
      (garbled : X.deserialize bytes = .error reason) :
      Refusal X original fingerprint bytes (.deserialize reason)
  | offence {signed : Psbt} {e : PsbtValidationError} (small : bytes.length ≤ MAX_PSBT_BYTES)
      (read : X.deserialize bytes = .ok signed)
      (offence : Offence X original signed fingerprint e) : Refusal X original fingerprint bytes e

section Check

variable {X : Extern} {wallets : Wallets} {sessions : PsbtSessions} {blobs : BlobStore}
variable {s : PsbtSession} {w : Wallet} {user : UserId} {bytes : Bytes} {e : PsbtValidationError}
variable {fingerprint : KeyFingerprint} {original : Psbt}

/-- The check of a document against the original. -/
theorem refusal_iff :
    Refusal X original fingerprint bytes e ↔
      parsePsbt X bytes = .error e ∨ ∃ signed, parsePsbt X bytes = .ok signed ∧
        validateSignedSubmission X original signed fingerprint = .error e := by
  unfold parsePsbt
  simp only [validateSignedSubmission_eq_error_iff]
  constructor
  · intro h
    cases h with
    | tooLarge large =>
      rw [if_pos large]
      exact Or.inl rfl
    | deserialize small garbled =>
      rw [if_neg (Nat.not_lt.mpr small), garbled]
      exact Or.inl rfl
    | offence small read offence =>
      rw [if_neg (Nat.not_lt.mpr small), read]
      exact Or.inr ⟨_, rfl, offence⟩
  · split
    · rename_i large
      rintro (h | ⟨signed, h, -⟩)
      · obtain rfl := Except.error.inj h
        exact .tooLarge large
      · exact absurd h (by simp)
    · rename_i hsmall
      have small := Nat.not_lt.mp hsmall
      split
      · rename_i reason garbled
        rintro (h | ⟨signed, h, -⟩)
        · obtain rfl := Except.error.inj h
          exact .deserialize small garbled
        · exact absurd h (by simp)
      · rename_i psbt read
        rintro (h | ⟨signed, h, offence⟩)
        · exact absurd h (by simp)
        · obtain rfl := Except.ok.inj h
          exact .offence small read offence

/-- What `submit_signed_psbt` checks a document of this signer against. -/
structure Checks (X : Extern) (wallets : Wallets) (blobs : BlobStore) (s : PsbtSession)
    (user : UserId) (fingerprint : KeyFingerprint) (original : Psbt) : Prop where
  signer : ∃ w, wallets.findById s.walletId = .ok w ∧
    w.keystoreFingerprintOf X user = some fingerprint
  document : ∃ hash stored, s.unsignedPsbtHash = some hash ∧
    blobs.fetchVerified X hash = .ok stored ∧ parsePsbt X stored = .ok original

theorem Checks.refused (h : Checks X wallets blobs s user fingerprint original) :
    Coordination.checkSubmission X wallets blobs s user bytes = .error (.psbtValidation e) ↔
      Refusal X original fingerprint bytes e := by
  obtain ⟨w, hw, hfp⟩ := h.signer
  obtain ⟨hash, stored, hhash, hfetch, hparse⟩ := h.document
  rw [refusal_iff]
  unfold Coordination.checkSubmission
  rw [hw]
  dsimp only
  rw [hfp]
  dsimp only
  rw [hhash]
  dsimp only
  rw [hfetch]
  dsimp only
  rw [hparse]
  dsimp only
  cases parsePsbt X bytes with
  | error e' => simp
  | ok signed =>
    dsimp only
    cases hvalidate : validateSignedSubmission X original signed fingerprint <;> simp [hvalidate]

/-- The use case fails with an error of the validator when the check does, and changes nothing. -/
theorem submitSignedPsbt_refused {id : PsbtSessionId} (hs : sessions.findById id = .ok s) :
    ((Coordination.submitSignedPsbt X wallets sessions blobs id user bytes).1 =
        .error (.psbtValidation e) ↔
      Coordination.checkSubmission X wallets blobs s user bytes = .error (.psbtValidation e)) ∧
    (Coordination.checkSubmission X wallets blobs s user bytes = .error (.psbtValidation e) →
      Coordination.submitSignedPsbt X wallets sessions blobs id user bytes =
        (.error (.psbtValidation e), sessions, blobs)) := by
  have hfails : Coordination.checkSubmission X wallets blobs s user bytes =
      .error (.psbtValidation e) →
      Coordination.submitSignedPsbt X wallets sessions blobs id user bytes =
        (.error (.psbtValidation e), sessions, blobs) := by
    intro h
    unfold Coordination.submitSignedPsbt Coordination.submitWork
    rw [hs]
    dsimp only
    rw [h]
  refine ⟨⟨fun h => ?_, fun h => congrArg Prod.fst (hfails h)⟩, hfails⟩
  unfold Coordination.submitSignedPsbt Coordination.submitWork at h
  rw [hs] at h
  dsimp only at h
  cases hcheck : Coordination.checkSubmission X wallets blobs s user bytes with
  | error e' =>
    rw [hcheck] at h
    exact congrArg Except.error (Except.error.inj h)
  | ok r =>
    -- past the check, the session or the table may fail
    obtain ⟨fp, merged⟩ := r
    rw [hcheck] at h
    dsimp only at h
    cases hadd : s.addSignature fp (blobs.put X (X.serialize merged)).1 with
    | mk answer s' =>
      rw [hadd] at h
      cases answer with
      | error e' => exact absurd (Except.error.inj h) (by simp)
      | ok applied =>
        dsimp only at h
        split at h
        · split at h
          · exact absurd (Except.error.inj h) (by simp)
          · exact absurd h (by simp)
        · exact absurd h (by simp)

end Check

namespace Traffic

variable {X : Extern} {network : Network} {id : PsbtSessionId} {s : PsbtSession}
variable {w : Wallet} {user : UserId} {fingerprint : KeyFingerprint} {stored : Bytes}
variable {original : Psbt}

/-- What a document is checked against is what was downloaded, whatever came since. -/
theorem checks_of_download (actions later : List Action)
    (hc : (empty.run X network (actions ++ later)).platform.blobs.NoCollision X)
    (hs : (empty.run X network actions).platform.sessions.findById id = .ok s)
    (hw : (empty.run X network actions).platform.wallets.findById s.walletId = .ok w)
    (hfp : w.keystoreFingerprintOf X user = some fingerprint)
    (hdownload : Coordination.unsignedPsbt X (empty.run X network actions).platform.sessions
      (empty.run X network actions).platform.blobs id = .ok stored)
    (hparse : parsePsbt X stored = .ok original) :
    ∃ s', (empty.run X network (actions ++ later)).platform.sessions.findById id = .ok s' ∧
      Checks X (empty.run X network (actions ++ later)).platform.wallets
        (empty.run X network (actions ++ later)).platform.blobs s' user fingerprint original := by
  have hinv := inv_run X network actions
  have hrow := hinv.sessions.row hs
  have hf := run_follows network hinv later
  have haddressed := (backed_run X network (actions ++ later)).addressed
  rw [run_append] at hc haddressed ⊢
  obtain ⟨s', es, hrow', hg⟩ := hinv.run_grows network later id s hrow
  refine ⟨s', hrow'.found, ⟨w, ?_, hfp⟩, ?_⟩
  · -- the wallet is active, and so it stays
    rw [hg.walletId, wallet_of_snapshot hinv hf hrow.snapshot]
    exact hw
  · unfold Coordination.unsignedPsbt at hdownload
    rw [hs] at hdownload
    dsimp only at hdownload
    cases hhash : s.unsignedPsbtHash with
    | none =>
      rw [hhash] at hdownload
      exact absurd hdownload (by simp)
    | some hash =>
      rw [hhash] at hdownload
      obtain ⟨hmem, -⟩ := BlobStore.fetchVerified_eq_ok (eq_ok_of_mapError hdownload)
      have hcreated : .psbtCreated hash ∈ s'.log := by
        rw [hg.log]
        exact List.mem_append_left _ (hrow.grammatical.loaded.hydrates.psbtCreated_mem hhash)
      exact ⟨hash, stored, hrow'.grammatical.unsignedPsbtHash_eq hcreated,
        BlobStore.fetchVerified_of_mem haddressed hc (hf.blobs.mem hmem), hparse⟩

end Traffic

/-- `submit_signed_psbt` on the stores as they are. -/
def Traffic.submit (X : Extern) (c : Traffic) (id : PsbtSessionId) (user : UserId) (bytes : Bytes) :
    Except CoordinationError PsbtSession × PsbtSessions × BlobStore :=
  Coordination.submitSignedPsbt X c.platform.wallets c.platform.sessions c.platform.blobs id user
    bytes

open Traffic in
/-- **Refusals are exact.** A participant downloaded the unsigned PSBT of a session, and it can be
read. Whatever calls come after that: `submit_signed_psbt` fails on a document of theirs with an
error of the validator exactly when the document, put beside the download, is refused with that
error; and then it stores nothing. -/
theorem refusals_exact (X : Extern) (network : Network) (actions later : List Traffic.Action)
    (hc : (empty.run X network (actions ++ later)).platform.blobs.NoCollision X)
    {id : PsbtSessionId} {s : PsbtSession} {w : Wallet} {user : UserId}
    {fingerprint : KeyFingerprint} {stored : Bytes} {original : Psbt}
    (hs : (empty.run X network actions).platform.sessions.findById id = .ok s)
    (hw : (empty.run X network actions).platform.wallets.findById s.walletId = .ok w)
    (hfp : w.keystoreFingerprintOf X user = some fingerprint)
    (hdownload : Coordination.unsignedPsbt X (empty.run X network actions).platform.sessions
      (empty.run X network actions).platform.blobs id = .ok stored)
    (hparse : parsePsbt X stored = .ok original) (bytes : Bytes) (e : PsbtValidationError) :
    (((empty.run X network (actions ++ later)).submit X id user bytes).1 =
        .error (.psbtValidation e) ↔ Refusal X original fingerprint bytes e) ∧
      (Refusal X original fingerprint bytes e →
        (empty.run X network (actions ++ later)).submit X id user bytes =
          (.error (.psbtValidation e), (empty.run X network (actions ++ later)).platform.sessions,
            (empty.run X network (actions ++ later)).platform.blobs)) := by
  obtain ⟨s', hs', hchecks⟩ := checks_of_download actions later hc hs hw hfp hdownload hparse
  obtain ⟨hiff, hsame⟩ := submitSignedPsbt_refused (X := X) (e := e) hs'
  exact ⟨hiff.trans hchecks.refused, fun h => hsame (hchecks.refused.mpr h)⟩

open Extern.Sample in
/-- After the finalization, the unsigned PSBT handed in as it was downloaded before. -/
theorem refusals_exact_unsigned :
    Refusal (.sample [soloUnsigned, soloSigned true]) soloUnsigned 1 [0] .noNewSignatures :=
  (@refusals_exact (.sample [soloUnsigned, soloSigned true]) .bitcoin (signing.take 8)
    (signing.drop 8 ++ [.call (.session ⟨0⟩ .runFinalization), .step 4, .step 4])
    (by decide +kernel) ⟨0⟩ (freshSession 1 [1]) (activeWallet 1 [key 1]) ⟨0⟩ 1 [0] soloUnsigned
    (by decide +kernel) (by decide +kernel) (by decide +kernel) (by decide +kernel)
    (by decide +kernel) [0] .noNewSignatures).1.mp (by decide +kernel)

end Kota
