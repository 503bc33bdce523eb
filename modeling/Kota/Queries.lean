import Kota.Backend
import Kota.Linearization
import Kota.Membership
import Kota.Untrusted

/-!
# What the queries answer

Model of the queries of `kota/app/src/lib.rs`, which read and change nothing, and of
`descriptor_fingerprints`. They may be asked between any two steps of the calls under way.

* **`downloads_agree`**: `unsigned_psbt` answers that the PSBT is not ready until it is recorded,
  and from then on always with the same bytes, those of the PSBT that was built from the session's
  active wallet. Every submission, whenever it is checked, is checked against the document that was
  downloaded.
* **`policies_agree`**: what is asked about a session and about its wallet fits together. The
  fingerprints of the wallet's descriptor are those of the session's policy, the descriptor
  fingerprint finds that wallet and no other, and who signed and who is missing make up the policy.
-/

namespace Kota

open EventLog EventTable

open PsbtSessions (Row)

/-! ## The queries -/

/-- `maybe_find_by_descriptor_fingerprint`: finding no row is no error. A `WalletQueryError` is what
is left, a row that does not load. -/
def Wallets.maybeFindByDescriptorFingerprint (wallets : Wallets)
    (fingerprint : DescriptorFingerprint) : Except EntityHydrationError (Option Wallet) :=
  match wallets.findByDescriptorFingerprint fingerprint with
  | .ok wallet => .ok (some wallet)
  | .error .notFound => .ok none
  | .error (.hydration e) => .error e

namespace Coordination

variable (X : Extern)

def unsignedPsbt (sessions : PsbtSessions) (blobs : BlobStore) (sessionId : PsbtSessionId) :
    Except CoordinationError Bytes :=
  match sessions.findById sessionId with
  | .error e => .error (.sessionFind e)
  | .ok session =>
    match session.unsignedPsbtHash with
    | none => .error (.unsignedPsbtNotReady sessionId)
    | some hash => (blobs.fetchVerified X hash).mapError .blobFetch

def findWallet (wallets : Wallets) (walletId : WalletId) : Except CoordinationError Wallet :=
  (wallets.findById walletId).mapError .walletFind

/-- The error is wrapped as `CoordinationError::WalletQuery`. -/
def maybeFindWalletByDescriptorFingerprint (wallets : Wallets)
    (fingerprint : DescriptorFingerprint) : Except EntityHydrationError (Option Wallet) :=
  wallets.maybeFindByDescriptorFingerprint fingerprint

def findSession (sessions : PsbtSessions) (sessionId : PsbtSessionId) :
    Except CoordinationError PsbtSession :=
  (sessions.findById sessionId).mapError .sessionFind

end Coordination

/-- `descriptor_fingerprints`: each fingerprint where it occurs first. -/
def descriptorFingerprints (X : Extern) (descriptor : Descriptor) : List KeyFingerprint :=
  descriptor.keys.foldl (fun fingerprints key =>
    let fingerprint := keystoreFingerprint X key
    if !fingerprints.contains fingerprint then fingerprints ++ [fingerprint] else fingerprints) []

variable {X : Extern} {network : Network}

/-- Nothing is left out when the fingerprints are different. -/
theorem descriptorFingerprints_eq {descriptor : Descriptor}
    (h : (descriptor.keys.map (keystoreFingerprint X)).Nodup) :
    descriptorFingerprints X descriptor = descriptor.keys.map (keystoreFingerprint X) := by
  have hfold : ∀ (keys : List DescriptorPublicKey) (fingerprints : List KeyFingerprint),
      (fingerprints ++ keys.map (keystoreFingerprint X)).Nodup →
      keys.foldl (fun fingerprints key =>
        let fingerprint := keystoreFingerprint X key
        if !fingerprints.contains fingerprint then fingerprints ++ [fingerprint]
        else fingerprints) fingerprints = fingerprints ++ keys.map (keystoreFingerprint X) := by
    intro keys
    induction keys with
    | nil => exact fun fingerprints _ => (List.append_nil _).symm
    | cons key rest ih =>
      intro fingerprints hnodup
      rw [List.map_cons, List.append_cons] at hnodup
      have hnew : fingerprints.contains (keystoreFingerprint X key) = false := by
        rw [← Bool.not_eq_true, List.contains_iff_mem]
        intro hmem
        have hleft := (List.nodup_append.mp hnodup).1
        exact (List.nodup_append.mp hleft).2.2 _ hmem _ List.mem_cons_self rfl
      rw [List.foldl_cons]
      dsimp only
      rw [hnew]
      exact (ih _ hnodup).trans (List.append_cons _ _ _).symm
  exact hfold descriptor.keys [] h

/-! ## Downloads -/

namespace Traffic

/-- What `unsigned_psbt` answers once the PSBT is recorded: the document `psbt`, which is what
submissions are checked against. -/
structure Downloads (X : Extern) (c : Traffic) (id : PsbtSessionId) (psbt : Psbt) : Prop where
  answer : Coordination.unsignedPsbt X c.platform.sessions c.platform.blobs id =
    .ok (X.serialize psbt)
  checked : ∀ s user bytes fingerprint merged, c.platform.sessions.findById id = .ok s →
    Coordination.checkSubmission X c.platform.wallets c.platform.blobs s user bytes =
      .ok (fingerprint, merged) →
    ∃ original, parsePsbt X (X.serialize psbt) = .ok original ∧
      Acceptable X original merged fingerprint

/-- A stored and recorded document is what is downloaded. -/
theorem downloads_of_stored {c : Traffic} (ha : c.platform.blobs.Addressed X)
    (hc : c.platform.blobs.NoCollision X) {id : PsbtSessionId}
    {s : PsbtSession} (hrow : Row c.platform.sessions id s) {hash : PsbtHash} {psbt : Psbt}
    (hcreated : .psbtCreated hash ∈ s.log)
    (hstored : (hash, X.serialize psbt) ∈ c.platform.blobs.entries) : Downloads X c id psbt := by
  have hhash := hrow.grammatical.unsignedPsbtHash_eq hcreated
  have hfetch := BlobStore.fetchVerified_of_mem ha hc hstored
  constructor
  · unfold Coordination.unsignedPsbt
    rw [hrow.found]
    dsimp only
    rw [hhash]
    dsimp only
    rw [hfetch]
    rfl
  · intro s' user bytes fingerprint merged hs' hcheck
    obtain rfl := Except.ok.inj (hrow.found.symm.trans hs')
    obtain ⟨w, hash', stored, original, -, -, hhash', hfetch', horiginal, -, hacc⟩ :=
      Platform.checkSubmission_eq_ok hcheck
    obtain rfl := Option.some.inj (hhash.symm.trans hhash')
    obtain rfl := Except.ok.inj (hfetch.symm.trans hfetch')
    exact ⟨original, horiginal, hacc⟩

end Traffic

open Traffic in
/-- **Downloads agree.** After any interleaving of calls, `unsigned_psbt` on a session answers
either that the PSBT is not ready, and none is recorded, or with the PSBT that was built from the
session's active wallet and the coins of a creation job; and after whatever comes later it answers
with the same bytes, which every submission is checked against. -/
theorem downloads_agree (X : Extern) (network : Network) (actions later : List Traffic.Action)
    (hc : (Traffic.empty.run X network (actions ++ later)).platform.blobs.NoCollision X)
    {id : PsbtSessionId} {s : PsbtSession}
    (hs : (Traffic.empty.run X network actions).platform.sessions.findById id = .ok s) :
    (Coordination.unsignedPsbt X (Traffic.empty.run X network actions).platform.sessions
        (Traffic.empty.run X network actions).platform.blobs id =
          .error (.unsignedPsbtNotReady id) ∧
      ∀ e ∈ s.log, e.isPsbtCreated = false) ∨
    ∃ w descriptor utxos psbt,
      Builds X network (Traffic.empty.run X network actions) s w descriptor utxos psbt ∧
      Downloads X (Traffic.empty.run X network actions) id psbt ∧
      Downloads X (Traffic.empty.run X network (actions ++ later)) id psbt := by
  have hinv := Traffic.inv_run X network actions
  have hinv' := Traffic.inv_run X network (actions ++ later)
  have hbacked := Traffic.backed_run X network actions
  have hbacked' := Traffic.backed_run X network (actions ++ later)
  have hrow := hinv.sessions.row hs
  rw [Traffic.run_append] at hc hinv' hbacked' ⊢
  have hfollows := Traffic.run_follows network hinv later
  cases hhash : s.unsignedPsbtHash with
  | none =>
    refine Or.inl ⟨?_, hrow.grammatical.unsignedPsbtHash_eq_none_iff.mp hhash⟩
    unfold Coordination.unsignedPsbt
    rw [hs]
    dsimp only
    rw [hhash]
  | some hash =>
    have hcreated := hrow.grammatical.loaded.hydrates.psbtCreated_mem hhash
    obtain ⟨w, descriptor, utxos, psbt, hbuilds, hstored⟩ := hbacked.rows id s hrow _ hcreated
    obtain ⟨s', es, hrow', hg⟩ := hinv.run_grows network later id s hrow
    have hcreated' : .psbtCreated hash ∈ s'.log := by
      rw [hg.log]
      exact List.mem_append_left _ hcreated
    exact Or.inr ⟨w, descriptor, utxos, psbt, hbuilds,
      downloads_of_stored hbacked.addressed (hfollows.blobs.within.noCollision hc) hrow
        hcreated hstored,
      downloads_of_stored hbacked'.addressed hc hrow' hcreated'
        (hfollows.blobs.mem hstored)⟩

open Extern.Sample in
/-- A session with its signature, before and after the finalization job. -/
theorem downloads_agree_signed :
    (Coordination.unsignedPsbt (.sample [soloUnsigned, soloSigned true])
        (Traffic.empty.run (.sample [soloUnsigned, soloSigned true]) .bitcoin signing
          ).platform.sessions
        (Traffic.empty.run (.sample [soloUnsigned, soloSigned true]) .bitcoin signing
          ).platform.blobs ⟨0⟩ = .error (.unsignedPsbtNotReady ⟨0⟩) ∧
      ∀ e ∈ soloCollected.log, e.isPsbtCreated = false) ∨
    ∃ w descriptor utxos psbt,
      Traffic.Builds (.sample [soloUnsigned, soloSigned true]) .bitcoin
        (Traffic.empty.run (.sample [soloUnsigned, soloSigned true]) .bitcoin signing)
        soloCollected w descriptor utxos psbt ∧
      Traffic.Downloads (.sample [soloUnsigned, soloSigned true])
        (Traffic.empty.run (.sample [soloUnsigned, soloSigned true]) .bitcoin signing) ⟨0⟩ psbt ∧
      Traffic.Downloads (.sample [soloUnsigned, soloSigned true])
        (Traffic.empty.run (.sample [soloUnsigned, soloSigned true]) .bitcoin
          (signing ++ [.call (.session ⟨0⟩ .runFinalization), .step 4, .step 4])) ⟨0⟩ psbt :=
  downloads_agree (.sample [soloUnsigned, soloSigned true]) .bitcoin signing
    [.call (.session ⟨0⟩ .runFinalization), .step 4, .step 4] (by decide +kernel)
    (show (Traffic.empty.run (.sample [soloUnsigned, soloSigned true]) .bitcoin signing
      ).platform.sessions.findById ⟨0⟩ = .ok soloCollected by decide +kernel)

/-! ## Policies -/

namespace Traffic

variable {c : Traffic}

/-- A wallet command leaves the descriptor fingerprints different. -/
theorem apart_walletStep (h : c.platform.wallets.Apart) (command : WalletCommand) {w : Wallet}
    (hw : c.platform.wallets.Held X w.id w) :
    (walletStep X c.platform command w).1.wallets.Apart := by
  unfold walletStep
  split
  · exact h
  · rename_i applied w' happly
    split
    · exact h
    · rename_i hfresh
      split
      · exact h
      · rename_i wallets hu
        obtain ⟨u, rfl⟩ := Idempotent.eq_executed hfresh
        have hexecuted : (w.apply X command).1 = .ok (.executed ()) := congrArg Prod.fst happly
        obtain rfl : w' = (w.apply X command).2 := by rw [happly]
        have hrow := hw.row_of_update hexecuted hu
        by_cases hnone : (w.apply X command).2.events.fresh = []
        · exact Wallets.eq_of_update hu hnone ▸ h
        · refine h.written (hrow.find?_update command hu) fun j log fingerprint hj hlog hf => ?_
          exact Wallets.update_free hu hnone ((Wallet.apply_id w command).symm ▸ hj) hlog hf

/-- **One step** leaves the descriptor fingerprints different. -/
theorem apart_act (hinv : Inv X c) (h : c.platform.wallets.Apart) (a : Action) :
    (c.act X network a).platform.wallets.Apart := by
  cases a with
  | register id threshold participants =>
    simp only [act]
    unfold Coordination.registerWallet
    split
    · exact h
    · split
      · exact h
      · rename_i w wallets hc
        obtain ⟨-, -, hfind⟩ := Wallets.create_spec hc
        exact h.written hfind fun j log fingerprint _ _ hf => absurd hf (by
          simp [Wallets.fingerprintOf, NewWallet.intoEvents, WalletEvent.activatedFingerprint])
  | call call => exact h
  | step i =>
    simp only [act]
    split
    · exact h
    · rename_i task htask
      have hheld := hinv.tasks task (List.mem_of_getElem? htask)
      obtain ⟨call, stage⟩ := task
      cases call with
      | wallet id command =>
        cases stage with
        | wallet w => exact apart_walletStep h command hheld
        | session | computed | returned | panicked => exact h
      | proposeSpend id walletId proposedBy spend =>
        cases stage with
        | wallet w =>
          show (proposalStep X c.platform id proposedBy spend w).1.wallets.Apart
          rw [wallets_proposalStep]
          exact h
        | session | computed | returned | panicked => exact h
      | session id call => cases stage <;> exact h

/-- **No two wallets share a descriptor fingerprint**, after any interleaving. -/
theorem apart_run (X : Extern) (network : Network) (actions : List Action) :
    (empty.run X network actions).platform.wallets.Apart := by
  induction actions using List.reverseRecOn with
  | nil =>
    intro id id' log log' fingerprint hlog
    exact absurd hlog (by simp [run, empty, Platform.empty])
  | append_singleton actions a ih =>
    rw [run_append]
    exact apart_act (inv_run X network actions) ih a

end Traffic

/-- The descriptor fingerprint finds the wallet that has it. -/
theorem Wallets.Apart.maybeFind_eq {wallets : Wallets} (h : wallets.Apart) (hu : wallets.Unique)
    {w : Wallet} (hrow : wallets.Row X w.id w) {fingerprint : DescriptorFingerprint}
    (hfp : w.descriptorFingerprint = some fingerprint) :
    wallets.maybeFindByDescriptorFingerprint fingerprint = .ok (some w) := by
  unfold Wallets.maybeFindByDescriptorFingerprint
  rw [h.find_eq hu hrow hfp]

/-- What the queries about a session and its wallet answer together. -/
structure FitsTogether (X : Extern) (c : Traffic) (s : PsbtSession) (w : Wallet)
    (descriptor : Descriptor) (fingerprint : DescriptorFingerprint) : Prop where
  wallet : Coordination.findWallet c.platform.wallets s.walletId = .ok w
  active : w.status = .active
  threshold : s.threshold = w.threshold ∧ descriptor.threshold = w.threshold.toNat
  descriptor_eq : w.descriptor = some descriptor
  fingerprints : (descriptorFingerprints X descriptor).Perm s.keystores
  found : Coordination.maybeFindWalletByDescriptorFingerprint c.platform.wallets fingerprint =
    .ok (some w)
  address : fingerprint = descriptorFingerprint X descriptor w.network
  parts : (s.signers ++ s.missingKeystores).Perm s.keystores

/-- **Policies agree.** After any interleaving of calls, of every session that is found: its wallet
is found, is active and has the session's threshold; the fingerprints of the wallet's descriptor
are the session's keystores, each once; the descriptor's own fingerprint finds this wallet; and
the signers and the missing keystores make up the policy. -/
theorem policies_agree (X : Extern) (network : Network) (actions : List Traffic.Action)
    {id : PsbtSessionId} {s : PsbtSession}
    (hs : Coordination.findSession (Traffic.empty.run X network actions).platform.sessions id =
      .ok s) :
    ∃ w descriptor fingerprint,
      FitsTogether X (Traffic.empty.run X network actions) s w descriptor fingerprint := by
  have hinv := Traffic.inv_run X network actions
  have hapart := Traffic.apart_run X network actions
  have hunique := Traffic.unique_run X network actions
  generalize Traffic.empty.run X network actions = c at *
  have hrow : Row c.platform.sessions id s := by
    refine hinv.sessions.row ?_
    unfold Coordination.findSession at hs
    cases hfind : c.platform.sessions.findById id with
    | error e =>
      rw [hfind] at hs
      exact absurd hs (by simp [Except.mapError])
    | ok found =>
      rw [hfind] at hs
      rw [Except.ok.inj hs]
  obtain ⟨w, hwrow, hactive, hthreshold, hkeystores, -⟩ := hinv.agrees id s hrow
  obtain ⟨descriptor, hsorted, hdescriptor, hfp⟩ := hwrow.inv.descriptor hactive
  obtain ⟨-, -, rfl⟩ := (sortedmultiWshDescriptor_eq_ok_iff X).mp hsorted
  have hperm := List.perm_insertionSort (fun a b => X.keyToString a ≤ X.keyToString b) w.keystores
  refine ⟨w, _, _, ?_, hactive, ⟨hthreshold, rfl⟩, hdescriptor, ?_, ?_, rfl, ?_⟩
  · unfold Coordination.findWallet
    rw [hwrow.found]
    rfl
  · rw [descriptorFingerprints_eq ((hperm.map _).nodup_iff.mpr hwrow.inv.fingerprints), hkeystores]
    exact hperm.map _
  · unfold Coordination.maybeFindWalletByDescriptorFingerprint
    exact hapart.maybeFind_eq hunique (hwrow.id_eq.symm ▸ hwrow) hfp
  · have hwell := hrow.grammatical.loaded.wellFormed
    have hsigned : s.signers.Perm (s.keystores.filter s.hasSigned) := by
      refine (List.perm_ext_iff_of_nodup hwell.signers (hwell.keystores.filter _)).mpr fun fp => ?_
      rw [List.mem_filter, PsbtSession.hasSigned_iff]
      exact ⟨fun h => ⟨hwell.policy fp h, h⟩, fun h => h.2⟩
    exact (hsigned.append_right _).trans (List.filter_append_perm _ _)

open Extern.Sample in
theorem policies_agree_signed :
    ∃ w descriptor fingerprint,
      FitsTogether (.sample [soloUnsigned, soloSigned true])
        (Traffic.empty.run (.sample [soloUnsigned, soloSigned true]) .bitcoin signing)
        soloCollected w descriptor fingerprint :=
  policies_agree (.sample [soloUnsigned, soloSigned true]) .bitcoin signing
    (show Coordination.findSession (Traffic.empty.run (.sample [soloUnsigned, soloSigned true])
      .bitcoin signing).platform.sessions ⟨0⟩ = .ok soloCollected by decide +kernel)

end Kota
