import Kota.Agreement
import Kota.Wallet.Completion
import Kota.Wallet.Identity

/-!
# Whose wallet a submission returns

`submit_keystore` loads a wallet, records the keystore and writes back; when the write fails it
looks for the wallet that already has the descriptor. Other calls step in between, so
`submitKeystoreOver` takes the three tables the call meets one after another; with one table it is
`submit_keystore` (`submitKeystoreOver_self`).

* `Unique`: a table that calls have written has one row an id, so the fingerprint column finds an
  active wallet that has the fingerprint (`findByDescriptorFingerprint_spec`).
* **`submit_keystore_answers`**: an answer is the wallet of the call with the caller's keystore in
  it, or, where the write of an activation failed, another active wallet with the descriptor it
  would have had, and then nothing was recorded; an error records nothing.
* `collision_answers_foreign_wallet`: the other wallet need not have the caller as a participant.
-/

namespace Kota

open EventLog

variable {X : Extern} {network : Network}

/-! ## The call -/

/-- `submit_keystore` among other calls: the table it loads from, the one it writes to, and the
one in which it looks for the descriptor. -/
def Coordination.submitKeystoreOver (X : Extern) (loaded current later : Wallets)
    (walletId : WalletId) (submittedBy : UserId) (keystore : DescriptorPublicKey) :
    Except CoordinationError Wallet × Wallets :=
  match loaded.findById walletId with
  | .error e => (.error (.walletFind e), current)
  | .ok wallet =>
    match wallet.addKeystore X keystore submittedBy with
    | (.error e, _) => (.error (.wallet e), current)
    | (.ok applied, wallet) =>
      if applied.wasAlreadyApplied then (.ok wallet, current)
      else match current.update wallet with
        | .error e => (Coordination.resolveFingerprintCollision later wallet e, current)
        | .ok wallets => (.ok wallet, wallets)

/-- Without other calls in between it is `submit_keystore`. -/
theorem submitKeystoreOver_self (wallets : Wallets) (walletId : WalletId) (user : UserId)
    (keystore : DescriptorPublicKey) :
    Coordination.submitKeystoreOver X wallets wallets wallets walletId user keystore =
      Coordination.submitKeystore X wallets walletId user keystore := rfl

/-- The second step of a submission under way is the call from the table it loaded from, where the
look for the descriptor follows the write at once. -/
theorem walletStep_addKeystore {p : Platform} {loaded : Wallets} {walletId : WalletId} {own : Wallet}
    (hown : loaded.findById walletId = .ok own) (user : UserId) (keystore : DescriptorPublicKey) :
    Traffic.walletStep X p (.addKeystore keystore user) own =
      ({ p with wallets := (Coordination.submitKeystoreOver X loaded p.wallets p.wallets walletId
          user keystore).2 },
        .returned (((Coordination.submitKeystoreOver X loaded p.wallets p.wallets walletId user
          keystore).1.map fun _ => ()).mapError .useCase)) := by
  unfold Traffic.walletStep Coordination.submitKeystoreOver
  rw [hown]
  dsimp only [Wallet.apply]
  cases own.addKeystore X keystore user with
  | mk answer own' =>
    cases answer with
    | error e => rfl
    | ok applied =>
      cases applied with
      | alreadyApplied => rfl
      | executed u =>
        simp only [Idempotent.wasAlreadyApplied, Bool.false_eq_true, if_false]
        cases p.wallets.update own' with
        | ok wallets => rfl
        | error e =>
          dsimp only [WalletCommand.notWritten]
          cases Coordination.resolveFingerprintCollision p.wallets own' e <;> rfl

/-! ## Finding a wallet by its descriptor -/

namespace Wallets

variable {wallets wallets' : Wallets}

/-- One row an id. -/
def Unique (wallets : Wallets) : Prop := wallets.ids.Nodup

theorem Unique.create (h : wallets.Unique) {n : NewWallet} {w : Wallet}
    (hc : wallets.create n = .ok (w, wallets')) : wallets'.Unique := by
  unfold Wallets.create at hc
  split at hc
  · exact absurd hc (by simp)
  · rename_i created hcreate
    obtain ⟨-, rfl⟩ := Prod.mk.inj (Except.ok.inj hc)
    exact Store.nodup_ids_create hcreate h

theorem Unique.update (h : wallets.Unique) {w : Wallet} (hu : wallets.update w = .ok wallets') :
    wallets'.Unique := by
  unfold Wallets.update at hu
  split at hu
  · exact Except.ok.inj hu ▸ h
  · split at hu
    · exact absurd hu (by simp)
    · split at hu
      · exact absurd hu (by simp)
      · rename_i appended happend
        obtain rfl := Except.ok.inj hu
        unfold Unique
        rw [Store.ids_append happend]
        exact h

end Wallets

/-- A wallet with a descriptor fingerprint is active. -/
theorem Wallet.Inv.active_of_fingerprint {w : Wallet} (h : Wallet.Inv X w)
    {fingerprint : DescriptorFingerprint} (hf : w.descriptorFingerprint = some fingerprint) :
    w.status = .active := by
  obtain ⟨e, he, hread⟩ := List.exists_of_findSome?_eq_some hf
  have hterminal := h.terminal
  unfold Wallet.status
  rcases List.eq_nil_or_concat w.log with hnil | ⟨init, last, hlog⟩
  · rw [hnil] at he
    exact absurd he List.not_mem_nil
  · rw [List.concat_eq_append] at hlog
    rw [hlog, List.dropLast_concat] at hterminal
    rw [hlog] at he ⊢
    rw [statusOf_concat]
    cases e with
    | activated d f =>
      rcases List.mem_append.mp he with he | he
      · exact absurd (hterminal _ he) (by simp [WalletEvent.isTerminal, WalletEvent.isActivated])
      · obtain rfl := List.mem_singleton.mp he
        rfl
    | _ => exact absurd hread (by simp [WalletEvent.activatedFingerprint])

/-- **What the fingerprint column finds**: an active wallet of the table with that fingerprint. -/
theorem findByDescriptorFingerprint_spec {wallets : Wallets} (hs : wallets.Sound X)
    (hu : wallets.Unique) {fingerprint : DescriptorFingerprint} {w : Wallet}
    (h : wallets.findByDescriptorFingerprint fingerprint = .ok w) :
    wallets.Row X w.id w ∧ w.descriptorFingerprint = some fingerprint ∧ w.status = .active := by
  unfold Wallets.findByDescriptorFingerprint at h
  split at h
  · exact absurd h (by simp)
  · rename_i row hfind
    have hrow := hs.row h
    have hlog := Store.find?_of_mem hu (List.mem_of_find?_eq_some hfind)
    have hread : Wallets.fingerprintOf row.2 = some fingerprint := by
      simpa using List.find?_some hfind
    have hfingerprint : w.descriptorFingerprint = some fingerprint := by
      rw [Option.some.inj (hlog.symm.trans hrow.log_eq)] at hread
      exact hread
    refine ⟨?_, hfingerprint, hrow.inv.active_of_fingerprint hfingerprint⟩
    rw [hrow.id_eq]
    exact hrow

namespace Traffic

theorem unique_walletStep {p : Platform} (h : p.wallets.Unique) (command : WalletCommand)
    (w : Wallet) : (walletStep X p command w).1.wallets.Unique := by
  unfold walletStep
  split
  · exact h
  · split
    · exact h
    · split
      · exact h
      · rename_i wallets hu
        exact h.update hu

theorem wallets_proposalStep (p : Platform) (id : PsbtSessionId) (proposedBy : UserId)
    (spend : SpendSpec) (w : Wallet) :
    (proposalStep X p id proposedBy spend w).1.wallets = p.wallets := by
  unfold proposalStep
  split
  · rfl
  · rfl
  · split <;> rfl

theorem unique_advance {p : Platform} (h : p.wallets.Unique) (call : Call) (stage : Stage) :
    (advance X network p call stage).1.wallets.Unique := by
  cases call with
  | wallet id command =>
    cases stage with
    | wallet w => exact unique_walletStep h command w
    | _ => exact h
  | proposeSpend id walletId proposedBy spend =>
    cases stage with
    | wallet w =>
      show (proposalStep X p id proposedBy spend w).1.wallets.Unique
      rw [wallets_proposalStep]
      exact h
    | _ => exact h
  | session id call => cases stage <;> exact h

/-- **Calls keep one row an id.** -/
theorem unique_act {c : Traffic} (h : c.platform.wallets.Unique) (a : Action) :
    (c.act X network a).platform.wallets.Unique := by
  cases a with
  | register id threshold participants =>
    simp only [act]
    unfold Coordination.registerWallet
    split
    · exact h
    · split
      · exact h
      · rename_i w wallets hc
        exact h.create hc
  | call call => exact h
  | step i =>
    simp only [act]
    split
    · exact h
    · exact unique_advance h _ _

theorem unique_run (X : Extern) (network : Network) (actions : List Action) :
    (empty.run X network actions).platform.wallets.Unique := by
  have hkeep : ∀ (actions : List Action) {c : Traffic}, c.platform.wallets.Unique →
      (c.run X network actions).platform.wallets.Unique := by
    intro actions
    induction actions with
    | nil => exact id
    | cons a actions ih => exact fun h => ih (unique_act h a)
  exact hkeep actions List.nodup_nil

/-- Wallet logs only grow. -/
theorem Inv.wallets_grow {c : Traffic} (h : Inv X c) (actions : List Action) :
    Wallets.Grows (c.run X network actions).platform.wallets c.platform.wallets := by
  induction actions generalizing c with
  | nil => exact Wallets.Grows.refl _
  | cons a actions ih =>
    have hstep := h.act network a
    exact (ih hstep.1).trans hstep.2.wallets_grow

end Traffic

/-! ## What is answered -/

/-- The caller is a participant, and the keystore is the one they signed up with. -/
structure Belongs (X : Extern) (w : Wallet) (user : UserId) (keystore : DescriptorPublicKey) :
    Prop where
  participant : user ∈ w.participants
  fingerprint : w.keystoreFingerprintOf X user = some (keystoreFingerprint X keystore)

/-- The strings of keys and the digest tell the two wallets apart: what content addressing is
assumed to do. -/
structure ToldApart (X : Extern) (w w' : Wallet) : Prop where
  strings : ∀ key ∈ w.keystores ++ w'.keystores, ∀ key' ∈ w.keystores ++ w'.keystores,
    X.keyToString key = X.keyToString key' → key = key'
  plain : PlainKeys X (w.keystores ++ w'.keystores)
  digest : ∀ d d', w.descriptor = some d → w'.descriptor = some d' →
    X.sha256 (utf8 (fingerprintText X d w.network)) =
      X.sha256 (utf8 (fingerprintText X d' w'.network)) →
    utf8 (fingerprintText X d w.network) = utf8 (fingerprintText X d' w'.network)

/-- `w` stands in for the wallet the submission would have completed: another wallet, active,
with the same descriptor fingerprint, hence of the same policy and holding the keystore. -/
structure StandsIn (X : Extern) (loaded later : Wallets) (walletId : WalletId) (user : UserId)
    (keystore : DescriptorPublicKey) (w : Wallet) : Prop where
  other : w.id ≠ walletId
  row : later.Row X w.id w
  active : w.status = .active
  completed : ∃ own completed, loaded.findById walletId = .ok own ∧
    own.addKeystore X keystore user = (.ok (.executed ()), completed) ∧
    completed.status = .active ∧ w.descriptorFingerprint = completed.descriptorFingerprint ∧
    (ToldApart X w completed → SamePolicy w completed ∧ ∃ holder, Belongs X w holder keystore)

/-- A submitted keystore is the submitter's. -/
theorem Wallet.Inv.belongs {w : Wallet} (h : Wallet.Inv X w) {user : UserId}
    {keystore : DescriptorPublicKey} (hmem : (user, keystore) ∈ w.submissions) :
    Belongs X w user keystore :=
  ⟨h.members user (List.mem_map.mpr ⟨_, hmem, rfl⟩), h.keystoreFingerprintOf_eq hmem⟩

/-- What `resolve_fingerprint_collision` answers. -/
theorem resolveFingerprintCollision_eq_ok {later : Wallets} {completed w : Wallet}
    {e : ModifyError}
    (h : Coordination.resolveFingerprintCollision later completed e = .ok w) :
    ∃ fingerprint, completed.descriptorFingerprint = some fingerprint ∧
      later.findByDescriptorFingerprint fingerprint = .ok w ∧ w.id ≠ completed.id := by
  unfold Coordination.resolveFingerprintCollision at h
  split at h
  · exact absurd h (by simp)
  · rename_i fingerprint hf
    split at h
    · exact absurd h (by simp)
    · rename_i existing hfind
      split at h
      · rename_i hne
        obtain rfl := Except.ok.inj h
        exact ⟨fingerprint, hf, hfind, hne⟩
      · exact absurd h (by simp)

/-- The wallet a collision answers with stands in for the completed one. -/
theorem standsIn_of_collision {loaded later : Wallets} (hs : later.Sound X) (hu : later.Unique)
    {walletId : WalletId} {user : UserId} {keystore : DescriptorPublicKey} {own completed : Wallet}
    (hown : loaded.Row X walletId own)
    (hadd : own.addKeystore X keystore user = (.ok (.executed ()), completed)) {w : Wallet}
    {e : ModifyError}
    (h : Coordination.resolveFingerprintCollision later completed e = .ok w) :
    StandsIn X loaded later walletId user keystore w := by
  obtain ⟨fingerprint, hf, hfind, hne⟩ := resolveFingerprintCollision_eq_ok h
  obtain ⟨hrow, hwf, hactive⟩ := findByDescriptorFingerprint_spec hs hu hfind
  have happly : (own.apply X (.addKeystore keystore user)).2 = completed := congrArg Prod.snd hadd
  have hinv : Wallet.Inv X completed :=
    happly ▸ Wallet.apply_induction Wallet.Inv.record hown.inv _
  have hid : completed.id = walletId :=
    happly ▸ (Wallet.apply_id own _).trans hown.id_eq
  refine ⟨hid ▸ hne, hrow, hactive, own, completed, hown.found, hadd,
    hinv.active_of_fingerprint hf, hwf.trans hf.symm, fun htold => ?_⟩
  obtain ⟨d, hd⟩ := hrow.inv.identified hactive
  obtain ⟨d', hd'⟩ := hinv.identified (hinv.active_of_fingerprint hf)
  have hsame : SamePolicy w completed := hd.samePolicy hd' htold.strings htold.plain
    (htold.digest d d' hd.descriptor hd'.descriptor) (hwf.trans hf.symm)
  -- the keystore is held by the completed wallet, so by the one with its policy
  have hheld : keystore ∈ completed.keystores :=
    List.mem_map.mpr ⟨_, (Wallet.submissions_of_ok hadd).1, rfl⟩
  obtain ⟨⟨holder, keystore'⟩, hmem, rfl⟩ := List.mem_map.mp ((hsame.keystores keystore).mpr hheld)
  exact ⟨hsame, holder, hrow.inv.belongs hmem⟩

/-- The call, over the three tables it meets. -/
theorem submitKeystoreOver_spec {loaded current later : Wallets} (hloaded : loaded.Sound X)
    (hgrows : current.Grows loaded) (hs : later.Sound X) (hu : later.Unique) (walletId : WalletId)
    (user : UserId) (keystore : DescriptorPublicKey) :
    (∀ w wallets', Coordination.submitKeystoreOver X loaded current later walletId user keystore =
        (.ok w, wallets') →
      (w.id = walletId ∧ Belongs X w user keystore ∧
        (wallets' = current ∨ wallets'.find? walletId = some w.log)) ∨
      StandsIn X loaded later walletId user keystore w ∧ wallets' = current) ∧
    ∀ e wallets', Coordination.submitKeystoreOver X loaded current later walletId user keystore =
      (.error e, wallets') → wallets' = current := by
  unfold Coordination.submitKeystoreOver
  cases hfind : loaded.findById walletId with
  | error e => exact ⟨fun w wallets' h => absurd (Prod.mk.inj h).1 (by simp),
      fun e wallets' h => (Prod.mk.inj h).2.symm⟩
  | ok own =>
    dsimp only
    have hown := hloaded.row hfind
    cases hadd : own.addKeystore X keystore user with
    | mk answer own' =>
      have happly : (own.apply X (.addKeystore keystore user)).2 = own' := congrArg Prod.snd hadd
      have hinv : Wallet.Inv X own' :=
        happly ▸ Wallet.apply_induction Wallet.Inv.record hown.inv _
      have hid : own'.id = walletId := happly ▸ (Wallet.apply_id own _).trans hown.id_eq
      cases answer with
      | error e => exact ⟨fun w wallets' h => absurd (Prod.mk.inj h).1 (by simp),
          fun e wallets' h => (Prod.mk.inj h).2.symm⟩
      | ok applied =>
        dsimp only
        have hbelongs : Belongs X own' user keystore :=
          hinv.belongs (Wallet.submissions_of_ok hadd).1
        cases applied with
        | alreadyApplied =>
          refine ⟨fun w wallets' h => ?_, fun e wallets' h => absurd (Prod.mk.inj h).1 (by simp)⟩
          obtain ⟨hw, hwallets⟩ := Prod.mk.inj h
          obtain rfl := Except.ok.inj hw
          exact Or.inl ⟨hid, hbelongs, Or.inl hwallets.symm⟩
        | executed u =>
          rw [if_neg (by simp [Idempotent.wasAlreadyApplied])]
          cases hupdate : current.update own' with
          | error e =>
            refine ⟨fun w wallets' h => ?_, fun e wallets' h => (Prod.mk.inj h).2.symm⟩
            obtain ⟨hanswer, hwallets⟩ := Prod.mk.inj h
            exact Or.inr ⟨standsIn_of_collision hs hu hown hadd hanswer, hwallets.symm⟩
          | ok written =>
            refine ⟨fun w wallets' h => ?_,
              fun e wallets' h => absurd (Prod.mk.inj h).1 (by simp)⟩
            obtain ⟨hw, hwallets⟩ := Prod.mk.inj h
            obtain rfl := Except.ok.inj hw
            subst hwallets
            subst happly
            have hrow := (hown.held.mono hgrows).row_of_update
              (c := .addKeystore keystore user) (congrArg Prod.fst hadd) hupdate
            have hfound := hrow.find?_update _ hupdate walletId
            rw [if_pos rfl] at hfound
            exact Or.inl ⟨hid, hbelongs, Or.inr hfound⟩

/-- **What `submit_keystore` answers.** Wherever a call meets the wallets, with any calls before it
and between its steps: an `Ok` is the call's own wallet with the caller's keystore in it, and
persisted so where anything was recorded, or a wallet that stands in for it, and then nothing was
recorded; on an error nothing was recorded. -/
theorem submit_keystore_answers (X : Extern) (network : Network)
    (actions mid later : List Traffic.Action) (walletId : WalletId) (user : UserId)
    (keystore : DescriptorPublicKey) :
    (∀ w wallets', Coordination.submitKeystoreOver X
        (Traffic.empty.run X network actions).platform.wallets
        (Traffic.empty.run X network (actions ++ mid)).platform.wallets
        (Traffic.empty.run X network (actions ++ mid ++ later)).platform.wallets
        walletId user keystore = (.ok w, wallets') →
      (w.id = walletId ∧ Belongs X w user keystore ∧
        (wallets' = (Traffic.empty.run X network (actions ++ mid)).platform.wallets ∨
          wallets'.find? walletId = some w.log)) ∨
      StandsIn X (Traffic.empty.run X network actions).platform.wallets
        (Traffic.empty.run X network (actions ++ mid ++ later)).platform.wallets
        walletId user keystore w ∧
        wallets' = (Traffic.empty.run X network (actions ++ mid)).platform.wallets) ∧
    ∀ e wallets', Coordination.submitKeystoreOver X
        (Traffic.empty.run X network actions).platform.wallets
        (Traffic.empty.run X network (actions ++ mid)).platform.wallets
        (Traffic.empty.run X network (actions ++ mid ++ later)).platform.wallets
        walletId user keystore = (.error e, wallets') →
      wallets' = (Traffic.empty.run X network (actions ++ mid)).platform.wallets := by
  have hloaded := Traffic.inv_run X network actions
  have hgrows := @Traffic.Inv.wallets_grow X network _ hloaded mid
  rw [← Traffic.run_append] at hgrows
  exact submitKeystoreOver_spec hloaded.wallets hgrows (Traffic.inv_run X network _).wallets
    (Traffic.unique_run X network _) walletId user keystore

namespace Extern.Sample

/-- Two one-of-one wallets of different participants, the first completed with key 1. -/
def importedOnce : List Traffic.Action :=
  [.register ⟨0⟩ 1 [⟨7⟩], .register ⟨1⟩ 1 [⟨8⟩],
    .call (.wallet ⟨0⟩ (.addKeystore (key 1) ⟨7⟩)), .step 0]

/-- The first of them. -/
def importedWallet : Wallet :=
  ⟨⟨0⟩, .bitcoin, 1, [⟨7⟩], .load ⟨0⟩ [.initialized ⟨0⟩ .bitcoin 1 [⟨7⟩],
    .keystoreAdded (key 1) ⟨7⟩, .activated ⟨1, [key 1]⟩
      (descriptorFingerprint (.sample []) ⟨1, [key 1]⟩ .bitcoin)]⟩

end Extern.Sample

open Extern.Sample in
/-- **A caller gets a wallet they do not belong to**: user 8 submits the key that completed the
wallet of user 7, and is answered with that wallet. -/
theorem collision_answers_foreign_wallet :
    ∃ w, (Coordination.submitKeystore (.sample [])
        (Traffic.empty.run (.sample []) .bitcoin importedOnce).platform.wallets ⟨1⟩ ⟨8⟩ (key 1)).1 =
        .ok w ∧ w.id = ⟨0⟩ ∧ w.participants = [⟨7⟩] ∧
      w.keystoreFingerprintOf (.sample []) ⟨8⟩ = none :=
  ⟨importedWallet, by decide +kernel, rfl, rfl, rfl⟩

end Kota
