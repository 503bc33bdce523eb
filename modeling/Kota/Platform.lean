import Kota.Coordination

/-!
# Runs of the platform

All a command or job can do to the three stores (`Effect`, **`exec_effect`**), and what therefore
holds after any run from empty stores (`Inv`, **`inv_run`**):

* the tables are sound and every blob stands at its address;
* a session belongs to an active wallet, has a copy of its policy (`SessionInv.wallet`) and spends
  something (`SessionInv.spends`);
* its unsigned PSBT was built from that wallet's descriptor (`SessionInv.created`);
* every recorded signature comes from a `submit_signed_psbt` call that returned `Ok`, made by the
  participant whose keystore it is attributed to, with a document that validates against the
  recorded unsigned PSBT and is stored as submitted (`SessionInv.signed`).

An active wallet is frozen, logs only grow and blobs are only added; `SessionInv.mono` is what
carries these facts along.
-/

namespace Kota

open EventLog

variable {X : Extern} {network : Network}

namespace Platform

/-! ## What a command can do -/

/-- The job stored the PSBT it built for `s` and recorded it. -/
structure Creates (X : Extern) (network : Network) (p : Platform) (s : PsbtSession)
    (hash : PsbtHash) (psbt : Psbt) : Prop where
  hash_eq : hash = PsbtHash.digestOf X (X.serialize psbt)
  built : ∃ w descriptor utxos, p.wallets.findById s.walletId = .ok w ∧
    w.descriptor = some descriptor ∧
    buildUnsignedPsbt X s.spend descriptor utxos network = .ok psbt

/-- What a command or job does to the stores, and whether it returns `Ok`. -/
inductive Effect (X : Extern) (network : Network) (p : Platform) :
    Command → Bool → Platform → Prop
  /-- Nothing, apart from blobs that may have been put. -/
  | stored {c : Command} {ok : Bool} {blobs : BlobStore} (more : blobs.Extends p.blobs)
      (addressed : p.blobs.Addressed X → blobs.Addressed X) :
      Effect X network p c ok { p with blobs }
  | registered {id : WalletId} {threshold : UInt32} {participants : List UserId} {n : NewWallet}
      {w : Wallet} {wallets : Wallets}
      (accepted : NewWallet.new id network threshold participants = .ok n)
      (create : p.wallets.create n = .ok (w, wallets)) :
      Effect X network p (.registerWallet id threshold participants) true { p with wallets }
  | keystores {c : Command} {id : WalletId} {w : Wallet} {command : WalletCommand}
      {wallets : Wallets} (found : p.wallets.findById id = .ok w)
      (update : p.wallets.update (w.apply X command).2 = .ok wallets) :
      Effect X network p c true { p with wallets }
  | proposed {id : PsbtSessionId} {walletId : WalletId} {proposedBy : UserId} {spend : SpendSpec}
      {w : Wallet} {n : NewPsbtSession} {s : PsbtSession} {sessions : PsbtSessions}
      (found : p.wallets.findById walletId = .ok w)
      (accepted : NewPsbtSession.tryNew X id w proposedBy spend = .ok n)
      (create : p.sessions.create n = .ok (s, sessions)) :
      Effect X network p (.proposeSpend id walletId proposedBy spend) true { p with sessions }
  | created {c : Command} {id : PsbtSessionId} {s : PsbtSession} {hash : PsbtHash} {psbt : Psbt}
      {sessions : PsbtSessions} (found : p.sessions.findById id = .ok s)
      (creates : Creates X network p s hash psbt)
      (update : p.sessions.update (s.apply (.recordPsbtCreated hash)).2 = .ok sessions) :
      Effect X network p c true
        { p with sessions, blobs := (p.blobs.put X (X.serialize psbt)).2 }
  | signed {id : PsbtSessionId} {user : UserId} {bytes : Bytes} {s : PsbtSession}
      {fingerprint : KeyFingerprint} {merged : Psbt} {sessions : PsbtSessions}
      (found : p.sessions.findById id = .ok s)
      (checked : Coordination.checkSubmission X p.wallets p.blobs s user bytes =
        .ok (fingerprint, merged))
      (update : p.sessions.update (s.apply (.addSignature fingerprint
        (PsbtHash.digestOf X (X.serialize merged)))).2 = .ok sessions) :
      Effect X network p (.submitSignedPsbt id user bytes) true
        { p with sessions, blobs := (p.blobs.put X (X.serialize merged)).2 }
  | finalized {c : Command} {id : PsbtSessionId} {s : PsbtSession} {txid : Txid} {hash : PsbtHash}
      {sigsUsed : List KeyFingerprint} {blobs : BlobStore} {sessions : PsbtSessions}
      (found : p.sessions.findById id = .ok s) (more : blobs.Extends p.blobs)
      (addressed : p.blobs.Addressed X → blobs.Addressed X)
      (update : p.sessions.update (s.apply (.finalize txid hash sigsUsed)).2 = .ok sessions) :
      Effect X network p c true { p with sessions, blobs }

variable {p : Platform}

/-- Nothing happened at all. -/
theorem Effect.refl (c : Command) (ok : Bool) : Effect X network p c ok p :=
  .stored (BlobStore.Extends.refl _) id

theorem registerWallet_effect (id : WalletId) (threshold : UInt32) (participants : List UserId) :
    Effect X network p (.registerWallet id threshold participants)
      (Coordination.registerWallet p.wallets network id threshold participants).1.isOk
      { p with
        wallets := (Coordination.registerWallet p.wallets network id threshold participants).2 } := by
  unfold Coordination.registerWallet
  split
  · exact .refl _ _
  · rename_i n hn
    split
    · exact .refl _ _
    · rename_i w wallets hc
      exact .registered hn hc

/-- What the use cases on a wallet have in common: load, apply, write back. They differ in what
they make of a write that fails. -/
def applyToWallet (X : Extern) (wallets : Wallets) (walletId : WalletId) (command : WalletCommand)
    (failed : Wallet → ModifyError → Except CoordinationError Wallet) :
    Except CoordinationError Wallet × Wallets :=
  match wallets.findById walletId with
  | .error e => (.error (.walletFind e), wallets)
  | .ok wallet =>
    match wallet.apply X command with
    | (.error e, _) => (.error (.wallet e), wallets)
    | (.ok applied, wallet) =>
      if applied.wasAlreadyApplied then (.ok wallet, wallets)
      else match wallets.update wallet with
        | .error e => (failed wallet e, wallets)
        | .ok wallets => (.ok wallet, wallets)

theorem applyToWallet_effect (c : Command) (walletId : WalletId) (command : WalletCommand)
    (failed : Wallet → ModifyError → Except CoordinationError Wallet) :
    Effect X network p c (applyToWallet X p.wallets walletId command failed).1.isOk
      { p with wallets := (applyToWallet X p.wallets walletId command failed).2 } := by
  unfold applyToWallet
  split
  · exact .refl _ _
  · rename_i w hw
    split
    · exact .refl _ _
    · rename_i applied w' happly
      split
      · exact .refl _ _
      · split
        · exact .refl _ _
        · rename_i wallets hu
          have hw' : (w.apply X command).2 = w' := congrArg Prod.snd happly
          exact .keystores hw (hw' ▸ hu)

theorem submitKeystore_effect (walletId : WalletId) (submittedBy : UserId)
    (keystore : DescriptorPublicKey) :
    Effect X network p (.submitKeystore walletId submittedBy keystore)
      (Coordination.submitKeystore X p.wallets walletId submittedBy keystore).1.isOk
      { p with
        wallets := (Coordination.submitKeystore X p.wallets walletId submittedBy keystore).2 } :=
  applyToWallet_effect _ walletId (.addKeystore keystore submittedBy)
    (Coordination.resolveFingerprintCollision p.wallets)

theorem removeKeystore_effect (walletId : WalletId) (participant removedBy : UserId) :
    Effect X network p (.removeKeystore walletId participant removedBy)
      (Coordination.removeKeystore p.wallets walletId participant removedBy).1.isOk
      { p with
        wallets := (Coordination.removeKeystore p.wallets walletId participant removedBy).2 } :=
  applyToWallet_effect _ walletId (.removeKeystore participant removedBy)
    fun _ e => .error (.walletModify e)

theorem cancelWallet_effect (walletId : WalletId) (cancelledBy : UserId) (reason : String) :
    Effect X network p (.cancelWallet walletId cancelledBy reason)
      (Coordination.cancelWallet p.wallets walletId cancelledBy reason).1.isOk
      { p with
        wallets := (Coordination.cancelWallet p.wallets walletId cancelledBy reason).2 } :=
  applyToWallet_effect _ walletId (.cancel cancelledBy reason) fun _ e => .error (.walletModify e)

/-- What a proposal that is accepted creates. -/
theorem proposeSpend_eq_ok {wallets : Wallets} {sessions sessions' : PsbtSessions}
    {id : PsbtSessionId} {walletId : WalletId} {proposedBy : UserId} {spend : SpendSpec}
    {s : PsbtSession}
    (h : Coordination.proposeSpend X wallets sessions id walletId proposedBy spend =
      (.ok s, sessions')) :
    ∃ w n, wallets.findById walletId = .ok w ∧
      NewPsbtSession.tryNew X id w proposedBy spend = .ok n ∧
      sessions.create n = .ok (s, sessions') := by
  unfold Coordination.proposeSpend at h
  split at h
  · exact absurd (Prod.mk.inj h).1 (by simp)
  rename_i w hw
  split at h
  · exact absurd (Prod.mk.inj h).1 (by simp)
  rename_i n hn
  split at h
  · exact absurd (Prod.mk.inj h).1 (by simp)
  rename_i s' sessions'' hc
  obtain ⟨hs, rfl⟩ := Prod.mk.inj h
  obtain rfl := Except.ok.inj hs
  exact ⟨w, n, hw, hn, hc⟩

theorem proposeSpend_effect (id : PsbtSessionId) (walletId : WalletId) (proposedBy : UserId)
    (spend : SpendSpec) :
    Effect X network p (.proposeSpend id walletId proposedBy spend)
      (Coordination.proposeSpend X p.wallets p.sessions id walletId proposedBy spend).1.isOk
      { p with sessions :=
        (Coordination.proposeSpend X p.wallets p.sessions id walletId proposedBy spend).2 } := by
  unfold Coordination.proposeSpend
  split
  · exact .refl _ _
  · rename_i w hw
    split
    · exact .refl _ _
    · rename_i n hn
      split
      · exact .refl _ _
      · rename_i s sessions hc
        exact .proposed hw hn hc

theorem submitSignedPsbt_effect (id : PsbtSessionId) (user : UserId) (bytes : Bytes) :
    Effect X network p (.submitSignedPsbt id user bytes)
      (Coordination.submitSignedPsbt X p.wallets p.sessions p.blobs id user bytes).1.isOk
      { p with
        sessions :=
          (Coordination.submitSignedPsbt X p.wallets p.sessions p.blobs id user bytes).2.1
        blobs :=
          (Coordination.submitSignedPsbt X p.wallets p.sessions p.blobs id user bytes).2.2 } := by
  unfold Coordination.submitSignedPsbt Coordination.submitWork
  split
  · exact .refl _ _
  · rename_i s hs
    cases hcheck : Coordination.checkSubmission X p.wallets p.blobs s user bytes with
    | error e => exact .refl _ _
    | ok r =>
      obtain ⟨fingerprint, merged⟩ := r
      have hput : ∀ ok : Bool, Effect X network p (.submitSignedPsbt id user bytes) ok
          { p with blobs := (p.blobs.put X (X.serialize merged)).2 } := fun ok =>
        .stored (BlobStore.put_extends _ _) fun h => h.put _
      dsimp only
      cases happly : s.addSignature fingerprint (p.blobs.put X (X.serialize merged)).1 with
      | mk answer s' =>
        cases answer with
        | error e => exact hput _
        | ok applied =>
          cases applied with
          | alreadyApplied => exact hput _
          | executed u =>
            simp only [Idempotent.didExecute, if_true]
            cases hu : p.sessions.update s' with
            | error e => exact hput _
            | ok sessions =>
              have hs' : (s.apply (.addSignature fingerprint
                  (PsbtHash.digestOf X (X.serialize merged)))).2 = s' := congrArg Prod.snd happly
              exact .signed hs hcheck (hs' ▸ hu)

/-- What the work of `run_psbt_creation` leaves to persist. -/
theorem createPsbt_eq_persist {wallets : Wallets} {blobs blobs' : BlobStore}
    {funding : FundingUtxoProvider} {s s' : PsbtSession} {hash : PsbtHash}
    (h : createPsbt X wallets blobs funding network s = (.ok (.persist hash s'), blobs')) :
    s.unsignedPsbtHash = none ∧ ∃ w descriptor utxos psbt, wallets.findById s.walletId = .ok w ∧
      w.descriptor = some descriptor ∧ funding w s.spend.inputs = .ok utxos ∧
      buildUnsignedPsbt X s.spend descriptor utxos network = .ok psbt ∧
      (hash, blobs') = blobs.put X (X.serialize psbt) ∧
      ∃ applied, s.recordPsbtCreated hash = (.ok applied, s') := by
  have hout := createPsbt_outcome X network wallets blobs funding s
  rw [h] at hout
  clear h
  cases hout with
  | built hnone hw hutxos hdescriptor hbuilt happly =>
    exact ⟨hnone, _, _, _, _, hw, hdescriptor, hutxos, hbuilt, rfl, _, happly⟩

/-- What is persisted is the session without a PSBT, with one recorded. -/
theorem recordPsbtCreated_of_persist {wallets : Wallets} {blobs : BlobStore}
    {funding : FundingUtxoProvider} {s s' : PsbtSession} {hash : PsbtHash}
    (h : (createPsbt X wallets blobs funding network s).1 = .ok (.persist hash s')) :
    s.unsignedPsbtHash = none ∧ ∃ applied, s.recordPsbtCreated hash = (.ok applied, s') := by
  obtain ⟨hnone, _, _, _, _, -, -, -, -, -, hr⟩ := createPsbt_eq_persist (Prod.ext h rfl)
  exact ⟨hnone, hr⟩

/-- Whatever comes of the work, it only puts blobs. -/
theorem createPsbt_blobs {wallets : Wallets} {blobs : BlobStore} {funding : FundingUtxoProvider}
    {s : PsbtSession} :
    (createPsbt X wallets blobs funding network s).2.Extends blobs ∧
      (blobs.Addressed X →
        (createPsbt X wallets blobs funding network s).2.Addressed X) := by
  have hsame : blobs.Extends blobs ∧ (blobs.Addressed X → blobs.Addressed X) :=
    ⟨BlobStore.Extends.refl _, id⟩
  have hout := createPsbt_outcome X network wallets blobs funding s
  generalize createPsbt X wallets blobs funding network s = out at hout ⊢
  cases hout with
  | unrecorded | built => exact ⟨BlobStore.put_extends _ _, fun h => h.put _⟩
  | _ => exact hsame

theorem runPsbtCreation_effect (id : PsbtSessionId) (funding : FundingUtxoProvider) :
    Effect X network p (.runPsbtCreation id funding)
      (runPsbtCreation X p.sessions p.wallets p.blobs funding network id).1.isOk
      { p with
        sessions := (runPsbtCreation X p.sessions p.wallets p.blobs funding network id).2.1
        blobs := (runPsbtCreation X p.sessions p.wallets p.blobs funding network id).2.2 } := by
  unfold runPsbtCreation
  split
  · exact .refl _ _
  · rename_i s hs
    obtain ⟨hmore, haddressed⟩ := @createPsbt_blobs X network p.wallets p.blobs funding s
    cases hwork : createPsbt X p.wallets p.blobs funding network s with
    | mk work blobs =>
      rw [hwork] at hmore haddressed
      rcases work with e | (hash | ⟨hash, s'⟩)
      · exact .stored hmore haddressed
      · exact .stored hmore haddressed
      · obtain ⟨-, w, descriptor, utxos, psbt, hw, hdescriptor, -, hbuilt, hput, applied, happly⟩ :=
          createPsbt_eq_persist hwork
        have hs' : (s.apply (.recordPsbtCreated hash)).2 = s' := congrArg Prod.snd happly
        obtain ⟨rfl, rfl⟩ := Prod.mk.inj hput
        simp only [PsbtSessions.persist]
        cases hu : p.sessions.update s' with
        | error e => exact .stored hmore haddressed
        | ok sessions =>
          exact .created hs ⟨rfl, w, descriptor, utxos, hw, hdescriptor, hbuilt⟩ (hs' ▸ hu)

/-- What the loop of `run_finalization` leaves to persist, and that it only puts blobs. -/
theorem finalizeLoop_spec {blobs : BlobStore} {s : PsbtSession} {unsigned combined : Psbt}
    {sigsUsed : List KeyFingerprint} {records : List SignatureRecord} :
    (finalizeLoop X blobs s unsigned combined sigsUsed records).2.Extends blobs ∧
    (blobs.Addressed X →
      (finalizeLoop X blobs s unsigned combined sigsUsed records).2.Addressed X) ∧
    ∀ txid s', (finalizeLoop X blobs s unsigned combined sigsUsed records).1 =
      .ok (.persist txid s') →
      ∃ hash sigs applied, s.finalize txid hash sigs = (.ok applied, s') := by
  have hout := finalizeLoop_outcome X blobs s unsigned records combined sigsUsed
  generalize finalizeLoop X blobs s unsigned combined sigsUsed records = out at hout ⊢
  cases hout with
  | failed => exact ⟨BlobStore.Extends.refl _, id, fun _ _ h => absurd h (by simp)⟩
  | refused => exact ⟨BlobStore.put_extends _ _, fun h => h.put _, fun _ _ h => absurd h (by simp)⟩
  | recorded happly =>
    refine ⟨BlobStore.put_extends _ _, fun h => h.put _, fun txid s' h => ?_⟩
    obtain ⟨rfl, rfl⟩ := Work.persist.inj (Except.ok.inj h)
    exact ⟨_, _, _, happly⟩

theorem finalizeSession_spec {blobs : BlobStore} {s : PsbtSession} :
    (finalizeSession X blobs s).2.Extends blobs ∧
    (blobs.Addressed X → (finalizeSession X blobs s).2.Addressed X) ∧
    ∀ txid s', (finalizeSession X blobs s).1 = .ok (.persist txid s') →
      ∃ hash sigs applied, s.finalize txid hash sigs = (.ok applied, s') := by
  have hout := finalizeSession_outcome X blobs s
  generalize finalizeSession X blobs s = out at hout ⊢
  cases hout with
  | looped => exact finalizeLoop_spec
  | _ => exact ⟨BlobStore.Extends.refl _, id, fun _ _ h => absurd h (by simp)⟩

theorem runFinalization_effect (id : PsbtSessionId) :
    Effect X network p (.runFinalization id) (runFinalization X p.sessions p.blobs id).1.isOk
      { p with
        sessions := (runFinalization X p.sessions p.blobs id).2.1
        blobs := (runFinalization X p.sessions p.blobs id).2.2 } := by
  unfold runFinalization
  split
  · exact .refl _ _
  · rename_i s hs
    obtain ⟨hmore, haddressed, hpersist⟩ := @finalizeSession_spec X p.blobs s
    cases hwork : finalizeSession X p.blobs s with
    | mk work blobs =>
      rw [hwork] at hmore haddressed hpersist
      rcases work with e | (txid | ⟨txid, s'⟩)
      · exact .stored hmore haddressed
      · exact .stored hmore haddressed
      · obtain ⟨hash, sigs, applied, happly⟩ := hpersist txid s' rfl
        have hs' : (s.apply (.finalize txid hash sigs)).2 = s' := congrArg Prod.snd happly
        simp only [PsbtSessions.persist]
        cases hu : p.sessions.update s' with
        | error e => exact .stored hmore haddressed
        | ok sessions => exact .finalized hs hmore haddressed (hs' ▸ hu)

/-- **All a command or job can do to the stores.** -/
theorem exec_effect (X : Extern) (network : Network) (p : Platform) (c : Command) :
    Effect X network p c (p.exec X network c).1 (p.exec X network c).2 := by
  cases c with
  | registerWallet id threshold participants => exact registerWallet_effect id threshold participants
  | submitKeystore walletId user keystore => exact submitKeystore_effect walletId user keystore
  | removeKeystore walletId participant user => exact removeKeystore_effect walletId participant user
  | cancelWallet walletId user reason => exact cancelWallet_effect walletId user reason
  | proposeSpend id walletId user spend => exact proposeSpend_effect id walletId user spend
  | submitSignedPsbt id user bytes => exact submitSignedPsbt_effect id user bytes
  | runPsbtCreation id funding => exact runPsbtCreation_effect id funding
  | runFinalization id => exact runFinalization_effect id

/-! ## What stays -/

/-- `p'` came after `p`: active wallets are as they were, and no blob is gone. -/
structure Later (X : Extern) (p' p : Platform) : Prop where
  wallets : ∀ id w, p.wallets.Row X id w → w.status = .active → p'.wallets.Row X id w
  blobs : p'.blobs.Extends p.blobs

theorem Later.of_wallets_eq {p' : Platform} (hw : p'.wallets = p.wallets)
    (hb : p'.blobs.Extends p.blobs) : Later X p' p :=
  ⟨fun _ _ h _ => hw ▸ h, hb⟩

/-- **An active wallet is frozen**, whatever command another writer runs. -/
theorem later_of_update {wallets : Wallets} {id : WalletId} {w : Wallet} {c : WalletCommand}
    (hrow : p.wallets.Row X id w) (hu : p.wallets.update (w.apply X c).2 = .ok wallets) :
    Later X { p with wallets } p := by
  refine ⟨fun id' w' h' hactive => h'.congr ?_, BlobStore.Extends.refl _⟩
  show wallets.find? id' = p.wallets.find? id'
  rw [hrow.find?_update c hu]
  split
  · rename_i hid
    subst hid
    obtain rfl := Except.ok.inj (hrow.found.symm.trans h'.found)
    rw [Wallet.apply_frozen (by simp [hactive]), hrow.log_eq]
  · rfl

theorem Effect.later {p' : Platform} {c : Command} {ok : Bool}
    (h : Effect X network p c ok p') (hsound : p.wallets.Sound X) : Later X p' p := by
  cases h with
  | stored more => exact .of_wallets_eq rfl more
  | registered accepted create =>
    refine ⟨fun id w hrow _ => hrow.congr ?_, BlobStore.Extends.refl _⟩
    obtain ⟨-, hnone, hfind⟩ := Wallets.create_spec create
    show Store.find? _ id = _
    rw [hfind]
    split
    · rename_i hid
      rw [← hid, hrow.log_eq] at hnone
      exact absurd hnone (by simp)
    · rfl
  | keystores found update => exact later_of_update (hsound.row found) update
  | proposed => exact .of_wallets_eq rfl (BlobStore.Extends.refl _)
  | created => exact .of_wallets_eq rfl (BlobStore.put_extends _ _)
  | signed => exact .of_wallets_eq rfl (BlobStore.put_extends _ _)
  | finalized found more => exact .of_wallets_eq rfl more

theorem Effect.addressed {p' : Platform} {c : Command} {ok : Bool}
    (h : Effect X network p c ok p') (ha : p.blobs.Addressed X) : p'.blobs.Addressed X := by
  cases h with
  | stored _ addressed => exact addressed ha
  | registered | keystores | proposed => exact ha
  | created => exact ha.put _
  | signed => exact ha.put _
  | finalized _ _ addressed => exact addressed ha

theorem Effect.wallets_sound {p' : Platform} {c : Command} {ok : Bool}
    (h : Effect X network p c ok p') (hs : p.wallets.Sound X) : p'.wallets.Sound X := by
  cases h with
  | registered accepted create => exact hs.create accepted create
  | keystores found update => exact hs.update (hs.row found) _ update
  | stored | proposed | created | signed | finalized => exact hs

theorem Effect.sessions_sound {p' : Platform} {c : Command} {ok : Bool}
    (h : Effect X network p c ok p') (hw : p.wallets.Sound X) (hs : p.sessions.Sound) :
    p'.sessions.Sound := by
  cases h with
  | proposed found accepted create =>
    exact hs.create (PsbtSession.loaded_proposed (hw.row found).inv accepted) create
  | created found _ update => exact hs.update (hs.row found) _ update
  | signed found _ update => exact hs.update (hs.row found) _ update
  | finalized found _ _ update => exact hs.update (hs.row found) _ update
  | stored | registered | keystores => exact hs

/-! ## What holds of every session -/

/-- `user` submitted `signed` for the session: the call returned `Ok`, the document validates
against the recorded unsigned PSBT `original` for the keystore of `user`, and what is stored at
`hash` is that document. -/
structure SubmittedBy (X : Extern) (network : Network) (cs : List Command) (p : Platform)
    (s : PsbtSession) (fingerprint : KeyFingerprint) (hash : PsbtHash) (user : UserId)
    (original signed : Psbt) : Prop where
  call : ∃ pre bytes post, cs = pre ++ .submitSignedPsbt s.id user bytes :: post ∧
    ((empty.run X network pre).exec X network (.submitSignedPsbt s.id user bytes)).1 = true ∧
    parsePsbt X bytes = .ok signed
  bound : ∃ w, p.wallets.Row X s.walletId w ∧ w.status = .active ∧
    w.keystoreFingerprintOf X user = some fingerprint
  unsigned : ∃ unsignedHash bytes, .psbtCreated unsignedHash ∈ s.log ∧
    (unsignedHash, bytes) ∈ p.blobs.entries ∧ parsePsbt X bytes = .ok original
  acceptable : Acceptable X original signed fingerprint
  stored : (hash, X.serialize signed) ∈ p.blobs.entries

/-- What a session has to do with its wallet, its blobs and the commands so far. -/
structure SessionInv (X : Extern) (network : Network) (cs : List Command) (p : Platform)
    (s : PsbtSession) : Prop where
  wallet : ∃ w, p.wallets.Row X s.walletId w ∧ w.status = .active ∧ s.threshold = w.threshold ∧
    s.keystores = w.keystores.map (keystoreFingerprint X)
  spends : s.spend.inputs ≠ []
  created : ∀ hash, .psbtCreated hash ∈ s.log → ∃ psbt w descriptor utxos,
    p.wallets.Row X s.walletId w ∧ w.descriptor = some descriptor ∧
    buildUnsignedPsbt X s.spend descriptor utxos network = .ok psbt ∧
    (hash, X.serialize psbt) ∈ p.blobs.entries
  signed : ∀ fingerprint hash, .signatureAdded fingerprint hash ∈ s.log →
    ∃ user original signed,
      SubmittedBy X network cs p s fingerprint hash user original signed

/-- `s'` is `s`, with its log grown by `es`. -/
structure Grown (s' s : PsbtSession) (es : List PsbtSessionEvent) : Prop where
  id : s'.id = s.id
  walletId : s'.walletId = s.walletId
  spend : s'.spend = s.spend
  threshold : s'.threshold = s.threshold
  keystores : s'.keystores = s.keystores
  log : s'.log = s.log ++ es

theorem Grown.refl (s : PsbtSession) : Grown s s [] :=
  ⟨rfl, rfl, rfl, rfl, rfl, (List.append_nil _).symm⟩

theorem Grown.trans {s'' s' s : PsbtSession} {es' es : List PsbtSessionEvent}
    (h' : Grown s'' s' es') (h : Grown s' s es) : Grown s'' s (es ++ es') where
  id := h'.id.trans h.id
  walletId := h'.walletId.trans h.walletId
  spend := h'.spend.trans h.spend
  threshold := h'.threshold.trans h.threshold
  keystores := h'.keystores.trans h.keystores
  log := by rw [h'.log, h.log, List.append_assoc]

theorem SubmittedBy.mono {cs : List Command} {p' : Platform} {s s' : PsbtSession}
    {es : List PsbtSessionEvent} {fingerprint : KeyFingerprint} {hash : PsbtHash} {user : UserId}
    {original signed : Psbt}
    (h : SubmittedBy X network cs p s fingerprint hash user original signed)
    (hl : Later X p' p) (hg : Grown s' s es) (c : Command) :
    SubmittedBy X network (cs ++ [c]) p' s' fingerprint hash user original signed := by
  obtain ⟨⟨pre, bytes, post, hcs, hok, hparse⟩, ⟨w, hw, hactive, hfp⟩,
    ⟨uh, ub, hcreated, hstored, hub⟩, hacc, hsigned⟩ := h
  refine ⟨⟨pre, bytes, post ++ [c], ?_, ?_, hparse⟩, ⟨w, ?_, hactive, hfp⟩,
    ⟨uh, ub, ?_, hl.blobs.mem hstored, hub⟩, hacc, hl.blobs.mem hsigned⟩
  · rw [hcs, hg.id, List.append_assoc, List.cons_append]
  · rw [hg.id]
    exact hok
  · rw [hg.walletId]
    exact hl.wallets _ _ hw hactive
  · rw [hg.log]
    exact List.mem_append_left _ hcreated

/-- A session whose log grew, with what the invariant says about the new events. -/
theorem SessionInv.grow {cs : List Command} {p' : Platform} {s s' : PsbtSession}
    {es : List PsbtSessionEvent} (h : SessionInv X network cs p s) (hl : Later X p' p)
    (hg : Grown s' s es) (c : Command)
    (hcreated : ∀ hash, .psbtCreated hash ∈ es → ∃ psbt w descriptor utxos,
      p'.wallets.Row X s.walletId w ∧ w.descriptor = some descriptor ∧
      buildUnsignedPsbt X s.spend descriptor utxos network = .ok psbt ∧
      (hash, X.serialize psbt) ∈ p'.blobs.entries)
    (hsigned : ∀ fingerprint hash, .signatureAdded fingerprint hash ∈ es →
      ∃ user original signed,
        SubmittedBy X network (cs ++ [c]) p' s' fingerprint hash user original signed) :
    SessionInv X network (cs ++ [c]) p' s' := by
  obtain ⟨w, hw, hactive, hthreshold, hkeystores⟩ := h.wallet
  refine ⟨⟨w, ?_, hactive, ?_, ?_⟩, hg.spend ▸ h.spends, fun hash hm => ?_, fun fp hash hm => ?_⟩
  · rw [hg.walletId]
    exact hl.wallets _ _ hw hactive
  · rw [hg.threshold, hthreshold]
  · rw [hg.keystores, hkeystores]
  · rw [hg.walletId, hg.spend]
    rw [hg.log] at hm
    rcases List.mem_append.mp hm with hm | hm
    · obtain ⟨psbt, w', d, utxos, hw', hd, hbuilt, hstored⟩ := h.created hash hm
      obtain rfl := Except.ok.inj (hw'.found.symm.trans hw.found)
      exact ⟨psbt, w', d, utxos, hl.wallets _ _ hw' hactive, hd, hbuilt, hl.blobs.mem hstored⟩
    · exact hcreated hash hm
  · rw [hg.log] at hm
    rcases List.mem_append.mp hm with hm | hm
    · obtain ⟨user, original, signed, hsub⟩ := h.signed fp hash hm
      exact ⟨user, original, signed, hsub.mono hl hg c⟩
    · exact hsigned fp hash hm

/-- A session that did not change. -/
theorem SessionInv.mono {cs : List Command} {p' : Platform} {s : PsbtSession}
    (h : SessionInv X network cs p s) (hl : Later X p' p) (c : Command) :
    SessionInv X network (cs ++ [c]) p' s :=
  h.grow hl (Grown.refl s) c (fun _ hm => absurd hm List.not_mem_nil)
    fun _ _ hm => absurd hm List.not_mem_nil

/-- What a run of commands from empty stores leaves. -/
structure Inv (X : Extern) (network : Network) (cs : List Command) (p : Platform) : Prop where
  wallets : p.wallets.Sound X
  sessions : p.sessions.Sound
  addressed : p.blobs.Addressed X
  linked : ∀ id s, p.sessions.Row id s → SessionInv X network cs p s

theorem inv_empty (X : Extern) (network : Network) : Inv X network [] empty where
  wallets := Wallets.sound_empty
  sessions := PsbtSessions.sound_empty
  addressed := BlobStore.addressed_empty
  linked id s hrow := by
    have := hrow.log_eq
    exact absurd this (by simp [empty])

/-- A session with one more event, as it is loaded again. -/
theorem grown_record (s : PsbtSession) (e : PsbtSessionEvent) :
    Grown { s.record e with events := .load s.id (s.record e).log } s [e] where
  id := PsbtSession.record_id s e
  walletId := PsbtSession.record_walletId s e
  spend := PsbtSession.record_spend s e
  threshold := PsbtSession.record_threshold s e
  keystores := PsbtSession.record_keystores s e
  log := (EntityEvents.iterAll_load s.id _).trans (PsbtSession.record_log s e)

/-- The rows of a table in which one command's result was written back. -/
theorem row_of_update {sessions : PsbtSessions} {id : PsbtSessionId} {s : PsbtSession}
    {c : PsbtSessionCommand} (hrow : p.sessions.Row id s)
    (hu : p.sessions.update (s.apply c).2 = .ok sessions) {id' : PsbtSessionId}
    {s' : PsbtSession} (hrow' : sessions.Row id' s') :
    p.sessions.Row id' s' ∨ ∃ es, Grown s' s es ∧ ∀ e ∈ es, PsbtSession.Step s c e := by
  by_cases hid : id' = id
  · subst hid
    have hnew := hrow.update c hu
    obtain rfl := Except.ok.inj (hrow'.found.symm.trans hnew.found)
    refine Or.inr ?_
    have hid := hrow.id_eq
    subst hid
    rcases PsbtSession.apply_spec s c with ⟨e, hstep, he⟩ | ⟨-, he⟩
    · refine ⟨[e], ?_, fun x hx => ?_⟩
      · rw [he]
        exact grown_record s e
      · obtain rfl := List.mem_singleton.mp hx
        exact hstep
    · refine ⟨[], ?_, fun x hx => absurd hx List.not_mem_nil⟩
      rw [he, ← hrow.events_eq]
      exact Grown.refl s
  · have hfind := hrow.find?_update c hu id'
    rw [if_neg hid] at hfind
    exact Or.inl (hrow'.congr hfind.symm)

/-- What the checks of `submit_signed_psbt` establish. -/
theorem checkSubmission_eq_ok {wallets : Wallets} {blobs : BlobStore} {s : PsbtSession}
    {user : UserId} {bytes : Bytes} {fingerprint : KeyFingerprint} {merged : Psbt}
    (h : Coordination.checkSubmission X wallets blobs s user bytes = .ok (fingerprint, merged)) :
    ∃ w unsignedHash unsignedBytes original, wallets.findById s.walletId = .ok w ∧
      w.keystoreFingerprintOf X user = some fingerprint ∧
      s.unsignedPsbtHash = some unsignedHash ∧
      blobs.fetchVerified X unsignedHash = .ok unsignedBytes ∧
      parsePsbt X unsignedBytes = .ok original ∧ parsePsbt X bytes = .ok merged ∧
      Acceptable X original merged fingerprint := by
  unfold Coordination.checkSubmission at h
  split at h
  · exact absurd h (by simp)
  rename_i w hw
  split at h
  · exact absurd h (by simp)
  rename_i fp hfp
  split at h
  · exact absurd h (by simp)
  rename_i uh huh
  split at h
  · exact absurd h (by simp)
  rename_i ub hub
  split at h
  · exact absurd h (by simp)
  rename_i original horiginal
  split at h
  · exact absurd h (by simp)
  rename_i signed hsigned
  split at h
  · exact absurd h (by simp)
  rename_i extracted hvalid
  obtain ⟨rfl, rfl⟩ := Prod.mk.inj (Except.ok.inj h)
  obtain ⟨hacc, rfl⟩ := validateSignedSubmission_eq_ok_iff.mp hvalid
  rw [mergePartialSigs_eq hacc]
  exact ⟨w, uh, ub, original, hw, hfp, huh, hub, horiginal, hsigned, hacc⟩

theorem run_concat (p : Platform) (cs : List Command) (c : Command) :
    p.run X network (cs ++ [c]) = ((p.run X network cs).exec X network c).2 := by
  simp [run]

/-- A session that was just proposed. -/
theorem SessionInv.proposed {cs : List Command} {id : PsbtSessionId} {w : Wallet}
    {proposedBy : UserId} {spend : SpendSpec} {n : NewPsbtSession} {s : PsbtSession}
    (hw : p.wallets.Row X w.id w) (hn : NewPsbtSession.tryNew X id w proposedBy spend = .ok n)
    (hg : Grown s n.proposed []) : SessionInv X network cs p s := by
  obtain ⟨hactive, hvalid, rfl⟩ := NewPsbtSession.tryNew_eq_ok_iff.mp hn
  refine ⟨⟨w, ?_, hactive, hg.threshold, hg.keystores⟩, ?_, fun hash hm => ?_, fun fp hash hm => ?_⟩
  · rw [hg.walletId]
    exact hw
  · rw [hg.spend]
    exact NewPsbtSession.inputs_ne_nil hvalid
  · rw [hg.log] at hm
    exact absurd hm (by simp)
  · rw [hg.log] at hm
    exact absurd hm (by simp)

/-- **One command keeps the invariant.** -/
theorem Inv.step {cs : List Command} (h : Inv X network cs (empty.run X network cs))
    (c : Command) : Inv X network (cs ++ [c]) (empty.run X network (cs ++ [c])) := by
  rw [run_concat]
  have heffect := exec_effect X network (empty.run X network cs) c
  generalize hp : empty.run X network cs = p at *
  generalize hok : (p.exec X network c).1 = ok at *
  generalize (p.exec X network c).2 = p' at *
  have hlater := heffect.later h.wallets
  refine ⟨heffect.wallets_sound h.wallets, heffect.sessions_sound h.wallets h.sessions,
    heffect.addressed h.addressed, fun id s hrow => ?_⟩
  cases heffect with
  | stored | registered | keystores => exact (h.linked id s hrow).mono hlater _
  | proposed found accepted create =>
    rename_i _ _ _ _ w n _ _
    obtain ⟨-, -, hfind⟩ := PsbtSessions.create_spec create
    by_cases hid : id = n.id
    · have hw := h.wallets.row found
      have hloaded := PsbtSession.loaded_proposed hw.inv accepted
      subst hid
      have hlog := hfind n.id
      rw [if_pos rfl] at hlog
      have hnew := PsbtSessions.row_of_log (PsbtSession.Grammatical.proposed hloaded) hlog
      obtain rfl := Except.ok.inj (hrow.found.symm.trans hnew.found)
      exact .proposed (hw.id_eq ▸ hw) accepted ⟨rfl, rfl, rfl, rfl, rfl, rfl⟩
    · have hold := hfind id
      rw [if_neg hid] at hold
      exact (h.linked id s (hrow.congr hold.symm)).mono hlater _
  | created found creates update =>
    rename_i s₀ hash psbt sessions
    have hrow₀ := h.sessions.row found
    rcases row_of_update hrow₀ update hrow with hold | ⟨es, hg, hes⟩
    · exact (h.linked id s hold).mono hlater c
    · refine (h.linked _ s₀ hrow₀).grow hlater hg c (fun hash' hm => ?_) fun fp hash' hm => ?_
      · obtain ⟨w, d, utxos, hw, hd, hbuilt⟩ := creates.built
        cases hes _ hm
        refine ⟨psbt, w, d, utxos, h.wallets.row hw, hd, hbuilt, ?_⟩
        rw [creates.hash_eq]
        exact List.mem_cons_self
      · cases hes _ hm
  | signed found checked update =>
    rename_i id₀ user bytes s₀ fp₀ merged sessions
    have hrow₀ := h.sessions.row found
    rcases row_of_update hrow₀ update hrow with hold | ⟨es, hg, hes⟩
    · exact (h.linked id s hold).mono hlater _
    · refine (h.linked _ s₀ hrow₀).grow hlater hg _ (fun hash' hm => ?_) fun fp hash' hm => ?_
      · cases hes _ hm
      · cases hes _ hm
        obtain ⟨w, uh, ub, original, hw, hfp, huh, hub, horiginal, hbytes, hacc⟩ :=
          checkSubmission_eq_ok checked
        obtain ⟨w', hw', hactive, -⟩ := (h.linked _ s₀ hrow₀).wallet
        obtain rfl := Except.ok.inj (hw.symm.trans hw'.found)
        refine ⟨user, original, merged, ⟨cs, bytes, [], ?_, ?_, hbytes⟩,
          ⟨w, ?_, hactive, hfp⟩, ⟨uh, ub, ?_, ?_, horiginal⟩, hacc, List.mem_cons_self⟩
        · rw [hg.id, hrow₀.id_eq]
        · rw [hp, hg.id, hrow₀.id_eq]
          exact hok
        · rw [hg.walletId]
          exact hlater.wallets _ _ hw' hactive
        · rw [hg.log]
          exact List.mem_append_left _ (hrow₀.grammatical.loaded.hydrates.psbtCreated_mem huh)
        · exact hlater.blobs.mem (BlobStore.fetchVerified_eq_ok hub).1
  | finalized found more addressed update =>
    rename_i s₀ txid hash sigsUsed blobs sessions
    have hrow₀ := h.sessions.row found
    rcases row_of_update hrow₀ update hrow with hold | ⟨es, hg, hes⟩
    · exact (h.linked id s hold).mono hlater c
    · refine (h.linked _ s₀ hrow₀).grow hlater hg c (fun hash' hm => ?_) fun fp hash' hm => ?_
      · cases hes _ hm
      · cases hes _ hm

/-- **Every run keeps the invariant.** -/
theorem inv_run (X : Extern) (network : Network) (cs : List Command) :
    Inv X network cs (empty.run X network cs) := by
  induction cs using List.reverseRecOn with
  | nil => exact inv_empty X network
  | append_singleton cs c ih => exact ih.step c

end Platform

/-! ## A signing round

Commands and documents over `Extern.sample` on which a run can be evaluated: one wallet, one
session that spends one coin, and whatever is submitted for it. -/

namespace Extern.Sample

/-- The coin that `soloSpend` spends, held by the keys with these points at index 0. -/
def coin (threshold : Nat) (points : List Nat) : FundingUtxo :=
  ⟨⟨⟨5⟩, 0⟩, ⟨1010, .p2wsh (wscriptHash (.multi threshold (points.map fun n => ⟨true, ⟨n⟩⟩)))⟩, 0⟩

/-- The PSBT that spends it from a wallet with these keys. -/
def unsigned (threshold : Nat) (keystores : List DescriptorPublicKey) (points : List Nat) : Psbt :=
  match buildUnsignedPsbt (.sample []) PsbtSession.soloSpend ⟨threshold, keystores⟩
      [coin threshold points] .bitcoin with
  | .ok psbt => psbt
  | .error _ => ⟨⟨2, 0, [], []⟩, 0, [], [], [], [], []⟩

/-- The document with a valid signature in every input, under the key of this point. -/
def addSignatures (psbt : Psbt) (compressed : Bool) (point : Nat) : Psbt :=
  { psbt with
    inputs := psbt.inputs.mapIdx fun i input => { input with
      partialSigs := input.partialSigs.insert ⟨compressed, ⟨point⟩⟩
        ⟨sign ⟨psbt.unsignedTx.output.length + 10 * i⟩ ⟨point⟩, .all⟩ } }

/-- Wallet 0 is registered and user `i` submits the `i`-th keystore; the spend is proposed as
session 0, its PSBT is built, and documents are submitted for it. -/
def round (threshold : UInt32) (keystores : List DescriptorPublicKey) (points : List Nat)
    (submissions : List (UserId × Bytes)) : List Command :=
  .registerWallet ⟨0⟩ threshold ((List.range keystores.length).map UserId.mk) ::
    (keystores.mapIdx fun i keystore => .submitKeystore ⟨0⟩ ⟨i⟩ keystore) ++
    [.proposeSpend ⟨0⟩ ⟨0⟩ ⟨0⟩ PsbtSession.soloSpend,
      .runPsbtCreation ⟨0⟩ fun _ _ => .ok [coin threshold.toNat points]] ++
    submissions.map fun s => .submitSignedPsbt ⟨0⟩ s.1 s.2

/-- The PSBT of a one-of-one wallet. -/
def soloUnsigned : Psbt := unsigned 1 [key 1] [10]

/-- The same with the signature, under the compressed or the uncompressed form of the key. -/
def soloSigned (compressed : Bool) : Psbt := addSignatures soloUnsigned compressed 10

/-- The round of a one-of-one wallet, up to the signature. -/
def soloRound : List Command := round 1 [key 1] [10] [(⟨0⟩, [1])]

/-- A digest of the small instance, of a blob of one byte. -/
def digestOfByte (b : UInt8) : PsbtHash := ⟨Vector.ofFn fun i => [b].getD i 0⟩

/-- The session that the round leaves. -/
def soloCollected : PsbtSession :=
  ⟨⟨0⟩, ⟨0⟩, ⟨0⟩, PsbtSession.soloSpend, some (digestOfByte 0), 1, [1], [⟨1, digestOfByte 1⟩], none,
    .load ⟨0⟩ [.initialized ⟨0⟩ ⟨0⟩ ⟨0⟩ PsbtSession.soloSpend 1 [1], .psbtCreated (digestOfByte 0),
      .signatureAdded 1 (digestOfByte 1)]⟩

/-- The PSBT of a two-of-two wallet, and the document of each signer. -/
def pairUnsigned : Psbt := unsigned 2 [key 1, key 2] [10, 20]

def pairDocs : List Psbt := [addSignatures pairUnsigned true 10, addSignatures pairUnsigned true 20]

/-- The round of a two-of-two wallet, up to the second signature. -/
def pairRound : List Command := round 2 [key 1, key 2] [10, 20] [(⟨0⟩, [1]), (⟨1⟩, [2])]

/-- The session that this round leaves. -/
def pairCollected : PsbtSession :=
  ⟨⟨0⟩, ⟨0⟩, ⟨0⟩, PsbtSession.soloSpend, some (digestOfByte 0), 2, [1, 2],
    [⟨1, digestOfByte 1⟩, ⟨2, digestOfByte 2⟩], none,
    .load ⟨0⟩ [.initialized ⟨0⟩ ⟨0⟩ ⟨0⟩ PsbtSession.soloSpend 2 [1, 2],
      .psbtCreated (digestOfByte 0), .signatureAdded 1 (digestOfByte 1),
      .signatureAdded 2 (digestOfByte 2)]⟩

/-- The digest of a final transaction with one input and one output. -/
def txDigest : PsbtHash := ⟨Vector.ofFn fun i => [(255 : UInt8), 1, 1].getD i 0⟩

end Extern.Sample

end Kota
