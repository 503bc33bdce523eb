import Kota.ActiveKeys
import Kota.Finalization

/-!
# Enough honest signers finalize a session

Quorum safety says what is behind a finalized session. This module says that one gets there. A
participant who is willing to sign (`Cosigner.Willing`) submits one honest document; everyone else,
the other participants included, may submit whatever the platform accepts, and any other command
may run in between.

* **`honest_quorum_finalizes`**: when as many willing participants as the threshold have submitted,
  in any order and among any other commands, one run of the finalization job leaves the session
  finalized, if the keys of the policy are apart and no stored blob outgrew the size cap.
* `length_of_covers`: documents that cover every input are at least as many as the threshold, when
  the keys are apart, since an accepted document provides one script key of an input at most. The
  search for the shortest covering list therefore never stops too early.
* `covers_of_team`: the documents of the willing cover every input, whatever else is on record.
-/

namespace Kota

open EventLog

variable {X : Extern} {network : Network}

/-! ## A session through any commands -/

/-- The session collects signatures, or is finalized. -/
def PsbtSession.Underway (s : PsbtSession) : Prop :=
  s.status = .collecting ∨ s.status = .finalized

namespace Platform

variable {p p' p'' : Platform} {id : PsbtSessionId} {s s' s'' : PsbtSession}

theorem Later.trans (h' : Later X p'' p') (h : Later X p' p) : Later X p'' p where
  wallets id w hrow hactive := h'.wallets id w (h.wallets id w hrow hactive) hactive
  blobs := h'.blobs.trans h.blobs

/-- One more event, of those that keep a session underway. -/
theorem Grown.underway {e : PsbtSessionEvent} (hg : Grown s' s [e]) (hs : s.status = .collecting)
    (he : e.status = none ∨ e.status = some .finalized) : s'.Underway := by
  have hstatus : s'.status = e.status.getD s.status := by
    unfold PsbtSession.status
    rw [hg.log, PsbtSessionStatus.ofLog_concat]
  unfold PsbtSession.Underway
  rw [hstatus]
  rcases he with he | he
  · rw [he]
    exact Or.inl hs
  · rw [he]
    exact Or.inr rfl

/-- `p'` came after `p`, and the session, which was underway, is. -/
structure Pursues (X : Extern) (p' p : Platform) (id : PsbtSessionId) (s' s : PsbtSession) :
    Prop where
  later : Later X p' p
  row : p'.sessions.Row id s'
  grown : ∃ es, Grown s' s es
  underway : s'.Underway
  settled : s.status = .finalized → s'.status = .finalized

theorem Pursues.refl (hrow : p.sessions.Row id s) (h : s.Underway) : Pursues X p p id s s :=
  ⟨.of_wallets_eq rfl (BlobStore.Extends.refl _), hrow, ⟨[], Grown.refl s⟩, h, fun h => h⟩

theorem Pursues.trans (h' : Pursues X p'' p' id s'' s') (h : Pursues X p' p id s' s) :
    Pursues X p'' p id s'' s where
  later := h'.later.trans h.later
  row := h'.row
  grown := by
    obtain ⟨es', hg'⟩ := h'.grown
    obtain ⟨es, hg⟩ := h.grown
    exact ⟨_, hg'.trans hg⟩
  underway := h'.underway
  settled hs := h'.settled (h.settled hs)

/-- Who has signed stays one who has. -/
theorem Pursues.signers (h : Pursues X p' p id s' s) (hrow : p.sessions.Row id s)
    {fingerprint : KeyFingerprint} (hfp : fingerprint ∈ s.signers) : fingerprint ∈ s'.signers := by
  obtain ⟨es, hg⟩ := h.grown
  obtain ⟨e, he, hsig⟩ := hrow.grammatical.loaded.hydrates.mem_signers.mp hfp
  refine h.row.grammatical.loaded.hydrates.mem_signers.mpr ⟨e, ?_, hsig⟩
  rw [hg.log]
  exact List.mem_append_left _ he

/-- What is left of a session when the result of some session's command was written back. -/
theorem pursues_update {sessions : PsbtSessions} {blobs : BlobStore} {id₀ : PsbtSessionId}
    {s₀ : PsbtSession} {c : PsbtSessionCommand} (hrow₀ : p.sessions.Row id₀ s₀)
    (hu : p.sessions.update (s₀.apply c).2 = .ok sessions) (more : blobs.Extends p.blobs)
    (hkept : ∀ e, PsbtSession.Step s₀ c e → s₀.Underway →
      s₀.status = .collecting ∧ (e.status = none ∨ e.status = some .finalized))
    (hrow : p.sessions.Row id s) (h : s.Underway) :
    ∃ s', Pursues X { p with sessions, blobs } p id s' s := by
  have hlater : Later X { p with sessions, blobs } p := .of_wallets_eq rfl more
  have hfind := hrow₀.find?_update c hu id
  by_cases hid : id = id₀
  · subst hid
    obtain rfl := Except.ok.inj (hrow₀.found.symm.trans hrow.found)
    have hnew := hrow₀.update c hu
    rcases PsbtSession.apply_spec s₀ c with ⟨e, hstep, he⟩ | ⟨-, he⟩
    · obtain ⟨hcollecting, hstatus⟩ := hkept e hstep h
      have hg := grown_record s₀ e
      rw [he] at hnew
      obtain rfl := hrow.id_eq
      exact ⟨_, hlater, hnew, ⟨[e], hg⟩, hg.underway hcollecting hstatus,
        fun hs => absurd (hcollecting.symm.trans hs) (by simp)⟩
    · rw [if_pos rfl, he, ← hrow₀.log_eq] at hfind
      exact ⟨s₀, hlater, hrow₀.congr hfind, ⟨[], Grown.refl s₀⟩, h, fun hs => hs⟩
  · rw [if_neg hid] at hfind
    exact ⟨s, hlater, hrow.congr hfind, ⟨[], Grown.refl s⟩, h, fun hs => hs⟩

/-- **One command** leaves a session underway that was. -/
theorem Effect.pursues {c : Command} {ok : Bool} (heffect : Effect X network p c ok p')
    (hw : p.wallets.Sound X) (hs : p.sessions.Sound) (hrow : p.sessions.Row id s)
    (h : s.Underway) : ∃ s', Pursues X p' p id s' s := by
  have hlater := heffect.later hw
  cases heffect with
  | stored | registered | keystores =>
    exact ⟨s, hlater, hrow, ⟨[], Grown.refl s⟩, h, fun hs => hs⟩
  | proposed found accepted create =>
    refine ⟨s, hlater, hrow.congr ?_, ⟨[], Grown.refl s⟩, h, fun hs => hs⟩
    obtain ⟨-, hnone, hfind⟩ := PsbtSessions.create_spec create
    rw [hfind, if_neg]
    rintro rfl
    rw [hrow.log_eq] at hnone
    exact absurd hnone (by simp)
  | created found creates update =>
    refine pursues_update (hs.row found) update (BlobStore.put_extends _ _)
      (fun e hstep hunder => ?_) hrow h
    cases hstep with
    | created hash once pending =>
      rcases hunder with hstatus | hstatus <;> exact absurd (pending.symm.trans hstatus) (by simp)
  | signed found checked update =>
    refine pursues_update (hs.row found) update (BlobStore.put_extends _ _)
      (fun e hstep _ => ?_) hrow h
    cases hstep with
    | signed fingerprint hash once collecting policy => exact ⟨collecting, Or.inl rfl⟩
  | finalized found more addressed update =>
    refine pursues_update (hs.row found) update more (fun e hstep _ => ?_) hrow h
    cases hstep with
    | finalized txid hash sigsUsed once collecting => exact ⟨collecting, Or.inr rfl⟩

theorem run_append (p : Platform) (cs ds : List Command) :
    p.run X network (cs ++ ds) = (p.run X network cs).run X network ds := by
  simp [run]

/-- **Any commands** leave a session underway that was. -/
theorem run_pursues {cs : List Command} (hrow : (empty.run X network cs).sessions.Row id s)
    (h : s.Underway) (ds : List Command) :
    ∃ s', Pursues X (empty.run X network (cs ++ ds)) (empty.run X network cs) id s' s := by
  induction ds using List.reverseRecOn with
  | nil =>
    rw [List.append_nil]
    exact ⟨s, .refl hrow h⟩
  | append_singleton ds c ih =>
    obtain ⟨s', hs'⟩ := ih
    have hinv := inv_run X network (cs ++ ds)
    rw [← List.append_assoc, run_concat]
    obtain ⟨s'', hs''⟩ := (exec_effect X network (empty.run X network (cs ++ ds)) c).pursues
      hinv.wallets hinv.sessions hs'.row hs'.underway
    exact ⟨s'', hs''.trans hs'⟩

/-! ## An accepted submission counts -/

/-- The checks of `submit_signed_psbt` pass on what `checkSubmission_eq_ok` says of them. -/
theorem checkSubmission_of_acceptable {wallets : Wallets} {blobs : BlobStore} {user : UserId}
    {bytes unsignedBytes : Bytes} {w : Wallet} {fingerprint : KeyFingerprint}
    {unsignedHash : PsbtHash} {original signed : Psbt}
    (hw : wallets.findById s.walletId = .ok w)
    (hfp : w.keystoreFingerprintOf X user = some fingerprint)
    (hhash : s.unsignedPsbtHash = some unsignedHash)
    (hfetch : blobs.fetchVerified X unsignedHash = .ok unsignedBytes)
    (horiginal : parsePsbt X unsignedBytes = .ok original)
    (hsigned : parsePsbt X bytes = .ok signed) (hacc : Acceptable X original signed fingerprint) :
    Coordination.checkSubmission X wallets blobs s user bytes = .ok (fingerprint, signed) := by
  unfold Coordination.checkSubmission
  rw [hw]
  dsimp only
  rw [hfp]
  dsimp only
  rw [hhash]
  dsimp only
  rw [hfetch]
  dsimp only
  rw [horiginal]
  dsimp only
  rw [hsigned]
  dsimp only
  rw [validateSignedSubmission_eq_ok_iff.mpr ⟨hacc, rfl⟩]
  dsimp only
  rw [mergePartialSigs_eq hacc]

/-- **A submission that passes its checks counts**: the keystore is among the signers when the call
returns, whether it was before or not. -/
theorem signers_submit (hrow : p.sessions.Row id s) (hcollecting : s.status = .collecting)
    {user : UserId} {bytes : Bytes} {fingerprint : KeyFingerprint} {merged : Psbt}
    (hpolicy : fingerprint ∈ s.keystores)
    (hcheck : Coordination.checkSubmission X p.wallets p.blobs s user bytes =
      .ok (fingerprint, merged))
    (hnext : Pursues X (p.exec X network (.submitSignedPsbt id user bytes)).2 p id s' s) :
    fingerprint ∈ s'.signers := by
  cases hunsigned : s.hasSigned fingerprint with
  | true => exact hnext.signers hrow (PsbtSession.hasSigned_iff.mp hunsigned)
  | false =>
    have hadd := PsbtSession.addSignature_collecting hrow.grammatical.loaded.hydrates hcollecting
      hpolicy hunsigned (p.blobs.put X (X.serialize merged)).1
    obtain ⟨sessions, hupdate⟩ := hrow.update_isOk
      (.addSignature fingerprint (p.blobs.put X (X.serialize merged)).1)
    have hfind := hrow.find?_update _ hupdate id
    have happly : (s.apply (.addSignature fingerprint
        (p.blobs.put X (X.serialize merged)).1)).2 =
        s.record (.signatureAdded fingerprint (p.blobs.put X (X.serialize merged)).1) :=
      congrArg Prod.snd hadd
    rw [happly] at hupdate hfind
    rw [if_pos rfl, PsbtSession.record_log] at hfind
    have hexec : (p.exec X network (.submitSignedPsbt id user bytes)).2.sessions = sessions := by
      show (Coordination.submitSignedPsbt X p.wallets p.sessions p.blobs id user bytes).2.1 = _
      unfold Coordination.submitSignedPsbt Coordination.submitWork
      rw [hrow.found]
      dsimp only
      rw [hcheck]
      dsimp only
      rw [hadd]
      simp only [Idempotent.didExecute, if_true]
      rw [hupdate]
    have hlog := hnext.row.log_eq
    rw [hexec, hfind] at hlog
    refine hnext.row.grammatical.loaded.hydrates.mem_signers.mpr
      ⟨.signatureAdded fingerprint (p.blobs.put X (X.serialize merged)).1, ?_, ?_⟩
    · rw [← Option.some.inj hlog]
      exact List.mem_append_right _ List.mem_cons_self
    · simp [PsbtSessionEvent.isSignatureOf]

end Platform

/-! ## The documents of willing participants -/

/-- A participant who signs: the keystore they submitted, and one signature for every input. -/
structure Cosigner where
  user : UserId
  keystore : DescriptorPublicKey
  sigs : List (PublicKey × EcdsaSignature)

namespace Cosigner

/-- The document they submit. -/
def document (m : Cosigner) (original : Psbt) : Psbt := signInputs original m.sigs

/-- The call they make. -/
def submission (X : Extern) (id : PsbtSessionId) (original : Psbt) (m : Cosigner) : Command :=
  .submitSignedPsbt id m.user (X.serialize (m.document original))

/-- Their keystore is in the policy, they sign honestly, and their document can be uploaded. -/
structure Willing (X : Extern) (w : Wallet) (spend : SpendSpec) (funding : List FundingUtxo)
    (original : Psbt) (m : Cosigner) : Prop where
  member : (m.user, m.keystore) ∈ w.submissions
  honest : HonestSigs X spend funding m.keystore original m.sigs
  sized : Sized X (m.document original)
  reads : X.deserialize (X.serialize (m.document original)) = .ok (m.document original)

end Cosigner

/-- At the index of every coin that is spent, the keystores have different points. -/
def KeysApart (X : Extern) (spend : SpendSpec) (funding : List FundingUtxo)
    (keystores : List DescriptorPublicKey) : Prop :=
  ∀ outpoint ∈ spend.inputs, ∀ utxo, coinOf funding outpoint = some utxo →
    Apart X utxo.derivationIndex keystores

section

variable {spend : SpendSpec} {funding : List FundingUtxo} {descriptor : Descriptor}
  {original : Psbt}

/-- What the builder made an input of. -/
theorem built_input (hbuilt : buildUnsignedPsbt X spend descriptor funding network = .ok original)
    {i : Nat} {input : PsbtInput} (hi : original.inputs[i]? = some input) :
    ∃ outpoint utxo coin, spend.inputs[i]? = some outpoint ∧
      coinOf funding outpoint = some utxo ∧ input = filledInput X coin ∧
      descriptor.atDerivationIndex X utxo.derivationIndex = .ok coin.derived := by
  obtain ⟨coins, hinputs, hcoins⟩ := buildUnsignedPsbt_inputs hbuilt
  rw [hinputs, List.getElem?_map] at hi
  obtain ⟨coin, hcoin, rfl⟩ := Option.map_eq_some_iff.mp hi
  obtain ⟨outpoint, houtpoint, utxo, hfind, -, hderived⟩ :=
    Matched.exists_of_getElem?_right hcoins hcoin
  exact ⟨outpoint, utxo, coin, houtpoint, hfind, rfl, hderived⟩

/-- Every keystore has a key in the script. -/
theorem keyAt_mem_scriptKeys {index : UInt32} {derived : DefiniteDescriptor}
    (hderived : descriptor.atDerivationIndex X index = .ok derived) {keystore : DescriptorPublicKey}
    (hmem : keystore ∈ descriptor.keys) :
    ∃ key, keyAt X keystore index = some key ∧ key ∈ derived.scriptKeys X := by
  obtain ⟨k, hk, hok⟩ := Matched.exists_of_mem_left
    (Matched.mapM_eq_ok (Descriptor.atDerivationIndex_eq_ok hderived).2) hmem
  exact ⟨_, keyAt_of_ok hok, mem_scriptKeys.mpr ⟨k, hk, rfl⟩⟩

/-- An honest document provides its signer's key in every input. -/
theorem HonestSigs.provides {keystore : DescriptorPublicKey}
    {sigs : List (PublicKey × EcdsaSignature)}
    (h : HonestSigs X spend funding keystore original sigs) {i : Nat} {input : PsbtInput}
    (hi : original.inputs[i]? = some input) {outpoint : OutPointRef} {utxo : FundingUtxo}
    (houtpoint : spend.inputs[i]? = some outpoint) (hcoin : coinOf funding outpoint = some utxo)
    {key : PublicKey} (hkey : keyAt X keystore utxo.derivationIndex = some key)
    (hcompressed : key.compressed = true) : (signInputs original sigs).provides i key = true := by
  obtain ⟨e, he, utxo', hcoin', hkey'⟩ := Matched.exists_of_getElem?_left h.keys houtpoint
  obtain rfl := Option.some.inj (hcoin.symm.trans hcoin')
  obtain rfl := Option.some.inj (hkey.symm.trans hkey')
  have hsigned : (signInputs original sigs).inputs[i]? =
      some { input with partialSigs := input.partialSigs.insert e.1 e.2 } :=
    List.getElem?_zipWith_eq_some.mpr ⟨input, e, hi, he, rfl⟩
  have hself : (⟨true, e.1.inner⟩ : PublicKey) = e.1 := by rw [← hcompressed]
  unfold Psbt.provides PsbtInput.signatureFor
  rw [hsigned]
  dsimp only
  rw [hself, Std.ExtTreeMap.getElem?_insert_self]
  rfl

/-- Whose key an accepted document provides. -/
theorem signer_of_provided (hderives : X.DerivesKeys)
    (hbuilt : buildUnsignedPsbt X spend descriptor funding network = .ok original)
    (hadmissible : ∀ key ∈ descriptor.keys, key.segwitAdmissible = true)
    (hapart : KeysApart X spend funding descriptor.keys) {doc : Psbt}
    {fingerprint : KeyFingerprint} (hacc : Acceptable X original doc fingerprint) {i : Nat}
    {input : PsbtInput} (hi : original.inputs[i]? = some input) {keys : List PublicKey}
    {threshold : Nat} (hscript : input.witnessScript = some (.multi threshold keys))
    {key : PublicKey} (hkey : key ∈ keys) (hprovides : doc.provides i key = true) :
    ∃ outpoint utxo keystore, spend.inputs[i]? = some outpoint ∧
      coinOf funding outpoint = some utxo ∧ keystore ∈ descriptor.keys ∧
      keystoreFingerprint X keystore = fingerprint ∧
      keyAt X keystore utxo.derivationIndex = some key := by
  obtain ⟨outpoint, utxo, coin, houtpoint, hcoin, rfl, hderived⟩ := built_input hbuilt hi
  obtain ⟨-, rfl⟩ : coin.derived.threshold = threshold ∧ coin.derived.scriptKeys X = keys := by
    have h : ScriptBuf.multi _ _ = _ := Option.some.inj hscript
    exact ScriptBuf.multi.inj h
  obtain ⟨k, hk, rfl⟩ := mem_scriptKeys.mp hkey
  obtain ⟨keystore, hmem, hok⟩ := Matched.exists_of_mem_right
    (Matched.mapM_eq_ok (Descriptor.atDerivationIndex_eq_ok hderived).2) hk
  refine ⟨outpoint, utxo, keystore, houtpoint, hcoin, hmem, ?_, keyAt_of_ok hok⟩
  have hcompressed := derivePublicKey_compressed hderives hok (hadmissible keystore hmem)
  -- the signature is new, so it is bound to the submitter
  unfold Psbt.provides at hprovides
  split at hprovides
  · rename_i signedIn hsigned
    obtain ⟨sig, hsig⟩ := Option.isSome_iff_exists.mp hprovides
    unfold PsbtInput.signatureFor at hsig
    have hbound := (hacc.input i _ signedIn hi hsigned).bound _ sig hsig
      Std.ExtTreeMap.getElem?_empty
    have hsource := keySources_of_apart hderives hderived
      (hapart outpoint (List.mem_of_getElem? houtpoint) utxo hcoin) hmem hok
    unfold PsbtInput.boundTo at hbound
    rw [show (filledInput X coin).bip32Derivation = coin.derived.keySources X ∅ from rfl,
      hsource] at hbound
    exact beq_iff_eq.mp hbound
  · exact absurd hprovides (by simp)

/-- **Covering takes as many documents as the threshold**, when the keys are apart: each accepted
document provides one key of the script at most. -/
theorem length_of_covers (hderives : X.DerivesKeys)
    (hbuilt : buildUnsignedPsbt X spend descriptor funding network = .ok original)
    (hadmissible : ∀ key ∈ descriptor.keys, key.segwitAdmissible = true)
    (hfingerprints : (descriptor.keys.map (keystoreFingerprint X)).Nodup)
    (hapart : KeysApart X spend funding descriptor.keys) {docs : List Psbt}
    (hdocs : ∀ doc ∈ docs, ∃ fingerprint, Acceptable X original doc fingerprint)
    (hne : original.inputs ≠ []) (hcovers : Covers original docs) :
    descriptor.threshold ≤ docs.length := by
  obtain ⟨input, rest, hinputs⟩ := List.exists_cons_of_ne_nil hne
  have hi : original.inputs[0]? = some input := by rw [hinputs]; rfl
  obtain ⟨outpoint, utxo, coin, houtpoint, hcoin, rfl, hderived⟩ := built_input hbuilt hi
  have hthreshold := (Descriptor.atDerivationIndex_eq_ok hderived).1
  have hscript : (filledInput X coin).witnessScript =
      some (.multi coin.derived.threshold (coin.derived.scriptKeys X)) := rfl
  have henough := covers_iff.mp hcovers 0 _ hi
  unfold CoversInput EnoughKeys at henough
  rw [hscript] at henough
  dsimp only at henough
  rw [List.countP_eq_length_filter] at henough
  -- nobody's document answers for two of the keys
  obtain ⟨givers, hdistinct, hlen, hback, -⟩ := Distinct.exists_preimages
    (r := fun (doc : Psbt) key => doc ∈ docs ∧ key ∈ coin.derived.scriptKeys X ∧
      doc.provides 0 key = true)
    (fun doc key key' h h' => by
      obtain ⟨fingerprint, hacc⟩ := hdocs doc h.1
      obtain ⟨o, u, keystore, ho, hu, hmem, hfp, hkey⟩ :=
        signer_of_provided hderives hbuilt hadmissible hapart hacc hi hscript h.2.1 h.2.2
      obtain ⟨o', u', keystore', ho', hu', hmem', hfp', hkey'⟩ :=
        signer_of_provided hderives hbuilt hadmissible hapart hacc hi hscript h'.2.1 h'.2.2
      obtain rfl := Option.some.inj (ho.symm.trans ho')
      obtain rfl := Option.some.inj (hu.symm.trans hu')
      obtain rfl := List.inj_on_of_nodup_map hfingerprints hmem hmem' (hfp.trans hfp'.symm)
      exact Option.some.inj (hkey.symm.trans hkey'))
    (((scriptKeys_nodup_iff hderives hderived hadmissible).mpr
      (hapart outpoint (List.mem_of_getElem? houtpoint) utxo hcoin)).filter _)
    (fun key hkey => by
      obtain ⟨hmem, hany⟩ := List.mem_filter.mp hkey
      obtain ⟨doc, hdoc, hprovides⟩ := List.any_eq_true.mp hany
      exact ⟨doc, hdoc, hmem, hprovides⟩)
  have hle := Distinct.length_le_of_subset hdistinct fun doc hdoc => by
    obtain ⟨key, -, hmem, -⟩ := hback doc hdoc
    exact hmem
  omega

/-- **The documents of as many willing participants as the threshold cover every input**, whatever
else is among the documents. -/
theorem covers_of_team (hderives : X.DerivesKeys)
    (hbuilt : buildUnsignedPsbt X spend descriptor funding network = .ok original)
    (hadmissible : ∀ key ∈ descriptor.keys, key.segwitAdmissible = true) {team : List Cosigner}
    (hmembers : ∀ m ∈ team, m.keystore ∈ descriptor.keys)
    (hhonest : ∀ m ∈ team, HonestSigs X spend funding m.keystore original m.sigs)
    (hapart : KeysApart X spend funding (team.map Cosigner.keystore))
    (henough : descriptor.threshold ≤ team.length) {docs : List Psbt}
    (hdocs : ∀ m ∈ team, m.document original ∈ docs) : Covers original docs := by
  refine covers_iff.mpr fun i input hi => ?_
  obtain ⟨outpoint, utxo, coin, houtpoint, hcoin, rfl, hderived⟩ := built_input hbuilt hi
  -- one script key for each of them
  obtain ⟨keys, hkeys⟩ := Matched.exists_of_forall (l := team)
    (R := fun m key => keyAt X m.keystore utxo.derivationIndex = some key ∧
      key ∈ coin.derived.scriptKeys X ∧ docs.any (·.provides i key) = true) fun m hm => by
    obtain ⟨key, hkey, hmem⟩ := keyAt_mem_scriptKeys (X := X) hderived (hmembers m hm)
    exact ⟨key, hkey, hmem, List.any_eq_true.mpr ⟨_, hdocs m hm, (hhonest m hm).provides hi
      houtpoint hcoin hkey (scriptKeys_compressed hderives hderived hadmissible key hmem)⟩⟩
  have hpoints : keys.Pairwise fun key key' => key.inner ≠ key'.inner := by
    have hteam := hapart outpoint (List.mem_of_getElem? houtpoint) utxo hcoin
    unfold Apart at hteam
    rw [List.pairwise_map] at hteam
    refine (Matched.pairwise_iff hkeys fun {m m' key key'} hm hm' => ?_).mp hteam
    rw [hm.1, hm'.1]
    constructor
    · exact fun h => h _ _ rfl rfl
    · rintro h _ _ ⟨⟩ ⟨⟩
      exact h
  have hdistinct : keys.Nodup := hpoints.imp fun hne heq => hne (congrArg PublicKey.inner heq)
  unfold CoversInput EnoughKeys
  show coin.derived.threshold ≤ (coin.derived.scriptKeys X).countP _
  rw [(Descriptor.atDerivationIndex_eq_ok hderived).1, List.countP_eq_length_filter]
  refine Nat.le_trans (Nat.le_trans henough (Nat.le_of_eq hkeys.length_eq))
    (Distinct.length_le_of_subset hdistinct fun key hkey => ?_)
  obtain ⟨m, -, -, hmem, hany⟩ := Matched.exists_of_mem_right hkeys hkey
  exact List.mem_filter.mpr ⟨hmem, hany⟩

end

/-! ## Enough of them finalize the session -/

theorem BlobStore.NoCollision.of_extends {blobs blobs' : BlobStore} (h : blobs'.NoCollision X)
    (he : blobs'.Extends blobs) : blobs.NoCollision X :=
  fun e hm e' hm' => h e (he.mem hm) e' (he.mem hm')

namespace Platform

variable {p p' : Platform} {cs : List Command} {id : PsbtSessionId} {s s' : PsbtSession}
  {w : Wallet} {descriptor : Descriptor} {funding : List FundingUtxo} {original : Psbt}

/-- What the participants sign: the PSBT that was built for the session from the descriptor of its
wallet, as it stands at the recorded address. -/
structure ToSign (X : Extern) (network : Network) (p : Platform) (s : PsbtSession) (w : Wallet)
    (descriptor : Descriptor) (funding : List FundingUtxo) (original : Psbt) : Prop where
  wallet : p.wallets.findById s.walletId = .ok w
  policy : w.descriptor = some descriptor
  built : buildUnsignedPsbt X s.spend descriptor funding network = .ok original
  stored : ∃ hash, s.unsignedPsbtHash = some hash ∧
    p.blobs.fetchVerified X hash = .ok (X.serialize original)

/-- The policy of an active wallet with this descriptor. -/
structure Policy (X : Extern) (w : Wallet) (descriptor : Descriptor) : Prop where
  perm : descriptor.keys.Perm w.keystores
  threshold : descriptor.threshold = w.threshold.toNat
  admissible : ∀ key ∈ descriptor.keys, key.segwitAdmissible = true
  fingerprints : (descriptor.keys.map (keystoreFingerprint X)).Nodup

theorem policy_of_active (hw : Wallet.Inv X w) (hactive : w.status = .active)
    (hdescriptor : w.descriptor = some descriptor) : Policy X w descriptor := by
  obtain ⟨d, hsorted, hd, -⟩ := hw.descriptor hactive
  obtain rfl := Option.some.inj (hdescriptor.symm.trans hd)
  obtain ⟨-, hadmissible, rfl⟩ := (sortedmultiWshDescriptor_eq_ok_iff X).mp hsorted
  have hperm := List.perm_insertionSort (fun a b => X.keyToString a ≤ X.keyToString b) w.keystores
  exact ⟨hperm, rfl, fun key hkey => hadmissible key (hperm.mem_iff.mp hkey),
    (hperm.map _).nodup_iff.mpr hw.fingerprints⟩

/-- What is signed stays, while the session is underway. -/
theorem ToSign.pursues (h : ToSign X network p s w descriptor funding original)
    (hnext : Pursues X p' p id s' s) (hrow : p.sessions.Row id s) (hactive : w.status = .active)
    (hsound : p.wallets.Sound X) (haddressed : p'.blobs.Addressed X)
    (hc : p'.blobs.NoCollision X) : ToSign X network p' s' w descriptor funding original := by
  obtain ⟨es, hg⟩ := hnext.grown
  obtain ⟨hash, hhash, hfetch⟩ := h.stored
  refine ⟨?_, h.policy, hg.spend ▸ h.built, hash, ?_, ?_⟩
  · rw [hg.walletId]
    exact (hnext.later.wallets _ _ (hsound.row h.wallet) hactive).found
  · refine hnext.row.grammatical.unsignedPsbtHash_eq ?_
    rw [hg.log]
    exact List.mem_append_left _ (hrow.grammatical.loaded.hydrates.psbtCreated_mem hhash)
  · exact BlobStore.fetchVerified_of_mem haddressed hc
      (hnext.later.blobs.mem (BlobStore.fetchVerified_eq_ok hfetch).1)

/-- It is the unsigned PSBT of the session, and loads within the size cap. -/
theorem ToSign.unsigned (h : ToSign X network p s w descriptor funding original)
    (hinv : Inv X network cs p) (hrow : p.sessions.Row id s)
    (hreads : X.deserialize (X.serialize original) = .ok original) :
    Unsigned X network p s w original := by
  obtain ⟨w', hwrow, hactive, hthreshold, -⟩ := (hinv.linked id s hrow).wallet
  obtain rfl := Except.ok.inj (h.wallet.symm.trans hwrow.found)
  obtain ⟨d, hsorted, hd, -⟩ := hwrow.inv.descriptor hactive
  obtain rfl := Option.some.inj (h.policy.symm.trans hd)
  exact ⟨hwrow, hactive, hthreshold, h.stored, hreads, descriptor, funding, hsorted, h.built⟩

theorem Collected.original_eq {original' : Psbt} (h : Collected X p id s original')
    (hu : Unsigned X network p s w original) : original' = original := by
  obtain ⟨hash, hhash, hload⟩ := h.load
  obtain ⟨hash', hhash', hfetch⟩ := hu.stored
  obtain rfl := Option.some.inj (hhash.symm.trans hhash')
  unfold loadPsbt at hload
  rw [hfetch] at hload
  dsimp only at hload
  split at hload
  · exact absurd hload (by simp)
  · rename_i hparse
    obtain rfl := Except.ok.inj hload
    exact Except.ok.inj ((parsePsbt_eq_ok_iff.mp hparse).2.symm.trans hu.parses)

/-- A user answers for one keystore only, and a keystore for one user. -/
theorem user_of_fingerprint (hw : Wallet.Inv X w) {user user' : UserId}
    {keystore : DescriptorPublicKey} (hmem : (user, keystore) ∈ w.submissions)
    (hfp : w.keystoreFingerprintOf X user' = some (keystoreFingerprint X keystore)) :
    user' = user := by
  obtain ⟨⟨user'', keystore'⟩, hfind, heq⟩ := Option.map_eq_some_iff.mp hfp
  obtain ⟨rfl, hmem'⟩ := Distinct.mem_of_find? hfind
  have hnodup := hw.fingerprints
  unfold Wallet.keystores at hnodup
  rw [List.map_map] at hnodup
  exact congrArg Prod.fst (List.inj_on_of_nodup_map hnodup hmem' hmem heq)

/-- No keystore is shadowed in a policy whose keys are apart. -/
theorem unshadowed_of_apart {spend : SpendSpec} (hapart : KeysApart X spend funding descriptor.keys)
    (keystore : DescriptorPublicKey) : Unshadowed X spend funding descriptor keystore := by
  intro outpoint hmem utxo hcoin pre post hkeys other hother key key' hkey hkey' heq
  have h := hapart outpoint hmem utxo hcoin
  rw [hkeys] at h
  exact (List.pairwise_cons.mp (List.pairwise_append.mp h).2.1).1 other hother key key' hkey hkey'
    heq.symm

/-- **The call of a willing participant counts**, on a session that collects. -/
theorem signers_submission (hderives : X.DerivesKeys) (hinv : Inv X network cs p)
    (hrow : p.sessions.Row id s)
    (hcollecting : s.status = .collecting)
    (h : ToSign X network p s w descriptor funding original) (hsized : Sized X original)
    (hreads : X.deserialize (X.serialize original) = .ok original)
    (hapart : KeysApart X s.spend funding descriptor.keys) {m : Cosigner}
    (hm : m.Willing X w s.spend funding original)
    (hnext : Pursues X (p.exec X network (m.submission X id original)).2 p id s' s) :
    keystoreFingerprint X m.keystore ∈ s'.signers := by
  have hsession := hinv.linked id s hrow
  obtain ⟨w', hwrow, hactive, -, hkeystores⟩ := hsession.wallet
  obtain rfl := Except.ok.inj (h.wallet.symm.trans hwrow.found)
  have hpolicy := policy_of_active hwrow.inv hactive h.policy
  have hmem : m.keystore ∈ w.keystores := List.mem_map.mpr ⟨_, hm.member, rfl⟩
  have hacc := (acceptable_honest_iff hderives hsession.spends h.built hpolicy.fingerprints
    (hpolicy.perm.mem_iff.mpr hmem) hm.honest).mpr (unshadowed_of_apart hapart _)
  obtain ⟨hash, hhash, hfetch⟩ := h.stored
  exact signers_submit hrow hcollecting (hkeystores ▸ List.mem_map.mpr ⟨_, hmem, rfl⟩)
    (checkSubmission_of_acceptable h.wallet (hwrow.inv.keystoreFingerprintOf_eq hm.member) hhash
      hfetch (parsePsbt_eq_ok_iff.mpr ⟨hsized, hreads⟩)
      (parsePsbt_eq_ok_iff.mpr ⟨hm.sized, hm.reads⟩) hacc) hnext

/-- **Who submits has signed in the end**, whatever ran before and after the call. -/
theorem signers_run (hderives : X.DerivesKeys) {ds : List Command}
    (hrow : (empty.run X network cs).sessions.Row id s)
    (hcollecting : s.status = .collecting)
    (h : ToSign X network (empty.run X network cs) s w descriptor funding original)
    (hsized : Sized X original) (hreads : X.deserialize (X.serialize original) = .ok original)
    (hapart : KeysApart X s.spend funding descriptor.keys) {m : Cosigner}
    (hm : m.Willing X w s.spend funding original) (hsubmit : m.submission X id original ∈ ds)
    (hc : (empty.run X network (cs ++ ds)).blobs.NoCollision X)
    (hend : Pursues X (empty.run X network (cs ++ ds)) (empty.run X network cs) id s' s)
    (hcollecting' : s'.status = .collecting) :
    keystoreFingerprint X m.keystore ∈ s'.signers := by
  obtain ⟨before, after, rfl⟩ := List.append_of_mem hsubmit
  -- up to the call
  obtain ⟨s₁, h₁⟩ := run_pursues hrow (Or.inl hcollecting) before
  have hinv := inv_run X network cs
  have hinv₁ := inv_run X network (cs ++ before)
  -- the call
  obtain ⟨s₂, h₂⟩ := (exec_effect X network (empty.run X network (cs ++ before))
    (m.submission X id original)).pursues hinv₁.wallets hinv₁.sessions h₁.row h₁.underway
  -- and what follows it
  have hrow₂ : (empty.run X network (cs ++ before ++ [m.submission X id original])).sessions.Row id
      s₂ := by
    rw [run_concat]
    exact h₂.row
  obtain ⟨s₃, h₃⟩ := run_pursues hrow₂ h₂.underway after
  have hsplit : cs ++ before ++ [m.submission X id original] ++ after =
      cs ++ (before ++ m.submission X id original :: after) := by simp
  rw [hsplit] at h₃
  obtain rfl := Except.ok.inj (h₃.row.found.symm.trans hend.row.found)
  rcases h₁.underway with hcollecting₁ | hfinal
  · obtain ⟨w', hwrow, hactive, -⟩ := (hinv.linked id s hrow).wallet
    obtain rfl := Except.ok.inj (h.wallet.symm.trans hwrow.found)
    obtain ⟨es, hg⟩ := h₁.grown
    have hextends := h₃.later.blobs
    rw [run_concat] at hextends
    have hc₁ := hc.of_extends (hextends.trans h₂.later.blobs)
    refine h₃.signers hrow₂ (signers_submission hderives hinv₁ h₁.row hcollecting₁
      (h.pursues h₁ hrow hactive hinv.wallets hinv₁.addressed hc₁) hsized hreads ?_ ?_ h₂)
    · exact hg.spend ▸ hapart
    · exact hg.spend ▸ hm
  · -- nothing is left to do once it is finalized
    exact absurd ((h₃.settled (h₂.settled hfinal)).symm.trans hcollecting') (by simp)

/-- A recorded signature comes from an event of the log. -/
theorem event_of_signature (h : PsbtSession.Hydrates s) {r : SignatureRecord}
    (hr : r ∈ s.signatures) : .signatureAdded r.fingerprint r.signedPsbtHash ∈ s.log := by
  rw [h.signatures_eq] at hr
  obtain ⟨e, he, hread⟩ := List.mem_filterMap.mp hr
  cases e with
  | signatureAdded fp hash =>
    obtain rfl := Option.some.inj hread
    exact he
  | _ => exact absurd hread (by simp [PsbtSessionEvent.signature])

/-- The document on record for a willing participant is the one they submitted. -/
theorem document_mem (hinv : Inv X network cs p) (hc : p.blobs.NoCollision X)
    (hr : p.blobs.RoundTrips X) (hrow : p.sessions.Row id s)
    (h : Unsigned X network p s w original) {m : Cosigner}
    (hm : m.Willing X w s.spend funding original)
    (honly : ∀ bytes, .submitSignedPsbt id m.user bytes ∈ cs →
      bytes = X.serialize (m.document original))
    (hsigned : keystoreFingerprint X m.keystore ∈ s.signers) :
    m.document original ∈ documents X p.blobs s := by
  obtain ⟨r, hr', hfp⟩ := List.mem_map.mp hsigned
  obtain ⟨doc, hdoc, hrecorded⟩ := Matched.exists_of_mem_left (hinv.documents hc hr hrow h) hr'
  obtain ⟨user, original', signed, hsub⟩ := (hinv.linked id s hrow).signed _ _
    (event_of_signature hrow.grammatical.loaded.hydrates hr')
  -- the call behind the record is the participant's own
  obtain ⟨w', hw', -, hbound⟩ := hsub.bound
  obtain rfl := Except.ok.inj (h.wallet.found.symm.trans hw'.found)
  rw [hfp] at hbound
  obtain rfl := user_of_fingerprint hw'.inv hm.member hbound
  obtain ⟨pre, bytes, post, hcs, -, hparse⟩ := hsub.call
  rw [hrow.id_eq] at hcs
  obtain rfl := honly bytes (by rw [hcs]; simp)
  obtain rfl := Except.ok.inj (hm.reads.symm.trans (parsePsbt_eq_ok_iff.mp hparse).2)
  have hfetch := BlobStore.fetchVerified_of_mem hinv.addressed hc hsub.stored
  have hsame := Except.ok.inj (hfetch.symm.trans hrecorded.stored)
  have hparses := hrecorded.parses
  rw [← hsame, hm.reads] at hparses
  rw [Except.ok.inj hparses]
  exact hdoc

/-- Apart from one another, and so is any part of them. -/
theorem keysApart_team {spend : SpendSpec} (hw : Wallet.Inv X w)
    (hapart : KeysApart X spend funding w.keystores) {team : List Cosigner}
    (hmembers : ∀ m ∈ team, (m.user, m.keystore) ∈ w.submissions)
    (hdistinct : (team.map Cosigner.user).Nodup) :
    KeysApart X spend funding (team.map Cosigner.keystore) ∧
      (team.map fun m => keystoreFingerprint X m.keystore).Nodup := by
  have hfingerprints := hw.fingerprints
  unfold Wallet.keystores at hfingerprints
  rw [List.map_map] at hfingerprints
  have hpairs : team.Pairwise fun m m' =>
      keystoreFingerprint X m.keystore ≠ keystoreFingerprint X m'.keystore := by
    refine (List.pairwise_map.mp hdistinct).imp_of_mem fun {m m'} hm hm' hne heq => hne ?_
    exact congrArg Prod.fst (List.inj_on_of_nodup_map hfingerprints (hmembers m hm)
      (hmembers m' hm') heq)
  refine ⟨fun outpoint hmem utxo hcoin => ?_, List.pairwise_map.mpr hpairs⟩
  have h := hapart outpoint hmem utxo hcoin
  have hsymm : Std.Symm fun (a b : DescriptorPublicKey) => ∀ key key' : PublicKey,
      keyAt X a utxo.derivationIndex = some key → keyAt X b utxo.derivationIndex = some key' →
        key.inner ≠ key'.inner :=
    ⟨fun _ _ hab key key' hk hk' heq => hab key' key hk' hk heq.symm⟩
  refine List.pairwise_map.mpr (hpairs.imp_of_mem fun {m m'} hm hm' hne => ?_)
  exact h.forall (List.mem_map.mpr ⟨_, hmembers m hm, rfl⟩)
    (List.mem_map.mpr ⟨_, hmembers m' hm', rfl⟩) fun heq => hne (congrArg _ heq)

/-- Signatures of as many keystores as the threshold meet it. -/
theorem thresholdMet_of_team {team : List Cosigner}
    (hfingerprints : (team.map fun m => keystoreFingerprint X m.keystore).Nodup)
    (hsigners : ∀ m ∈ team, keystoreFingerprint X m.keystore ∈ s.signers)
    (henough : s.threshold.toNat ≤ team.length) : s.thresholdMet = true := by
  refine decide_eq_true (Nat.le_trans henough ?_)
  have hle := Distinct.length_le_of_subset hfingerprints (l := s.signers) fun fp hfp => by
    obtain ⟨m, hm, rfl⟩ := List.mem_map.mp hfp
    exact hsigners m hm
  unfold PsbtSession.signers at hle
  rwa [List.length_map, List.length_map] at hle

/-- **One run of the job is enough**, on a session that collected the documents of as many willing
participants as the threshold. -/
theorem Collected.finalizes (h : Collected X p id s original) (hX : X.ScriptFinalize)
    (hstatus : s.status = .collecting) (hmet : s.thresholdMet = true)
    (hcovers : Covers original (documents X p.blobs s))
    (hlength : ∀ n, Covers original ((documents X p.blobs s).take n) → s.threshold.toNat ≤ n)
    (hsized : ∀ e ∈ p.blobs.entries, e.2.length ≤ MAX_PSBT_BYTES) :
    ∃ tx sigsUsed, Finalizes X p id s tx sigsUsed := by
  obtain ⟨n, hfirst⟩ := Shortest.exists_first hcovers
  have hall : ∀ doc ∈ (documents X p.blobs s).take n, Sized X doc := by
    intro doc hdoc
    obtain ⟨r, -, hrecorded⟩ := Matched.exists_of_mem_right h.docs (List.mem_of_mem_take hdoc)
    exact hsized _ (BlobStore.fetchVerified_eq_ok hrecorded.stored).1
  have hle := hfirst.le
  have henough := hlength n hfirst.holds
  obtain ⟨hfinds, -⟩ := h.runFinalization_search hX hstatus hmet
  obtain ⟨tx, hfinal⟩ := hfinds _ ((Shortest.search_eq_some_iff h.uncovered).mpr
    ⟨n, hfirst, hall, rfl⟩) (by simp only [List.nil_append, List.length_take]; omega)
  exact ⟨tx, _, hfinal⟩

/-- A recorded finalization is the status of the session. -/
theorem finalized_of_finalizes {tx : Transaction} {sigsUsed : List KeyFingerprint}
    (h : Finalizes X (empty.run X network cs) id s tx sigsUsed) :
    ∃ s', (empty.run X network (cs ++ [.runFinalization id])).sessions.findById id = .ok s' ∧
      s'.status = .finalized := by
  have hinv := inv_run X network (cs ++ [.runFinalization id])
  rw [run_concat] at hinv ⊢
  have hrecorded : ((empty.run X network cs).exec X network
    (.runFinalization id)).2.sessions.find? id = _ := h.recorded
  obtain ⟨s', hrow⟩ := hinv.sessions id _ hrecorded
  refine ⟨s', hrow.found, ?_⟩
  unfold PsbtSession.status
  rw [← Option.some.inj (hrecorded.symm.trans hrow.log_eq), PsbtSessionStatus.ofLog_concat]
  rfl

end Platform

open Platform in
/-- **Enough honest signers finalize a session.** After any commands and jobs from empty stores,
take a session that collects signatures for the PSBT built from its wallet's descriptor, with the
keys of the policy apart, and as many willing participants as the threshold. Let any commands
follow among which each of them submits their document, and nothing else for this session; the
other participants may submit whatever they like. Then, unless a stored blob outgrew the size cap,
the session is finalized after one more run of the finalization job. -/
theorem honest_quorum_finalizes (hX : X.ScriptFinalize) (hderives : X.DerivesKeys)
    {cs : List Command} {id : PsbtSessionId} {s : PsbtSession}
    (hs : (Platform.empty.run X network cs).sessions.findById id = .ok s)
    (hcollecting : s.status = .collecting) {w : Wallet} {descriptor : Descriptor}
    {funding : List FundingUtxo} {original : Psbt}
    (hsign : ToSign X network (Platform.empty.run X network cs) s w descriptor funding original)
    (hapart : KeysApart X s.spend funding w.keystores) {team : List Cosigner}
    (hteam : ∀ m ∈ team, m.Willing X w s.spend funding original)
    (hdistinct : (team.map Cosigner.user).Nodup) (henough : s.threshold.toNat ≤ team.length)
    {ds : List Command} (hsubmit : ∀ m ∈ team, m.submission X id original ∈ ds)
    (honly : ∀ m ∈ team, ∀ bytes, .submitSignedPsbt id m.user bytes ∈ cs ++ ds →
      bytes = X.serialize (m.document original))
    (hc : (Platform.empty.run X network (cs ++ ds)).blobs.NoCollision X)
    (hr : (Platform.empty.run X network (cs ++ ds)).blobs.RoundTrips X)
    (hsized : ∀ e ∈ (Platform.empty.run X network (cs ++ ds)).blobs.entries,
      e.2.length ≤ MAX_PSBT_BYTES) :
    ∃ s', (Platform.empty.run X network (cs ++ ds ++ [.runFinalization id])).sessions.findById id =
      .ok s' ∧ s'.status = .finalized := by
  have hinv := inv_run X network cs
  have hrow := hinv.sessions.row hs
  obtain ⟨w', hwrow, hactive, hthreshold, -⟩ := (hinv.linked id s hrow).wallet
  obtain rfl := Except.ok.inj (hsign.wallet.symm.trans hwrow.found)
  have hpolicy := policy_of_active hwrow.inv hactive hsign.policy
  have hapart' : KeysApart X s.spend funding descriptor.keys :=
    fun outpoint hmem utxo hcoin => (apart_perm hpolicy.perm).mpr (hapart outpoint hmem utxo hcoin)
  have hinv' := inv_run X network (cs ++ ds)
  obtain ⟨s', hs'⟩ := run_pursues hrow (Or.inl hcollecting) ds
  rcases hs'.underway with hcollecting' | hfinal
  · -- what every platform on the way has of the unsigned PSBT
    have hsign' := hsign.pursues hs' hrow hactive hinv.wallets hinv'.addressed hc
    obtain ⟨hash, hhash, hfetch⟩ := hsign'.stored
    have hstored := (BlobStore.fetchVerified_eq_ok hfetch).1
    have hreads := hr.deserialize hstored
    have hsigners : ∀ m ∈ team, keystoreFingerprint X m.keystore ∈ s'.signers := fun m hm =>
      signers_run hderives hrow hcollecting hsign (hsized _ hstored) hreads hapart' (hteam m hm)
        (hsubmit m hm) hc hs' hcollecting'
    obtain ⟨hteamApart, hfingerprints⟩ := keysApart_team hwrow.inv hapart
      (fun m hm => (hteam m hm).member) hdistinct
    obtain ⟨es, hg⟩ := hs'.grown
    have hmet := thresholdMet_of_team hfingerprints hsigners (hg.threshold ▸ henough)
    have hunsigned := hsign'.unsigned hinv' hs'.row hreads
    obtain ⟨original', hcollected⟩ := hinv'.collected hc hr hs'.row.found hmet
    obtain rfl := hcollected.original_eq hunsigned
    -- the documents cover every input, and none shorter than the threshold does
    have hcovers : Covers original'
        (documents X (Platform.empty.run X network (cs ++ ds)).blobs s') := by
      refine covers_of_team hderives hsign.built hpolicy.admissible (fun m hm => ?_)
        (fun m hm => (hteam m hm).honest) hteamApart ?_ fun m hm => ?_
      · exact hpolicy.perm.mem_iff.mpr (List.mem_map.mpr ⟨_, (hteam m hm).member, rfl⟩)
      · rw [hpolicy.threshold, ← hthreshold]
        exact henough
      · exact document_mem hinv' hc hr hs'.row hunsigned (hg.spend ▸ hteam m hm) (honly m hm)
          (hsigners m hm)
    obtain ⟨tx, sigsUsed, hfinal⟩ := hcollected.finalizes hX hcollecting' hmet hcovers
      (fun n hn => by
        have hle := length_of_covers hderives hsign.built hpolicy.admissible hpolicy.fingerprints hapart'
          (fun doc hdoc => by
            obtain ⟨r, -, hrecorded⟩ :=
              Matched.exists_of_mem_right hcollected.docs (List.mem_of_mem_take hdoc)
            exact ⟨_, hrecorded.acceptable⟩)
          (fun hnil => hcollected.uncovered (covers_iff.mpr fun i input hi =>
            absurd hi (by rw [hnil]; simp))) hn
        rw [hpolicy.threshold, ← hthreshold, ← hg.threshold, List.length_take] at hle
        omega) hsized
    exact finalized_of_finalizes hfinal
  · obtain ⟨s'', hs''⟩ := run_pursues hs'.row hs'.underway [.runFinalization id]
    exact ⟨s'', hs''.row.found, hs''.settled hfinal⟩

namespace Extern.Sample

/-- The PSBT of a wallet that either of two participants can spend from. -/
def eitherUnsigned : Psbt := unsigned 1 [key 1, key 2] [10, 20]

/-- The second participant's document provides nothing, the first one's does. -/
def eitherTable : List Psbt :=
  [eitherUnsigned, addSignatures eitherUnsigned false 20, addSignatures eitherUnsigned true 10]

/-- The first participant. -/
def firstCosigner : Cosigner := ⟨⟨0⟩, key 1, soloSigs 10⟩

/-- The useless document comes first, and a run of the job that fails for it. -/
def uselessFirst : List Command :=
  [.submitSignedPsbt ⟨0⟩ ⟨1⟩ [1], .runFinalization ⟨0⟩,
    firstCosigner.submission (.sample eitherTable) ⟨0⟩ eitherUnsigned]

end Extern.Sample

open Extern.Sample in
theorem honest_quorum_finalizes_either :
    ∃ s', (Platform.empty.run (.sample eitherTable) .bitcoin (round 1 [key 1, key 2] [10, 20] [] ++
      uselessFirst ++ [.runFinalization ⟨0⟩])).sessions.findById ⟨0⟩ = .ok s' ∧
      s'.status = .finalized := by
  have hdocument : firstCosigner.document eitherUnsigned = addSignatures eitherUnsigned true 10 := by
    decide +kernel
  refine @honest_quorum_finalizes (.sample eitherTable) .bitcoin (sample_scriptFinalize _)
    (derivesKeys _) (round 1 [key 1, key 2] [10, 20] []) ⟨0⟩ (freshSession 1 [1, 2]) (by decide +kernel)
    (by decide +kernel) (activeWallet 1 [key 1, key 2]) ⟨1, [key 1, key 2]⟩ [coin 1 [10, 20]]
    eitherUnsigned ?_ ?_ [firstCosigner] ?_ (by decide) (by decide) uselessFirst ?_ ?_
    (by decide +kernel) (roundTrips (by decide +kernel) (by decide +kernel)) (by decide +kernel)
  · exact ⟨by decide +kernel, by decide +kernel, by decide +kernel, digestOfByte 0,
      by decide +kernel, by decide +kernel⟩
  · intro outpoint houtpoint utxo hcoin
    obtain rfl := List.mem_singleton.mp houtpoint
    obtain rfl := Option.some.inj hcoin
    have hderived : Descriptor.atDerivationIndex (.sample []) ⟨1, [key 1, key 2]⟩ 0 =
        .ok { ownDerived with threshold := 1 } := rfl
    exact (nodup_points_iff hderived).mp (by decide)
  · intro m hm
    obtain rfl := List.mem_singleton.mp hm
    refine ⟨by decide +kernel, soloSigs_honest (by decide +kernel) (by decide +kernel), ?_, ?_⟩ <;>
      rw [hdocument] <;> decide +kernel
  · intro m hm
    obtain rfl := List.mem_singleton.mp hm
    simp [uselessFirst]
  · intro m hm bytes hmem
    obtain rfl := List.mem_singleton.mp hm
    simpa [uselessFirst, Extern.Sample.round, Cosigner.submission, firstCosigner] using hmem

end Kota
