import Kota.Signer
import Kota.Wallet.Identity

/-!
# The keys of an active wallet

`add_keystore` refuses a keystore for its claimed fingerprint alone, and the descriptor of the
last submission is built without deriving anything. What an active wallet's keys are is up to the
submitters.

* **`active_wallet_spendable_iff`**: the descriptor derives at every index below `2 ^ 31` iff no
  keystore is multipath or has a hardened step or wildcard; with one that is, it derives at no
  index (`multipath_wallet_activates`).
* **`active_keys_distinct_iff`**: at an index the wallet's keys are different keys, each with its
  own key source, iff no two keystores have one point there, whatever origins they claim; two
  copies of one key under different origins have at every index (`twin_keys_activate`).
-/

namespace Kota

open EventLog

variable {X : Extern} {network : Network}

/-! ## Which descriptors can be spent from -/

/-- The failures that come from deriving a key. -/
def WalletError.IsDerivation : WalletError → Prop
  | .nonDefiniteKey _ | .expectation _ => True
  | _ => False

/-- The descriptor derives at every normal index, so no build on funding at such indices fails for
a key, neither with an error nor in a panic. -/
structure Spendable (X : Extern) (d : Descriptor) : Prop where
  derives : ∀ index : UInt32, index.toNat < 2 ^ 31 →
    ∃ derived, d.atDerivationIndex X index = .ok derived
  builds : ∀ (spend : SpendSpec) (funding : List FundingUtxo) (network : Network),
    (∀ utxo ∈ funding, utxo.derivationIndex.toNat < 2 ^ 31) →
    (∀ change, spend.changeOutput = some change → change.derivationIndex.toNat < 2 ^ 31) →
    ∀ e, buildUnsignedPsbt X spend d funding network = .error e → ¬ e.IsDerivation

theorem collectInputs_not_derivation {d : Descriptor} {funding : List FundingUtxo}
    (h : ∀ utxo ∈ funding, ∃ derived, d.atDerivationIndex X utxo.derivationIndex = .ok derived)
    {inputs : List OutPointRef} {totalIn : UInt64} {e : WalletError}
    (he : collectInputs X d funding totalIn inputs = .error e) : ¬ e.IsDerivation := by
  induction inputs generalizing totalIn with
  | nil => exact absurd he (by simp [collectInputs])
  | cons outpoint rest ih =>
    unfold collectInputs at he
    split at he
    · obtain rfl := Except.error.inj he
      exact id
    rename_i utxo hfind
    obtain ⟨derived, hderived⟩ := h utxo (List.mem_of_find?_eq_some hfind)
    rw [hderived] at he
    split at he
    · obtain rfl := Except.error.inj he
      exact id
    dsimp only at he
    split at he
    · rename_i e' hrest
      obtain rfl := Except.error.inj he
      exact ih hrest
    · exact absurd he (by simp)

/-- A build fails for a key only at an index that does not derive. -/
theorem buildUnsignedPsbt_not_derivation {spend : SpendSpec} {d : Descriptor}
    {funding : List FundingUtxo}
    (hfunding : ∀ utxo ∈ funding, ∃ derived,
      d.atDerivationIndex X utxo.derivationIndex = .ok derived)
    (hchange : ∀ change, spend.changeOutput = some change → ∃ derived,
      d.atDerivationIndex X change.derivationIndex = .ok derived) {e : WalletError}
    (he : buildUnsignedPsbt X spend d funding network = .error e) : ¬ e.IsDerivation := by
  have hcollect : ∀ totalOut e, collectChange X d totalOut spend.changeOutput = .error e →
      ¬ e.IsDerivation := by
    intro totalOut e he
    cases hc : spend.changeOutput with
    | none =>
      rw [hc] at he
      exact absurd he (by simp [collectChange])
    | some change =>
      obtain ⟨derived, hderived⟩ := hchange change hc
      rw [hc] at he
      unfold collectChange at he
      dsimp only at he
      rw [hderived] at he
      dsimp only at he
      split at he
      · obtain rfl := Except.error.inj he
        exact id
      · exact absurd he (by simp)
  unfold buildUnsignedPsbt at he
  split at he
  · rename_i e' hinputs
    obtain rfl := Except.error.inj he
    exact collectInputs_not_derivation hfunding hinputs
  split at he
  · rename_i e' houtputs
    obtain rfl := Except.error.inj he
    rcases collectOutputs_error houtputs with ⟨reason, rfl⟩ | rfl <;> exact id
  split at he
  · rename_i e' hc
    obtain rfl := Except.error.inj he
    exact hcollect _ _ hc
  split at he
  · obtain rfl := Except.error.inj he
    exact id
  dsimp only at he
  split at he
  · obtain rfl := Except.error.inj he
    exact id
  split at he
  · rename_i e' hfill
    obtain rfl := Except.error.inj he
    obtain ⟨refused, rfl⟩ := fillInputs_error hfill
    exact id
  split at he
  · exact absurd he (by simp)
  split at he
  · obtain rfl := Except.error.inj he
    exact id
  · exact absurd he (by simp)

theorem spendable_iff (hX : X.DerivesKeys) {d : Descriptor} :
    Spendable X d ↔ ∀ key ∈ d.keys, key.isDerivable = true := by
  constructor
  · intro h key hkey
    exact ((Descriptor.atDerivationIndex_isOk_iff hX).mp (h.derives 0 (by decide)) key hkey).1
  · intro h
    have hderives : ∀ index : UInt32, index.toNat < 2 ^ 31 →
        ∃ derived, d.atDerivationIndex X index = .ok derived := fun index hindex =>
      (Descriptor.atDerivationIndex_isOk_iff hX).mpr fun key hkey =>
        ⟨h key hkey, key.takes_of_lt hindex⟩
    refine ⟨hderives, fun spend funding network hfunding hchange e he => ?_⟩
    exact buildUnsignedPsbt_not_derivation (fun utxo hu => hderives _ (hfunding utxo hu))
      (fun change hc => hderives _ (hchange change hc)) he

/-- **Active wallets that can be spent from, exactly.** Whatever commands made a wallet active, its
descriptor derives at every index below `2 ^ 31`, and no build fails for a key, if and only if every
keystore is derivable; otherwise the descriptor derives at no index at all. -/
theorem active_wallet_spendable_iff (hX : X.DerivesKeys) {id : WalletId} {threshold : UInt32}
    {participants : List UserId} {n : NewWallet}
    (hn : NewWallet.new id network threshold participants = .ok n) (cs : List WalletCommand)
    (hactive : (n.registered.run X cs).status = .active) :
    ∃ d, (n.registered.run X cs).descriptor = some d ∧
      (Spendable X d ↔ ∀ key ∈ (n.registered.run X cs).keystores, key.isDerivable = true) ∧
      ((∃ key ∈ (n.registered.run X cs).keystores, key.isDerivable = false) →
        ∀ index, ∃ e, d.atDerivationIndex X index = .error e) := by
  obtain ⟨d, hd⟩ := ((NewWallet.registered_inv X hn).run cs).identified hactive
  refine ⟨d, hd.descriptor, ?_, ?_⟩
  · rw [spendable_iff hX]
    exact forall_congr' fun key => by rw [hd.mem_keys]
  · rintro ⟨key, hkey, hunderivable⟩ index
    cases hderived : d.atDerivationIndex X index with
    | error e => exact ⟨e, rfl⟩
    | ok derived =>
      have hall := (Descriptor.atDerivationIndex_isOk_iff hX).mp ⟨derived, hderived⟩
      have hderivable := (hall key (hd.mem_keys.mpr hkey)).1
      rw [hunderivable] at hderivable
      exact absurd hderivable (by simp)

/-- A wallet of one participant. -/
def soloPolicy : NewWallet := ⟨⟨0⟩, .bitcoin, 1, [⟨7⟩]⟩

/-- An extended key of two paths. -/
def multipathKey : DescriptorPublicKey :=
  .multiXPub ⟨none, ⟨1⟩, [[.normal 0], [.normal 1]], .unhardened⟩

theorem active_wallet_spendable_solo :
    Spendable (.sample []) ⟨1, [Extern.Sample.key 1]⟩ := by
  obtain ⟨d, hd, hiff, -⟩ := @active_wallet_spendable_iff (.sample []) .bitcoin
    (Extern.Sample.derivesKeys []) ⟨0⟩ 1 [⟨7⟩] soloPolicy (by decide)
    [.addKeystore (Extern.Sample.key 1) ⟨7⟩] (by decide)
  obtain rfl : d = ⟨1, [Extern.Sample.key 1]⟩ := Option.some.inj (hd.symm.trans rfl)
  exact hiff.mpr (by decide)

/-- **A wallet that nothing can be spent from activates**: its one key has two paths. -/
theorem multipath_wallet_activates :
    (soloPolicy.registered.run (.sample []) [.addKeystore multipathKey ⟨7⟩]).status = .active ∧
    (soloPolicy.registered.run (.sample []) [.addKeystore multipathKey ⟨7⟩]).descriptor =
      some ⟨1, [multipathKey]⟩ ∧
    (⟨1, [multipathKey]⟩ : Descriptor).atDerivationIndex (.sample []) 0 =
      .error (.error .multipath) ∧
    buildUnsignedPsbt (.sample []) (spendAt 0).1 ⟨1, [multipathKey]⟩ (spendAt 0).2 .bitcoin =
      .error (.nonDefiniteKey .multipath) :=
  ⟨rfl, rfl, rfl, rfl⟩

/-! ## Whose keys they are -/

/-- No two keystores have one point at the index. -/
def Apart (X : Extern) (index : UInt32) (keystores : List DescriptorPublicKey) : Prop :=
  keystores.Pairwise fun a b => ∀ key key', keyAt X a index = some key →
    keyAt X b index = some key' → key.inner ≠ key'.inner

/-- What an active policy promises at an index: different script keys, so that a covered input
holds signatures under `threshold` different keys, and for every submitted keystore a key source
of its own. -/
structure OwnKeys (X : Extern) (w : Wallet) (index : UInt32) (derived : DefiniteDescriptor) :
    Prop where
  distinct : (derived.scriptKeys X).Nodup
  required : ∀ input : PsbtInput, input.witnessScript = some (derived.witnessScript X) →
    input.Covered → ∃ keys : List PublicKey, keys.Nodup ∧ keys.length = w.threshold.toNat ∧
      ∀ key ∈ keys, key ∈ derived.scriptKeys X ∧ (input.partialSigs[key]?).isSome = true
  sources : ∀ user keystore, (user, keystore) ∈ w.submissions →
    ∀ key, X.atDerivationIndex keystore index = .ok key →
      (derived.keySources X ∅)[(key.derivePublicKey X).inner]? =
        some (keystoreFingerprint X keystore, key.key.fullDerivationPath)

/-- A key the script may hold derives compressed keys. -/
theorem derivePublicKey_compressed (hX : X.DerivesKeys) {keystore : DescriptorPublicKey}
    {index : UInt32} {key : DefiniteDescriptorKey}
    (h : X.atDerivationIndex keystore index = .ok key)
    (hadmissible : keystore.segwitAdmissible = true) :
    (key.derivePublicKey X).compressed = true := by
  obtain ⟨key, hdefinite⟩ := key
  obtain rfl : key = keystore.replaced index := hX.key_eq h
  cases keystore with
  | single k =>
    obtain ⟨origin, pk | x⟩ := k
    · show pk.compressed = true
      simpa [DescriptorPublicKey.segwitAdmissible, DescriptorPublicKey.isUncompressed,
        DescriptorPublicKey.isXOnly] using hadmissible
    · exact absurd hadmissible (by simp [DescriptorPublicKey.segwitAdmissible,
        DescriptorPublicKey.isXOnly])
  | xPub k => rfl
  | multiXPub k => exact absurd hdefinite Bool.false_ne_true

/-- What every keystore becomes at an index. -/
theorem keyAt_of_ok {keystore : DescriptorPublicKey} {index : UInt32}
    {key : DefiniteDescriptorKey} (h : X.atDerivationIndex keystore index = .ok key) :
    keyAt X keystore index = some (key.derivePublicKey X) := by
  unfold keyAt
  rw [h]

/-- The points of a derived descriptor are different exactly when its keys are apart. -/
theorem nodup_points_iff {d : Descriptor} {index : UInt32} {derived : DefiniteDescriptor}
    (hderived : d.atDerivationIndex X index = .ok derived) :
    (derived.keys.map fun k => (k.derivePublicKey X).inner).Nodup ↔ Apart X index d.keys := by
  have hmatched := Matched.mapM_eq_ok (Descriptor.atDerivationIndex_eq_ok hderived).2
  rw [List.Nodup, List.pairwise_map]
  refine (Matched.pairwise_iff hmatched fun {a a' b b'} ha ha' => ?_).symm
  rw [keyAt_of_ok ha, keyAt_of_ok ha']
  constructor
  · exact fun h => h _ _ rfl rfl
  · rintro h _ _ ⟨⟩ ⟨⟩
    exact h

theorem apart_perm {index : UInt32} {keystores keystores' : List DescriptorPublicKey}
    (h : keystores.Perm keystores') : Apart X index keystores ↔ Apart X index keystores' :=
  h.pairwise_iff fun hab key key' hkey hkey' heq => hab key' key hkey' hkey heq.symm

/-- Compressed keys are different with their points. -/
theorem nodup_iff_points {keys : List PublicKey} (h : ∀ key ∈ keys, key.compressed = true) :
    keys.Nodup ↔ (keys.map PublicKey.inner).Nodup := by
  refine ⟨List.Nodup.map_on fun key hkey key' hkey' heq => ?_, List.Nodup.of_map _⟩
  have hc := h key hkey
  have hc' := h key' hkey'
  obtain ⟨compressed, inner⟩ := key
  obtain ⟨compressed', inner'⟩ := key'
  rw [show compressed = true from hc, show compressed' = true from hc',
    show inner = inner' from heq]

theorem mem_scriptKeys {derived : DefiniteDescriptor} {key : PublicKey} :
    key ∈ derived.scriptKeys X ↔ ∃ k ∈ derived.keys, k.derivePublicKey X = key := by
  unfold DefiniteDescriptor.scriptKeys
  rw [(List.perm_insertionSort _ _).mem_iff, List.mem_map]

section

variable (hX : X.DerivesKeys) {d : Descriptor} {index : UInt32} {derived : DefiniteDescriptor}
include hX

theorem scriptKeys_compressed (hderived : d.atDerivationIndex X index = .ok derived)
    (hadmissible : ∀ key ∈ d.keys, key.segwitAdmissible = true) :
    ∀ key ∈ derived.scriptKeys X, key.compressed = true := by
  intro key hkey
  obtain ⟨k, hk, rfl⟩ := mem_scriptKeys.mp hkey
  obtain ⟨keystore, hmem, hok⟩ := Matched.exists_of_mem_right
    (Matched.mapM_eq_ok (Descriptor.atDerivationIndex_eq_ok hderived).2) hk
  exact derivePublicKey_compressed hX hok (hadmissible keystore hmem)

/-- **The script's keys are different** exactly when the descriptor's keys are apart. -/
theorem scriptKeys_nodup_iff (hderived : d.atDerivationIndex X index = .ok derived)
    (hadmissible : ∀ key ∈ d.keys, key.segwitAdmissible = true) :
    (derived.scriptKeys X).Nodup ↔ Apart X index d.keys := by
  rw [nodup_iff_points (scriptKeys_compressed hX hderived hadmissible), ← nodup_points_iff hderived]
  unfold DefiniteDescriptor.scriptKeys
  rw [((List.perm_insertionSort _ _).map _).nodup_iff, List.map_map]
  rfl

/-- With different keys in the script, a covered input holds signatures under `threshold` of
them. -/
theorem covered_keys (hderived : d.atDerivationIndex X index = .ok derived)
    (hadmissible : ∀ key ∈ d.keys, key.segwitAdmissible = true)
    (hdistinct : (derived.scriptKeys X).Nodup) {input : PsbtInput}
    (hscript : input.witnessScript = some (derived.witnessScript X)) (hcovered : input.Covered) :
    ∃ keys : List PublicKey, keys.Nodup ∧ keys.length = derived.threshold ∧
      ∀ key ∈ keys, key ∈ derived.scriptKeys X ∧ (input.partialSigs[key]?).isSome = true := by
  unfold PsbtInput.Covered at hcovered
  rw [hscript] at hcovered
  have henough : derived.threshold ≤
      (derived.scriptKeys X).countP fun key => (input.signatureFor key).isSome := hcovered
  rw [List.countP_eq_length_filter] at henough
  refine ⟨((derived.scriptKeys X).filter fun key => (input.signatureFor key).isSome).take
    derived.threshold, (hdistinct.filter _).sublist (List.take_sublist _ _), ?_, fun key hkey => ?_⟩
  · rw [List.length_take, Nat.min_eq_left henough]
  · obtain ⟨hmem, hsigned⟩ := List.mem_filter.mp (List.mem_of_mem_take hkey)
    have hcompressed := scriptKeys_compressed hX hderived hadmissible key hmem
    obtain ⟨compressed, inner⟩ := key
    obtain rfl : compressed = true := hcompressed
    exact ⟨hmem, hsigned⟩

end

/-- Keys that are apart keep their key sources apart. -/
theorem keySources_of_apart (hX : X.DerivesKeys) {d : Descriptor} {index : UInt32}
    {derived : DefiniteDescriptor}
    (hderived : d.atDerivationIndex X index = .ok derived) (hapart : Apart X index d.keys)
    {keystore : DescriptorPublicKey} (hkeystore : keystore ∈ d.keys) {key : DefiniteDescriptorKey}
    (hkey : X.atDerivationIndex keystore index = .ok key) :
    (derived.keySources X ∅)[(key.derivePublicKey X).inner]? =
      some (keystoreFingerprint X keystore, key.key.fullDerivationPath) := by
  have hmatched := Matched.mapM_eq_ok (Descriptor.atDerivationIndex_eq_ok hderived).2
  obtain ⟨key', hkey', hok⟩ := Matched.exists_of_mem_left hmatched hkeystore
  obtain rfl := Except.ok.inj (hkey.symm.trans hok)
  rw [keySources_eq_overwrite, ← masterFingerprint_atDerivationIndex hX hkey]
  refine MapMerge.getElem?_overwrite_of_nodup _ ?_ (List.mem_map.mpr ⟨key, hkey', rfl⟩)
  rw [List.map_map]
  exact (nodup_points_iff hderived).mpr hapart

/-- The key without the origin its submitter claims. -/
def DescriptorPublicKey.withoutOrigin : DescriptorPublicKey → DescriptorPublicKey
  | .single k => .single { k with origin := none }
  | .xPub k => .xPub { k with origin := none }
  | .multiXPub k => .multiXPub { k with origin := none }

/-- The public key of an extended key at an index, whatever its origin. -/
theorem keyAt_xPub (hX : X.DerivesKeys) (k : DescriptorXKey) (index : UInt32) :
    keyAt X (.xPub k) index = if (DescriptorPublicKey.xPub k).DerivesAt index then
      some ⟨true, X.derivePub k.xkey (k.pathAt index)⟩ else none := by
  split
  · rename_i h
    rw [keyAt_of_ok (hX.xPub k index h.2 ((k.isDefinite_replaced index).trans h.1))]
    rfl
  · rename_i h
    unfold keyAt
    split
    · rename_i key hok
      exact absurd (hX.isOk_iff.mp ⟨key, hok⟩) h
    · rfl

/-- An origin changes no key. -/
theorem keyAt_withoutOrigin (hX : X.DerivesKeys) (keystore : DescriptorPublicKey)
    (index : UInt32) : keyAt X keystore.withoutOrigin index = keyAt X keystore index := by
  cases keystore with
  | single k =>
    obtain ⟨origin, key⟩ := k
    rw [DescriptorPublicKey.withoutOrigin, keyAt_of_ok (hX.single _ index),
      keyAt_of_ok (hX.single _ index)]
    cases key <;> rfl
  | xPub k =>
    rw [DescriptorPublicKey.withoutOrigin, keyAt_xPub hX, keyAt_xPub hX]
    rfl
  | multiXPub k =>
    unfold keyAt
    rw [DescriptorPublicKey.withoutOrigin, hX.multiXPub, hX.multiXPub]

/-- **Different keys in an active policy, exactly.** Whatever commands made a wallet active, at every
index its descriptor derives at, the keys are the participants' own if and only if no two keystores
have one point there; and where two participants submitted one key under different origins they are
not, at any index. -/
theorem active_keys_distinct_iff (hX : X.DerivesKeys) {id : WalletId} {threshold : UInt32}
    {participants : List UserId} {n : NewWallet}
    (hn : NewWallet.new id network threshold participants = .ok n) (cs : List WalletCommand)
    (hactive : (n.registered.run X cs).status = .active) {d : Descriptor}
    (hd : (n.registered.run X cs).descriptor = some d) {index : UInt32}
    {derived : DefiniteDescriptor} (hderived : d.atDerivationIndex X index = .ok derived) :
    (OwnKeys X (n.registered.run X cs) index derived ↔
      Apart X index (n.registered.run X cs).keystores) ∧
    ∀ user keystore user' keystore',
      (user, keystore) ∈ (n.registered.run X cs).submissions →
      (user', keystore') ∈ (n.registered.run X cs).submissions → user ≠ user' →
      keystore.withoutOrigin = keystore'.withoutOrigin →
      ¬ OwnKeys X (n.registered.run X cs) index derived := by
  have hinv := (NewWallet.registered_inv X hn).run cs
  generalize n.registered.run X cs = w at *
  obtain ⟨d', hsorted, hd', -⟩ := hinv.descriptor hactive
  obtain rfl := Option.some.inj (hd.symm.trans hd')
  obtain ⟨-, hadmissible, hdescriptor⟩ := (sortedmultiWshDescriptor_eq_ok_iff X).mp hsorted
  have hperm : d.keys.Perm w.keystores := by
    rw [hdescriptor]
    exact List.perm_insertionSort _ _
  have hthreshold : derived.threshold = w.threshold.toNat := by
    rw [(Descriptor.atDerivationIndex_eq_ok hderived).1, hdescriptor]
  have hadmissible' : ∀ key ∈ d.keys, key.segwitAdmissible = true :=
    fun key hkey => hadmissible key (hperm.mem_iff.mp hkey)
  have hiff : OwnKeys X w index derived ↔ Apart X index w.keystores := by
    rw [← apart_perm hperm]
    constructor
    · exact fun h => (scriptKeys_nodup_iff hX hderived hadmissible').mp h.distinct
    · intro hapart
      have hdistinct := (scriptKeys_nodup_iff hX hderived hadmissible').mpr hapart
      refine ⟨hdistinct, fun input hscript hcovered => ?_, fun user keystore hmem key hkey => ?_⟩
      · rw [← hthreshold]
        exact covered_keys hX hderived hadmissible' hdistinct hscript hcovered
      · exact keySources_of_apart hX hderived hapart
          (hperm.mem_iff.mpr (List.mem_map.mpr ⟨_, hmem, rfl⟩)) hkey
  refine ⟨hiff, fun user keystore user' keystore' hmem hmem' hne hsame hown => ?_⟩
  have hapart := hiff.mp hown
  -- both keys derive, since the descriptor does
  have hkeystore : keystore ∈ d.keys := hperm.mem_iff.mpr (List.mem_map.mpr ⟨_, hmem, rfl⟩)
  obtain ⟨key, -, hkey⟩ := Matched.exists_of_mem_left
    (Matched.mapM_eq_ok (Descriptor.atDerivationIndex_eq_ok hderived).2) hkeystore
  have hat := keyAt_of_ok (X := X) hkey
  have hat' : keyAt X keystore' index = some (key.derivePublicKey X) := by
    rw [← keyAt_withoutOrigin hX, ← hsame, keyAt_withoutOrigin hX, hat]
  unfold Apart Wallet.keystores at hapart
  rw [List.pairwise_map] at hapart
  have hsymm : Std.Symm fun (a b : UserId × DescriptorPublicKey) => ∀ key key' : PublicKey,
      keyAt X a.2 index = some key → keyAt X b.2 index = some key' → key.inner ≠ key'.inner :=
    ⟨fun _ _ hab key key' hk hk' heq => hab key' key hk' hk heq.symm⟩
  exact hapart.forall hmem hmem' (fun heq => hne (congrArg Prod.fst heq)) _ _ hat hat' rfl

/-- A wallet of two participants that both must sign. -/
def pairPolicy : NewWallet := ⟨⟨0⟩, .bitcoin, 2, [⟨0⟩, ⟨1⟩]⟩

/-- Each submits a key of their own. -/
def ownKeys : List WalletCommand :=
  [.addKeystore (Extern.Sample.key 1) ⟨0⟩, .addKeystore (Extern.Sample.key 2) ⟨1⟩]

/-- Both submit one key, under different claimed origins. -/
def twinKeys : List WalletCommand :=
  [.addKeystore (Extern.Sample.claimed 1 1) ⟨0⟩, .addKeystore (Extern.Sample.claimed 1 9) ⟨1⟩]

/-- The two keys of `ownKeys` at index 0. -/
def ownDerived : DefiniteDescriptor :=
  ⟨2, [⟨.xPub ⟨none, ⟨1⟩, [.normal 0], .none⟩, rfl⟩, ⟨.xPub ⟨none, ⟨2⟩, [.normal 0], .none⟩, rfl⟩]⟩

/-- The two keys of `twinKeys` at index 0. -/
def twinDerived : DefiniteDescriptor :=
  ⟨2, [⟨.xPub ⟨some (1, []), ⟨1⟩, [.normal 0], .none⟩, rfl⟩,
    ⟨.xPub ⟨some (9, []), ⟨1⟩, [.normal 0], .none⟩, rfl⟩]⟩

theorem active_keys_distinct_pair :
    OwnKeys (.sample []) (pairPolicy.registered.run (.sample []) ownKeys) 0 ownDerived := by
  refine (@active_keys_distinct_iff (.sample []) .bitcoin (Extern.Sample.derivesKeys []) ⟨0⟩ 2
    [⟨0⟩, ⟨1⟩] pairPolicy (by decide) ownKeys (by decide)
    ⟨2, [Extern.Sample.key 1, Extern.Sample.key 2]⟩ (by decide) 0 ownDerived rfl).1.mpr ?_
  show List.Pairwise _ [Extern.Sample.key 1, Extern.Sample.key 2]
  refine List.pairwise_pair.mpr fun key key' hkey hkey' => ?_
  obtain rfl := Option.some.inj (hkey.symm.trans rfl)
  obtain rfl := Option.some.inj (hkey'.symm.trans rfl)
  decide

/-- **One key twice is an active two-of-two policy**: the script holds one key at both places, a
single signature covers an input, and the only key source is that of the second participant. -/
theorem twin_keys_activate :
    (pairPolicy.registered.run (.sample []) twinKeys).status = .active ∧
    (pairPolicy.registered.run (.sample []) twinKeys).descriptor =
      some ⟨2, Extern.Sample.twins⟩ ∧
    (⟨2, Extern.Sample.twins⟩ : Descriptor).atDerivationIndex (.sample []) 0 = .ok twinDerived ∧
    twinDerived.scriptKeys (.sample []) = [⟨true, ⟨10⟩⟩, ⟨true, ⟨10⟩⟩] ∧
    ({ PsbtInput.default with
      witnessScript := some (twinDerived.witnessScript (.sample []))
      partialSigs := (∅ : PartialSigs).insert ⟨true, ⟨10⟩⟩ ⟨⟨5⟩, .all⟩ } : PsbtInput).Covered ∧
    (twinDerived.keySources (.sample []) ∅)[(⟨10⟩ : Point)]? = some (9, [.normal 0]) := by
  refine ⟨by decide, by decide, rfl, by decide, by decide +kernel, by decide +kernel⟩

end Kota
