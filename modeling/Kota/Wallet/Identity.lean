import Kota.Lib.Text
import Kota.Wallet.Lifecycle

/-!
# The identity of a wallet

`core_wallets.descriptor_fingerprint` is unique: a wallet is identified by the digest of its
network and its canonical descriptor string. The descriptor sorts the keystores by their string
form, so the order in which they were submitted does not matter, and the digested text can be read
back into network, threshold and keystores, so that nothing else is identified.

* `body_inj`, `fingerprintText_inj`: the text determines network, threshold and sorted keys.
* `descriptor_congr`: keystores that are the same set give the same descriptor.

Result: **`same_fingerprint_iff`**.
-/

namespace Kota

variable {X : Extern}

/-! ## The digested text -/

/-- The text `descriptor_fingerprint` digests. -/
def fingerprintText (X : Extern) (descriptor : Descriptor) (network : Network) : List Char :=
  network.display ++ ':' :: splitOnceHash (descriptor.display X)

theorem descriptorFingerprint_eq (descriptor : Descriptor) (network : Network) :
    descriptorFingerprint X descriptor network =
      ⟨X.sha256 (utf8 (fingerprintText X descriptor network))⟩ := rfl

theorem splitOnceHash_append {body rest : List Char} (h : '#' ∉ body) :
    splitOnceHash (body ++ '#' :: rest) = body := by
  induction body with
  | nil => simp [splitOnceHash]
  | cons c body ih =>
    rw [List.mem_cons, not_or] at h
    rw [List.cons_append]
    unfold splitOnceHash
    rw [if_neg (Ne.symm h.1), ih h.2]

theorem joinComma_eq (l : List (List Char)) : joinComma l = List.intercalate [','] l := by
  induction l with
  | nil => rfl
  | cons s rest ih =>
    cases rest with
    | nil => simp [joinComma, List.intercalate]
    | cons t rest =>
      unfold joinComma
      rw [ih]
      simp [List.intercalate]

theorem Network.colon_not_mem (network : Network) : ':' ∉ network.display := by
  cases network <;> decide

theorem Network.display_injective : Function.Injective Network.display := by
  intro n n' h
  cases n <;> cases n' <;> first | rfl | exact absurd h (by decide)

/-- The string forms of the keys contain neither of the characters a descriptor string puts around
them. -/
def PlainKeys (X : Extern) (keys : List DescriptorPublicKey) : Prop :=
  ∀ key ∈ keys, ',' ∉ X.keyToString key ∧ '#' ∉ X.keyToString key

theorem hash_not_mem_joinComma {l : List (List Char)} (h : ∀ s ∈ l, '#' ∉ s) :
    '#' ∉ joinComma l := by
  induction l with
  | nil => exact List.not_mem_nil
  | cons s rest ih =>
    obtain ⟨hs, hrest⟩ := List.forall_mem_cons.mp h
    cases rest with
    | nil => exact hs
    | cons t rest =>
      unfold joinComma
      have := ih hrest
      simp only [List.mem_append, List.mem_cons, not_or]
      exact ⟨hs, by decide, this⟩

theorem hash_not_mem_body {d : Descriptor} (h : PlainKeys X d.keys) : '#' ∉ d.body X := by
  have hkeys : '#' ∉ joinComma (d.keys.map X.keyToString) := by
    refine hash_not_mem_joinComma fun s hs => ?_
    obtain ⟨key, hkey, rfl⟩ := List.mem_map.mp hs
    exact (h key hkey).2
  have hdigits := Text.not_mem_toDigits (c := '#') (by decide) d.threshold
  unfold Descriptor.body
  simp only [List.mem_append, List.mem_cons, not_or]
  exact ⟨⟨⟨by decide, hdigits⟩, by decide, hkeys⟩, by decide⟩

/-- Without its checksum a descriptor string determines the threshold and the keys' strings. -/
theorem body_inj {d d' : Descriptor} (h : PlainKeys X d.keys) (h' : PlainKeys X d'.keys)
    (hne : d.keys ≠ []) (hne' : d'.keys ≠ []) (heq : d.body X = d'.body X) :
    d.threshold = d'.threshold ∧ d.keys.map X.keyToString = d'.keys.map X.keyToString := by
  have hcomma : ∀ {keys : List DescriptorPublicKey}, PlainKeys X keys →
      ∀ s ∈ keys.map X.keyToString, ',' ∉ s := by
    intro keys hplain s hs
    obtain ⟨key, hkey, rfl⟩ := List.mem_map.mp hs
    exact (hplain key hkey).1
  unfold Descriptor.body at heq
  rw [List.append_assoc, List.append_assoc, List.append_assoc, List.append_assoc] at heq
  have hrest := List.append_cancel_left heq
  simp only [List.cons_append] at hrest
  obtain ⟨hdigits, hkeys⟩ := Text.append_sep_inj
    (Text.not_mem_toDigits (by decide) _) (Text.not_mem_toDigits (by decide) _) hrest
  have hjoined := List.append_cancel_right hkeys
  rw [joinComma_eq, joinComma_eq] at hjoined
  exact ⟨Text.toDigits_injective hdigits, Text.intercalate_inj (by simpa using hne)
    (by simpa using hne') (hcomma h) (hcomma h') hjoined⟩

/-- The digested text determines the network, the threshold and the keys' strings. -/
theorem fingerprintText_inj {d d' : Descriptor} {network network' : Network}
    (h : PlainKeys X d.keys) (h' : PlainKeys X d'.keys) (hne : d.keys ≠ []) (hne' : d'.keys ≠ [])
    (heq : fingerprintText X d network = fingerprintText X d' network') :
    network = network' ∧ d.threshold = d'.threshold ∧
      d.keys.map X.keyToString = d'.keys.map X.keyToString := by
  unfold fingerprintText Descriptor.display at heq
  rw [splitOnceHash_append (hash_not_mem_body h), splitOnceHash_append (hash_not_mem_body h')]
    at heq
  obtain ⟨hnetwork, hbody⟩ := Text.append_sep_inj (Network.colon_not_mem network)
    (Network.colon_not_mem network') heq
  exact ⟨Network.display_injective hnetwork, body_inj h h' hne hne' hbody⟩

/-! ## Active wallets -/

/-- The same network, the same threshold and the same set of keystores. -/
structure SamePolicy (w w' : Wallet) : Prop where
  network : w.network = w'.network
  threshold : w.threshold = w'.threshold
  keystores : ∀ key, key ∈ w.keystores ↔ key ∈ w'.keystores

/-- The descriptor and the fingerprint of an active wallet. -/
structure Identified (X : Extern) (w : Wallet) (d : Descriptor) : Prop where
  descriptor : w.descriptor = some d
  fingerprint : w.descriptorFingerprint = some (Kota.descriptorFingerprint X d w.network)
  threshold : d.threshold = w.threshold.toNat
  keys : d.keys = w.keystores.insertionSort fun a b => X.keyToString a ≤ X.keyToString b
  nonempty : d.keys ≠ []
  distinct : w.keystores.Nodup

theorem Wallet.Inv.identified {w : Wallet} (h : Wallet.Inv X w) (hactive : w.status = .active) :
    ∃ d, Identified X w d := by
  obtain ⟨d, hderived, hd, hfingerprint⟩ := h.descriptor hactive
  obtain ⟨⟨hpos, hle, -⟩, -, rfl⟩ := (sortedmultiWshDescriptor_eq_ok_iff X).mp hderived
  refine ⟨_, hd, hfingerprint, rfl, rfl, fun hnil => ?_, h.fingerprints.of_map _⟩
  have hlen := congrArg List.length hnil
  rw [List.length_insertionSort] at hlen
  simp only [List.length_nil] at hlen
  omega

theorem Identified.mem_keys {w : Wallet} {d : Descriptor} (h : Identified X w d)
    {key : DescriptorPublicKey} : key ∈ d.keys ↔ key ∈ w.keystores := by
  rw [h.keys]
  exact (List.perm_insertionSort _ _).mem_iff

/-- **The descriptor is canonical**: it depends on the threshold and the set of keystores only. -/
theorem descriptor_congr {w w' : Wallet} {d d' : Descriptor} (h : Identified X w d)
    (h' : Identified X w' d')
    (hinj : ∀ key ∈ w.keystores, ∀ key' ∈ w.keystores ++ w'.keystores,
      X.keyToString key = X.keyToString key' → key = key')
    (hthreshold : w.threshold = w'.threshold)
    (hkeys : ∀ key, key ∈ w.keystores ↔ key ∈ w'.keystores) : d = d' := by
  have hperm : w.keystores.Perm w'.keystores :=
    (List.perm_ext_iff_of_nodup h.distinct h'.distinct).mpr hkeys
  have hsorted : d.keys = d'.keys := by
    rw [h.keys, h'.keys]
    exact Text.insertionSort_key_eq
      (fun a ha b hb => hinj a ha b (List.mem_append_left _ hb)) hperm
  obtain ⟨t, keys⟩ := d
  obtain ⟨t', keys'⟩ := d'
  obtain rfl : keys = keys' := hsorted
  have ht : t = t' := by
    rw [show t = w.threshold.toNat from h.threshold, hthreshold]
    exact h'.threshold.symm
  rw [ht]

/-- Descriptors with one fingerprint are those of one policy, as far as the strings and the digest
tell the two wallets apart. -/
theorem Identified.samePolicy {w w' : Wallet} {d d' : Descriptor} (hd : Identified X w d)
    (hd' : Identified X w' d')
    (hinj : ∀ key ∈ w.keystores ++ w'.keystores, ∀ key' ∈ w.keystores ++ w'.keystores,
      X.keyToString key = X.keyToString key' → key = key')
    (hplain : PlainKeys X (w.keystores ++ w'.keystores))
    (hsha : X.sha256 (utf8 (fingerprintText X d w.network)) =
        X.sha256 (utf8 (fingerprintText X d' w'.network)) →
      utf8 (fingerprintText X d w.network) = utf8 (fingerprintText X d' w'.network))
    (heq : w.descriptorFingerprint = w'.descriptorFingerprint) : SamePolicy w w' := by
  rw [hd.fingerprint, hd'.fingerprint, Option.some.injEq, descriptorFingerprint_eq,
    descriptorFingerprint_eq, DescriptorFingerprint.mk.injEq] at heq
  have htext := Text.flatMap_utf8EncodeChar_injective (hsha heq)
  obtain ⟨hnetwork, hthreshold, hstrings⟩ := fingerprintText_inj
    (fun key hkey => hplain key (List.mem_append_left _ (hd.mem_keys.mp hkey)))
    (fun key hkey => hplain key (List.mem_append_right _ (hd'.mem_keys.mp hkey)))
    hd.nonempty hd'.nonempty htext
  have hmem : ∀ {a b : Wallet} {e e' : Descriptor}, Identified X a e → Identified X b e' →
      e.keys.map X.keyToString = e'.keys.map X.keyToString →
      (∀ key ∈ a.keystores, ∀ key' ∈ b.keystores,
        X.keyToString key = X.keyToString key' → key = key') →
      ∀ key ∈ a.keystores, key ∈ b.keystores := by
    intro a b e e' he he' hstrings hinj key hkey
    have hs : X.keyToString key ∈ e'.keys.map X.keyToString :=
      hstrings ▸ List.mem_map_of_mem (he.mem_keys.mpr hkey)
    obtain ⟨key', hkey', heq⟩ := List.mem_map.mp hs
    rw [he'.mem_keys] at hkey'
    rwa [hinj key hkey key' hkey' heq.symm]
  refine ⟨hnetwork, UInt32.toNat_inj.mp ?_, fun key => ⟨?_, ?_⟩⟩
  · rw [← hd.threshold, ← hd'.threshold, hthreshold]
  · exact hmem hd hd' hstrings (fun k hk k' hk' => hinj k (List.mem_append_left _ hk) k'
      (List.mem_append_right _ hk')) key
  · exact hmem hd' hd hstrings.symm (fun k hk k' hk' => hinj k (List.mem_append_right _ hk) k'
      (List.mem_append_left _ hk')) key

/-- **Fingerprints identify policies.** For any two wallets that any two runs made active, the
descriptor fingerprints are equal exactly when network, threshold and set of keystores are, and
equal thresholds and sets of keystores give equal descriptors. Assumed of the wallets at hand only:
the string form tells their keystores apart and contains no comma and no hash sign, and the digest
tells their two texts apart. -/
theorem same_fingerprint_iff (X : Extern) {id id' : WalletId} {network network' : Network}
    {threshold threshold' : UInt32} {participants participants' : List UserId} {n n' : NewWallet}
    (hn : NewWallet.new id network threshold participants = .ok n)
    (hn' : NewWallet.new id' network' threshold' participants' = .ok n')
    {cs cs' : List WalletCommand} {w w' : Wallet}
    (hw : n.registered.run X cs = w) (hw' : n'.registered.run X cs' = w')
    (hactive : w.status = .active) (hactive' : w'.status = .active)
    (hinj : ∀ key ∈ w.keystores ++ w'.keystores, ∀ key' ∈ w.keystores ++ w'.keystores,
      X.keyToString key = X.keyToString key' → key = key')
    (hplain : PlainKeys X (w.keystores ++ w'.keystores))
    (hsha : ∀ d d', w.descriptor = some d → w'.descriptor = some d' →
      X.sha256 (utf8 (fingerprintText X d w.network)) =
        X.sha256 (utf8 (fingerprintText X d' w'.network)) →
      utf8 (fingerprintText X d w.network) = utf8 (fingerprintText X d' w'.network)) :
    w.descriptorFingerprint.isSome = true ∧
    (w.descriptorFingerprint = w'.descriptorFingerprint ↔ SamePolicy w w') ∧
    (w.threshold = w'.threshold → (∀ key, key ∈ w.keystores ↔ key ∈ w'.keystores) →
      w.descriptor = w'.descriptor) := by
  have hinv : Wallet.Inv X w := hw ▸ (NewWallet.registered_inv X hn).run cs
  have hinv' : Wallet.Inv X w' := hw' ▸ (NewWallet.registered_inv X hn').run cs'
  obtain ⟨d, hd⟩ := hinv.identified hactive
  obtain ⟨d', hd'⟩ := hinv'.identified hactive'
  have hcongr := descriptor_congr hd hd' fun key hkey key' hkey' =>
    hinj key (List.mem_append_left _ hkey) key' hkey'
  refine ⟨by rw [hd.fingerprint]; rfl, ⟨fun heq => ?_, fun hsame => ?_⟩, fun ht hkeys => ?_⟩
  · exact hd.samePolicy hd' hinj hplain (hsha d d' hd.descriptor hd'.descriptor) heq
  · obtain rfl := hcongr hsame.threshold hsame.keystores
    rw [hd.fingerprint, hd'.fingerprint, hsame.network]
  · obtain rfl := hcongr ht hkeys
    rw [hd.descriptor, hd'.descriptor]

namespace Extern.Sample

/-- A two-of-two wallet for the participants 7 and 8. -/
def pair : NewWallet := ⟨⟨0⟩, .signet, 2, [⟨7⟩, ⟨8⟩]⟩

/-- The keystores in order, and in the other order after a keystore was replaced. -/
def inOrder : List WalletCommand := [.addKeystore (key 1) ⟨7⟩, .addKeystore (key 2) ⟨8⟩]

def replaced : List WalletCommand :=
  [.addKeystore (key 3) ⟨7⟩, .removeKeystore ⟨7⟩ ⟨8⟩, .addKeystore (key 2) ⟨7⟩,
    .addKeystore (key 1) ⟨8⟩]

end Extern.Sample

open Extern.Sample in
theorem same_fingerprint_replaced :
    (pair.registered.run (.sample []) inOrder).descriptorFingerprint =
      (pair.registered.run (.sample []) replaced).descriptorFingerprint := by
  have hkeys : (pair.registered.run (.sample []) inOrder).keystores = [key 1, key 2] := by
    decide +kernel
  have hkeys' : (pair.registered.run (.sample []) replaced).keystores = [key 2, key 1] := by
    decide +kernel
  have hsame : SamePolicy (pair.registered.run (.sample []) inOrder)
      (pair.registered.run (.sample []) replaced) := by
    refine ⟨rfl, rfl, fun k => ?_⟩
    rw [hkeys, hkeys']
    simp only [List.mem_cons, List.not_mem_nil, or_false]
    exact or_comm
  refine (@same_fingerprint_iff (.sample []) ⟨0⟩ ⟨0⟩ .signet .signet 2 2 [⟨7⟩, ⟨8⟩] [⟨7⟩, ⟨8⟩]
    pair pair rfl rfl inOrder replaced _ _ rfl rfl (by decide +kernel) (by decide +kernel)
    ?_ ?_ ?_).2.1.mpr hsame
  · rw [hkeys, hkeys']
    decide +kernel
  · rw [hkeys, hkeys']
    unfold PlainKeys
    decide +kernel
  · intro d d' hd hd' _
    have hcanonical : (pair.registered.run (.sample []) inOrder).descriptor =
        (pair.registered.run (.sample []) replaced).descriptor := by
      decide +kernel
    rw [hd, hd'] at hcanonical
    obtain rfl := Option.some.inj hcanonical
    rfl

end Kota
