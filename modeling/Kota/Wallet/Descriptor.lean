import Mathlib.Data.Char
import Mathlib.Data.List.Lex
import Kota.Bitcoin.Extern

/-!
# Wallet-side bitcoin logic: keystores and descriptors

Model of the descriptor half of `wallet.rs`: `sortedmulti_wsh_descriptor`,
`descriptor_fingerprint`, `keystore_fingerprint` and the error type of the module. The PSBT
builder is in `Wallet/Build.lean`.

`keystoreFingerprint_eq` says that the fingerprint a keystore is identified by is the master
fingerprint `update_input_with_descriptor` writes into a PSBT's key sources.
-/

namespace Kota

/-- `wallet::WalletError`. -/
inductive WalletError where
  | miniscript (e : MiniscriptError)
  | threshold (e : ThresholdError)
  | nonDefiniteKey (e : NonDefiniteKeyError)
  | missingFunding (outpoint : OutPoint)
  | invalidAddress (reason : String)
  | amountMismatch (inputsSats outputsSats feeSats : UInt64)
  | amountOverflow
  | psbt (reason : String)
  | invalidPolicy (threshold totalKeystores : UInt32)
  | duplicateParticipant (participant : UserId)
  | notAParticipant (user : UserId)
  | participantAlreadySubmitted (user : UserId)
  | alreadyActive
  | duplicateKeystore (fingerprint : KeyFingerprint)
  | cancelled
  | cannotCancelActive
  | outputUpdate (e : OutputUpdateError)
  | utxoUpdate (e : UtxoUpdateError)
  /-- The panic of an `expect`, which unwinds through the caller. -/
  | expectation (message : String)
  deriving DecidableEq, Repr

/-- What a derivation that ends without a key is to its caller. -/
def DerivationFailure.toWalletError : DerivationFailure → WalletError
  | .error e => .nonDefiniteKey e
  | .panic message => .expectation message

variable (X : Extern)

/-- Master fingerprint identifying a keystore: the origin fingerprint of an extended key when it
has one, else what `master_fingerprint` says. -/
def keystoreFingerprint : DescriptorPublicKey → KeyFingerprint
  | .xPub k =>
    match k.origin with
    | some (fingerprint, _) => fingerprint
    | none => (DescriptorPublicKey.xPub k).masterFingerprint X
  | key => key.masterFingerprint X

/-- The `wsh(sortedmulti)` descriptor of the keystores, sorted by their string form first. -/
def sortedmultiWshDescriptor (threshold : Nat) (keystores : List DescriptorPublicKey) :
    Except WalletError Descriptor :=
  let keystores := keystores.insertionSort fun a b => X.keyToString a ≤ X.keyToString b
  match Threshold.new threshold keystores with
  | .error e => .error (.threshold e)
  | .ok threshold =>
    match Descriptor.newWshSortedmulti threshold with
    | .error e => .error (.miniscript e)
    | .ok descriptor => .ok descriptor

/-- `str::as_bytes`. -/
def utf8 (s : List Char) : Bytes := s.flatMap String.utf8EncodeChar

/-- What stands before the first `#`, or everything. -/
def splitOnceHash : List Char → List Char
  | [] => []
  | c :: rest => if c = '#' then [] else c :: splitOnceHash rest

/-- Content address of a wallet: digest of the network and the descriptor string without its
checksum. -/
def descriptorFingerprint (descriptor : Descriptor) (network : Network) :
    DescriptorFingerprint :=
  let canonical := splitOnceHash (descriptor.display X)
  ⟨X.sha256 (utf8 (network.display ++ ':' :: canonical))⟩

/-! ## Lemmas -/

/-- A keystore's fingerprint is the master fingerprint of its key, for every kind of key. -/
theorem keystoreFingerprint_eq (key : DescriptorPublicKey) :
    keystoreFingerprint X key = key.masterFingerprint X := by
  cases key with
  | single k => rfl
  | multiXPub k => rfl
  | xPub k =>
    unfold keystoreFingerprint
    cases h : k.origin with
    | none => simp [h]
    | some source => simp [DescriptorPublicKey.masterFingerprint, h]

theorem newWshSortedmulti_eq_ok_iff {t : Nat × List DescriptorPublicKey} {d : Descriptor} :
    Descriptor.newWshSortedmulti t = .ok d ↔
      (∀ k ∈ t.2, k.segwitAdmissible = true) ∧ d = ⟨t.1, t.2⟩ := by
  unfold Descriptor.newWshSortedmulti
  split
  · rename_i key hfind
    have hbad := List.find?_some hfind
    have hmem := List.mem_of_find?_eq_some hfind
    constructor
    · intro h
      split at h <;> exact absurd h (by simp)
    · rintro ⟨hall, -⟩
      rw [hall key hmem] at hbad
      exact absurd hbad (by simp)
  · rename_i hfind
    have hall : ∀ k ∈ t.2, k.segwitAdmissible = true := by
      intro k hk
      have := List.find?_eq_none.mp hfind k hk
      simpa using this
    constructor
    · intro h
      exact ⟨hall, (Except.ok.inj h).symm⟩
    · rintro ⟨-, rfl⟩
      rfl

/-- **When a descriptor exists**: `0 < k ≤ n ≤ 20` and every key is compressed and not x-only.
It then holds the keystores sorted by their string form. -/
theorem sortedmultiWshDescriptor_eq_ok_iff {k : Nat} {keystores : List DescriptorPublicKey}
    {d : Descriptor} :
    sortedmultiWshDescriptor X k keystores = .ok d ↔
      (0 < k ∧ k ≤ keystores.length ∧ keystores.length ≤ MAX_PUBKEYS_PER_MULTISIG) ∧
      (∀ key ∈ keystores, key.segwitAdmissible = true) ∧
      d = ⟨k, keystores.insertionSort fun a b => X.keyToString a ≤ X.keyToString b⟩ := by
  unfold sortedmultiWshDescriptor
  set sorted := keystores.insertionSort fun a b => X.keyToString a ≤ X.keyToString b with hsorted
  have hperm : sorted.Perm keystores := List.perm_insertionSort _ _
  have hlen : sorted.length = keystores.length := hperm.length_eq
  have hmem : (∀ key ∈ sorted, key.segwitAdmissible = true) ↔
      ∀ key ∈ keystores, key.segwitAdmissible = true :=
    forall_congr' fun key => by rw [hperm.mem_iff]
  simp only [Threshold.new, hlen]
  by_cases hk : k = 0 ∨ keystores.length < k ∨ MAX_PUBKEYS_PER_MULTISIG < keystores.length
  · simp only [if_pos hk, reduceCtorEq, false_iff, not_and]
    intro hrange
    omega
  · have hrange : 0 < k ∧ k ≤ keystores.length ∧
        keystores.length ≤ MAX_PUBKEYS_PER_MULTISIG := by omega
    simp only [if_neg hk, hrange, true_and]
    rw [← hmem]
    cases hd : Descriptor.newWshSortedmulti (k, sorted) with
    | error e =>
      simp only [reduceCtorEq, false_iff, not_and]
      intro hall
      have := newWshSortedmulti_eq_ok_iff.mpr
        (show (∀ key ∈ (k, sorted).2, key.segwitAdmissible = true) ∧
          (⟨k, sorted⟩ : Descriptor) = ⟨k, sorted⟩ from ⟨hall, rfl⟩)
      rw [hd] at this
      exact absurd this (by simp)
    | ok d' =>
      obtain ⟨hall, rfl⟩ := newWshSortedmulti_eq_ok_iff.mp hd
      simp only [Except.ok.injEq]
      exact ⟨fun h => ⟨hall, h.symm⟩, fun h => h.2.symm⟩

end Kota
