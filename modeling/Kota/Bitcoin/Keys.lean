import Mathlib.Data.Prod.Lex
import Mathlib.Data.List.Basic
import Mathlib.Order.Compare
import Kota.Primitives

/-!
# Keys of rust-bitcoin and miniscript

The key types the platform stores and compares. They belong to `bitcoin` and `miniscript`, which
are not part of the repository; what is modelled is their data, their equality and their order.

* A `secp256k1::PublicKey` is a curve point. It is ordered by its 33-byte compressed
  serialisation, which `Point.ser` holds as a big-endian number.
* A `bitcoin::PublicKey` is the pair of a `compressed` flag and a point; the derived order
  compares the flag first. The two serialisations of one point are **different keys** of a map
  over `PublicKey`, and one key of a map over `Point`.
* A `DescriptorPublicKey` is a single key, an extended key or a multipath extended key, each with
  an optional origin: the master fingerprint its submitter claims, and a path.
-/

namespace Kota

/-- The comparison of a linear order decides equality, which is what `BTreeMap` keys need. -/
theorem lawfulEqOrd_of_linearOrder (α : Type) [LinearOrder α] : Std.LawfulEqOrd α :=
  ⟨fun h => compare_eq_iff_eq.mp h⟩

/-- `secp256k1::PublicKey`. -/
structure Point where
  ser : Nat
  deriving DecidableEq, Repr

instance : LinearOrder Point :=
  LinearOrder.lift' Point.ser fun a b h => by cases a; cases b; simpa using h

instance : Std.LawfulEqOrd Point := lawfulEqOrd_of_linearOrder Point

instance : Std.TransOrd Point := inferInstance

/-- `bitcoin::PublicKey`. -/
structure PublicKey where
  compressed : Bool
  inner : Point
  deriving DecidableEq, Repr

instance : LinearOrder PublicKey :=
  LinearOrder.lift' (fun k : PublicKey => toLex (k.compressed, k.inner)) fun a b h => by
    cases a; cases b; simpa using h

instance : Std.LawfulEqOrd PublicKey := lawfulEqOrd_of_linearOrder PublicKey

instance : Std.TransOrd PublicKey := inferInstance

/-- `XOnlyPublicKey`: the point with even parity it stands for. -/
structure XOnlyPublicKey where
  even : Point
  deriving DecidableEq, Repr

/-- `bip32::Xpub`: the serialised extended public key, as a number. -/
structure Xpub where
  ser : Nat
  deriving DecidableEq, Repr

/-- `bip32::ChildNumber`. -/
inductive ChildNumber where
  | normal (index : UInt32)
  | hardened (index : UInt32)
  deriving DecidableEq, Repr

def ChildNumber.isHardened : ChildNumber → Bool
  | .normal _ => false
  | .hardened _ => true

abbrev DerivationPath := List ChildNumber

/-- `bip32::KeySource`: master fingerprint and full path. -/
abbrev KeySource := KeyFingerprint × DerivationPath

inductive Wildcard where
  | none
  | unhardened
  | hardened
  deriving DecidableEq, Repr

inductive SinglePubKey where
  | fullKey (key : PublicKey)
  | xOnly (key : XOnlyPublicKey)
  deriving DecidableEq, Repr

structure SinglePub where
  origin : Option KeySource
  key : SinglePubKey
  deriving DecidableEq, Repr

structure DescriptorXKey where
  origin : Option KeySource
  xkey : Xpub
  derivationPath : DerivationPath
  wildcard : Wildcard
  deriving DecidableEq, Repr

structure DescriptorMultiXKey where
  origin : Option KeySource
  xkey : Xpub
  derivationPaths : List DerivationPath
  wildcard : Wildcard
  deriving DecidableEq, Repr

/-- `miniscript::descriptor::DescriptorPublicKey`. -/
inductive DescriptorPublicKey where
  | single (key : SinglePub)
  | xPub (key : DescriptorXKey)
  | multiXPub (key : DescriptorMultiXKey)
  deriving DecidableEq, Repr

namespace DescriptorPublicKey

def isUncompressed : DescriptorPublicKey → Bool
  | .single ⟨_, .fullKey pk⟩ => !pk.compressed
  | _ => false

def isXOnly : DescriptorPublicKey → Bool
  | .single ⟨_, .xOnly _⟩ => true
  | _ => false

/-- A key with no wildcard, no hardened step and a single path: it stands for one public key. -/
def isDefinite : DescriptorPublicKey → Bool
  | .single _ => true
  | .xPub k => k.wildcard == .none && k.derivationPath.all (!·.isHardened)
  | .multiXPub _ => false

/-- The claimed origin path, empty without an origin. -/
def originPath : Option KeySource → DerivationPath
  | some (_, path) => path
  | none => []

/-- `full_derivation_path`: origin path, then the path below the extended key. -/
def fullDerivationPath : DescriptorPublicKey → DerivationPath
  | .single k => originPath k.origin
  | .xPub k => originPath k.origin ++ k.derivationPath
  | .multiXPub k => originPath k.origin

end DescriptorPublicKey

/-- `DefiniteDescriptorKey`: a descriptor key that stands for one public key. -/
structure DefiniteDescriptorKey where
  key : DescriptorPublicKey
  definite : key.isDefinite = true
  deriving DecidableEq

/-- A `wsh(sortedmulti(threshold, keys…))` descriptor, the only form the platform builds. -/
structure Descriptor where
  threshold : Nat
  keys : List DescriptorPublicKey
  deriving DecidableEq, Repr

/-- The same descriptor at one derivation index. -/
structure DefiniteDescriptor where
  threshold : Nat
  keys : List DefiniteDescriptorKey
  deriving DecidableEq

inductive NonDefiniteKeyError where
  | multipath
  | hardenedStep
  deriving DecidableEq, Repr

/-- How `at_derivation_index` ends without a key: in its error, or in the panic of the `expect`
behind it. -/
inductive DerivationFailure where
  | error (e : NonDefiniteKeyError)
  | panic (message : String)
  deriving DecidableEq, Repr

/-- The index can take the place of the key's wildcard, if it has one. -/
def DescriptorPublicKey.Takes (index : UInt32) : DescriptorPublicKey → Prop
  | .xPub k => k.wildcard = .none ∨ index.toNat < 2 ^ 31
  | _ => True

instance (index : UInt32) (key : DescriptorPublicKey) : Decidable (key.Takes index) := by
  cases key <;> unfold DescriptorPublicKey.Takes <;> infer_instance

/-- The path below an extended key at an index. -/
def DescriptorXKey.pathAt (k : DescriptorXKey) (index : UInt32) : DerivationPath :=
  match k.wildcard with
  | .none => k.derivationPath
  | .unhardened => k.derivationPath ++ [.normal index]
  | .hardened => k.derivationPath ++ [.hardened index]

/-- An extended key with the index in place of the wildcard. -/
def DescriptorXKey.replaced (k : DescriptorXKey) (index : UInt32) : DescriptorPublicKey :=
  .xPub { k with derivationPath := k.pathAt index, wildcard := .none }

/-- One path, without hardened steps or a hardened wildcard. -/
def DescriptorPublicKey.isDerivable : DescriptorPublicKey → Bool
  | .single _ => true
  | .xPub k => k.wildcard != .hardened && k.derivationPath.all (!·.isHardened)
  | .multiXPub _ => false

/-- An extended key with a hardened step below it, or a hardened wildcard. -/
def DescriptorPublicKey.isHardened : DescriptorPublicKey → Bool
  | .xPub k => k.wildcard == .hardened || k.derivationPath.any (·.isHardened)
  | _ => false

theorem DescriptorPublicKey.isHardened_xPub (k : DescriptorXKey) :
    (DescriptorPublicKey.xPub k).isHardened = !(DescriptorPublicKey.xPub k).isDerivable := by
  simp [isHardened, isDerivable, bne, Bool.not_and, List.not_all_eq_any_not]

/-- Once the index stands in place of the wildcard, an extended key is definite if it is
derivable. -/
theorem DescriptorXKey.isDefinite_replaced (k : DescriptorXKey) (index : UInt32) :
    (k.replaced index).isDefinite = (DescriptorPublicKey.xPub k).isDerivable := by
  obtain ⟨origin, xkey, path, wildcard⟩ := k
  show (pathAt ⟨origin, xkey, path, wildcard⟩ index).all (!·.isHardened) = _
  cases wildcard with
  | none => rfl
  | unhardened =>
    show (path ++ [ChildNumber.normal index]).all (!·.isHardened) = _
    rw [List.all_append]
    exact Bool.and_true _
  | hardened =>
    show (path ++ [ChildNumber.hardened index]).all (!·.isHardened) = _
    rw [List.all_append]
    exact Bool.and_false _

inductive ThresholdError where
  | outOfRange (k n max : Nat)
  deriving DecidableEq, Repr

inductive MiniscriptError where
  | compressedOnly (key : DescriptorPublicKey)
  | xOnlyKeysNotAllowed (key : DescriptorPublicKey)
  deriving DecidableEq, Repr

/-- The most keys a `multi` may hold. -/
def MAX_PUBKEYS_PER_MULTISIG : Nat := 20

/-- `Threshold::new` at the bound of `sortedmulti`: `0 < k ≤ n ≤ 20`. -/
def Threshold.new (k : Nat) (keys : List DescriptorPublicKey) :
    Except ThresholdError (Nat × List DescriptorPublicKey) :=
  if k = 0 ∨ keys.length < k ∨ MAX_PUBKEYS_PER_MULTISIG < keys.length then
    .error (.outOfRange k keys.length MAX_PUBKEYS_PER_MULTISIG)
  else .ok (k, keys)

/-- A key a segwit v0 script may hold: compressed and not x-only. -/
def DescriptorPublicKey.segwitAdmissible (key : DescriptorPublicKey) : Bool :=
  !key.isUncompressed && !key.isXOnly

/-- `Descriptor::new_wsh_sortedmulti`: segwit v0 takes compressed keys only, and no x-only key. -/
def Descriptor.newWshSortedmulti (threshold : Nat × List DescriptorPublicKey) :
    Except MiniscriptError Descriptor :=
  match threshold.2.find? (!·.segwitAdmissible) with
  | some key =>
    if key.isUncompressed then .error (.compressedOnly key) else .error (.xOnlyKeysNotAllowed key)
  | none => .ok ⟨threshold.1, threshold.2⟩

end Kota
