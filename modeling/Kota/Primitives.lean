import Mathlib.Algebra.Ring.Nat
import Mathlib.Order.Basic

/-!
# Primitives

Model of `primitives.rs` and of the value types of `psbt_session/primitives.rs` that hold no
bitcoin data. Entity ids are UUIDs, modelled by a number. A content address is 32 bytes; the
SHA-256 digest that computes it is a field of `Extern` (`Bitcoin/Extern.lean`).
-/

namespace Kota

abbrev Bytes := List UInt8

structure UserId where
  uuid : Nat
  deriving DecidableEq, Repr

structure WalletId where
  uuid : Nat
  deriving DecidableEq, Repr

structure PsbtSessionId where
  uuid : Nat
  deriving DecidableEq, Repr

/-- Content address of a PSBT or final-transaction blob. -/
structure PsbtHash where
  inner : Vector UInt8 32
  deriving DecidableEq, Repr

/-- Content address of a wallet descriptor and its network. -/
structure DescriptorFingerprint where
  inner : Vector UInt8 32
  deriving DecidableEq, Repr

/-- `bitcoin::Network`. -/
inductive Network where
  | bitcoin
  | testnet
  | testnet4
  | signet
  | regtest
  deriving DecidableEq, Repr

/-- `Network`'s `Display`. -/
def Network.display : Network → List Char
  | .bitcoin => "bitcoin".toList
  | .testnet => "testnet".toList
  | .testnet4 => "testnet4".toList
  | .signet => "signet".toList
  | .regtest => "regtest".toList

/-- `bip32::Fingerprint`: four bytes, read as a big-endian number, which gives the same order. -/
abbrev KeyFingerprint := Fin (2 ^ 32)

instance neZero_fingerprints : NeZero (2 ^ 32 : Nat) := inferInstance

/-- `Fingerprint`'s `Display`: eight lowercase hex digits. -/
def KeyFingerprint.display (fp : KeyFingerprint) : String :=
  let digits := Nat.toDigits 16 fp.val
  String.ofList (List.replicate (8 - digits.length) '0' ++ digits)

/-- Lifecycle status of a session (`psbt_session/primitives.rs`). -/
inductive PsbtSessionStatus where
  | pending
  | collecting
  | finalized
  | broadcast
  | confirmed
  | invalidated
  | cancelled
  deriving DecidableEq, Repr

/-- Lifecycle status of a wallet (`wallet/primitives.rs`). -/
inductive WalletStatus where
  | collectingKeystores
  | active
  | cancelled
  deriving DecidableEq, Repr

inductive InvalidationReason where
  | reorged
  | inputsSpentExternally
  | replacedByFeeBump
  | mempoolEvicted
  deriving DecidableEq, Repr

end Kota
