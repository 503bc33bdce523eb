import Std.Data.ExtTreeMap.Lemmas
import Kota.Bitcoin.Keys

/-!
# Transactions and PSBTs of rust-bitcoin

The document types the platform builds, compares and merges. A `BTreeMap` is an `ExtTreeMap`:
equal maps are equal as values, and iteration is in key order.

* `partialSigs` is keyed by `bitcoin::PublicKey`, flag included; `bip32Derivation` is keyed by
  the curve point alone.
* A BIP-174 map has more fields than the platform looks at by name. They are kept together in
  `rest`, as the raw key-value pairs of the map, because the validator compares them.
* A script is either the multisig script of `sortedmulti`, a P2WSH output script, or other bytes.
  The `witness` of a spent input holds the signatures it was satisfied with, each with the script
  key it was taken for.
-/

namespace Kota

structure Txid where
  val : Nat
  deriving DecidableEq, Repr

instance : LinearOrder Txid :=
  LinearOrder.lift' Txid.val fun a b h => by cases a; cases b; simpa using h

structure BlockHash where
  val : Nat
  deriving DecidableEq, Repr

structure WScriptHash where
  val : Nat
  deriving DecidableEq, Repr

structure OutPoint where
  txid : Txid
  vout : UInt32
  deriving DecidableEq, Repr

instance : LinearOrder OutPoint :=
  LinearOrder.lift' (fun o : OutPoint => toLex (o.txid, o.vout.toNat)) fun a b h => by
    cases a; cases b; simpa [UInt32.toNat_inj] using h

/-- `bitcoin::ScriptBuf`. -/
inductive ScriptBuf where
  /-- `OP_k <keys…> OP_n OP_CHECKMULTISIG`. -/
  | multi (k : Nat) (keys : List PublicKey)
  /-- `OP_0 <hash>`. -/
  | p2wsh (hash : WScriptHash)
  | other (bytes : Bytes)
  deriving DecidableEq, Repr

inductive EcdsaSighashType where
  | all
  | none
  | single
  | allPlusAnyoneCanPay
  | nonePlusAnyoneCanPay
  | singlePlusAnyoneCanPay
  deriving DecidableEq, Repr

/-- A raw ECDSA signature. -/
structure Signature where
  val : Nat
  deriving DecidableEq, Repr

/-- `bitcoin::ecdsa::Signature`. -/
structure EcdsaSignature where
  signature : Signature
  sighashType : EcdsaSighashType
  deriving DecidableEq, Repr

/-- A signature hash. -/
structure Message where
  val : Nat
  deriving DecidableEq, Repr

/-- The witness of an input: signatures with the script key each stands under, and the script. -/
structure Witness where
  signatures : List (PublicKey × EcdsaSignature)
  script : Option ScriptBuf
  deriving DecidableEq, Repr

def Witness.empty : Witness := ⟨[], none⟩

structure TxIn where
  previousOutput : OutPoint
  scriptSig : Bytes
  sequence : UInt32
  witness : Witness
  deriving DecidableEq, Repr

structure TxOut where
  value : UInt64
  scriptPubkey : ScriptBuf
  deriving DecidableEq, Repr

structure Transaction where
  version : Nat
  lockTime : UInt32
  input : List TxIn
  output : List TxOut
  deriving DecidableEq, Repr

/-- `BitcoinAddress`, an address whose network is not checked yet: its text, the networks that
text is valid for and the script it pays to. -/
structure BitcoinAddress where
  text : String
  networks : List Network
  scriptPubkey : ScriptBuf
  deriving DecidableEq, Repr

/-- `Sequence::ENABLE_RBF_NO_LOCKTIME`. -/
def ENABLE_RBF_NO_LOCKTIME : UInt32 := 0xFFFFFFFD

abbrev PartialSigs := Std.ExtTreeMap PublicKey EcdsaSignature compare

abbrev Bip32Derivation := Std.ExtTreeMap Point KeySource compare

/-- Raw key-value pairs of a BIP-174 map. -/
abbrev RawFields := List (Bytes × Bytes)

/-- `psbt::Input`. -/
structure PsbtInput where
  witnessUtxo : Option TxOut
  partialSigs : PartialSigs
  witnessScript : Option ScriptBuf
  bip32Derivation : Bip32Derivation
  finalScriptWitness : Option Witness
  rest : RawFields
  deriving DecidableEq

/-- `psbt::Output`. -/
structure PsbtOutput where
  witnessScript : Option ScriptBuf
  bip32Derivation : Bip32Derivation
  rest : RawFields
  deriving DecidableEq

/-- `bitcoin::Psbt`. -/
structure Psbt where
  unsignedTx : Transaction
  version : UInt32
  xpub : RawFields
  proprietary : RawFields
  unknown : RawFields
  inputs : List PsbtInput
  outputs : List PsbtOutput
  deriving DecidableEq

/-- `psbt::Input::default`. -/
def PsbtInput.default : PsbtInput := ⟨none, ∅, none, ∅, none, []⟩

/-- `psbt::Output::default`. -/
def PsbtOutput.default : PsbtOutput := ⟨none, ∅, []⟩

/-- `Psbt::from_unsigned_tx`: refuses a transaction that carries script sigs or witnesses. -/
def Psbt.fromUnsignedTx (tx : Transaction) : Except String Psbt :=
  if tx.input.any fun i => !i.scriptSig.isEmpty then
    .error "the unsigned transaction has script sigs"
  else if tx.input.any fun i => i.witness != Witness.empty then
    .error "the unsigned transaction has script witnesses"
  else
    .ok {
      unsignedTx := tx
      version := 0
      xpub := []
      proprietary := []
      unknown := []
      inputs := tx.input.map fun _ => PsbtInput.default
      outputs := tx.output.map fun _ => PsbtOutput.default }

end Kota
