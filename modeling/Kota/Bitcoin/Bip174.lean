import Mathlib.Algebra.Order.BigOperators.Group.List
import Mathlib.Algebra.Order.Group.Nat
import Kota.Bitcoin.Extern

/-!
# The length of a serialised PSBT

BIP-174 writes a PSBT as maps of key-value pairs, each preceded by its length, each map ended by a
zero byte. `Psbt.plainSize` is the number of bytes of a PSBT that carries nothing but what the
platform's builder writes (`Psbt.Plain`): the unsigned transaction, and for its inputs and outputs
the spent output, the witness script and one key source for each key, of four bytes a path step.

`Extern.Bip174` says that `serialize` writes that many bytes.
-/

namespace Kota

/-- The length of a `CompactSize`. -/
def compactSize (n : Nat) : Nat :=
  if n < 253 then 1 else if n < 2 ^ 16 then 3 else if n < 2 ^ 32 then 5 else 9

/-- A key-value pair, with the lengths in front. -/
def pairSize (key value : Nat) : Nat := compactSize key + key + compactSize value + value

def PublicKey.size (key : PublicKey) : Nat := if key.compressed then 33 else 65

/-- A small number in a script: an opcode up to 16, a push of one byte above. -/
def scriptNumSize (n : Nat) : Nat := if n ≤ 16 then 1 else 2

def ScriptBuf.size : ScriptBuf → Nat
  | .multi k keys =>
    scriptNumSize k + (keys.map fun key => 1 + key.size).sum + scriptNumSize keys.length + 1
  | .p2wsh _ => 34
  | .other bytes => bytes.length

def TxOut.size (txout : TxOut) : Nat :=
  8 + compactSize txout.scriptPubkey.size + txout.scriptPubkey.size

def TxIn.size (txin : TxIn) : Nat :=
  36 + compactSize txin.scriptSig.length + txin.scriptSig.length + 4

/-- A transaction without its witnesses. -/
def Transaction.size (tx : Transaction) : Nat :=
  4 + compactSize tx.input.length + (tx.input.map TxIn.size).sum +
    compactSize tx.output.length + (tx.output.map TxOut.size).sum + 4

/-- One `PSBT_IN_BIP32_DERIVATION`: the key, the fingerprint and four bytes a step. -/
def keySourceSize (source : KeySource) : Nat := pairSize 34 (4 + 4 * source.2.length)

def Bip32Derivation.size (sources : Bip32Derivation) : Nat :=
  (sources.toList.map fun e => keySourceSize e.2).sum

def witnessUtxoSize : Option TxOut → Nat
  | some txout => pairSize 1 txout.size
  | none => 0

def witnessScriptSize : Option ScriptBuf → Nat
  | some script => pairSize 1 script.size
  | none => 0

def PsbtInput.plainSize (input : PsbtInput) : Nat :=
  witnessUtxoSize input.witnessUtxo + witnessScriptSize input.witnessScript +
    Bip32Derivation.size input.bip32Derivation + 1

def PsbtOutput.plainSize (output : PsbtOutput) : Nat :=
  witnessScriptSize output.witnessScript + Bip32Derivation.size output.bip32Derivation + 1

/-- The magic bytes, the map of the unsigned transaction, and the maps of inputs and outputs. -/
def Psbt.plainSize (psbt : Psbt) : Nat :=
  5 + pairSize 1 psbt.unsignedTx.size + 1 + (psbt.inputs.map PsbtInput.plainSize).sum +
    (psbt.outputs.map PsbtOutput.plainSize).sum

/-- A PSBT with no other fields. -/
structure Psbt.Plain (psbt : Psbt) : Prop where
  version : psbt.version = 0
  xpub : psbt.xpub = []
  proprietary : psbt.proprietary = []
  unknown : psbt.unknown = []
  input : ∀ input ∈ psbt.inputs, input.partialSigs = ∅ ∧ input.finalScriptWitness = none ∧
    input.rest = []
  output : ∀ output ∈ psbt.outputs, output.rest = []

/-- `serialize` writes the format of BIP-174. -/
def Extern.Bip174 (X : Extern) : Prop :=
  ∀ psbt : Psbt, psbt.Plain → (X.serialize psbt).length = psbt.plainSize

/-- A key source stands in the PSBT with all the steps of its path. -/
theorem Bip32Derivation.le_size {sources : Bip32Derivation} {point : Point} {source : KeySource}
    (h : sources[point]? = some source) :
    4 * source.2.length ≤ Bip32Derivation.size sources := by
  have hmem : keySourceSize source ∈ sources.toList.map fun e => keySourceSize e.2 :=
    List.mem_map.mpr ⟨(point, source),
      Std.ExtTreeMap.mem_toList_iff_getElem?_eq_some.mpr h, rfl⟩
  have hle := List.single_le_sum (fun _ _ => Nat.zero_le _) _ hmem
  unfold keySourceSize pairSize at hle
  unfold Bip32Derivation.size keySourceSize pairSize
  omega

end Kota
