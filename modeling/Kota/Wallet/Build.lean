import Kota.Bitcoin.Derivation
import Kota.PsbtSession.Entity

/-!
# Building the unsigned PSBT

Model of `build_unsigned_psbt` in `wallet.rs`: the loop that looks up the coin of every input, the
loop over the outputs with checked sums, the derived change output, the balance check, and the
loop that fills the input maps with what a signing device needs.

`filledInput` is the map the last loop leaves for an input: the witness script and the key sources
of the wallet descriptor at the coin's derivation index, and no signature.

A panic of `at_derivation_index` ends the builder too (`WalletError.expectation`).
-/

namespace Kota

/-- A wallet-owned coin being spent. -/
structure FundingUtxo where
  outpoint : OutPointRef
  txout : TxOut
  derivationIndex : UInt32
  deriving DecidableEq, Repr

/-- An input of the transaction under construction, with its coin and derived descriptor. -/
structure SpentCoin where
  txIn : TxIn
  utxo : TxOut
  derived : DefiniteDescriptor

/-- `Amount::checked_add`. -/
def checkedAdd (a b : UInt64) : Option UInt64 :=
  if a.toNat + b.toNat < 2 ^ 64 then some (a + b) else none

variable (X : Extern)

/-- The loop over the inputs of the spend, with the sum so far. -/
def collectInputs (descriptor : Descriptor) (funding : List FundingUtxo) (totalIn : UInt64) :
    List OutPointRef → Except WalletError (UInt64 × List SpentCoin)
  | [] => .ok (totalIn, [])
  | outpoint :: rest =>
    match funding.find? fun f => f.outpoint == outpoint with
    | none => .error (.missingFunding outpoint)
    | some utxo =>
      match checkedAdd totalIn utxo.txout.value with
      | none => .error .amountOverflow
      | some totalIn =>
        match descriptor.atDerivationIndex X utxo.derivationIndex with
        | .error e => .error e.toWalletError
        | .ok derived =>
          match collectInputs descriptor funding totalIn rest with
          | .error e => .error e
          | .ok (total, coins) =>
            -- opt-in RBF
            .ok (total, ⟨⟨outpoint, [], ENABLE_RBF_NO_LOCKTIME, .empty⟩, utxo.txout, derived⟩ :: coins)

/-- The loop over the outputs of the spend, with the sum so far. -/
def collectOutputs (network : Network) (totalOut : UInt64) :
    List SpendOutput → Except WalletError (UInt64 × List TxOut)
  | [] => .ok (totalOut, [])
  | output :: rest =>
    match output.address.requireNetwork X network with
    | .error reason => .error (.invalidAddress reason)
    | .ok address =>
      match checkedAdd totalOut output.amountSats with
      | none => .error .amountOverflow
      | some totalOut =>
        match collectOutputs network totalOut rest with
        | .error e => .error e
        | .ok (total, outputs) => .ok (total, ⟨output.amountSats, address.scriptPubkey⟩ :: outputs)

/-- The change output, derived from the wallet descriptor. -/
def collectChange (descriptor : Descriptor) (totalOut : UInt64) :
    Option ChangeOutput → Except WalletError (UInt64 × Option (TxOut × DefiniteDescriptor))
  | none => .ok (totalOut, none)
  | some change =>
    match descriptor.atDerivationIndex X change.derivationIndex with
    | .error e => .error e.toWalletError
    | .ok derived =>
      match checkedAdd totalOut change.amountSats with
      | none => .error .amountOverflow
      | some totalOut =>
        .ok (totalOut, some (⟨change.amountSats, derived.scriptPubkey X⟩, derived))

/-- The loop that fills the input maps. -/
def fillInputs (psbt : Psbt) (idx : Nat) : List SpentCoin → Except WalletError Psbt
  | [] => .ok psbt
  | coin :: rest =>
    let psbt := { psbt with inputs := psbt.inputs.modify idx fun input =>
      { input with witnessUtxo := some coin.utxo } }
    match psbt.updateInputWithDescriptor X idx coin.derived with
    | .error e => .error (.utxoUpdate e)
    | .ok psbt => fillInputs psbt (idx + 1) rest

/-- `build_unsigned_psbt`. -/
def buildUnsignedPsbt (spend : SpendSpec) (descriptor : Descriptor) (funding : List FundingUtxo)
    (network : Network) : Except WalletError Psbt :=
  match collectInputs X descriptor funding 0 spend.inputs with
  | .error e => .error e
  | .ok (totalIn, coins) =>
    match collectOutputs X network spend.feeSats spend.outputs with
    | .error e => .error e
    | .ok (totalOut, outputs) =>
      match collectChange X descriptor totalOut spend.changeOutput with
      | .error e => .error e
      | .ok (totalOut, change) =>
        if totalIn ≠ totalOut then
          .error (.amountMismatch totalIn (totalOut - spend.feeSats) spend.feeSats)
        else
          let txOutputs := outputs ++ (change.map Prod.fst).toList
          match Psbt.fromUnsignedTx ⟨2, 0, coins.map SpentCoin.txIn, txOutputs⟩ with
          | .error reason => .error (.psbt reason)
          | .ok psbt =>
            match fillInputs X psbt 0 coins with
            | .error e => .error e
            | .ok psbt =>
              match change with
              | none => .ok psbt
              | some (_, derived) =>
                match psbt.updateOutputWithDescriptor X (txOutputs.length - 1) derived with
                | .error e => .error (.outputUpdate e)
                | .ok psbt => .ok psbt

/-- The map the builder leaves for an input that spends `coin`. -/
def filledInput (coin : SpentCoin) : PsbtInput :=
  { PsbtInput.default with
    witnessUtxo := some coin.utxo
    witnessScript := some (coin.derived.witnessScript X)
    bip32Derivation := coin.derived.keySources X ∅ }

end Kota
