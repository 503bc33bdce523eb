import Kota.Wallet.Build
import Kota.Lib.Matched

/-!
# When a PSBT can be built, and which

`buildUnsignedPsbt` against an account of the spend over the natural numbers.

* `Realises` is that account: the coins the inputs name, at derivable indices and with the scripts
  of the descriptor, the outputs, the change, and a balance without a bound on the sums but for
  the one that `u64` puts on the total.
* **`buildUnsignedPsbt_eq_ok_iff`**: the builder succeeds exactly on a realisable spend, and what
  it returns is then `assemble`d from the coins and the outputs.
* `buildUnsignedPsbtStrict` is the builder once more, with every operation that could panic made
  explicit. Deriving the descriptor is the only one that does (`buildUnsignedPsbtStrict_eq`), at a
  key with a hardened step.
* **`build_exact_iff`**: where the builder comes to no such key it returns, with a PSBT on exactly
  the realisable spends, and reads of the funding data the first entry for each input only
  (`BuildsExactly`); and on every spend exactly when the descriptor has no such key in reach.
* **`hardened_build_panics`**: a wallet's key may be one.
-/

namespace Kota

/-! ## Checked sums -/

theorem checkedAdd_eq_some_iff {a b c : UInt64} :
    checkedAdd a b = some c ↔ c.toNat = a.toNat + b.toNat := by
  unfold checkedAdd
  constructor
  · intro h
    split at h
    · rename_i hlt
      obtain rfl := Option.some.inj h
      rw [UInt64.toNat_add, Nat.mod_eq_of_lt hlt]
    · exact absurd h (by simp)
  · intro h
    have hlt : a.toNat + b.toNat < 2 ^ 64 := h ▸ c.toNat_lt
    rw [if_pos hlt]
    refine congrArg some (UInt64.toNat_inj.mp ?_)
    rw [UInt64.toNat_add, Nat.mod_eq_of_lt hlt, h]

theorem checkedAdd_eq_none_iff {a b : UInt64} :
    checkedAdd a b = none ↔ 2 ^ 64 ≤ a.toNat + b.toNat := by
  unfold checkedAdd
  split
  · rename_i hlt
    exact iff_of_false (by simp) (Nat.not_le.mpr hlt)
  · rename_i hge
    exact iff_of_true rfl (Nat.not_lt.mp hge)

/-- A sum that fits is that of some word. -/
theorem exists_checkedAdd {a b : UInt64} (h : a.toNat + b.toNat < 2 ^ 64) :
    ∃ c, checkedAdd a b = some c ∧ c.toNat = a.toNat + b.toNat :=
  ⟨a + b, if_pos h, by rw [UInt64.toNat_add, Nat.mod_eq_of_lt h]⟩

/-- The value of some outputs, over the naturals. -/
def sats (outputs : List TxOut) : Nat := (outputs.map fun o => o.value.toNat).sum

@[simp] theorem sats_nil : sats [] = 0 := rfl

@[simp] theorem sats_cons (o : TxOut) (outputs : List TxOut) :
    sats (o :: outputs) = o.value.toNat + sats outputs := rfl

@[simp] theorem sats_append (outputs outputs' : List TxOut) :
    sats (outputs ++ outputs') = sats outputs + sats outputs' := by
  simp [sats]

/-! ## The account of a spend -/

section Account

variable (X : Extern) (network : Network) (descriptor : Descriptor) (funding : List FundingUtxo)

/-- The first funding entry for an outpoint. -/
def firstEntry (outpoint : OutPointRef) : Option FundingUtxo :=
  funding.find? fun f => f.outpoint == outpoint

/-- What the first funding entry for an outpoint is worth. -/
def fundedSats (outpoint : OutPointRef) : Nat :=
  ((firstEntry funding outpoint).map fun utxo => utxo.txout.value.toNat).getD 0

/-- `coin` is what the input `outpoint` spends: the first funding entry for it, with the
descriptor at its index. -/
def PaidBy (outpoint : OutPointRef) (coin : SpentCoin) : Prop :=
  ∃ utxo, firstEntry funding outpoint = some utxo ∧ coin.utxo = utxo.txout ∧
    descriptor.atDerivationIndex X utxo.derivationIndex = .ok coin.derived ∧
    coin.txIn = ⟨outpoint, [], ENABLE_RBF_NO_LOCKTIME, .empty⟩

/-- `txout` pays what `output` says, on this network. -/
def PaysTo (output : SpendOutput) (txout : TxOut) : Prop :=
  ∃ address, output.address.requireNetwork X network = .ok address ∧
    txout = ⟨output.amountSats, address.scriptPubkey⟩

/-- The change output and the descriptor it pays to, when there is change. -/
def PaysChange : Option ChangeOutput → Option (TxOut × DefiniteDescriptor) → Prop
  | none, none => True
  | some change, some (txout, derived) =>
    descriptor.atDerivationIndex X change.derivationIndex = .ok derived ∧
      txout = ⟨change.amountSats, derived.scriptPubkey X⟩
  | _, _ => False

theorem PaysChange.of_some {X : Extern} {descriptor : Descriptor}
    {changeOutput : Option ChangeOutput} {txout : TxOut} {derived : DefiniteDescriptor}
    (h : PaysChange X descriptor changeOutput (some (txout, derived))) :
    ∃ change, changeOutput = some change ∧
      descriptor.atDerivationIndex X change.derivationIndex = .ok derived ∧
      txout = ⟨change.amountSats, derived.scriptPubkey X⟩ := by
  cases changeOutput with
  | none => exact absurd h id
  | some change => exact ⟨change, rfl, h⟩

/-- The outputs of the transaction: those of the spend, then the change. -/
def allOutputs (outputs : List TxOut) (change : Option (TxOut × DefiniteDescriptor)) :
    List TxOut :=
  outputs ++ (change.map Prod.fst).toList

/-- The spend comes true with these coins, outputs and change. -/
structure Realises (spend : SpendSpec) (coins : List SpentCoin) (outputs : List TxOut)
    (change : Option (TxOut × DefiniteDescriptor)) : Prop where
  paid : List.Forall₂ (PaidBy X descriptor funding) spend.inputs coins
  scripts : ∀ coin ∈ coins, coin.utxo.scriptPubkey = coin.derived.scriptPubkey X
  pays : List.Forall₂ (PaysTo X network) spend.outputs outputs
  paysChange : PaysChange X descriptor spend.changeOutput change
  balance : sats (coins.map SpentCoin.utxo) = spend.feeSats.toNat + sats (allOutputs outputs change)
  fits : sats (coins.map SpentCoin.utxo) < 2 ^ 64

/-- The map the builder leaves for the change output. -/
def filledOutput (derived : DefiniteDescriptor) : PsbtOutput :=
  { PsbtOutput.default with
    witnessScript := some (derived.witnessScript X)
    bip32Derivation := derived.keySources X ∅ }

/-- The transaction that spends these coins. -/
def assembleTx (coins : List SpentCoin) (outputs : List TxOut)
    (change : Option (TxOut × DefiniteDescriptor)) : Transaction :=
  ⟨2, 0, coins.map SpentCoin.txIn, allOutputs outputs change⟩

/-- The PSBT of that transaction, with the maps of the inputs and of the change filled. -/
def assemble (coins : List SpentCoin) (outputs : List TxOut)
    (change : Option (TxOut × DefiniteDescriptor)) : Psbt where
  unsignedTx := assembleTx coins outputs change
  version := 0
  xpub := []
  proprietary := []
  unknown := []
  inputs := coins.map (filledInput X)
  outputs := outputs.map (fun _ => .default) ++
    (change.map fun c => filledOutput X c.2).toList

end Account

/-! ## The loops -/

section Loops

variable {X : Extern} {network : Network} {descriptor : Descriptor} {funding : List FundingUtxo}

/-- **The loop over the inputs** succeeds exactly when every coin is there, at a derivable index,
and the sum of all fits. -/
theorem collectInputs_eq_ok_iff {inputs : List OutPointRef} {totalIn total : UInt64}
    {coins : List SpentCoin} :
    collectInputs X descriptor funding totalIn inputs = .ok (total, coins) ↔
      List.Forall₂ (PaidBy X descriptor funding) inputs coins ∧
        total.toNat = totalIn.toNat + sats (coins.map SpentCoin.utxo) := by
  induction inputs generalizing totalIn total coins with
  | nil =>
    unfold collectInputs
    constructor
    · intro h
      obtain ⟨rfl, rfl⟩ := Prod.mk.inj (Except.ok.inj h)
      exact ⟨.nil, rfl⟩
    · rintro ⟨hcoins, htotal⟩
      cases hcoins
      rw [UInt64.toNat_inj.mp htotal]
  | cons outpoint rest ih =>
    unfold collectInputs
    constructor
    · intro h
      split at h
      · exact absurd h (by simp)
      rename_i utxo hfind
      split at h
      · exact absurd h (by simp)
      rename_i totalIn' hadd
      split at h
      · exact absurd h (by simp)
      rename_i derived hderived
      split at h
      · exact absurd h (by simp)
      rename_i total' coins' hrest
      obtain ⟨rfl, rfl⟩ := Prod.mk.inj (Except.ok.inj h)
      obtain ⟨hcoins, htotal⟩ := ih.mp hrest
      refine ⟨.cons ⟨utxo, hfind, rfl, hderived, rfl⟩ hcoins, ?_⟩
      rw [htotal, checkedAdd_eq_some_iff.mp hadd, List.map_cons, sats_cons, Nat.add_assoc]
    · rintro ⟨hcoins, htotal⟩
      cases hcoins with
      | cons hpaid hrest =>
        rename_i coin coins'
        obtain ⟨utxo, hfind, hutxo, hderived, htxIn⟩ := hpaid
        unfold firstEntry at hfind
        rw [List.map_cons, sats_cons, hutxo] at htotal
        have hlt := total.toNat_lt
        obtain ⟨totalIn', hadd, hvalue⟩ := exists_checkedAdd
          (show totalIn.toNat + utxo.txout.value.toNat < 2 ^ 64 by omega)
        have hloop := ih.mpr ⟨hrest, show total.toNat = totalIn'.toNat +
          sats (coins'.map SpentCoin.utxo) by omega⟩
        simp only [hfind, hadd, hderived, hloop]
        obtain ⟨txIn, utxo', derived⟩ := coin
        dsimp only at hutxo htxIn
        rw [hutxo, htxIn]

/-- **The loop over the outputs** succeeds exactly when every address is valid and the sum fits. -/
theorem collectOutputs_eq_ok_iff {spendOutputs : List SpendOutput} {start total : UInt64}
    {outputs : List TxOut} :
    collectOutputs X network start spendOutputs = .ok (total, outputs) ↔
      List.Forall₂ (PaysTo X network) spendOutputs outputs ∧
        total.toNat = start.toNat + sats outputs := by
  induction spendOutputs generalizing start total outputs with
  | nil =>
    unfold collectOutputs
    constructor
    · intro h
      obtain ⟨rfl, rfl⟩ := Prod.mk.inj (Except.ok.inj h)
      exact ⟨.nil, rfl⟩
    · rintro ⟨houtputs, htotal⟩
      cases houtputs
      rw [UInt64.toNat_inj.mp htotal]
  | cons output rest ih =>
    unfold collectOutputs
    constructor
    · intro h
      split at h
      · exact absurd h (by simp)
      rename_i address haddress
      split at h
      · exact absurd h (by simp)
      rename_i start' hadd
      split at h
      · exact absurd h (by simp)
      rename_i total' outputs' hrest
      obtain ⟨rfl, rfl⟩ := Prod.mk.inj (Except.ok.inj h)
      obtain ⟨houtputs, htotal⟩ := ih.mp hrest
      refine ⟨.cons ⟨address, haddress, rfl⟩ houtputs, ?_⟩
      rw [htotal, checkedAdd_eq_some_iff.mp hadd, sats_cons, Nat.add_assoc]
    · rintro ⟨houtputs, htotal⟩
      cases houtputs with
      | cons hpays hrest =>
        rename_i txout outputs'
        obtain ⟨address, haddress, rfl⟩ := hpays
        rw [sats_cons] at htotal
        dsimp only at htotal
        have hlt := total.toNat_lt
        obtain ⟨start', hadd, hvalue⟩ := exists_checkedAdd
          (show start.toNat + output.amountSats.toNat < 2 ^ 64 by omega)
        have hloop := ih.mpr ⟨hrest, show total.toNat = start'.toNat + sats outputs' by omega⟩
        simp only [haddress, hadd, hloop]

theorem collectChange_eq_ok_iff {changeOutput : Option ChangeOutput} {start total : UInt64}
    {change : Option (TxOut × DefiniteDescriptor)} :
    collectChange X descriptor start changeOutput = .ok (total, change) ↔
      PaysChange X descriptor changeOutput change ∧
        total.toNat = start.toNat + sats (change.map Prod.fst).toList := by
  cases changeOutput with
  | none =>
    unfold collectChange
    constructor
    · intro h
      obtain ⟨rfl, rfl⟩ := Prod.mk.inj (Except.ok.inj h)
      exact ⟨trivial, rfl⟩
    · rintro ⟨hchange, htotal⟩
      cases change with
      | none => rw [UInt64.toNat_inj.mp htotal]
      | some c => exact absurd hchange id
  | some output =>
    dsimp only [collectChange]
    constructor
    · intro h
      split at h
      · exact absurd h (by simp)
      rename_i derived hderived
      split at h
      · exact absurd h (by simp)
      rename_i start' hadd
      obtain ⟨rfl, rfl⟩ := Prod.mk.inj (Except.ok.inj h)
      exact ⟨⟨hderived, rfl⟩, checkedAdd_eq_some_iff.mp hadd⟩
    · rintro ⟨hchange, htotal⟩
      cases change with
      | none => exact absurd hchange id
      | some c =>
        obtain ⟨txout, derived⟩ := c
        obtain ⟨hderived, rfl⟩ := hchange
        have hadd : checkedAdd start output.amountSats = some total :=
          checkedAdd_eq_some_iff.mpr htotal
        simp only [hderived, hadd]

theorem modify_length_append {α : Type} (done rest : List α) (x : α) (f : α → α) :
    (done ++ x :: rest).modify done.length f = done ++ f x :: rest := by
  induction done with
  | nil => rfl
  | cons d done ih =>
    rw [List.cons_append, List.length_cons, List.modify_succ_cons, ih]
    rfl

theorem set_length_append {α : Type} (done rest : List α) (x y : α) :
    (done ++ x :: rest).set done.length y = done ++ y :: rest := by
  induction done with
  | nil => rfl
  | cons d done ih =>
    rw [List.cons_append, List.length_cons, List.set_cons_succ, ih]
    rfl

/-- **The loop over the maps** succeeds exactly when every coin has the script of its derived
descriptor. -/
theorem fillInputs_eq_ok_iff {coins : List SpentCoin} {psbt result : Psbt} {done : List PsbtInput}
    (hinputs : psbt.inputs = done ++ coins.map fun _ => PsbtInput.default) :
    fillInputs X psbt done.length coins = .ok result ↔
      (∀ coin ∈ coins, coin.utxo.scriptPubkey = coin.derived.scriptPubkey X) ∧
        result = { psbt with inputs := done ++ coins.map (filledInput X) } := by
  induction coins generalizing psbt done with
  | nil =>
    have hsame : { psbt with inputs := done ++ ([] : List SpentCoin).map (filledInput X) } =
        psbt := by
      rw [List.map_nil] at hinputs ⊢
      rw [← hinputs]
    rw [hsame]
    unfold fillInputs
    constructor
    · intro h
      exact ⟨by simp, (Except.ok.inj h).symm⟩
    · rintro ⟨-, rfl⟩
      rfl
  | cons coin rest ih =>
    have hstep : (done ++ PsbtInput.default :: rest.map fun _ => PsbtInput.default).modify
        done.length (fun input => { input with witnessUtxo := some coin.utxo }) =
        done ++ { PsbtInput.default with witnessUtxo := some coin.utxo } ::
          rest.map fun _ => PsbtInput.default := modify_length_append _ _ _ _
    have hget : (done ++ { PsbtInput.default with witnessUtxo := some coin.utxo } ::
        rest.map fun _ => PsbtInput.default)[done.length]? =
        some { PsbtInput.default with witnessUtxo := some coin.utxo } := by
      rw [List.getElem?_append_right (Nat.le_refl _), Nat.sub_self, List.getElem?_cons_zero]
    unfold fillInputs
    dsimp only
    rw [hinputs, List.map_cons, hstep]
    by_cases hscript : coin.utxo.scriptPubkey = coin.derived.scriptPubkey X
    · have hnext := @ih { psbt with inputs := (done ++ [filledInput X coin]) ++
        (rest.map fun _ => PsbtInput.default) } (done ++ [filledInput X coin]) rfl
      rw [List.length_append, List.length_singleton, List.append_assoc, List.append_assoc] at hnext
      simp only [Psbt.updateInputWithDescriptor, hget, hscript, if_true, set_length_append,
        List.forall_mem_cons, true_and, List.map_cons]
      exact hnext
    · simp only [Psbt.updateInputWithDescriptor, hget, hscript, if_false, List.forall_mem_cons,
        false_and, reduceCtorEq]

/-- What the loop over the outputs refuses: an address or the sum. -/
theorem collectOutputs_error {spendOutputs : List SpendOutput} {start : UInt64} {e : WalletError}
    (h : collectOutputs X network start spendOutputs = .error e) :
    (∃ reason, e = .invalidAddress reason) ∨ e = .amountOverflow := by
  induction spendOutputs generalizing start with
  | nil => exact absurd h (by simp [collectOutputs])
  | cons output rest ih =>
    unfold collectOutputs at h
    split at h
    · rename_i reason _
      exact Or.inl ⟨reason, (Except.error.inj h).symm⟩
    split at h
    · exact Or.inr (Except.error.inj h).symm
    split at h
    · rename_i e' hrest
      obtain rfl := Except.error.inj h
      exact ih hrest
    · exact absurd h (by simp)

/-- What the loop over the maps refuses. -/
theorem fillInputs_error {coins : List SpentCoin} {psbt : Psbt} {idx : Nat} {e : WalletError}
    (h : fillInputs X psbt idx coins = .error e) : ∃ refused, e = .utxoUpdate refused := by
  induction coins generalizing psbt idx with
  | nil => exact absurd h (by simp [fillInputs])
  | cons coin rest ih =>
    unfold fillInputs at h
    dsimp only at h
    split at h
    · rename_i refused _
      exact ⟨refused, (Except.error.inj h).symm⟩
    · exact ih h

end Loops

/-! ## The builder -/

section Builder

variable {X : Extern} {network : Network} {descriptor : Descriptor} {funding : List FundingUtxo}
variable {spend : SpendSpec} {coins : List SpentCoin} {outputs : List TxOut}
variable {change : Option (TxOut × DefiniteDescriptor)}

/-- What the builder pushes for an input has no script sig and no witness. -/
theorem PaidBy.unsigned {outpoint : OutPointRef} {coin : SpentCoin}
    (h : PaidBy X descriptor funding outpoint coin) :
    coin.txIn.scriptSig = [] ∧ coin.txIn.witness = .empty := by
  obtain ⟨-, -, -, -, htxIn⟩ := h
  rw [htxIn]
  exact ⟨rfl, rfl⟩

theorem unsigned_of_paid {inputs : List OutPointRef}
    (h : List.Forall₂ (PaidBy X descriptor funding) inputs coins) :
    ∀ coin ∈ coins, coin.txIn.scriptSig = [] ∧ coin.txIn.witness = .empty := by
  intro coin hcoin
  obtain ⟨outpoint, -, hpaid⟩ := Matched.exists_of_mem_right h hcoin
  exact hpaid.unsigned

theorem fromUnsignedTx_assembleTx
    (h : ∀ coin ∈ coins, coin.txIn.scriptSig = [] ∧ coin.txIn.witness = .empty) :
    Psbt.fromUnsignedTx (assembleTx coins outputs change) = .ok
      { assemble X coins outputs change with
        inputs := coins.map fun _ => .default
        outputs := (allOutputs outputs change).map fun _ => .default } := by
  have hsigs : ¬ (assembleTx coins outputs change).input.any (fun i => !i.scriptSig.isEmpty) := by
    rw [Bool.not_eq_true, assembleTx, List.any_map, List.any_eq_false]
    intro coin hcoin
    simp [(h coin hcoin).1]
  have hwitnesses : ¬ (assembleTx coins outputs change).input.any
      (fun i => i.witness != Witness.empty) := by
    rw [Bool.not_eq_true, assembleTx, List.any_map, List.any_eq_false]
    intro coin hcoin
    simp [(h coin hcoin).2]
  unfold Psbt.fromUnsignedTx
  rw [if_neg hsigs, if_neg hwitnesses]
  simp [assemble, assembleTx, List.map_map, Function.comp_def]

/-- The change output is the last one, so its map is the last one. -/
theorem updateOutput_change {txout : TxOut} {derived : DefiniteDescriptor}
    (hscript : txout.scriptPubkey = derived.scriptPubkey X) :
    Psbt.updateOutputWithDescriptor X
      { assemble X coins outputs (some (txout, derived)) with
        outputs := (outputs ++ [txout]).map fun _ => .default }
      ((outputs ++ [txout]).length - 1) derived =
      .ok (assemble X coins outputs (some (txout, derived))) := by
  have hindex : (outputs ++ [txout]).length - 1 = outputs.length := by simp
  have hmap : ((outputs ++ [txout]).map fun _ => PsbtOutput.default)[outputs.length]? =
      some .default := by simp
  have hout : (assemble X coins outputs (some (txout, derived))).unsignedTx.output[outputs.length]?
      = some txout := by
    simp [assemble, assembleTx, allOutputs]
  have hset := set_length_append (outputs.map fun _ => PsbtOutput.default) []
    .default (filledOutput X derived)
  rw [List.length_map] at hset
  unfold Psbt.updateOutputWithDescriptor
  rw [hindex]
  simp only [hmap, hout, hscript, if_true]
  rw [List.map_append, List.map_singleton]
  exact congrArg (fun maps => Except.ok
    { assemble X coins outputs (some (txout, derived)) with outputs := maps }) hset

theorem exists_word {n : Nat} (h : n < 2 ^ 64) : ∃ w : UInt64, w.toNat = n :=
  ⟨UInt64.ofNat n, by rw [UInt64.toNat_ofNat', Nat.mod_eq_of_lt h]⟩

/-- **The builder succeeds exactly on a realisable spend**, with the PSBT assembled from it. -/
theorem buildUnsignedPsbt_eq_ok_iff {psbt : Psbt} :
    buildUnsignedPsbt X spend descriptor funding network = .ok psbt ↔
      ∃ coins outputs change,
        Realises X network descriptor funding spend coins outputs change ∧
          psbt = assemble X coins outputs change := by
  unfold buildUnsignedPsbt
  constructor
  · intro h
    split at h
    · exact absurd h (by simp)
    rename_i totalIn coins hcoins
    split at h
    · exact absurd h (by simp)
    rename_i totalOut outputs houtputs
    split at h
    · exact absurd h (by simp)
    rename_i total change hchange
    split at h
    · exact absurd h (by simp)
    rename_i hbalance
    obtain ⟨hpaid, hin⟩ := collectInputs_eq_ok_iff.mp hcoins
    obtain ⟨hpays, hout⟩ := collectOutputs_eq_ok_iff.mp houtputs
    obtain ⟨hpaysChange, htotal⟩ := collectChange_eq_ok_iff.mp hchange
    have hbase := @fromUnsignedTx_assembleTx X coins outputs change (unsigned_of_paid hpaid)
    unfold assembleTx allOutputs at hbase
    dsimp only at h
    rw [hbase] at h
    dsimp only at h
    split at h
    · exact absurd h (by simp)
    rename_i filled hfill
    obtain ⟨hscripts, rfl⟩ := (@fillInputs_eq_ok_iff X coins _ filled [] (by rfl)).mp hfill
    have hsats : sats (coins.map SpentCoin.utxo) = totalIn.toNat := by
      rw [hin]
      simp
    refine ⟨coins, outputs, change, ⟨hpaid, hscripts, hpays, hpaysChange, ?_, ?_⟩, ?_⟩
    · rw [hsats, Decidable.not_not.mp hbalance, htotal, hout, allOutputs, sats_append,
        Nat.add_assoc]
    · rw [hsats]
      exact totalIn.toNat_lt
    · cases change with
      | none =>
        obtain rfl := Except.ok.inj h
        simp [assemble, assembleTx, allOutputs]
      | some c =>
        obtain ⟨txout, derived⟩ := c
        obtain ⟨change, hspend, -, htxout⟩ := hpaysChange.of_some
        have hlast := @updateOutput_change X coins outputs txout derived (by rw [htxout])
        dsimp only at h
        erw [hlast] at h
        exact (Except.ok.inj h).symm
  · rintro ⟨coins, outputs, change, hreal, rfl⟩
    have hfee : spend.feeSats.toNat + sats outputs < 2 ^ 64 := by
      have := hreal.fits
      have := hreal.balance
      rw [allOutputs, sats_append] at this
      omega
    obtain ⟨totalIn, hin⟩ := exists_word hreal.fits
    obtain ⟨totalOut, hout⟩ := exists_word hfee
    have hcoins : collectInputs X descriptor funding 0 spend.inputs = .ok (totalIn, coins) :=
      collectInputs_eq_ok_iff.mpr ⟨hreal.paid, by simp [hin]⟩
    have houtputs : collectOutputs X network spend.feeSats spend.outputs =
        .ok (totalOut, outputs) := collectOutputs_eq_ok_iff.mpr ⟨hreal.pays, hout⟩
    have hchange : collectChange X descriptor totalOut spend.changeOutput =
        .ok (totalIn, change) := by
      refine collectChange_eq_ok_iff.mpr ⟨hreal.paysChange, ?_⟩
      rw [hin, hout, hreal.balance, allOutputs, sats_append, Nat.add_assoc]
    have hbase := @fromUnsignedTx_assembleTx X coins outputs change (unsigned_of_paid hreal.paid)
    unfold assembleTx allOutputs at hbase
    have hfill := (@fillInputs_eq_ok_iff X coins { assemble X coins outputs change with
      inputs := coins.map fun _ => .default
      outputs := (allOutputs outputs change).map fun _ => .default } _ [] rfl).mpr
        ⟨hreal.scripts, rfl⟩
    simp only [hcoins, houtputs, hchange, ne_eq, not_true_eq_false, if_false, hbase]
    erw [hfill]
    cases change with
    | none => simp [assemble, assembleTx, allOutputs]
    | some c =>
      obtain ⟨txout, derived⟩ := c
      obtain ⟨change, hspend, -, htxout⟩ := hreal.paysChange.of_some
      have hlast := @updateOutput_change X coins outputs txout derived (by rw [htxout])
      dsimp only
      erw [hlast]

/-- **The input maps of a built PSBT** are those of its coins, filled from the wallet descriptor. -/
theorem buildUnsignedPsbt_inputs {psbt : Psbt}
    (h : buildUnsignedPsbt X spend descriptor funding network = .ok psbt) :
    ∃ coins : List SpentCoin, psbt.inputs = coins.map (filledInput X) ∧
      List.Forall₂ (fun outpoint coin => ∃ utxo,
        funding.find? (fun f => f.outpoint == outpoint) = some utxo ∧ coin.utxo = utxo.txout ∧
          descriptor.atDerivationIndex X utxo.derivationIndex = .ok coin.derived)
        spend.inputs coins := by
  obtain ⟨coins, outputs, change, hreal, rfl⟩ := buildUnsignedPsbt_eq_ok_iff.mp h
  refine ⟨coins, rfl, hreal.paid.imp ?_⟩
  rintro outpoint coin ⟨utxo, hfirst, hutxo, hderived, -⟩
  exact ⟨utxo, hfirst, hutxo, hderived⟩

end Builder

/-! ## The builder with its panics -/

section Strict

/-- The vectors the loop over the inputs fills side by side. -/
structure Collected where
  txInputs : List TxIn
  derivedDescriptors : List DefiniteDescriptor
  witnessUtxos : List TxOut

def Collected.push (v : Collected) (coin : SpentCoin) : Collected :=
  ⟨v.txInputs ++ [coin.txIn], v.derivedDescriptors ++ [coin.derived],
    v.witnessUtxos ++ [coin.utxo]⟩

/-- `Amount - Amount`, which panics below zero. -/
def amountSub (a b : UInt64) : Option UInt64 :=
  if b.toNat ≤ a.toNat then some (a - b) else none

/-- `usize - usize`, which panics below zero. -/
def usizeSub (a b : Nat) : Option Nat :=
  if b ≤ a then some (a - b) else none

variable (X : Extern)

/-- The loop over the inputs, pushing to the vectors. -/
def collectInputsStrict (descriptor : Descriptor) (funding : List FundingUtxo) (totalIn : UInt64)
    (v : Collected) : List OutPointRef → Option (Except WalletError (UInt64 × Collected))
  | [] => some (.ok (totalIn, v))
  | outpoint :: rest =>
    match funding.find? fun f => f.outpoint == outpoint with
    | none => some (.error (.missingFunding outpoint))
    | some utxo =>
      match checkedAdd totalIn utxo.txout.value with
      | none => some (.error .amountOverflow)
      | some totalIn =>
        match descriptor.atDerivationIndex X utxo.derivationIndex with
        | .error (.panic _) => none
        | .error (.error e) => some (.error (.nonDefiniteKey e))
        | .ok derived =>
          collectInputsStrict descriptor funding totalIn
            (v.push ⟨⟨outpoint, [], ENABLE_RBF_NO_LOCKTIME, .empty⟩, utxo.txout, derived⟩) rest

/-- The change output, derived from the wallet descriptor. -/
def collectChangeStrict (descriptor : Descriptor) (totalOut : UInt64) : Option ChangeOutput →
    Option (Except WalletError (UInt64 × Option (TxOut × DefiniteDescriptor)))
  | none => some (.ok (totalOut, none))
  | some change =>
    match descriptor.atDerivationIndex X change.derivationIndex with
    | .error (.panic _) => none
    | .error (.error e) => some (.error (.nonDefiniteKey e))
    | .ok derived =>
      match checkedAdd totalOut change.amountSats with
      | none => some (.error .amountOverflow)
      | some totalOut =>
        some (.ok (totalOut, some (⟨change.amountSats, derived.scriptPubkey X⟩, derived)))

/-- The loop that fills the input maps, indexing the maps and the vector of coins. -/
def fillInputsStrict (witnessUtxos : List TxOut) (psbt : Psbt) (idx : Nat) :
    List DefiniteDescriptor → Option (Except WalletError Psbt)
  | [] => some (.ok psbt)
  | derived :: rest =>
    match psbt.inputs[idx]?, witnessUtxos[idx]? with
    | some input, some utxo =>
      let psbt := { psbt with inputs := psbt.inputs.set idx { input with witnessUtxo := some utxo } }
      match psbt.updateInputWithDescriptor X idx derived with
      | .error e => some (.error (.utxoUpdate e))
      | .ok psbt => fillInputsStrict witnessUtxos psbt (idx + 1) rest
    | _, _ => none

/-- `build_unsigned_psbt` with the operations that may panic: `none` is a panic. -/
def buildUnsignedPsbtStrict (spend : SpendSpec) (descriptor : Descriptor)
    (funding : List FundingUtxo) (network : Network) : Option (Except WalletError Psbt) :=
  match collectInputsStrict X descriptor funding 0 ⟨[], [], []⟩ spend.inputs with
  | none => none
  | some (.error e) => some (.error e)
  | some (.ok (totalIn, v)) =>
    match collectOutputs X network spend.feeSats spend.outputs with
    | .error e => some (.error e)
    | .ok (totalOut, outputs) =>
      match collectChangeStrict X descriptor totalOut spend.changeOutput with
      | none => none
      | some (.error e) => some (.error e)
      | some (.ok (totalOut, change)) =>
        if totalIn ≠ totalOut then
          match amountSub totalOut spend.feeSats with
          | none => none
          | some outputsSats => some (.error (.amountMismatch totalIn outputsSats spend.feeSats))
        else
          let txOutputs := outputs ++ (change.map Prod.fst).toList
          match Psbt.fromUnsignedTx ⟨2, 0, v.txInputs, txOutputs⟩ with
          | .error reason => some (.error (.psbt reason))
          | .ok psbt =>
            match fillInputsStrict X v.witnessUtxos psbt 0 v.derivedDescriptors with
            | none => none
            | some (.error e) => some (.error e)
            | some (.ok psbt) =>
              match change with
              | none => some (.ok psbt)
              | some (_, derived) =>
                match usizeSub txOutputs.length 1 with
                | none => none
                | some last =>
                  match psbt.updateOutputWithDescriptor X last derived with
                  | .error e => some (.error (.outputUpdate e))
                  | .ok psbt => some (.ok psbt)

variable {X} {network : Network} {descriptor : Descriptor} {funding : List FundingUtxo}

/-- The vectors of some coins. -/
def Collected.ofCoins (coins : List SpentCoin) : Collected :=
  ⟨coins.map SpentCoin.txIn, coins.map SpentCoin.derived, coins.map SpentCoin.utxo⟩

theorem Collected.ofCoins_push (coins : List SpentCoin) (coin : SpentCoin) :
    (ofCoins coins).push coin = ofCoins (coins ++ [coin]) := by
  simp [ofCoins, push]

/-- A result that the builder returned: the model's account of a panic is not one. -/
def delivered {α : Type} : Except WalletError α → Option (Except WalletError α)
  | .error (.expectation _) => none
  | result => some result

theorem delivered_ok {α : Type} (a : α) :
    delivered (.ok a : Except WalletError α) = some (.ok a) := rfl

theorem delivered_eq_none_iff {α : Type} {r : Except WalletError α} :
    delivered r = none ↔ ∃ message, r = .error (.expectation message) := by
  unfold delivered
  split
  · exact iff_of_true rfl ⟨_, rfl⟩
  · rename_i hne
    exact iff_of_false (by simp) fun ⟨message, h⟩ => hne message h

/-- The vectors are those of the coins the loop collects. -/
theorem collectInputsStrict_eq (inputs : List OutPointRef) (totalIn : UInt64)
    (done : List SpentCoin) :
    collectInputsStrict X descriptor funding totalIn (.ofCoins done) inputs = delivered
      (match collectInputs X descriptor funding totalIn inputs with
      | .error e => .error e
      | .ok (total, coins) => .ok (total, .ofCoins (done ++ coins))) := by
  induction inputs generalizing totalIn done with
  | nil => simp [collectInputsStrict, collectInputs, delivered]
  | cons outpoint rest ih =>
    unfold collectInputsStrict collectInputs
    cases funding.find? (fun f => f.outpoint == outpoint) with
    | none => rfl
    | some utxo =>
      dsimp only
      cases checkedAdd totalIn utxo.txout.value with
      | none => rfl
      | some totalIn' =>
        dsimp only
        cases descriptor.atDerivationIndex X utxo.derivationIndex with
        | error e => cases e <;> rfl
        | ok derived =>
          dsimp only
          rw [Collected.ofCoins_push, ih]
          cases collectInputs X descriptor funding totalIn' rest with
          | error e => rfl
          | ok r => simp [delivered]

theorem collectChangeStrict_eq (change : Option ChangeOutput) (totalOut : UInt64) :
    collectChangeStrict X descriptor totalOut change =
      delivered (collectChange X descriptor totalOut change) := by
  unfold collectChangeStrict collectChange
  cases change with
  | none => rfl
  | some change =>
    dsimp only
    cases descriptor.atDerivationIndex X change.derivationIndex with
    | error e => cases e <;> rfl
    | ok derived =>
      dsimp only
      cases checkedAdd totalOut change.amountSats <;> rfl

theorem updateInputWithDescriptor_length {psbt result : Psbt} {index : Nat}
    {d : DefiniteDescriptor} (h : psbt.updateInputWithDescriptor X index d = .ok result) :
    result.inputs.length = psbt.inputs.length := by
  unfold Psbt.updateInputWithDescriptor at h
  split at h
  · exact absurd h (by simp)
  split at h
  · exact absurd h (by simp)
  split at h
  · obtain rfl := Except.ok.inj h
    exact List.length_set
  · exact absurd h (by simp)

/-- No map and no coin is missing while the loop runs. -/
theorem fillInputsStrict_eq (coins done : List SpentCoin) (psbt : Psbt)
    (hlength : psbt.inputs.length = done.length + coins.length) :
    fillInputsStrict X ((done ++ coins).map SpentCoin.utxo) psbt done.length
        (coins.map SpentCoin.derived) = some (fillInputs X psbt done.length coins) := by
  induction coins generalizing done psbt with
  | nil => rfl
  | cons coin rest ih =>
    have hlt : done.length < psbt.inputs.length := by
      rw [hlength, List.length_cons]
      omega
    have hmap : psbt.inputs[done.length]? = some psbt.inputs[done.length] :=
      List.getElem?_eq_getElem hlt
    have hcoin : ((done ++ coin :: rest).map SpentCoin.utxo)[done.length]? = some coin.utxo := by
      simp
    have hmodify : psbt.inputs.modify done.length
        (fun input => { input with witnessUtxo := some coin.utxo }) = psbt.inputs.set done.length
          { psbt.inputs[done.length] with witnessUtxo := some coin.utxo } := by
      rw [List.modify_eq_set_getElem?, hmap]
      rfl
    unfold fillInputs
    rw [List.map_cons]
    unfold fillInputsStrict
    dsimp only
    rw [hmap, hcoin, hmodify]
    dsimp only
    generalize hset : psbt.inputs.set done.length _ = maps
    have hmaps : maps.length = psbt.inputs.length := by rw [← hset, List.length_set]
    cases hupdate : Psbt.updateInputWithDescriptor X { psbt with inputs := maps } done.length
        coin.derived with
    | error e => rfl
    | ok psbt' =>
      have hlength' : psbt'.inputs.length = (done ++ [coin]).length + rest.length := by
        rw [updateInputWithDescriptor_length hupdate, List.length_append, List.length_singleton]
        dsimp only
        rw [hmaps, hlength, List.length_cons]
        omega
      have hnext := ih (done ++ [coin]) psbt' hlength'
      rw [List.append_assoc, List.length_append, List.length_singleton] at hnext
      exact hnext

/-- The sum of the outputs is at least the fee it starts from. -/
theorem fee_le_totalOut {spend : SpendSpec} {totalOut total : UInt64} {outputs : List TxOut}
    {change : Option (TxOut × DefiniteDescriptor)}
    (houtputs : collectOutputs X network spend.feeSats spend.outputs = .ok (totalOut, outputs))
    (hchange : collectChange X descriptor totalOut spend.changeOutput = .ok (total, change)) :
    spend.feeSats.toNat ≤ total.toNat := by
  rw [(collectChange_eq_ok_iff.mp hchange).2, (collectOutputs_eq_ok_iff.mp houtputs).2]
  omega

theorem delivered_error {α β : Type} (e : WalletError) :
    delivered (.error e : Except WalletError α) = none ∧
      delivered (.error e : Except WalletError β) = none ∨
    delivered (.error e : Except WalletError α) = some (.error e) ∧
      delivered (.error e : Except WalletError β) = some (.error e) := by
  cases e <;> first | exact Or.inl ⟨rfl, rfl⟩ | exact Or.inr ⟨rfl, rfl⟩

/-- **No other operation of the builder panics** than the derivation of the descriptor. -/
theorem buildUnsignedPsbtStrict_eq (spend : SpendSpec) (descriptor : Descriptor)
    (funding : List FundingUtxo) (network : Network) :
    buildUnsignedPsbtStrict X spend descriptor funding network =
      delivered (buildUnsignedPsbt X spend descriptor funding network) := by
  have hloop := @collectInputsStrict_eq X descriptor funding spend.inputs 0 []
  unfold buildUnsignedPsbtStrict buildUnsignedPsbt
  rw [show (⟨[], [], []⟩ : Collected) = .ofCoins [] from rfl, hloop]
  cases hcoins : collectInputs X descriptor funding 0 spend.inputs with
  | error e =>
    dsimp only
    rcases @delivered_error (UInt64 × Collected) Psbt e with ⟨h, h'⟩ | ⟨h, h'⟩ <;> rw [h, h']
  | ok r =>
    obtain ⟨totalIn, coins⟩ := r
    dsimp only
    rw [delivered_ok]
    dsimp only
    cases houtputs : collectOutputs X network spend.feeSats spend.outputs with
    | error e =>
      rcases collectOutputs_error houtputs with ⟨reason, rfl⟩ | rfl <;> rfl
    | ok r =>
      obtain ⟨totalOut, outputs⟩ := r
      dsimp only
      rw [collectChangeStrict_eq]
      cases hchange : collectChange X descriptor totalOut spend.changeOutput with
      | error e =>
        dsimp only
        rcases @delivered_error (UInt64 × Option (TxOut × DefiniteDescriptor)) Psbt e with
          ⟨h, h'⟩ | ⟨h, h'⟩ <;> rw [h, h']
      | ok r =>
        obtain ⟨total, change⟩ := r
        rw [delivered_ok]
        dsimp only
        by_cases hbalance : totalIn ≠ total
        · have hsub : amountSub total spend.feeSats = some (total - spend.feeSats) :=
            if_pos (fee_le_totalOut houtputs hchange)
          rw [if_pos hbalance, if_pos hbalance, hsub]
          rfl
        rw [if_neg hbalance, if_neg hbalance]
        have hunsigned := unsigned_of_paid (collectInputs_eq_ok_iff.mp hcoins).1
        have hbase := @fromUnsignedTx_assembleTx X coins outputs change hunsigned
        unfold assembleTx allOutputs at hbase
        rw [List.nil_append, Collected.ofCoins]
        dsimp only
        rw [hbase]
        dsimp only
        have hfill := fillInputsStrict_eq (X := X) coins []
          { assemble X coins outputs change with
            inputs := coins.map fun _ => .default
            outputs := (outputs ++ (change.map Prod.fst).toList).map fun _ => .default }
          (by simp)
        rw [List.nil_append] at hfill
        erw [hfill]
        cases hfilled : fillInputs X _ _ coins with
        | error e =>
          obtain ⟨refused, rfl⟩ := fillInputs_error hfilled
          rfl
        | ok psbt =>
          cases change with
          | none => rfl
          | some c =>
            -- the change output was pushed, so the last index is there
            have hlast : usizeSub (outputs ++ [c.1]).length 1 =
                some ((outputs ++ [c.1]).length - 1) := if_pos (by simp)
            dsimp only [Option.map_some, Option.toList_some]
            rw [hlast]
            dsimp only
            cases psbt.updateOutputWithDescriptor X ((outputs ++ [c.1]).length - 1) c.2 with
            | error e => rfl
            | ok psbt => rfl

end Strict

/-! ## Exactly the realisable spends -/

section Exact

variable {X : Extern} {network : Network} {descriptor : Descriptor} {funding : List FundingUtxo}

/-- The change a spend asks for, over the naturals. -/
def SpendSpec.changeSats (spend : SpendSpec) : Nat :=
  (spend.changeOutput.map fun change => change.amountSats.toNat).getD 0

theorem PaidBy.sats {outpoint : OutPointRef} {coin : SpentCoin}
    (h : PaidBy X descriptor funding outpoint coin) :
    coin.utxo.value.toNat = fundedSats funding outpoint := by
  obtain ⟨utxo, hfirst, hutxo, -, -⟩ := h
  rw [fundedSats, hfirst, hutxo]
  rfl

theorem sats_of_paid {inputs : List OutPointRef} {coins : List SpentCoin}
    (h : List.Forall₂ (PaidBy X descriptor funding) inputs coins) :
    sats (coins.map SpentCoin.utxo) = (inputs.map (fundedSats funding)).sum := by
  induction h with
  | nil => rfl
  | cons hpaid _ ih => rw [List.map_cons, sats_cons, hpaid.sats, ih, List.map_cons, List.sum_cons]

theorem sats_of_pays {spendOutputs : List SpendOutput} {outputs : List TxOut}
    (h : List.Forall₂ (PaysTo X network) spendOutputs outputs) :
    sats outputs = (spendOutputs.map fun output => output.amountSats.toNat).sum := by
  induction h with
  | nil => rfl
  | cons hpays _ ih =>
    obtain ⟨address, -, rfl⟩ := hpays
    rw [sats_cons, ih, List.map_cons, List.sum_cons]

theorem sats_of_paysChange {spend : SpendSpec} {change : Option (TxOut × DefiniteDescriptor)}
    (h : PaysChange X descriptor spend.changeOutput change) :
    sats (change.map Prod.fst).toList = spend.changeSats := by
  unfold SpendSpec.changeSats
  cases change with
  | none =>
    cases hspend : spend.changeOutput with
    | none => rfl
    | some output =>
      rw [hspend] at h
      exact absurd h id
  | some c =>
    obtain ⟨txout, derived⟩ := c
    obtain ⟨output, hspend, -, rfl⟩ := h.of_some
    rw [hspend]
    rfl

/-- The builder reads of the funding data the first entry for each input. -/
theorem collectInputs_congr {funding' : List FundingUtxo} {inputs : List OutPointRef}
    (h : ∀ outpoint ∈ inputs, firstEntry funding' outpoint = firstEntry funding outpoint)
    (totalIn : UInt64) :
    collectInputs X descriptor funding' totalIn inputs =
      collectInputs X descriptor funding totalIn inputs := by
  induction inputs generalizing totalIn with
  | nil => rfl
  | cons outpoint rest ih =>
    have hfirst := h outpoint List.mem_cons_self
    have hrest := fun total => ih (fun o ho => h o (List.mem_cons_of_mem _ ho)) total
    unfold firstEntry at hfirst
    unfold collectInputs
    simp only [hfirst, hrest]

/-- What has to hold for a spend to come true, input by input and output by output. -/
structure Realisable (X : Extern) (network : Network) (descriptor : Descriptor)
    (funding : List FundingUtxo) (spend : SpendSpec) : Prop where
  funded : ∀ outpoint ∈ spend.inputs, ∃ utxo derived,
    firstEntry funding outpoint = some utxo ∧
      descriptor.atDerivationIndex X utxo.derivationIndex = .ok derived ∧
      utxo.txout.scriptPubkey = derived.scriptPubkey X
  addresses : ∀ output ∈ spend.outputs, ∃ address,
    output.address.requireNetwork X network = .ok address
  change : ∀ change, spend.changeOutput = some change →
    ∃ derived, descriptor.atDerivationIndex X change.derivationIndex = .ok derived
  balance : (spend.inputs.map (fundedSats funding)).sum = spend.feeSats.toNat +
    (spend.outputs.map fun output => output.amountSats.toNat).sum + spend.changeSats
  fits : (spend.inputs.map (fundedSats funding)).sum ≤ 2 ^ 64 - 1

/-- Exactly the realisable spends have coins, outputs and change. -/
theorem realisable_iff {spend : SpendSpec} :
    Realisable X network descriptor funding spend ↔
      ∃ coins outputs change, Realises X network descriptor funding spend coins outputs change := by
  constructor
  · intro h
    obtain ⟨coins, hcoins⟩ : ∃ coins, List.Forall₂ (fun outpoint coin =>
        PaidBy X descriptor funding outpoint coin ∧
          coin.utxo.scriptPubkey = coin.derived.scriptPubkey X) spend.inputs coins := by
      refine Matched.exists_of_forall fun outpoint ho => ?_
      obtain ⟨utxo, derived, hfirst, hderived, hscript⟩ := h.funded outpoint ho
      exact ⟨⟨⟨outpoint, [], ENABLE_RBF_NO_LOCKTIME, .empty⟩, utxo.txout, derived⟩,
        ⟨utxo, hfirst, rfl, hderived, rfl⟩, hscript⟩
    obtain ⟨outputs, houtputs⟩ : ∃ outputs,
        List.Forall₂ (PaysTo X network) spend.outputs outputs := by
      refine Matched.exists_of_forall fun output ho => ?_
      obtain ⟨address, haddress⟩ := h.addresses output ho
      exact ⟨_, address, haddress, rfl⟩
    obtain ⟨change, hchange⟩ : ∃ change, PaysChange X descriptor spend.changeOutput change := by
      cases hspend : spend.changeOutput with
      | none => exact ⟨none, trivial⟩
      | some change =>
        obtain ⟨derived, hderived⟩ := h.change change hspend
        exact ⟨some (_, derived), hderived, rfl⟩
    have hpaid := hcoins.imp fun _ _ h => h.1
    have hsum := sats_of_paid hpaid
    refine ⟨coins, outputs, change, hpaid, ?_, houtputs, hchange, ?_, ?_⟩
    · intro coin hcoin
      obtain ⟨_, -, -, hscript⟩ := Matched.exists_of_mem_right hcoins hcoin
      exact hscript
    · rw [hsum, h.balance, allOutputs, sats_append, sats_of_pays houtputs,
        sats_of_paysChange hchange, Nat.add_assoc]
    · have := h.fits
      omega
  · rintro ⟨coins, outputs, change, h⟩
    have hsum := sats_of_paid h.paid
    refine ⟨?_, ?_, ?_, ?_, ?_⟩
    · intro outpoint ho
      obtain ⟨coin, hcoin, utxo, hfirst, hutxo, hderived, -⟩ :=
        Matched.exists_of_mem_left h.paid ho
      exact ⟨utxo, coin.derived, hfirst, hderived, hutxo ▸ h.scripts coin hcoin⟩
    · intro output ho
      obtain ⟨txout, -, address, haddress, -⟩ := Matched.exists_of_mem_left h.pays ho
      exact ⟨address, haddress⟩
    · intro output hspend
      have hchange := h.paysChange
      rw [hspend] at hchange
      cases change with
      | none => exact absurd hchange id
      | some c => exact ⟨c.2, hchange.1⟩
    · rw [← hsum, h.balance, allOutputs, sats_append, sats_of_pays h.pays,
        sats_of_paysChange h.paysChange, Nat.add_assoc]
    · have := h.fits
      omega

/-- The coins are there at derivable indices and their sum fits. -/
structure Collectible (X : Extern) (descriptor : Descriptor) (funding : List FundingUtxo)
    (spend : SpendSpec) : Prop where
  coins : ∀ outpoint ∈ spend.inputs, ∃ utxo derived, firstEntry funding outpoint = some utxo ∧
    descriptor.atDerivationIndex X utxo.derivationIndex = .ok derived
  fits : (spend.inputs.map (fundedSats funding)).sum ≤ 2 ^ 64 - 1

theorem collectInputs_isOk_iff {spend : SpendSpec} :
    (∃ r, collectInputs X descriptor funding 0 spend.inputs = .ok r) ↔
      Collectible X descriptor funding spend := by
  constructor
  · rintro ⟨⟨total, coins⟩, h⟩
    obtain ⟨hpaid, htotal⟩ := collectInputs_eq_ok_iff.mp h
    refine ⟨fun outpoint ho => ?_, ?_⟩
    · obtain ⟨coin, -, utxo, hfirst, -, hderived, -⟩ := Matched.exists_of_mem_left hpaid ho
      exact ⟨utxo, coin.derived, hfirst, hderived⟩
    · rw [← sats_of_paid hpaid]
      have := total.toNat_lt
      simp only [UInt64.toNat_zero, Nat.zero_add] at htotal
      omega
  · intro h
    obtain ⟨coins, hpaid⟩ : ∃ coins,
        List.Forall₂ (PaidBy X descriptor funding) spend.inputs coins := by
      refine Matched.exists_of_forall fun outpoint ho => ?_
      obtain ⟨utxo, derived, hfirst, hderived⟩ := h.coins outpoint ho
      exact ⟨⟨⟨outpoint, [], ENABLE_RBF_NO_LOCKTIME, .empty⟩, utxo.txout, derived⟩, utxo, hfirst,
        rfl, hderived, rfl⟩
    have hfits := h.fits
    rw [← sats_of_paid hpaid] at hfits
    obtain ⟨total, htotal⟩ := exists_word
      (show sats (coins.map SpentCoin.utxo) < 2 ^ 64 by omega)
    exact ⟨(total, coins), collectInputs_eq_ok_iff.mpr ⟨hpaid, by simp [htotal]⟩⟩

/-- The outputs pay to the network, and their sum with the fee fits. -/
structure Payable (X : Extern) (network : Network) (spend : SpendSpec) : Prop where
  addresses : ∀ output ∈ spend.outputs, ∃ address,
    output.address.requireNetwork X network = .ok address
  fits : spend.feeSats.toNat + (spend.outputs.map fun output => output.amountSats.toNat).sum <
    2 ^ 64

theorem collectOutputs_isOk_iff {spend : SpendSpec} :
    (∃ r, collectOutputs X network spend.feeSats spend.outputs = .ok r) ↔
      Payable X network spend := by
  constructor
  · rintro ⟨⟨total, outputs⟩, h⟩
    obtain ⟨hpays, htotal⟩ := collectOutputs_eq_ok_iff.mp h
    refine ⟨fun output ho => ?_, ?_⟩
    · obtain ⟨txout, -, address, haddress, -⟩ := Matched.exists_of_mem_left hpays ho
      exact ⟨address, haddress⟩
    · rw [← sats_of_pays hpays, ← htotal]
      exact total.toNat_lt
  · intro h
    obtain ⟨outputs, hpays⟩ : ∃ outputs,
        List.Forall₂ (PaysTo X network) spend.outputs outputs := by
      refine Matched.exists_of_forall fun output ho => ?_
      obtain ⟨address, haddress⟩ := h.addresses output ho
      exact ⟨_, address, haddress, rfl⟩
    have hfits := h.fits
    rw [← sats_of_pays hpays] at hfits
    obtain ⟨total, htotal⟩ := exists_word hfits
    exact ⟨(total, outputs), collectOutputs_eq_ok_iff.mpr ⟨hpays, htotal⟩⟩

end Exact

/-! ## Where it panics -/

section Panics

variable {X : Extern} {network : Network} {descriptor : Descriptor} {funding : List FundingUtxo}

/-- The coin of an outpoint is known, at an index where every key derives. -/
def CoinDerives (descriptor : Descriptor) (funding : List FundingUtxo) (outpoint : OutPointRef) :
    Prop :=
  ∃ utxo, firstEntry funding outpoint = some utxo ∧
    ∀ key ∈ descriptor.keys, key.DerivesAt utxo.derivationIndex

/-- Some coin is at an index where the descriptor panics, and the loop over the inputs comes that
far: the coins before it derive, and the sum up to it fits. -/
def PanicsAtCoin (descriptor : Descriptor) (funding : List FundingUtxo) (start : Nat)
    (inputs : List OutPointRef) : Prop :=
  ∃ pre outpoint post utxo, inputs = pre ++ outpoint :: post ∧
    (∀ o ∈ pre, CoinDerives descriptor funding o) ∧ firstEntry funding outpoint = some utxo ∧
    start + ((pre ++ [outpoint]).map (fundedSats funding)).sum < 2 ^ 64 ∧
    descriptor.PanicsAt utxo.derivationIndex

/-- The change is at an index where the descriptor panics, and the builder comes that far. -/
structure PanicsAtChange (X : Extern) (network : Network) (descriptor : Descriptor)
    (funding : List FundingUtxo) (spend : SpendSpec) : Prop where
  coins : ∀ outpoint ∈ spend.inputs, CoinDerives descriptor funding outpoint
  fits : (spend.inputs.map (fundedSats funding)).sum ≤ 2 ^ 64 - 1
  payable : Payable X network spend
  change : ∃ change, spend.changeOutput = some change ∧
    descriptor.PanicsAt change.derivationIndex

/-- The builder comes to a hardened key. -/
def MeetsHardened (X : Extern) (network : Network) (descriptor : Descriptor)
    (funding : List FundingUtxo) (spend : SpendSpec) : Prop :=
  PanicsAtCoin descriptor funding 0 spend.inputs ∨
    PanicsAtChange X network descriptor funding spend

theorem fundedSats_of_first {outpoint : OutPointRef} {utxo : FundingUtxo}
    (h : firstEntry funding outpoint = some utxo) :
    fundedSats funding outpoint = utxo.txout.value.toNat := by
  rw [fundedSats, h]
  rfl

/-- One coin first: it panics itself, or it derives and a later one panics. -/
theorem panicsAtCoin_cons {start : Nat} {outpoint : OutPointRef} {rest : List OutPointRef}
    {utxo : FundingUtxo} (hfirst : firstEntry funding outpoint = some utxo) :
    PanicsAtCoin descriptor funding start (outpoint :: rest) ↔
      (start + utxo.txout.value.toNat < 2 ^ 64 ∧ descriptor.PanicsAt utxo.derivationIndex) ∨
      ((∀ key ∈ descriptor.keys, key.DerivesAt utxo.derivationIndex) ∧
        PanicsAtCoin descriptor funding (start + utxo.txout.value.toNat) rest) := by
  have hsats := fundedSats_of_first hfirst
  constructor
  · rintro ⟨pre, o, post, utxo', hsplit, hpre, ho, hfits, hpanics⟩
    cases pre with
    | nil =>
      obtain ⟨rfl, -⟩ := List.cons.inj hsplit
      obtain rfl := Option.some.inj (hfirst.symm.trans ho)
      rw [List.nil_append, List.map_singleton, List.sum_singleton, hsats] at hfits
      exact Or.inl ⟨hfits, hpanics⟩
    | cons p pre =>
      obtain ⟨rfl, rfl⟩ := List.cons.inj hsplit
      obtain ⟨⟨utxo'', hfirst', hderives⟩, hrest⟩ := List.forall_mem_cons.mp hpre
      obtain rfl := Option.some.inj (hfirst.symm.trans hfirst')
      rw [List.cons_append, List.map_cons, List.sum_cons, hsats, ← Nat.add_assoc] at hfits
      exact Or.inr ⟨hderives, pre, o, post, utxo', rfl, hrest, ho, hfits, hpanics⟩
  · rintro (⟨hfits, hpanics⟩ | ⟨hderives, pre, o, post, utxo', rfl, hrest, ho, hfits, hpanics⟩)
    · refine ⟨[], outpoint, rest, utxo, rfl, fun _ h => absurd h List.not_mem_nil, hfirst, ?_,
        hpanics⟩
      rwa [List.nil_append, List.map_singleton, List.sum_singleton, hsats]
    · refine ⟨outpoint :: pre, o, post, utxo', rfl,
        List.forall_mem_cons.mpr ⟨⟨utxo, hfirst, hderives⟩, hrest⟩, ho, ?_, hpanics⟩
      rwa [List.cons_append, List.map_cons, List.sum_cons, hsats, ← Nat.add_assoc]

theorem PanicsAtCoin.start_lt {start : Nat} {inputs : List OutPointRef}
    (h : PanicsAtCoin descriptor funding start inputs) : start < 2 ^ 64 := by
  obtain ⟨pre, o, post, utxo, -, -, -, hfits, -⟩ := h
  exact Nat.lt_of_le_of_lt (Nat.le_add_right _ _) hfits

section

variable (hX : X.DerivesKeys)
include hX

/-- The derivation behind a step of the builder ends in one of three ways. -/
theorem derivation_cases (descriptor : Descriptor) (index : UInt32) :
    (∃ message, descriptor.atDerivationIndex X index = .error (.panic message) ∧
      descriptor.PanicsAt index ∧ ¬ ∀ key ∈ descriptor.keys, key.DerivesAt index) ∨
    (∃ e, descriptor.atDerivationIndex X index = .error (.error e) ∧
      ¬ descriptor.PanicsAt index ∧ ¬ ∀ key ∈ descriptor.keys, key.DerivesAt index) ∨
    ∃ derived, descriptor.atDerivationIndex X index = .ok derived ∧
      ¬ descriptor.PanicsAt index ∧ ∀ key ∈ descriptor.keys, key.DerivesAt index := by
  rw [← descriptor.atDerivationIndex_panics_iff hX, ← descriptor.atDerivationIndex_isOk_iff hX]
  cases descriptor.atDerivationIndex X index with
  | ok derived => exact Or.inr (Or.inr ⟨derived, rfl, by simp, derived, rfl⟩)
  | error e =>
    cases e with
    | panic message => exact Or.inl ⟨message, rfl, ⟨message, rfl⟩, by simp⟩
    | error e => exact Or.inr (Or.inl ⟨e, rfl, by simp, by simp⟩)

theorem collectInputs_panics_iff {inputs : List OutPointRef} {totalIn : UInt64} :
    (∃ message, collectInputs X descriptor funding totalIn inputs =
      .error (.expectation message)) ↔ PanicsAtCoin descriptor funding totalIn.toNat inputs := by
  induction inputs generalizing totalIn with
  | nil =>
    refine iff_of_false (by simp [collectInputs]) ?_
    rintro ⟨pre, o, post, -, hsplit, -⟩
    exact absurd hsplit (by simp)
  | cons outpoint rest ih =>
    unfold collectInputs
    cases hfirst : funding.find? fun f => f.outpoint == outpoint with
    | none =>
      refine iff_of_false (by simp) ?_
      rintro ⟨pre, o, post, utxo, hsplit, hpre, ho, -⟩
      have hnone : firstEntry funding outpoint = none := hfirst
      cases pre with
      | nil =>
        obtain ⟨rfl, -⟩ := List.cons.inj hsplit
        exact absurd (hnone.symm.trans ho) (by simp)
      | cons p pre =>
        obtain ⟨rfl, -⟩ := List.cons.inj hsplit
        obtain ⟨utxo', hfirst', -⟩ := hpre outpoint List.mem_cons_self
        exact absurd (hnone.symm.trans hfirst') (by simp)
    | some utxo =>
      rw [panicsAtCoin_cons (show firstEntry funding outpoint = some utxo from hfirst)]
      dsimp only
      cases hadd : checkedAdd totalIn utxo.txout.value with
      | none =>
        have hge := checkedAdd_eq_none_iff.mp hadd
        refine iff_of_false (by simp) ?_
        rintro (⟨hlt, -⟩ | ⟨-, hrest⟩)
        · omega
        · exact absurd hrest.start_lt (by omega)
      | some totalIn' =>
        have hsum := checkedAdd_eq_some_iff.mp hadd
        rw [← hsum, and_iff_right totalIn'.toNat_lt]
        dsimp only
        rcases derivation_cases hX descriptor utxo.derivationIndex with
          ⟨message, herr, hpanics, -⟩ | ⟨e, herr, hpanics, hderives⟩ |
            ⟨derived, hok, hpanics, hderives⟩
        · rw [herr]
          exact iff_of_true ⟨message, rfl⟩ (Or.inl hpanics)
        · rw [herr]
          refine iff_of_false (by simp [DerivationFailure.toWalletError]) ?_
          rintro (h | ⟨h, -⟩)
          · exact hpanics h
          · exact hderives h
        · rw [hok, or_iff_right hpanics, and_iff_right hderives, ← ih]
          dsimp only
          cases collectInputs X descriptor funding totalIn' rest with
          | error e => rfl
          | ok r => simp

theorem collectChange_panics_iff {changeOutput : Option ChangeOutput} {totalOut : UInt64} :
    (∃ message, collectChange X descriptor totalOut changeOutput =
      .error (.expectation message)) ↔
        ∃ change, changeOutput = some change ∧ descriptor.PanicsAt change.derivationIndex := by
  unfold collectChange
  cases changeOutput with
  | none => exact iff_of_false (by simp) (by simp)
  | some change =>
    dsimp only
    rcases derivation_cases hX descriptor change.derivationIndex with
      ⟨message, herr, hpanics, -⟩ | ⟨e, herr, hpanics, -⟩ | ⟨derived, hok, hpanics, -⟩
    · rw [herr]
      exact iff_of_true ⟨message, rfl⟩ ⟨change, rfl, hpanics⟩
    · rw [herr]
      refine iff_of_false (by simp [DerivationFailure.toWalletError]) ?_
      rintro ⟨change', hsame, h⟩
      obtain rfl := Option.some.inj hsame
      exact hpanics h
    · rw [hok]
      dsimp only
      refine iff_of_false ?_ ?_
      · cases checkedAdd totalOut change.amountSats <;> simp
      · rintro ⟨change', hsame, h⟩
        obtain rfl := Option.some.inj hsame
        exact hpanics h

/-- The coins of a collectible spend, key by key. -/
theorem collectible_iff {spend : SpendSpec} :
    Collectible X descriptor funding spend ↔
      (∀ outpoint ∈ spend.inputs, CoinDerives descriptor funding outpoint) ∧
        (spend.inputs.map (fundedSats funding)).sum ≤ 2 ^ 64 - 1 := by
  have hcoin : ∀ outpoint, (∃ utxo derived, firstEntry funding outpoint = some utxo ∧
      descriptor.atDerivationIndex X utxo.derivationIndex = .ok derived) ↔
        CoinDerives descriptor funding outpoint := fun outpoint =>
    exists_congr fun utxo => by
      rw [← descriptor.atDerivationIndex_isOk_iff hX, exists_and_left]
  constructor
  · exact fun h => ⟨fun outpoint ho => (hcoin outpoint).mp (h.coins outpoint ho), h.fits⟩
  · exact fun h => ⟨fun outpoint ho => (hcoin outpoint).mpr (h.1 outpoint ho), h.2⟩

theorem panicsAtChange_iff {spend : SpendSpec} :
    PanicsAtChange X network descriptor funding spend ↔
      (∃ r, collectInputs X descriptor funding 0 spend.inputs = .ok r) ∧
      (∃ r, collectOutputs X network spend.feeSats spend.outputs = .ok r) ∧
      ∃ change, spend.changeOutput = some change ∧
        descriptor.PanicsAt change.derivationIndex := by
  rw [collectInputs_isOk_iff, collectible_iff hX, collectOutputs_isOk_iff]
  exact ⟨fun h => ⟨⟨h.coins, h.fits⟩, h.payable, h.change⟩,
    fun h => ⟨h.1.1, h.1.2, h.2.1, h.2.2⟩⟩

/-- **The builder panics exactly where it comes to a hardened key.** -/
theorem buildUnsignedPsbt_panics_iff {spend : SpendSpec} :
    (∃ message, buildUnsignedPsbt X spend descriptor funding network =
      .error (.expectation message)) ↔ MeetsHardened X network descriptor funding spend := by
  have hinputs := @collectInputs_panics_iff X descriptor funding hX spend.inputs 0
  rw [show (0 : UInt64).toNat = 0 from rfl] at hinputs
  unfold MeetsHardened buildUnsignedPsbt
  rw [← hinputs, panicsAtChange_iff hX]
  cases collectInputs X descriptor funding 0 spend.inputs with
  | error e => simp
  | ok r =>
    obtain ⟨totalIn, coins⟩ := r
    dsimp only
    cases houtputs : collectOutputs X network spend.feeSats spend.outputs with
    | error e =>
      rcases collectOutputs_error houtputs with ⟨reason, rfl⟩ | rfl <;> simp
    | ok r =>
      obtain ⟨totalOut, outputs⟩ := r
      dsimp only
      have hchange := @collectChange_panics_iff X descriptor hX spend.changeOutput totalOut
      rw [← hchange]
      cases collectChange X descriptor totalOut spend.changeOutput with
      | error e => simp
      | ok r =>
        obtain ⟨total, change⟩ := r
        -- what is left is checks, each with an error of its own
        refine iff_of_false ?_ (by simp)
        rintro ⟨message, h⟩
        dsimp only at h
        split at h
        · exact absurd h (by simp)
        split at h
        · exact absurd h (by simp)
        split at h
        · rename_i e hfill
          obtain ⟨refused, rfl⟩ := fillInputs_error hfill
          exact absurd h (by simp)
        split at h
        · exact absurd h (by simp)
        split at h <;> exact absurd h (by simp)

end

/-- What the builder promises of a spend: it returns, a PSBT on exactly a realisable one, and reads
of the funding data the first entry for each input only. -/
structure BuildsExactly (X : Extern) (spend : SpendSpec) (descriptor : Descriptor)
    (funding : List FundingUtxo) (network : Network) : Prop where
  returns : buildUnsignedPsbtStrict X spend descriptor funding network ≠ none
  succeeds : (∃ psbt, buildUnsignedPsbtStrict X spend descriptor funding network =
    some (.ok psbt)) ↔ Realisable X network descriptor funding spend
  reads : ∀ funding', (∀ outpoint ∈ spend.inputs,
      firstEntry funding' outpoint = firstEntry funding outpoint) →
    buildUnsignedPsbtStrict X spend descriptor funding' network =
      buildUnsignedPsbtStrict X spend descriptor funding network

theorem delivered_eq_ok_iff {α : Type} {r : Except WalletError α} {a : α} :
    delivered r = some (.ok a) ↔ r = .ok a := by
  cases r with
  | error e => cases e <;> simp [delivered]
  | ok b => simp [delivered_ok]

/-- All but the panics holds of every spend. -/
theorem buildsExactly_iff_returns {spend : SpendSpec} :
    BuildsExactly X spend descriptor funding network ↔
      buildUnsignedPsbtStrict X spend descriptor funding network ≠ none := by
  refine ⟨fun h => h.returns, fun h => ⟨h, ?_, fun funding' hfirst => ?_⟩⟩
  · rw [buildUnsignedPsbtStrict_eq, realisable_iff]
    simp only [delivered_eq_ok_iff, buildUnsignedPsbt_eq_ok_iff]
    constructor
    · rintro ⟨psbt, coins, outputs, change, hreal, -⟩
      exact ⟨coins, outputs, change, hreal⟩
    · rintro ⟨coins, outputs, change, hreal⟩
      exact ⟨_, coins, outputs, change, hreal, rfl⟩
  · rw [buildUnsignedPsbtStrict_eq, buildUnsignedPsbtStrict_eq]
    unfold buildUnsignedPsbt
    rw [collectInputs_congr hfirst]

/-- A coin at this index, and a spend of it. -/
def spendAt (index : UInt32) : SpendSpec × List FundingUtxo :=
  (⟨[⟨⟨0⟩, 0⟩], [], 0, none⟩, [⟨⟨⟨0⟩, 0⟩, ⟨0, .other []⟩, index⟩])

/-- **The builder is exact but for hardened keys.** On any spend, funding data and network, it
returns, with a PSBT on exactly the realisable spends and whatever funding data has the same first
entries, if and only if it does not come to an index where the descriptor panics; and it does so on
all of them if and only if every hardened key of the descriptor stands behind one that never
derives. -/
theorem build_exact_iff (hX : X.DerivesKeys) (descriptor : Descriptor) :
    (∀ spend funding network, BuildsExactly X spend descriptor funding network ↔
      ¬ MeetsHardened X network descriptor funding spend) ∧
    ((∀ spend funding network, BuildsExactly X spend descriptor funding network) ↔
      ∀ pre key post, descriptor.keys = pre ++ key :: post → key.isHardened = true →
        ∃ k ∈ pre, k.isDerivable = false) := by
  have hiff : ∀ spend funding network, BuildsExactly X spend descriptor funding network ↔
      ¬ MeetsHardened X network descriptor funding spend := by
    intro spend funding network
    rw [buildsExactly_iff_returns, buildUnsignedPsbtStrict_eq, ne_eq, delivered_eq_none_iff,
      buildUnsignedPsbt_panics_iff hX]
  refine ⟨hiff, ?_⟩
  rw [← Descriptor.never_panicsAt_iff]
  constructor
  · intro h index hpanics
    refine (hiff (spendAt index).1 (spendAt index).2 .bitcoin).mp (h _ _ _) (Or.inl ?_)
    refine ⟨[], _, [], _, rfl, fun _ h => absurd h List.not_mem_nil, rfl, ?_, hpanics⟩
    simp [spendAt, fundedSats, firstEntry]
  · intro h spend funding network
    rw [hiff]
    rintro (⟨-, -, -, utxo, -, -, -, -, hpanics⟩ | ⟨-, -, -, change, -, hpanics⟩)
    · exact h _ hpanics
    · exact h _ hpanics

theorem build_exact_iff_ranged :
    BuildsExactly (.sample []) (spendAt 0).1 ⟨1, [Extern.Sample.key 1]⟩ (spendAt 0).2 .bitcoin :=
  (build_exact_iff (Extern.Sample.derivesKeys []) ⟨1, [Extern.Sample.key 1]⟩).2.mpr
    (fun pre key post hkeys hhardened => by
      have hmem : key ∈ [Extern.Sample.key 1] := by
        rw [show [Extern.Sample.key 1] = pre ++ key :: post from hkeys]
        exact List.mem_append_right pre List.mem_cons_self
      obtain rfl := List.mem_singleton.mp hmem
      exact absurd hhardened (by decide)) _ _ _

/-- **A descriptor of the platform panics in the builder**: its one key has a hardened wildcard. -/
theorem hardened_build_panics :
    sortedmultiWshDescriptor (.sample []) 1 [Extern.Sample.hardenedKey] =
      .ok ⟨1, [Extern.Sample.hardenedKey]⟩ ∧
    buildUnsignedPsbtStrict (.sample []) (spendAt 0).1 ⟨1, [Extern.Sample.hardenedKey]⟩
      (spendAt 0).2 .bitcoin = none ∧
    ¬ BuildsExactly (.sample []) (spendAt 0).1 ⟨1, [Extern.Sample.hardenedKey]⟩ (spendAt 0).2
      .bitcoin :=
  ⟨rfl, rfl, fun h => h.returns rfl⟩

end Panics

end Kota
