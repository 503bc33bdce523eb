import Kota.PsbtSession.Hydration
import Kota.Wallet.Realisable

/-!
# From the proposal to the PSBT

What the proposal validator accepts, and what the builder then makes of the recorded spend.

* `spendError_eq_none_iff`: the validator accepts exactly the spends that are `Sane`: some inputs,
  pairwise distinct, some outputs, none of them dust, and a bounded fee.
* `Faithful` is what a PSBT must say to be a PSBT of the spend: its inputs in order, its outputs in
  order and then the change at the wallet's own script, no satoshi gained or lost, no dust, and
  under every input the coin that pays the wallet there.
* **`build_faithful`**: whatever the funding data, a PSBT built from a session as the log gives it
  back is faithful to the spend that was proposed.
-/

namespace Kota

open EventLog

/-! ## What the validator accepts -/

section Validator

variable (X : Extern)

/-- The output is to an address of the network, and not dust. -/
def SpendOutput.Sane (network : Network) (output : SpendOutput) : Prop :=
  output.address.requireNetwork X network = .ok output.address ∧
    X.minimalNonDust output.address.scriptPubkey ≤ output.amountSats

/-- What `try_new` checks of a spend. -/
structure SpendSpec.Sane (network : Network) (spend : SpendSpec) : Prop where
  inputs : spend.inputs ≠ []
  inputs_le : spend.inputs.length ≤ MAX_SPEND_INPUTS
  distinct : spend.inputs.Nodup
  outputs : spend.outputs ≠ []
  outputs_le : spend.outputs.length ≤ MAX_SPEND_OUTPUTS
  sane : ∀ output ∈ spend.outputs, output.Sane X network
  change : ∀ change, spend.changeOutput = some change →
    NewPsbtSession.p2wshDustThreshold X ≤ change.amountSats
  fee : spend.feeSats ≤ MAX_FEE_SATS

variable {X}

/-- An address is accepted as it is. -/
theorem requireNetwork_eq {address address' : BitcoinAddress} {network : Network}
    (h : address.requireNetwork X network = .ok address') : address' = address := by
  unfold BitcoinAddress.requireNetwork at h
  split at h
  · exact (Except.ok.inj h).symm
  · exact absurd h (by simp)

theorem outputError_eq_none_iff {network : Network} {outputs : List SpendOutput} :
    NewPsbtSession.outputError X network outputs = none ↔
      ∀ output ∈ outputs, output.Sane X network := by
  induction outputs with
  | nil => simp [NewPsbtSession.outputError]
  | cons output rest ih =>
    rw [List.forall_mem_cons]
    unfold NewPsbtSession.outputError
    cases haddress : output.address.requireNetwork X network with
    | error reason => simp [SpendOutput.Sane, haddress]
    | ok address =>
      obtain rfl := requireNetwork_eq haddress
      dsimp only
      by_cases hdust : output.amountSats < X.minimalNonDust output.address.scriptPubkey
      · rw [if_pos hdust]
        simp [SpendOutput.Sane, hdust]
      · rw [if_neg hdust, ih]
        simp [SpendOutput.Sane, haddress, UInt64.not_lt.mp hdust]

theorem feeError_eq_none_iff {feeSats : UInt64} :
    NewPsbtSession.spendError.feeError feeSats = none ↔ feeSats ≤ MAX_FEE_SATS := by
  unfold NewPsbtSession.spendError.feeError
  by_cases h : MAX_FEE_SATS < feeSats
  · simp [h]
  · simp [h, UInt64.not_lt.mp h]

/-- **The validator accepts exactly the sane spends.** -/
theorem spendError_eq_none_iff {network : Network} {spend : SpendSpec} :
    NewPsbtSession.spendError X network spend = none ↔ spend.Sane X network := by
  unfold NewPsbtSession.spendError
  constructor
  · intro h
    split at h
    · exact absurd h (by simp)
    rename_i hinputs
    split at h
    · exact absurd h (by simp)
    rename_i hcount
    split at h
    · exact absurd h (by simp)
    rename_i hdup
    split at h
    · exact absurd h (by simp)
    rename_i houtputs
    split at h
    · exact absurd h (by simp)
    rename_i hcount'
    split at h
    · exact absurd h (by simp)
    rename_i hsane
    have hlast : spend.feeSats ≤ MAX_FEE_SATS ∧ ∀ change, spend.changeOutput = some change →
        NewPsbtSession.p2wshDustThreshold X ≤ change.amountSats := by
      dsimp only at h
      split at h
      · rename_i change hchange
        split at h
        · exact absurd h (by simp)
        · rename_i hdust
          refine ⟨feeError_eq_none_iff.mp h, fun change' hchange' => ?_⟩
          obtain rfl := Option.some.inj (hchange.symm.trans hchange')
          exact UInt64.not_lt.mp hdust
      · rename_i hnone
        exact ⟨feeError_eq_none_iff.mp h, fun change hchange => absurd (hnone ▸ hchange) (by simp)⟩
    refine ⟨fun hnil => hinputs (by rw [hnil]; rfl), Nat.not_lt.mp hcount,
      Sorting.adjacentDup_sort_eq_none_iff.mp hdup, fun hnil => houtputs (by rw [hnil]; rfl),
      Nat.not_lt.mp hcount', outputError_eq_none_iff.mp hsane, hlast.2, hlast.1⟩
  · intro h
    have hinputs : ¬ spend.inputs.isEmpty = true := fun he => h.inputs (List.isEmpty_iff.mp he)
    have houtputs : ¬ spend.outputs.isEmpty = true := fun he => h.outputs (List.isEmpty_iff.mp he)
    rw [if_neg hinputs, if_neg (Nat.not_lt.mpr h.inputs_le),
      Sorting.adjacentDup_sort_eq_none_iff.mpr h.distinct]
    dsimp only
    rw [if_neg houtputs, if_neg (Nat.not_lt.mpr h.outputs_le), outputError_eq_none_iff.mpr h.sane]
    dsimp only
    cases hchange : spend.changeOutput with
    | none => exact feeError_eq_none_iff.mpr h.fee
    | some change =>
      dsimp only
      rw [if_neg (UInt64.not_lt.mpr (h.change change hchange))]
      exact feeError_eq_none_iff.mpr h.fee

end Validator

/-! ## What the PSBT says -/

/-- What the coins of a PSBT are worth. -/
def Psbt.inputSats (psbt : Psbt) : Nat :=
  (psbt.inputs.map fun input => (input.witnessUtxo.map fun utxo => utxo.value.toNat).getD 0).sum

/-- `psbt` spends as `spend` says, from the wallet with this descriptor. -/
structure Faithful (X : Extern) (descriptor : Descriptor) (funding : List FundingUtxo)
    (spend : SpendSpec) (psbt : Psbt) : Prop where
  inputs : psbt.unsignedTx.input.map TxIn.previousOutput = spend.inputs
  distinct : (psbt.unsignedTx.input.map TxIn.previousOutput).Nodup
  outputs : ∃ change, psbt.unsignedTx.output =
      spend.outputs.map (fun o => ⟨o.amountSats, o.address.scriptPubkey⟩) ++ change ∧
    match spend.changeOutput with
    | none => change = []
    | some c => ∃ derived, descriptor.atDerivationIndex X c.derivationIndex = .ok derived ∧
        change = [⟨c.amountSats, derived.scriptPubkey X⟩]
  balance : psbt.inputSats = sats psbt.unsignedTx.output + spend.feeSats.toNat
  fee : spend.feeSats ≤ MAX_FEE_SATS
  dust : ∀ o ∈ psbt.unsignedTx.output, X.minimalNonDust o.scriptPubkey ≤ o.value
  witnesses : List.Forall₂ (fun outpoint input => ∃ utxo derived,
    firstEntry funding outpoint = some utxo ∧ input.witnessUtxo = some utxo.txout ∧
      descriptor.atDerivationIndex X utxo.derivationIndex = .ok derived ∧
      utxo.txout.scriptPubkey = derived.scriptPubkey X) spend.inputs psbt.inputs

section Faithful

variable {X : Extern} {network : Network} {descriptor : Descriptor} {funding : List FundingUtxo}

theorem previousOutputs_of_paid {inputs : List OutPointRef} {coins : List SpentCoin}
    (h : List.Forall₂ (PaidBy X descriptor funding) inputs coins) :
    (coins.map SpentCoin.txIn).map TxIn.previousOutput = inputs := by
  induction h with
  | nil => rfl
  | cons hpaid _ ih =>
    obtain ⟨-, -, -, -, htxIn⟩ := hpaid
    rw [List.map_cons, List.map_cons, htxIn, ih]

theorem outputs_of_pays {spendOutputs : List SpendOutput} {outputs : List TxOut}
    (h : List.Forall₂ (PaysTo X network) spendOutputs outputs) :
    outputs = spendOutputs.map fun o => ⟨o.amountSats, o.address.scriptPubkey⟩ := by
  induction h with
  | nil => rfl
  | cons hpays _ ih =>
    obtain ⟨address, haddress, rfl⟩ := hpays
    obtain rfl := requireNetwork_eq haddress
    rw [ih, List.map_cons]

theorem assemble_inputSats (coins : List SpentCoin) (outputs : List TxOut)
    (change : Option (TxOut × DefiniteDescriptor)) :
    (assemble X coins outputs change).inputSats = sats (coins.map SpentCoin.utxo) := by
  simp [Psbt.inputSats, assemble, filledInput, sats, List.map_map, Function.comp_def]

/-- A realised sane spend assembles to a faithful PSBT. -/
theorem Realises.faithful {network' : Network} {spend : SpendSpec} {coins : List SpentCoin}
    {outputs : List TxOut} {change : Option (TxOut × DefiniteDescriptor)}
    (h : Realises X network descriptor funding spend coins outputs change)
    (hsane : spend.Sane X network')
    (hdust : ∀ hash hash', X.minimalNonDust (.p2wsh hash) = X.minimalNonDust (.p2wsh hash')) :
    Faithful X descriptor funding spend (assemble X coins outputs change) := by
  have hinputs := previousOutputs_of_paid h.paid
  have houtputs := outputs_of_pays h.pays
  refine ⟨hinputs, hinputs.symm ▸ hsane.distinct, ?_, ?_, hsane.fee, ?_, ?_⟩
  · refine ⟨(change.map Prod.fst).toList, by rw [← houtputs]; rfl, ?_⟩
    have hpays := h.paysChange
    cases change with
    | none =>
      cases hspend : spend.changeOutput with
      | none => rfl
      | some c =>
        rw [hspend] at hpays
        exact absurd hpays id
    | some c =>
      obtain ⟨txout, derived⟩ := c
      obtain ⟨c, hspend, hderived, rfl⟩ := hpays.of_some
      rw [hspend]
      exact ⟨derived, hderived, rfl⟩
  · rw [assemble_inputSats, h.balance, Nat.add_comm]
    rfl
  · intro o ho
    rcases List.mem_append.mp ho with ho | ho
    · rw [houtputs] at ho
      obtain ⟨output, houtput, rfl⟩ := List.mem_map.mp ho
      exact (hsane.sane output houtput).2
    · cases change with
      | none => exact absurd ho (by simp)
      | some c =>
        obtain ⟨txout, derived⟩ := c
        obtain ⟨c, hspend, hderived, rfl⟩ := h.paysChange.of_some
        obtain rfl := List.mem_singleton.mp ho
        -- the threshold of the representative script is that of the wallet's own
        have hsame := hdust (X.wscriptHash (derived.witnessScript X)) ⟨0⟩
        exact hsame ▸ hsane.change c hspend
  · refine List.forall₂_map_right_iff.mpr (Matched.imp_mem_right h.paid ?_)
    rintro outpoint coin hcoin ⟨utxo, hfirst, hutxo, hderived, -⟩
    exact ⟨utxo, coin.derived, hfirst, by rw [← hutxo]; rfl, hderived,
      hutxo ▸ h.scripts coin hcoin⟩

end Faithful

/-- **The PSBT is faithful to the proposal.** For a spend accepted on a wallet that its commands
made active, and the session as any replay of its log gives it back: what the builder returns on
any funding data, for the descriptor of the wallet as it stands by then, is faithful to the spend. -/
theorem build_faithful (X : Extern)
    (hdust : ∀ hash hash', X.minimalNonDust (.p2wsh hash) = X.minimalNonDust (.p2wsh hash'))
    {id : WalletId} {walletNetwork : Network} {threshold : UInt32} {participants : List UserId}
    {newWallet : NewWallet}
    (hnew : NewWallet.new id walletNetwork threshold participants = .ok newWallet)
    (commands later : List WalletCommand) {sessionId : PsbtSessionId} {proposedBy : UserId}
    {spend : SpendSpec} {n : NewPsbtSession}
    (haccepted : NewPsbtSession.tryNew X sessionId (newWallet.registered.run X commands)
      proposedBy spend = .ok n)
    (sessionCommands : List PsbtSessionCommand)
    {events : EntityEvents PsbtSessionId PsbtSessionEvent}
    (hlog : events.iterAll = (n.proposed.run sessionCommands).log) {session : PsbtSession}
    (hsession : PsbtSession.tryFromEvents events = .ok session) {descriptor : Descriptor}
    (hdescriptor : ((newWallet.registered.run X commands).run X later).descriptor =
      some descriptor)
    {funding : List FundingUtxo} {network : Network} {psbt : Psbt}
    (hbuild : buildUnsignedPsbt X session.spend descriptor funding network = .ok psbt) :
    session.spend = spend ∧
      (newWallet.registered.run X commands).descriptor = some descriptor ∧
      Faithful X descriptor funding spend psbt := by
  have hinv := (NewWallet.registered_inv X hnew).run commands
  have hproposed := PsbtSession.tryFromEvents_eq_ok_iff.mpr
    ⟨rfl, PsbtSession.loaded_proposed hinv haccepted⟩
  obtain ⟨hactive, hsane, hn⟩ := NewPsbtSession.tryNew_eq_ok_iff.mp haccepted
  have hspend : session.spend = spend := by
    obtain ⟨s, hs, rfl, -⟩ := (PsbtSession.replay_eq_memory hproposed sessionCommands).2.1 _ hlog
    obtain rfl := Except.ok.inj (hs.symm.trans hsession)
    show (n.proposed.run sessionCommands).spend = spend
    rw [PsbtSession.spend_run, hn]
    rfl
  rw [Wallet.run_frozen (by rw [hactive]; decide) later] at hdescriptor
  rw [hspend] at hbuild
  obtain ⟨coins, outputs, change, hreal, rfl⟩ := buildUnsignedPsbt_eq_ok_iff.mp hbuild
  exact ⟨hspend, hdescriptor, hreal.faithful (spendError_eq_none_iff.mp hsane) hdust⟩

namespace Extern.Sample

/-- One coin to one address, with change at index 3. -/
def changeSpend : SpendSpec :=
  ⟨[⟨⟨5⟩, 0⟩], [⟨⟨"bc1", [.bitcoin], .other [1]⟩, 1000⟩], 10, some ⟨400, 3⟩⟩

/-- The coin it spends, held by the key with this point at index 0. -/
def changeCoin : FundingUtxo :=
  ⟨⟨⟨5⟩, 0⟩, ⟨1410, .p2wsh (wscriptHash (.multi 1 [⟨true, ⟨10⟩⟩]))⟩, 0⟩

/-- The session that proposes it. -/
def changeSession : NewPsbtSession := ⟨⟨3⟩, ⟨0⟩, ⟨7⟩, changeSpend, 1, [1]⟩

end Extern.Sample

open Extern.Sample in
theorem build_faithful_change :
    ∃ psbt, buildUnsignedPsbt (.sample []) changeSpend ⟨1, [key 1]⟩ [changeCoin] .bitcoin =
        .ok psbt ∧
      Faithful (.sample []) ⟨1, [key 1]⟩ [changeCoin] changeSpend psbt := by
  cases hbuild : buildUnsignedPsbt (.sample []) changeSpend ⟨1, [key 1]⟩ [changeCoin] .bitcoin with
  | error e =>
    have hok : (buildUnsignedPsbt (.sample []) changeSpend ⟨1, [key 1]⟩ [changeCoin]
      .bitcoin).isOk = true := by decide +kernel
    rw [hbuild] at hok
    exact absurd hok (by simp [Except.isOk, Except.toBool])
  | ok psbt =>
    exact ⟨psbt, rfl, (@build_faithful (.sample []) (fun _ _ => rfl) ⟨0⟩ .bitcoin 1 [⟨7⟩]
      ⟨⟨0⟩, .bitcoin, 1, [⟨7⟩]⟩ (by decide) [.addKeystore (key 1) ⟨7⟩] [] ⟨3⟩ ⟨7⟩ changeSpend
      changeSession (by decide +kernel) [] changeSession.proposed.events rfl
      changeSession.proposed (by decide +kernel) ⟨1, [key 1]⟩ (by decide +kernel) [changeCoin]
      .bitcoin psbt hbuild).2.2⟩

end Kota
