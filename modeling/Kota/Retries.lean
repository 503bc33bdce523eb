import Kota.Agreement
import Kota.Fidelity
import Kota.Signer

/-!
# Which proposals poison the retry queue

A creation job is retried until it completes, so a spend that no funding data can realise has to
complete it. `PsbtCreationJobRunner::run` decides by two error variants; the builder has more ways
to fail for good.

* `Fundable` says, of the recorded spend alone, that some coins would realise it.
  `fundable_iff`: exactly then some funding data with an entry for each input lets the builder
  succeed.
* `FailsOnAddress` says that the builder meets an address of another network first.
  `build_permanent_iff`: of a spend that is not fundable, this is the one failure the runner takes
  for permanent.
* **`broken_proposal_completes_iff`**: a session of a broken spend completes its job exactly when
  it is no longer pending, or fails on an address.
* **`underivable_change_retried`**: a change output at index `2 ^ 31` is accepted and never
  completes.
-/

namespace Kota

open EventLog

/-! ## Spends that can be funded -/

section Fundable

variable (X : Extern) (network : Network) (descriptor : Descriptor)

/-- The funding data has an entry for each input. -/
def HasEntries (funding : List FundingUtxo) (spend : SpendSpec) : Prop :=
  ∀ outpoint ∈ spend.inputs, (firstEntry funding outpoint).isSome

/-- What a spend pays in all, over the naturals. -/
def SpendSpec.totalSats (spend : SpendSpec) : Nat :=
  spend.feeSats.toNat + (spend.outputs.map fun output => output.amountSats.toNat).sum +
    spend.changeSats

/-- The address is one of the network. -/
def SpendOutput.OnNetwork (output : SpendOutput) : Prop :=
  ∃ address, output.address.requireNetwork X network = .ok address

/-- Some coins would realise the spend. -/
structure Fundable (spend : SpendSpec) : Prop where
  addresses : ∀ output ∈ spend.outputs, output.OnNetwork X network
  change : ∀ change, spend.changeOutput = some change →
    ∃ derived, descriptor.atDerivationIndex X change.derivationIndex = .ok derived
  index : ∃ index derived, descriptor.atDerivationIndex X index = .ok derived
  fits : spend.totalSats ≤ 2 ^ 64 - 1

/-- The builder gets as far as an output to another network. -/
structure FailsOnAddress (funding : List FundingUtxo) (spend : SpendSpec) : Prop where
  collectible : Collectible X descriptor funding spend
  address : ∃ pre output post, spend.outputs = pre ++ output :: post ∧
    (∀ o ∈ pre, o.OnNetwork X network) ∧ ¬ output.OnNetwork X network ∧
    spend.feeSats.toNat + (pre.map fun o => o.amountSats.toNat).sum ≤ 2 ^ 64 - 1

end Fundable

section Builder

variable {X : Extern} {network : Network} {descriptor : Descriptor} {funding : List FundingUtxo}
variable {spend : SpendSpec}

/-- One coin for each input, all of the value in the first. -/
def fundAt (derived : DefiniteDescriptor) (index : UInt32) (X : Extern) :
    UInt64 → List OutPointRef → List FundingUtxo
  | _, [] => []
  | value, outpoint :: rest =>
    ⟨outpoint, ⟨value, derived.scriptPubkey X⟩, index⟩ :: fundAt derived index X 0 rest

theorem mem_fundAt {derived : DefiniteDescriptor} {index : UInt32} {value : UInt64}
    {inputs : List OutPointRef} {utxo : FundingUtxo} (h : utxo ∈ fundAt derived index X value inputs) :
    utxo.derivationIndex = index ∧ utxo.txout.scriptPubkey = derived.scriptPubkey X := by
  induction inputs generalizing value with
  | nil => exact absurd h List.not_mem_nil
  | cons outpoint rest ih =>
    rcases List.mem_cons.mp h with rfl | h
    · exact ⟨rfl, rfl⟩
    · exact ih h

theorem hasEntries_fundAt (derived : DefiniteDescriptor) (index : UInt32) (value : UInt64)
    (inputs : List OutPointRef) :
    ∀ outpoint ∈ inputs, (firstEntry (fundAt derived index X value inputs) outpoint).isSome := by
  induction inputs generalizing value with
  | nil => exact fun _ h => absurd h List.not_mem_nil
  | cons o rest ih =>
    intro outpoint houtpoint
    unfold firstEntry fundAt
    rw [List.find?_cons]
    split
    · rfl
    · rename_i hne
      rcases List.mem_cons.mp houtpoint with rfl | hrest
      · exact absurd hne (by simp)
      · exact ih 0 outpoint hrest

/-- The coins of distinct inputs are worth the value put in, when there is an input. -/
theorem sum_fundAt (derived : DefiniteDescriptor) (index : UInt32) (value : UInt64)
    {inputs : List OutPointRef} (hdistinct : inputs.Nodup) :
    (inputs.map (fundedSats (fundAt derived index X value inputs))).sum =
      if inputs = [] then 0 else value.toNat := by
  induction inputs generalizing value with
  | nil => rfl
  | cons outpoint rest ih =>
    obtain ⟨hnew, hrest⟩ := List.nodup_cons.mp hdistinct
    have hhead : fundedSats (fundAt derived index X value (outpoint :: rest)) outpoint =
        value.toNat := by
      simp [fundedSats, firstEntry, fundAt]
    have htail : rest.map (fundedSats (fundAt derived index X value (outpoint :: rest))) =
        rest.map (fundedSats (fundAt derived index X 0 rest)) := by
      refine List.map_congr_left fun o ho => ?_
      have hne : (outpoint == o) = false := by
        simpa using fun heq : outpoint = o => hnew (heq ▸ ho)
      simp [fundedSats, firstEntry, fundAt, hne]
    rw [List.map_cons, List.sum_cons, hhead, htail, ih 0 hrest]
    simp

/-- **A spend is fundable** exactly when the builder succeeds on some funding data with an entry
for each input. -/
theorem fundable_iff (hdistinct : spend.inputs.Nodup) (hne : spend.inputs ≠ []) :
    Fundable X network descriptor spend ↔ ∃ funding psbt, HasEntries funding spend ∧
      buildUnsignedPsbt X spend descriptor funding network = .ok psbt := by
  constructor
  · intro h
    obtain ⟨index, derived, hderived⟩ := h.index
    have hfits := h.fits
    obtain ⟨value, hvalue⟩ := exists_word (show spend.totalSats < 2 ^ 64 by omega)
    have hsum := sum_fundAt (X := X) derived index value hdistinct
    rw [if_neg hne, hvalue] at hsum
    have hreal : Realisable X network descriptor
        (fundAt derived index X value spend.inputs) spend := by
      refine ⟨fun outpoint ho => ?_, h.addresses, h.change, hsum, hsum ▸ hfits⟩
      obtain ⟨utxo, hfirst⟩ := Option.isSome_iff_exists.mp
        (hasEntries_fundAt (X := X) derived index value spend.inputs outpoint ho)
      obtain ⟨hindex, hscript⟩ := mem_fundAt (List.mem_of_find?_eq_some hfirst)
      exact ⟨utxo, derived, hfirst, hindex ▸ hderived, hscript⟩
    obtain ⟨coins, outputs, change, hrealises⟩ := realisable_iff.mp hreal
    exact ⟨_, _, hasEntries_fundAt derived index value spend.inputs,
      buildUnsignedPsbt_eq_ok_iff.mpr ⟨coins, outputs, change, hrealises, rfl⟩⟩
  · rintro ⟨funding, psbt, -, hbuild⟩
    obtain ⟨coins, outputs, change, hrealises, -⟩ := buildUnsignedPsbt_eq_ok_iff.mp hbuild
    have hreal := realisable_iff.mpr ⟨coins, outputs, change, hrealises⟩
    refine ⟨hreal.addresses, hreal.change, ?_, ?_⟩
    · obtain ⟨outpoint, ho⟩ := List.exists_mem_of_ne_nil _ hne
      obtain ⟨utxo, derived, -, hderived, -⟩ := hreal.funded outpoint ho
      exact ⟨_, derived, hderived⟩
    · rw [SpendSpec.totalSats, ← hreal.balance]
      exact hreal.fits

/-! ## Which failure the builder meets first -/

/-- The failures the runner takes for permanent. -/
def WalletError.GivesUp : WalletError → Prop
  | .invalidAddress _ | .amountMismatch .. => True
  | _ => False

theorem creationCompletes_wallet (e : WalletError) :
    creationCompletes (.error (.wallet e)) = true ↔ e.GivesUp := by
  cases e <;> simp [creationCompletes, WalletError.GivesUp]

theorem DerivationFailure.retried (e : DerivationFailure) : ¬ e.toWalletError.GivesUp := by
  cases e <;> exact id

theorem collectInputs_error {inputs : List OutPointRef} {totalIn : UInt64} {e : WalletError}
    (h : collectInputs X descriptor funding totalIn inputs = .error e) : ¬ e.GivesUp := by
  induction inputs generalizing totalIn with
  | nil => exact absurd h (by simp [collectInputs])
  | cons outpoint rest ih =>
    unfold collectInputs at h
    split at h
    · obtain rfl := Except.error.inj h
      exact id
    split at h
    · obtain rfl := Except.error.inj h
      exact id
    split at h
    · obtain rfl := Except.error.inj h
      exact DerivationFailure.retried _
    split at h
    · rename_i e' he
      obtain rfl := Except.error.inj h
      exact ih he
    · exact absurd h (by simp)

/-- The loop over the outputs stops at an address exactly when every output before it is fine. -/
theorem collectOutputs_gives_up_iff {outputs : List SpendOutput} {start : UInt64} :
    (∃ e, collectOutputs X network start outputs = .error e ∧ e.GivesUp) ↔
      ∃ pre output post, outputs = pre ++ output :: post ∧
        (∀ o ∈ pre, o.OnNetwork X network) ∧ ¬ output.OnNetwork X network ∧
        start.toNat + (pre.map fun o => o.amountSats.toNat).sum ≤ 2 ^ 64 - 1 := by
  induction outputs generalizing start with
  | nil =>
    constructor
    · rintro ⟨e, he, -⟩
      exact absurd he (by simp [collectOutputs])
    · rintro ⟨pre, output, post, hsplit, -⟩
      exact absurd hsplit (by simp)
  | cons output rest ih =>
    have hstart := start.toNat_lt
    unfold collectOutputs
    cases haddress : output.address.requireNetwork X network with
    | error reason =>
      refine ⟨fun _ => ⟨[], output, rest, rfl, by simp, ?_, ?_⟩, fun _ => ⟨_, rfl, trivial⟩⟩
      · rintro ⟨address, hok⟩
        rw [haddress] at hok
        exact absurd hok (by simp)
      · simp only [List.map_nil, List.sum_nil, Nat.add_zero]
        omega
    | ok address =>
      have hon : output.OnNetwork X network := ⟨address, haddress⟩
      dsimp only
      cases hadd : checkedAdd start output.amountSats with
      | none =>
        constructor
        · rintro ⟨e, he, hgives⟩
          obtain rfl := Except.error.inj he
          exact absurd hgives id
        · rintro ⟨pre, bad, post, hsplit, hpre, hbad, hfits⟩
          cases pre with
          | nil =>
            obtain ⟨rfl, -⟩ := List.cons.inj hsplit
            exact absurd hon hbad
          | cons o pre =>
            obtain ⟨rfl, -⟩ := List.cons.inj hsplit
            rw [List.map_cons, List.sum_cons] at hfits
            obtain ⟨c, hc, -⟩ := exists_checkedAdd
              (show start.toNat + output.amountSats.toNat < 2 ^ 64 by omega)
            rw [hadd] at hc
            exact absurd hc (by simp)
      | some start' =>
        have hvalue := checkedAdd_eq_some_iff.mp hadd
        dsimp only
        refine Iff.trans
          (b := ∃ e, collectOutputs X network start' rest = .error e ∧ e.GivesUp) ?_ ?_
        · cases collectOutputs X network start' rest with
          | error e => rfl
          | ok r => simp
        rw [ih]
        constructor
        · rintro ⟨pre, bad, post, rfl, hpre, hbad, hfits⟩
          refine ⟨output :: pre, bad, post, rfl, List.forall_mem_cons.mpr ⟨hon, hpre⟩, hbad, ?_⟩
          rw [List.map_cons, List.sum_cons]
          omega
        · rintro ⟨pre, bad, post, hsplit, hpre, hbad, hfits⟩
          cases pre with
          | nil =>
            obtain ⟨rfl, -⟩ := List.cons.inj hsplit
            exact absurd hon hbad
          | cons o pre =>
            obtain ⟨rfl, rfl⟩ := List.cons.inj hsplit
            rw [List.map_cons, List.sum_cons] at hfits
            exact ⟨pre, bad, post, rfl, (List.forall_mem_cons.mp hpre).2, hbad, by omega⟩

theorem collectChange_error {totalOut : UInt64} {changeOutput : Option ChangeOutput}
    {e : WalletError} (h : collectChange X descriptor totalOut changeOutput = .error e) :
    ¬ e.GivesUp := by
  unfold collectChange at h
  split at h
  · exact absurd h (by simp)
  split at h
  · obtain rfl := Except.error.inj h
    exact DerivationFailure.retried _
  split at h
  · obtain rfl := Except.error.inj h
    exact id
  · exact absurd h (by simp)

/-- Where all three loops end well, the spend can be funded. -/
theorem fundable_of_loops {totalIn totalOut total : UInt64} {coins : List SpentCoin}
    {outputs : List TxOut} {change : Option (TxOut × DefiniteDescriptor)} (hne : spend.inputs ≠ [])
    (hcoins : collectInputs X descriptor funding 0 spend.inputs = .ok (totalIn, coins))
    (houtputs : collectOutputs X network spend.feeSats spend.outputs = .ok (totalOut, outputs))
    (hchange : collectChange X descriptor totalOut spend.changeOutput = .ok (total, change)) :
    Fundable X network descriptor spend := by
  obtain ⟨hpaid, -⟩ := collectInputs_eq_ok_iff.mp hcoins
  obtain ⟨hpays, hout⟩ := collectOutputs_eq_ok_iff.mp houtputs
  obtain ⟨hpaysChange, htotal⟩ := collectChange_eq_ok_iff.mp hchange
  refine ⟨fun output ho => ?_, fun c hc => ?_, ?_, ?_⟩
  · obtain ⟨-, -, address, haddress, -⟩ := Matched.exists_of_mem_left hpays ho
    exact ⟨address, haddress⟩
  · rw [hc] at hpaysChange
    cases change with
    | none => exact absurd hpaysChange id
    | some pair => exact ⟨pair.2, hpaysChange.1⟩
  · obtain ⟨outpoint, ho⟩ := List.exists_mem_of_ne_nil _ hne
    obtain ⟨coin, -, utxo, -, -, hderived, -⟩ := Matched.exists_of_mem_left hpaid ho
    exact ⟨_, coin.derived, hderived⟩
  · have hlt := total.toNat_lt
    rw [htotal, hout, sats_of_pays hpays, sats_of_paysChange hpaysChange] at hlt
    unfold SpendSpec.totalSats
    omega

/-- **Of a spend that is not fundable, one failure is taken for permanent**: an address of another
network, met before anything else fails. -/
theorem build_permanent_iff (hbroken : ¬ Fundable X network descriptor spend)
    (hne : spend.inputs ≠ []) :
    (∃ e, buildUnsignedPsbt X spend descriptor funding network = .error e ∧ e.GivesUp) ↔
      FailsOnAddress X network descriptor funding spend := by
  unfold buildUnsignedPsbt
  constructor
  · rintro ⟨e, he, hgives⟩
    split at he
    · rename_i e' hcoins
      obtain rfl := Except.error.inj he
      exact absurd hgives (collectInputs_error hcoins)
    rename_i totalIn coins hcoins
    split at he
    · rename_i e' houtputs
      obtain rfl := Except.error.inj he
      exact ⟨collectInputs_isOk_iff.mp ⟨_, hcoins⟩,
        collectOutputs_gives_up_iff.mp ⟨e', houtputs, hgives⟩⟩
    rename_i totalOut outputs houtputs
    split at he
    · rename_i e' hchange
      obtain rfl := Except.error.inj he
      exact absurd hgives (collectChange_error hchange)
    · rename_i total change hchange
      exact absurd (fundable_of_loops hne hcoins houtputs hchange) hbroken
  · intro h
    obtain ⟨⟨totalIn, coins⟩, hcoins⟩ := collectInputs_isOk_iff.mpr h.collectible
    obtain ⟨e, houtputs, hgives⟩ := collectOutputs_gives_up_iff.mpr h.address
    rw [hcoins]
    dsimp only
    rw [houtputs]
    exact ⟨e, rfl, hgives⟩

end Builder

/-! ## What the runner makes of it -/

section Runner

variable {X : Extern} {network : Network} {sessions : PsbtSessions} {wallets : Wallets}
variable {blobs : BlobStore} {funding : FundingUtxoProvider} {id : PsbtSessionId} {s : PsbtSession}

/-- A session that has its PSBT or left `Pending` completes the job. -/
theorem creationCompletes_of_left (hs : sessions.findById id = .ok s)
    (hleft : s.unsignedPsbtHash.isSome = true ∨ s.status ≠ .pending) :
    creationCompletes (runPsbtCreation X sessions wallets blobs funding network id).1 = true := by
  unfold runPsbtCreation
  rw [hs]
  dsimp only
  unfold createPsbt
  cases hhash : s.unsignedPsbtHash with
  | some hash => rfl
  | none =>
    dsimp only
    rw [if_pos (hleft.resolve_left (by simp [hhash]))]
    rfl

/-- Of a waiting session, the job fails as the builder does. -/
theorem runPsbtCreation_of_failed (hs : sessions.findById id = .ok s)
    (hhash : s.unsignedPsbtHash = none) (hpending : s.status = .pending) {w : Wallet}
    (hw : wallets.findById s.walletId = .ok w) {utxos : List FundingUtxo}
    (hutxos : funding w s.spend.inputs = .ok utxos) {descriptor : Descriptor}
    (hd : w.descriptor = some descriptor) {e : WalletError}
    (hbuild : buildUnsignedPsbt X s.spend descriptor utxos network = .error e) :
    (runPsbtCreation X sessions wallets blobs funding network id).1 = .error (.wallet e) := by
  unfold runPsbtCreation
  rw [hs]
  dsimp only
  unfold createPsbt
  rw [hhash]
  dsimp only
  rw [if_neg (by simp [hpending]), hw]
  dsimp only
  rw [hutxos]
  dsimp only
  rw [hd]
  dsimp only
  rw [hbuild]
  rfl

end Runner

/-- **When a broken proposal leaves the queue alone.** In every reachable state, for every session,
every network and every funding data with an entry for each input: if no such data lets the
builder succeed, the job completes exactly when the session has its PSBT or is no longer pending,
or the builder meets an address of another network before anything else fails. -/
theorem broken_proposal_completes_iff (X : Extern) (network : Network)
    (actions : List Traffic.Action) {id : PsbtSessionId} {s : PsbtSession}
    (hs : (Traffic.empty.run X network actions).platform.sessions.findById id = .ok s)
    {w : Wallet}
    (hw : (Traffic.empty.run X network actions).platform.wallets.findById s.walletId = .ok w)
    {descriptor : Descriptor} (hd : w.descriptor = some descriptor)
    {funding : FundingUtxoProvider} {utxos : List FundingUtxo}
    (hutxos : funding w s.spend.inputs = .ok utxos) (hentries : HasEntries utxos s.spend)
    (network' : Network) :
    ((∀ utxos', HasEntries utxos' s.spend →
        ∃ e, buildUnsignedPsbt X s.spend descriptor utxos' network' = .error e) →
      creationCompletes (runPsbtCreation X
        (Traffic.empty.run X network actions).platform.sessions
        (Traffic.empty.run X network actions).platform.wallets
        (Traffic.empty.run X network actions).platform.blobs funding network' id).1 = true) ↔
      (s.unsignedPsbtHash.isSome = true ∨ s.status ≠ .pending) ∨
        Fundable X network' descriptor s.spend ∨
        FailsOnAddress X network' descriptor utxos s.spend := by
  have h := Traffic.inv_run X network actions
  obtain ⟨w', -, -, -, -, hsane⟩ := h.agrees id s (h.sessions.row hs)
  have hsane' := spendError_eq_none_iff.mp hsane
  have hfundable : Fundable X network' descriptor s.spend ↔ ∃ utxos psbt, HasEntries utxos s.spend ∧
      buildUnsignedPsbt X s.spend descriptor utxos network' = .ok psbt :=
    fundable_iff hsane'.distinct hsane'.inputs
  by_cases hleft : s.unsignedPsbtHash.isSome = true ∨ s.status ≠ .pending
  · exact ⟨fun _ => Or.inl hleft, fun _ _ => creationCompletes_of_left hs hleft⟩
  by_cases hf : Fundable X network' descriptor s.spend
  · refine ⟨fun _ => Or.inr (Or.inl hf), fun _ hbroken => ?_⟩
    obtain ⟨utxos', psbt, hc, hbuild⟩ := hfundable.mp hf
    obtain ⟨e, he⟩ := hbroken utxos' hc
    rw [hbuild] at he
    exact absurd he (by simp)
  rw [not_or, Bool.not_eq_true, Option.isSome_eq_false_iff, Option.isNone_iff_eq_none,
    Decidable.not_not] at hleft
  obtain ⟨hhash, hpending⟩ := hleft
  have hbroken : ∀ utxos', HasEntries utxos' s.spend →
      ∃ e, buildUnsignedPsbt X s.spend descriptor utxos' network' = .error e := by
    intro utxos' hc
    cases hbuild : buildUnsignedPsbt X s.spend descriptor utxos' network' with
    | error e => exact ⟨e, rfl⟩
    | ok psbt => exact absurd (hfundable.mpr ⟨utxos', psbt, hc, hbuild⟩) hf
  obtain ⟨e, hbuild⟩ := hbroken utxos hentries
  have hanswer : (runPsbtCreation X (Traffic.empty.run X network actions).platform.sessions
      (Traffic.empty.run X network actions).platform.wallets
      (Traffic.empty.run X network actions).platform.blobs funding network' id).1 =
      .error (.wallet e) :=
    runPsbtCreation_of_failed hs hhash hpending hw hutxos hd hbuild
  have hpermanent : (∃ e, buildUnsignedPsbt X s.spend descriptor utxos network' = .error e ∧
      e.GivesUp) ↔ FailsOnAddress X network' descriptor utxos s.spend :=
    build_permanent_iff hf hsane'.inputs
  rw [hanswer, creationCompletes_wallet]
  constructor
  · intro hgives
    exact Or.inr (Or.inr (hpermanent.mp ⟨e, hbuild, hgives hbroken⟩))
  · rintro (hleft | hf' | haddress) -
    · exact absurd hleft (by simp [hhash, hpending])
    · exact absurd hf' hf
    · obtain ⟨e', hbuild', hgives⟩ := hpermanent.mpr haddress
      obtain rfl := Except.error.inj (hbuild.symm.trans hbuild')
      exact hgives

namespace Extern.Sample

/-- A one-of-one wallet is registered and completed, and the spend is proposed on it. -/
def proposing (spend : SpendSpec) : List Traffic.Action :=
  [.register ⟨0⟩ 1 [⟨0⟩], .call (.wallet ⟨0⟩ (.addKeystore (key 1) ⟨0⟩)), .step 0,
    .call (.proposeSpend ⟨0⟩ ⟨0⟩ ⟨0⟩ spend), .step 1]

/-- The session that the proposal leaves. -/
def pendingSession (spend : SpendSpec) : PsbtSession :=
  NewPsbtSession.proposed ⟨⟨0⟩, ⟨0⟩, ⟨0⟩, spend, 1, [1]⟩

/-- `changeSpend`, with its change at an index that takes the place of no wildcard. -/
def underivableSpend : SpendSpec := { changeSpend with changeOutput := some ⟨400, 2147483648⟩ }

end Extern.Sample

open Extern.Sample in
theorem changeSpend_wrong_network :
    FailsOnAddress (.sample []) .testnet ⟨1, [key 1]⟩ [changeCoin] changeSpend where
  collectible := {
    coins := fun outpoint ho => by
      obtain rfl : outpoint = ⟨⟨5⟩, 0⟩ := List.mem_singleton.mp ho
      exact ⟨changeCoin, _, rfl, rfl⟩
    fits := by decide +kernel }
  address := by
    refine ⟨[], _, [], rfl, by simp, ?_, by decide +kernel⟩
    rintro ⟨address, h⟩
    exact absurd h (by simp [BitcoinAddress.requireNetwork])

open Extern.Sample in
theorem changeSpend_broken : ¬ Fundable (.sample []) .testnet ⟨1, [key 1]⟩ changeSpend := by
  intro h
  obtain ⟨address, hnet⟩ := h.addresses _ (List.mem_singleton_self _)
  exact absurd hnet (by simp [BitcoinAddress.requireNetwork])

open Extern.Sample in
theorem broken_proposal_completes_iff_testnet :
    creationCompletes (runPsbtCreation (.sample [])
      (Traffic.empty.run (.sample []) .bitcoin (proposing changeSpend)).platform.sessions
      (Traffic.empty.run (.sample []) .bitcoin (proposing changeSpend)).platform.wallets
      (Traffic.empty.run (.sample []) .bitcoin (proposing changeSpend)).platform.blobs
      (fun _ _ => .ok [changeCoin]) .testnet ⟨0⟩).1 = true := by
  refine (@broken_proposal_completes_iff (.sample []) .bitcoin (proposing changeSpend) ⟨0⟩
    (pendingSession changeSpend) (by decide +kernel) (activeWallet 1 [key 1]) (by decide +kernel)
    ⟨1, [key 1]⟩ (by decide +kernel) (fun _ _ => .ok [changeCoin]) [changeCoin] rfl
    (by simp [HasEntries, pendingSession, NewPsbtSession.proposed, changeSpend, firstEntry,
      changeCoin])
    .testnet).mpr (Or.inr (Or.inr changeSpend_wrong_network)) fun utxos' hentries => ?_
  cases hbuild : buildUnsignedPsbt (.sample []) changeSpend ⟨1, [key 1]⟩ utxos' .testnet with
  | error e => exact ⟨e, hbuild⟩
  | ok psbt =>
    exact absurd ((fundable_iff (by decide) (by decide)).mpr ⟨utxos', psbt, hentries, hbuild⟩)
      changeSpend_broken

open Extern.Sample in
/-- **A broken proposal that is retried for ever.** The session is pending, its change output cannot
be derived, so no funding data helps, and the job still asks for a retry. -/
theorem underivable_change_retried :
    (Traffic.empty.run (.sample []) .bitcoin (proposing underivableSpend)).platform.sessions.findById
      ⟨0⟩ = .ok (pendingSession underivableSpend) ∧
    (pendingSession underivableSpend).status = .pending ∧
    (Traffic.empty.run (.sample []) .bitcoin (proposing underivableSpend)).platform.wallets.findById
      ⟨0⟩ = .ok (activeWallet 1 [key 1]) ∧
    (activeWallet 1 [key 1]).descriptor = some ⟨1, [key 1]⟩ ∧
    (∀ utxos, HasEntries utxos underivableSpend → ∃ e,
      buildUnsignedPsbt (.sample []) underivableSpend ⟨1, [key 1]⟩ utxos .bitcoin = .error e) ∧
    HasEntries [changeCoin] underivableSpend ∧
    creationCompletes (runPsbtCreation (.sample [])
      (Traffic.empty.run (.sample []) .bitcoin (proposing underivableSpend)).platform.sessions
      (Traffic.empty.run (.sample []) .bitcoin (proposing underivableSpend)).platform.wallets
      (Traffic.empty.run (.sample []) .bitcoin (proposing underivableSpend)).platform.blobs
      (fun _ _ => .ok [changeCoin]) .bitcoin ⟨0⟩).1 = false := by
  refine ⟨by decide +kernel, by decide +kernel, by decide +kernel, by decide +kernel, ?_, ?_,
    by decide +kernel⟩
  · intro utxos _
    cases hbuild : buildUnsignedPsbt (.sample []) underivableSpend ⟨1, [key 1]⟩ utxos .bitcoin with
    | error e => exact ⟨e, rfl⟩
    | ok psbt =>
      obtain ⟨coins, outputs, change, hreal, -⟩ := buildUnsignedPsbt_eq_ok_iff.mp hbuild
      obtain ⟨derived, hderived⟩ :=
        (realisable_iff.mpr ⟨coins, outputs, change, hreal⟩).change ⟨400, 2147483648⟩ rfl
      have hkey := (Descriptor.atDerivationIndex_isOk_iff (derivesKeys [])).mp ⟨derived, hderived⟩
      exact absurd (hkey (key 1) (List.mem_singleton_self _)) (by decide)
  · simp [HasEntries, underivableSpend, changeSpend, firstEntry, changeCoin]

end Kota
