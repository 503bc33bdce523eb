import Kota.Backing
import Kota.Bitcoin.Bip174
import Kota.Documents
import Kota.Retries

/-!
# Which PSBTs the platform reads back

`run_psbt_creation` stores whatever it built. Everything that reads it again goes through
`parse_psbt`, which refuses more than `MAX_PSBT_BYTES`. The size of what is stored grows with the
inputs, the keystores and the length of the origin paths; `propose_spend` bounds the inputs, the
policy the keystores, and nothing bounds a path.

* `creationSize` is the size of the PSBT of a spend, in closed form (`plainSize_of_build`).
* **`created_psbt_reads_back_iff`**: a recorded PSBT is read back exactly when that size is within
  the cap.
* **`deep_origin_unreadable`**: one keystore with an origin of `2 ^ 18` steps is enough.
-/

namespace Kota

open EventLog

/-! ## The size of the PSBT of a spend -/

section Size

variable (X : Extern) (descriptor : Descriptor) (funding : List FundingUtxo)

/-- What the maps say of the keys at a derivation index: the witness script, and for each key its
source with four bytes a path step. -/
def derivedSize (index : UInt32) : Nat :=
  match descriptor.atDerivationIndex X index with
  | .ok derived =>
    pairSize 1 (derived.witnessScript X).size + Bip32Derivation.size (derived.keySources X ∅)
  | .error _ => 0

/-- The map of an input: the P2WSH output it spends, and its keys. -/
def inputSize (outpoint : OutPointRef) : Nat :=
  pairSize 1 43 +
    ((firstEntry funding outpoint).map fun utxo => derivedSize X descriptor utxo.derivationIndex
      ).getD 0 + 1

/-- The change output, and its map. -/
def changeCount (spend : SpendSpec) : Nat := if spend.changeOutput.isSome then 1 else 0

/-- The unsigned transaction: 41 bytes an input, 43 for the change. -/
def spendTxSize (spend : SpendSpec) : Nat :=
  4 + compactSize spend.inputs.length + 41 * spend.inputs.length +
    compactSize (spend.outputs.length + changeCount spend) +
    (spend.outputs.map fun o => TxOut.size ⟨o.amountSats, o.address.scriptPubkey⟩).sum +
    43 * changeCount spend + 4

/-- The PSBT that is built for the spend. -/
def creationSize (spend : SpendSpec) : Nat :=
  5 + pairSize 1 (spendTxSize spend) + 1 + (spend.inputs.map (inputSize X descriptor funding)).sum +
    spend.outputs.length +
    (spend.changeOutput.map fun change => derivedSize X descriptor change.derivationIndex + 1
      ).getD 0

variable {X descriptor funding}

theorem derivedSize_of_ok {index : UInt32} {derived : DefiniteDescriptor}
    (h : descriptor.atDerivationIndex X index = .ok derived) :
    derivedSize X descriptor index =
      pairSize 1 (derived.witnessScript X).size +
        Bip32Derivation.size (derived.keySources X ∅) := by
  unfold derivedSize
  rw [h]

/-- The maps of the inputs. -/
theorem inputs_size {inputs : List OutPointRef} {coins : List SpentCoin}
    (h : List.Forall₂ (PaidBy X descriptor funding) inputs coins)
    (hscripts : ∀ coin ∈ coins, coin.utxo.scriptPubkey = coin.derived.scriptPubkey X) :
    ((coins.map (filledInput X)).map PsbtInput.plainSize).sum =
      (inputs.map (inputSize X descriptor funding)).sum := by
  induction h with
  | nil => rfl
  | cons hpaid _ ih =>
    rename_i outpoint coin _ _ _
    obtain ⟨hscript, hrest⟩ := List.forall_mem_cons.mp hscripts
    obtain ⟨utxo, hfirst, -, hderived, -⟩ := hpaid
    have hhead : (filledInput X coin).plainSize = inputSize X descriptor funding outpoint := by
      have hutxo : TxOut.size coin.utxo = 43 := by
        rw [show coin.utxo = ⟨coin.utxo.value, coin.derived.scriptPubkey X⟩ by rw [← hscript]]
        rfl
      unfold inputSize
      rw [hfirst, Option.map_some, Option.getD_some, derivedSize_of_ok hderived]
      show pairSize 1 coin.utxo.size + pairSize 1 (coin.derived.witnessScript X).size +
        Bip32Derivation.size (coin.derived.keySources X ∅) + 1 = _
      rw [hutxo]
      omega
    rw [List.map_cons, List.map_cons, List.sum_cons, List.map_cons, List.sum_cons, hhead, ih hrest]

theorem txIns_size {inputs : List OutPointRef} {coins : List SpentCoin}
    (h : List.Forall₂ (PaidBy X descriptor funding) inputs coins) :
    ((coins.map SpentCoin.txIn).map TxIn.size).sum = 41 * inputs.length := by
  induction h with
  | nil => rfl
  | cons hpaid _ ih =>
    obtain ⟨-, -, -, -, htxIn⟩ := hpaid
    rw [List.map_cons, List.map_cons, List.sum_cons, ih, htxIn, List.length_cons]
    have hsize : ∀ outpoint, TxIn.size ⟨outpoint, [], ENABLE_RBF_NO_LOCKTIME, .empty⟩ = 41 :=
      fun _ => rfl
    rw [hsize]
    omega

theorem emptySources_size : Bip32Derivation.size ∅ = 0 := rfl

/-- The maps of the outputs: one byte, and what the change output says of its keys. -/
theorem outputs_size {changeOutput : Option ChangeOutput} (outputs : List TxOut)
    {change : Option (TxOut × DefiniteDescriptor)}
    (h : PaysChange X descriptor changeOutput change) :
    ((outputs.map (fun _ => PsbtOutput.default) ++
        (change.map fun c => filledOutput X c.2).toList).map PsbtOutput.plainSize).sum =
      outputs.length +
        (changeOutput.map fun c => derivedSize X descriptor c.derivationIndex + 1).getD 0 := by
  have hdefault : ∀ outputs : List TxOut,
      ((outputs.map fun _ => PsbtOutput.default).map PsbtOutput.plainSize).sum =
        outputs.length := by
    intro outputs
    induction outputs with
    | nil => rfl
    | cons o outputs ih =>
      have hone : PsbtOutput.plainSize .default = 1 := by
        show 0 + Bip32Derivation.size ∅ + 1 = 1
        rw [emptySources_size]
      rw [List.map_cons, List.map_cons, List.sum_cons, ih, hone, List.length_cons, Nat.add_comm]
  rw [List.map_append, List.sum_append, hdefault]
  cases change with
  | none =>
    cases changeOutput with
    | none => rfl
    | some c => exact absurd h id
  | some c =>
    obtain ⟨txout, derived⟩ := c
    obtain ⟨c, rfl, hderived, -⟩ := h.of_some
    show outputs.length + ((filledOutput X derived).plainSize + 0) =
      outputs.length + (derivedSize X descriptor c.derivationIndex + 1)
    rw [derivedSize_of_ok hderived]
    rfl

/-- The outputs of the transaction. -/
theorem txOuts_size {network : Network} {spend : SpendSpec} {outputs : List TxOut}
    {change : Option (TxOut × DefiniteDescriptor)}
    (hpays : List.Forall₂ (PaysTo X network) spend.outputs outputs)
    (hchange : PaysChange X descriptor spend.changeOutput change) :
    (allOutputs outputs change).length = spend.outputs.length + changeCount spend ∧
      ((allOutputs outputs change).map TxOut.size).sum =
        (spend.outputs.map fun o => TxOut.size ⟨o.amountSats, o.address.scriptPubkey⟩).sum +
          43 * changeCount spend := by
  have houtputs := outputs_of_pays hpays
  unfold allOutputs changeCount
  rw [List.length_append, List.map_append, List.sum_append, ← hpays.length_eq, houtputs,
    List.map_map]
  cases change with
  | none =>
    have hnone : spend.changeOutput = none := by
      cases hspend : spend.changeOutput with
      | none => rfl
      | some c =>
        rw [hspend] at hchange
        exact absurd hchange id
    rw [hnone]
    exact ⟨rfl, rfl⟩
  | some c =>
    obtain ⟨txout, derived⟩ := c
    obtain ⟨c, hspend, -, rfl⟩ := hchange.of_some
    rw [hspend]
    exact ⟨rfl, rfl⟩

theorem assemble_plain (coins : List SpentCoin) (outputs : List TxOut)
    (change : Option (TxOut × DefiniteDescriptor)) : (assemble X coins outputs change).Plain where
  version := rfl
  xpub := rfl
  proprietary := rfl
  unknown := rfl
  input input hinput := by
    obtain ⟨coin, -, rfl⟩ := List.mem_map.mp hinput
    exact ⟨rfl, rfl, rfl⟩
  output output houtput := by
    rcases List.mem_append.mp houtput with h | h
    · obtain ⟨o, -, rfl⟩ := List.mem_map.mp h
      rfl
    · obtain ⟨c, -, rfl⟩ := Option.map_eq_some_iff.mp (Option.mem_toList.mp h)
      rfl

/-- **What the builder builds is as long as `creationSize` says.** -/
theorem plainSize_of_build {network : Network} {spend : SpendSpec} {psbt : Psbt}
    (h : buildUnsignedPsbt X spend descriptor funding network = .ok psbt) :
    psbt.Plain ∧ psbt.plainSize = creationSize X descriptor funding spend := by
  obtain ⟨coins, outputs, change, hrealises, rfl⟩ := buildUnsignedPsbt_eq_ok_iff.mp h
  refine ⟨assemble_plain coins outputs change, ?_⟩
  obtain ⟨hlength, hsum⟩ := txOuts_size hrealises.pays hrealises.paysChange
  have htx : (assembleTx coins outputs change).size = spendTxSize spend := by
    unfold Transaction.size spendTxSize assembleTx
    dsimp only
    rw [txIns_size hrealises.paid, List.length_map, ← hrealises.paid.length_eq, hlength, hsum]
    omega
  unfold Psbt.plainSize creationSize assemble
  dsimp only
  rw [htx, inputs_size hrealises.paid hrealises.scripts, outputs_size outputs hrealises.paysChange,
    ← hrealises.pays.length_eq]
  omega

end Size

/-! ## A format of that length -/

/-- The functions of `X`, with a format as long as BIP-174 has it. Only the target is told apart
from other documents, and only the target is ever read. -/
def Extern.writing (X : Extern) (target : Psbt) : Extern :=
  { X with
    serialize := fun psbt => List.replicate psbt.plainSize (if psbt = target then 0 else 1)
    deserialize := fun _ => .ok target }

theorem Extern.bip174_writing (X : Extern) (target : Psbt) : (X.writing target).Bip174 :=
  fun _ _ => List.length_replicate

theorem Psbt.plainSize_pos (psbt : Psbt) : 0 < psbt.plainSize := by
  unfold Psbt.plainSize
  omega

/-- A store with the bytes of the target only reads them back as the target. -/
theorem Extern.roundTrips_writing {X : Extern} {target : Psbt} {blobs : BlobStore}
    (h : ∀ bytes ∈ blobs.entries.map Prod.snd, 1 ∉ bytes) :
    blobs.RoundTrips (X.writing target) := by
  intro psbt hm
  have hbytes := h _ hm
  by_cases hp : psbt = target
  · exact congrArg Except.ok hp.symm
  · refine absurd ?_ hbytes
    show 1 ∈ List.replicate psbt.plainSize (if psbt = target then (0 : UInt8) else 1)
    rw [if_neg hp]
    exact List.mem_replicate.mpr ⟨Nat.ne_of_gt psbt.plainSize_pos, rfl⟩

/-- In the small instance the digest of the target is its own. -/
theorem Extern.eq_of_digest_writing {table : List Psbt} {target psbt : Psbt}
    (h : Extern.Sample.digestOfByte 0 = PsbtHash.digestOf ((Extern.sample table).writing target)
      (((Extern.sample table).writing target).serialize psbt)) : psbt = target := by
  by_cases hp : psbt = target
  · exact hp
  · have hfirst := congrArg (fun hash : PsbtHash => hash.inner[0]) h
    simp only [Extern.Sample.digestOfByte, PsbtHash.digestOf, Extern.sample, Extern.writing,
      Vector.getElem_ofFn] at hfirst
    rw [if_neg hp] at hfirst
    obtain ⟨n, hn⟩ := Nat.exists_eq_succ_of_ne_zero (Nat.ne_of_gt psbt.plainSize_pos)
    rw [hn] at hfirst
    exact absurd hfirst (by simp [List.replicate_succ])

/-! ## Reading it back -/

open Traffic in
/-- **What is recorded is read back up to the cap.** After any interleaving of calls, for every
session whose unsigned PSBT is recorded, whatever became of the session since: that PSBT was built
from its active wallet and the coins that a creation job was given, and loading the recorded hash
returns it exactly when its size by BIP-174 is within the cap. -/
theorem created_psbt_reads_back_iff (X : Extern) (hX : X.Bip174) (network : Network)
    (actions : List Traffic.Action) {id : PsbtSessionId} {s : PsbtSession}
    (hs : (empty.run X network actions).platform.sessions.findById id = .ok s) {hash : PsbtHash}
    (hhash : s.unsignedPsbtHash = some hash)
    (hcollision : (empty.run X network actions).platform.blobs.NoCollision X)
    (hround : (empty.run X network actions).platform.blobs.RoundTrips X) :
    ∃ w descriptor utxos psbt,
      Builds X network (empty.run X network actions) s w descriptor utxos psbt ∧
      hash = PsbtHash.digestOf X (X.serialize psbt) ∧
      (loadPsbt X (empty.run X network actions).platform.blobs hash = .ok psbt ↔
        creationSize X descriptor utxos s.spend ≤ MAX_PSBT_BYTES) := by
  have hrow := (inv_run X network actions).sessions.row hs
  have hback := backed_run X network actions
  obtain ⟨w, descriptor, utxos, psbt, hbuilds, hstored⟩ :=
    hback.rows id s hrow _ (hrow.grammatical.loaded.hydrates.psbtCreated_mem hhash)
  refine ⟨w, descriptor, utxos, psbt, hbuilds, (hback.addressed _ hstored).symm, ?_⟩
  obtain ⟨hplain, hsize⟩ := plainSize_of_build hbuilds.built
  have hparse : parsePsbt X (X.serialize psbt) = .ok psbt ↔
      creationSize X descriptor utxos s.spend ≤ MAX_PSBT_BYTES := by
    rw [parsePsbt_eq_ok_iff, hX psbt hplain, hsize]
    exact and_iff_left (hround.deserialize hstored)
  rw [← hparse]
  unfold loadPsbt
  rw [BlobStore.fetchVerified_of_mem hback.addressed hcollision hstored]
  dsimp only
  cases parsePsbt X (X.serialize psbt) <;> simp

namespace Extern.Sample

/-- `proposing soloSpend`, with this key. -/
def proposingWith (key : DescriptorPublicKey) : List Traffic.Action :=
  [.register ⟨0⟩ 1 [⟨0⟩], .call (.wallet ⟨0⟩ (.addKeystore key ⟨0⟩)), .step 0,
    .call (.proposeSpend ⟨0⟩ ⟨0⟩ ⟨0⟩ PsbtSession.soloSpend), .step 1]

/-- The same, and one run of the creation job. -/
def creatingWith (key : DescriptorPublicKey) : List Traffic.Action :=
  proposingWith key ++
    [.call (.session ⟨0⟩ (.runPsbtCreation fun _ _ => .ok [coin 1 [10]])), .step 2, .step 2]

end Extern.Sample

open Extern.Sample Traffic in
theorem created_psbt_reads_back_iff_solo :
    ∃ w descriptor utxos,
      Builds ((Extern.sample []).writing soloUnsigned) .bitcoin
        (Traffic.empty.run ((Extern.sample []).writing soloUnsigned) .bitcoin
          (creatingWith (key 1))) (freshSession 1 [1]) w descriptor utxos soloUnsigned ∧
      creationSize ((Extern.sample []).writing soloUnsigned) descriptor utxos
        (freshSession 1 [1]).spend ≤ MAX_PSBT_BYTES := by
  obtain ⟨w, descriptor, utxos, psbt, hbuilds, hdigest, hreads⟩ :=
    @created_psbt_reads_back_iff ((Extern.sample []).writing soloUnsigned)
      (Extern.bip174_writing _ _) .bitcoin (creatingWith (key 1)) ⟨0⟩ (freshSession 1 [1])
      (by decide +kernel) (digestOfByte 0) (by decide +kernel) (by decide +kernel)
      (Extern.roundTrips_writing (by decide +kernel))
  obtain rfl : psbt = soloUnsigned := Extern.eq_of_digest_writing hdigest
  exact ⟨w, descriptor, utxos, hbuilds, hreads.mp (by decide +kernel)⟩

/-! ## One key that is too deep -/

/-- What was put last is fetched. -/
theorem BlobStore.fetchVerified_put {X : Extern} (blobs : BlobStore) (bytes : Bytes) :
    (blobs.put X bytes).2.fetchVerified X (PsbtHash.digestOf X bytes) = .ok bytes := by
  simp [BlobStore.fetchVerified, BlobStore.get, BlobStore.put]

section Creation

variable {X : Extern} {network : Network} {sessions : PsbtSessions} {wallets : Wallets}
variable {blobs : BlobStore} {funding : FundingUtxoProvider} {id : PsbtSessionId} {s : PsbtSession}

/-- A waiting session gets the PSBT that can be built for it. -/
theorem runPsbtCreation_of_built (hrow : PsbtSessions.Row sessions id s)
    (hpending : s.status = .pending) {w : Wallet} (hw : wallets.findById s.walletId = .ok w)
    {utxos : List FundingUtxo} (hutxos : funding w s.spend.inputs = .ok utxos)
    {descriptor : Descriptor} (hd : w.descriptor = some descriptor) {psbt : Psbt}
    (hbuild : buildUnsignedPsbt X s.spend descriptor utxos network = .ok psbt) :
    ∃ sessions', runPsbtCreation X sessions wallets blobs funding network id =
        (.ok (PsbtHash.digestOf X (X.serialize psbt)), sessions',
          (blobs.put X (X.serialize psbt)).2) ∧
      sessions'.find? id =
        some (s.log ++ [.psbtCreated (PsbtHash.digestOf X (X.serialize psbt))]) := by
  have hfresh : ∀ e ∈ s.log, e.isPsbtCreated = false := by
    intro e he
    have hstatus := PsbtSession.status_pending_iff.mp hpending e he
    cases e with
    | psbtCreated hash => exact absurd hstatus (by simp [PsbtSessionEvent.status])
    | _ => rfl
  have hnone := hrow.grammatical.unsignedPsbtHash_eq_none_iff.mpr hfresh
  have happly := PsbtSession.recordPsbtCreated_pending hfresh hpending
    (PsbtHash.digestOf X (X.serialize psbt))
  have hcommand : (s.apply (.recordPsbtCreated (PsbtHash.digestOf X (X.serialize psbt)))).2 =
      s.record (.psbtCreated (PsbtHash.digestOf X (X.serialize psbt))) := congrArg Prod.snd happly
  obtain ⟨sessions', hupdate⟩ := hrow.update_isOk
    (.recordPsbtCreated (PsbtHash.digestOf X (X.serialize psbt)))
  have hfind := hrow.find?_update _ hupdate id
  rw [if_pos rfl] at hfind
  rw [hcommand] at hupdate hfind
  rw [PsbtSession.record_log] at hfind
  have hwork : createPsbt X wallets blobs funding network s =
      (.ok (.persist (PsbtHash.digestOf X (X.serialize psbt))
        (s.record (.psbtCreated (PsbtHash.digestOf X (X.serialize psbt))))),
        (blobs.put X (X.serialize psbt)).2) := by
    unfold createPsbt
    rw [hnone]
    dsimp only
    rw [if_neg (not_not.mpr hpending), hw]
    dsimp only
    rw [hutxos]
    dsimp only
    rw [hd]
    dsimp only
    rw [hbuild]
    dsimp only [BlobStore.put]
    rw [happly]
  refine ⟨sessions', ?_, hfind⟩
  unfold runPsbtCreation
  rw [hrow.found]
  dsimp only
  rw [hwork]
  unfold PsbtSessions.persist
  dsimp only
  rw [hupdate]

end Creation

namespace Extern.Sample

/-- The first key, under an origin of this path. -/
def deepKey (path : DerivationPath) : DescriptorPublicKey :=
  .xPub ⟨some (1, path), ⟨1⟩, [], .unhardened⟩

/-- The coin of `soloSpend`, with the descriptor of the deep key at index 0. -/
def deepCoin (path : DerivationPath) : SpentCoin where
  txIn := ⟨⟨⟨5⟩, 0⟩, [], ENABLE_RBF_NO_LOCKTIME, .empty⟩
  utxo := (coin 1 [10]).txout
  derived := ⟨1, [⟨.xPub ⟨some (1, path), ⟨1⟩, [.normal 0], .none⟩, rfl⟩]⟩

/-- The PSBT that is built for `soloSpend` from a wallet with the deep key. -/
def deepPsbt (path : DerivationPath) : Psbt :=
  assemble (.sample []) [deepCoin path] [⟨1000, .other [1]⟩] none

/-- The functions that write it. -/
def deepExtern (path : DerivationPath) : Extern := (Extern.sample []).writing (deepPsbt path)

variable (path : DerivationPath)

set_option maxRecDepth 20000 in
theorem deep_session : (Traffic.empty.run (deepExtern path) .bitcoin
    (proposingWith (deepKey path))).platform.sessions.findById ⟨0⟩ =
      .ok (pendingSession PsbtSession.soloSpend) := rfl

set_option maxRecDepth 20000 in
theorem deep_wallet : (Traffic.empty.run (deepExtern path) .bitcoin
    (proposingWith (deepKey path))).platform.wallets.findById ⟨0⟩ =
      .ok (activeWallet 1 [deepKey path]) := rfl

theorem deep_descriptor :
    (activeWallet 1 [deepKey path]).descriptor = some ⟨1, [deepKey path]⟩ := rfl

theorem deep_realises : Realises (deepExtern path) .bitcoin ⟨1, [deepKey path]⟩ [coin 1 [10]]
    PsbtSession.soloSpend [deepCoin path] [⟨1000, .other [1]⟩] none where
  paid := .cons ⟨coin 1 [10], rfl, rfl, rfl, rfl⟩ .nil
  scripts coin hcoin := by
    obtain rfl := List.mem_singleton.mp hcoin
    rfl
  pays := .cons ⟨_, rfl, rfl⟩ .nil
  paysChange := trivial
  balance := rfl
  fits := by
    show sats [(coin 1 [10]).txout] < 2 ^ 64
    decide

theorem deep_built : buildUnsignedPsbt (deepExtern path) PsbtSession.soloSpend ⟨1, [deepKey path]⟩
    [coin 1 [10]] .bitcoin = .ok (deepPsbt path) :=
  buildUnsignedPsbt_eq_ok_iff.mpr ⟨_, _, _, deep_realises path, rfl⟩

/-- Every step of the path is written. -/
theorem deep_size : 4 * path.length < (deepPsbt path).plainSize := by
  have hsource : ((deepCoin path).derived.keySources (.sample []) ∅)[(⟨10⟩ : Point)]? =
      some (1, path ++ [.normal 0]) := by
    show ((∅ : Bip32Derivation).insert ⟨10⟩ _)[(⟨10⟩ : Point)]? = _
    rw [Std.ExtTreeMap.getElem?_insert_self]
    rfl
  have hle := Bip32Derivation.le_size hsource
  rw [List.length_append] at hle
  have hinputs : ((deepPsbt path).inputs.map PsbtInput.plainSize).sum =
      (filledInput (.sample []) (deepCoin path)).plainSize := rfl
  have hinput : Bip32Derivation.size ((deepCoin path).derived.keySources (.sample []) ∅) ≤
      (filledInput (.sample []) (deepCoin path)).plainSize := by
    unfold PsbtInput.plainSize filledInput
    dsimp only
    omega
  unfold Psbt.plainSize
  rw [hinputs]
  omega

theorem deep_serialize :
    (deepExtern path).serialize (deepPsbt path) = List.replicate (deepPsbt path).plainSize 0 := by
  show List.replicate (deepPsbt path).plainSize
    (if deepPsbt path = deepPsbt path then (0 : UInt8) else 1) = _
  rw [if_pos rfl]

/-- From `2 ^ 18` steps on, what is created is not read. -/
theorem deep_unreadable (h : 262144 ≤ path.length) :
    (deepExtern path).Bip174 ∧
    (Traffic.empty.run (deepExtern path) .bitcoin
      (proposingWith (deepKey path))).platform.sessions.findById ⟨0⟩ =
        .ok (pendingSession PsbtSession.soloSpend) ∧
    (Traffic.empty.run (deepExtern path) .bitcoin
      (proposingWith (deepKey path))).platform.wallets.findById ⟨0⟩ =
        .ok (activeWallet 1 [deepKey path]) ∧
    (activeWallet 1 [deepKey path]).status = .active ∧
    ∃ sessions blobs hash,
      runPsbtCreation (deepExtern path)
        (Traffic.empty.run (deepExtern path) .bitcoin
          (proposingWith (deepKey path))).platform.sessions
        (Traffic.empty.run (deepExtern path) .bitcoin
          (proposingWith (deepKey path))).platform.wallets
        (Traffic.empty.run (deepExtern path) .bitcoin
          (proposingWith (deepKey path))).platform.blobs
        (fun _ _ => .ok [coin 1 [10]]) .bitcoin ⟨0⟩ = (.ok hash, sessions, blobs) ∧
      sessions.find? ⟨0⟩ =
        some ((pendingSession PsbtSession.soloSpend).log ++ [.psbtCreated hash]) ∧
      blobs.fetchVerified (deepExtern path) hash =
        .ok ((deepExtern path).serialize (deepPsbt path)) ∧
      blobs.RoundTrips (deepExtern path) ∧
      loadPsbt (deepExtern path) blobs hash =
        .error (.psbt (.tooLarge (deepPsbt path).plainSize MAX_PSBT_BYTES)) := by
  have hrow := (Traffic.inv_run (deepExtern path) .bitcoin
    (proposingWith (deepKey path))).sessions.row (deep_session path)
  obtain ⟨sessions, hrun, hfind⟩ := @runPsbtCreation_of_built (deepExtern path) .bitcoin _ _
    (Traffic.empty.run (deepExtern path) .bitcoin (proposingWith (deepKey path))).platform.blobs
    (fun _ _ => .ok [coin 1 [10]]) _ _ hrow rfl _ (deep_wallet path) _ rfl _ (deep_descriptor path)
    _ (deep_built path)
  have hlength : ((deepExtern path).serialize (deepPsbt path)).length =
      (deepPsbt path).plainSize := List.length_replicate
  have hlarge : MAX_PSBT_BYTES < (deepPsbt path).plainSize := by
    refine Nat.lt_of_le_of_lt ?_ (deep_size path)
    show 4 * 262144 ≤ 4 * path.length
    omega
  refine ⟨Extern.bip174_writing _ _, deep_session path, deep_wallet path, rfl, sessions, _,
    _, hrun, hfind, BlobStore.fetchVerified_put _ _, ?_, ?_⟩
  · refine Extern.roundTrips_writing fun bytes hbytes => ?_
    obtain rfl := List.mem_singleton.mp hbytes
    rw [deep_serialize]
    exact fun hone => absurd (List.eq_of_mem_replicate hone) (by decide)
  · unfold loadPsbt
    rw [BlobStore.fetchVerified_put]
    dsimp only
    unfold parsePsbt
    rw [if_pos (by rw [hlength]; exact hlarge), hlength]

/-- A path of `2 ^ 18` steps. -/
def deepPath : DerivationPath := List.replicate 262144 (.normal 0)

end Extern.Sample

open Extern.Sample in
/-- **A wallet whose PSBTs no one can read.** Its one key has an origin of `2 ^ 18` steps. The spend
is proposed, the creation job builds its PSBT, stores it and records it, the store has it and its
bytes are what they should be, and every read fails on the cap. -/
theorem deep_origin_unreadable :
    (deepExtern deepPath).Bip174 ∧
    (Traffic.empty.run (deepExtern deepPath) .bitcoin
      (proposingWith (deepKey deepPath))).platform.sessions.findById ⟨0⟩ =
        .ok (pendingSession PsbtSession.soloSpend) ∧
    (Traffic.empty.run (deepExtern deepPath) .bitcoin
      (proposingWith (deepKey deepPath))).platform.wallets.findById ⟨0⟩ =
        .ok (activeWallet 1 [deepKey deepPath]) ∧
    (activeWallet 1 [deepKey deepPath]).status = .active ∧
    ∃ sessions blobs hash,
      runPsbtCreation (deepExtern deepPath)
        (Traffic.empty.run (deepExtern deepPath) .bitcoin
          (proposingWith (deepKey deepPath))).platform.sessions
        (Traffic.empty.run (deepExtern deepPath) .bitcoin
          (proposingWith (deepKey deepPath))).platform.wallets
        (Traffic.empty.run (deepExtern deepPath) .bitcoin
          (proposingWith (deepKey deepPath))).platform.blobs
        (fun _ _ => .ok [coin 1 [10]]) .bitcoin ⟨0⟩ = (.ok hash, sessions, blobs) ∧
      sessions.find? ⟨0⟩ =
        some ((pendingSession PsbtSession.soloSpend).log ++ [.psbtCreated hash]) ∧
      blobs.fetchVerified (deepExtern deepPath) hash =
        .ok ((deepExtern deepPath).serialize (deepPsbt deepPath)) ∧
      blobs.RoundTrips (deepExtern deepPath) ∧
      loadPsbt (deepExtern deepPath) blobs hash =
        .error (.psbt (.tooLarge (deepPsbt deepPath).plainSize MAX_PSBT_BYTES)) :=
  deep_unreadable deepPath (Nat.le_of_eq List.length_replicate.symm)

end Kota
