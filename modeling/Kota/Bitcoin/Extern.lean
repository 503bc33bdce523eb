import Mathlib.Data.List.Sort
import Kota.Bitcoin.Psbt
import Kota.Lib.Matched

/-!
# The functions the platform calls and does not contain

`Extern` collects the functions of `bitcoin`, `miniscript`, `secp256k1` and `sha2` whose results
the model does not compute. Every function of the model that needs one takes the whole record
`X : Extern`; what a result assumes about a field is a named hypothesis of that result
(`Extern.DerivesKeys`, `Extern.ScriptFinalize`, `Extern.TakesStored`), never a field.
-/

namespace Kota

structure Extern where
  /-- `sha2::Sha256::digest`. -/
  sha256 : Bytes → Vector UInt8 32
  /-- `Xpub::fingerprint`. -/
  xpubFingerprint : Xpub → KeyFingerprint
  /-- The fingerprint `master_fingerprint` computes for a single key without origin. -/
  singleFingerprint : SinglePubKey → KeyFingerprint
  /-- `DescriptorPublicKey::to_string`. -/
  keyToString : DescriptorPublicKey → List Char
  /-- `DescriptorPublicKey::at_derivation_index`. -/
  atDerivationIndex : DescriptorPublicKey → UInt32 →
    Except DerivationFailure DefiniteDescriptorKey
  /-- The checksum of a descriptor string. -/
  checksum : List Char → List Char
  /-- `Xpub::derive_pub`, on unhardened steps. -/
  derivePub : Xpub → DerivationPath → Point
  /-- The text of the error of `Address::require_network`. -/
  networkMismatch : BitcoinAddress → Network → String
  /-- SHA-256 of a witness script, the program of its P2WSH output. -/
  wscriptHash : ScriptBuf → WScriptHash
  /-- `ScriptBuf::minimal_non_dust`. -/
  minimalNonDust : ScriptBuf → UInt64
  /-- `Psbt::serialize`. -/
  serialize : Psbt → Bytes
  /-- `Psbt::deserialize`. -/
  deserialize : Bytes → Except String Psbt
  /-- `consensus::serialize`. -/
  consensusSerialize : Transaction → Bytes
  /-- `Transaction::compute_txid`. -/
  computeTxid : Transaction → Txid
  /-- `PsbtExt::sighash_msg`. -/
  sighashMsg : Psbt → Nat → Except String Message
  /-- `Secp256k1::verify_ecdsa`. -/
  verifyEcdsa : Message → Signature → Point → Bool
  /-- `PsbtExt::finalize`, the errors left out. -/
  finalize : Psbt → Option Psbt
  /-- `Psbt::extract_tx`, the errors left out. -/
  extractTx : Psbt → Option Transaction

variable (X : Extern)

/-! ## Keys -/

/-- `DescriptorPublicKey::master_fingerprint`. -/
def DescriptorPublicKey.masterFingerprint : DescriptorPublicKey → KeyFingerprint
  | .single k =>
    match k.origin with
    | some (fingerprint, _) => fingerprint
    | none => X.singleFingerprint k.key
  | .xPub k =>
    match k.origin with
    | some (fingerprint, _) => fingerprint
    | none => X.xpubFingerprint k.xkey
  | .multiXPub k =>
    match k.origin with
    | some (fingerprint, _) => fingerprint
    | none => X.xpubFingerprint k.xkey

/-- `DefiniteDescriptorKey::derive_public_key`: the one public key it stands for. Everything
below an extended key is compressed. -/
def DefiniteDescriptorKey.derivePublicKey (d : DefiniteDescriptorKey) : PublicKey :=
  match d.key with
  | .single ⟨_, .fullKey pk⟩ => pk
  | .single ⟨_, .xOnly x⟩ => ⟨true, x.even⟩
  | .xPub k => ⟨true, X.derivePub k.xkey k.derivationPath⟩
  | .multiXPub k => ⟨true, X.derivePub k.xkey []⟩

/-! ## Descriptors -/

def joinComma : List (List Char) → List Char
  | [] => []
  | [s] => s
  | s :: rest => s ++ ',' :: joinComma rest

/-- The descriptor string without its checksum. -/
def Descriptor.body (d : Descriptor) : List Char :=
  "wsh(sortedmulti(".toList ++ Nat.toDigits 10 d.threshold ++
    ',' :: joinComma (d.keys.map X.keyToString) ++ "))".toList

/-- `Descriptor`'s `Display`. -/
def Descriptor.display (d : Descriptor) : List Char :=
  let body := d.body X
  body ++ '#' :: X.checksum body

/-- `Descriptor::at_derivation_index`: the keys one after another, up to the first without one. -/
def Descriptor.atDerivationIndex (d : Descriptor) (index : UInt32) :
    Except DerivationFailure DefiniteDescriptor := do
  let keys ← d.keys.mapM fun key => X.atDerivationIndex key index
  .ok ⟨d.threshold, keys⟩

/-- The derived keys in the order `sortedmulti` puts them in the script. -/
def DefiniteDescriptor.scriptKeys (d : DefiniteDescriptor) : List PublicKey :=
  (d.keys.map (·.derivePublicKey X)).insertionSort fun a b => a.inner ≤ b.inner

/-- The witness script. -/
def DefiniteDescriptor.witnessScript (d : DefiniteDescriptor) : ScriptBuf :=
  .multi d.threshold (d.scriptKeys X)

/-- The output script. -/
def DefiniteDescriptor.scriptPubkey (d : DefiniteDescriptor) : ScriptBuf :=
  .p2wsh (X.wscriptHash (d.witnessScript X))

/-- The key sources of a derived descriptor, its keys inserted one after another: of two keys
that derive one point, the later one stays. -/
def DefiniteDescriptor.keySources (d : DefiniteDescriptor) (sources : Bip32Derivation) :
    Bip32Derivation :=
  d.keys.foldl (fun m k =>
    m.insert (k.derivePublicKey X).inner
      (k.key.masterFingerprint X, k.key.fullDerivationPath)) sources

/-! ## Addresses -/

/-- `BitcoinAddress::require_network`. -/
def BitcoinAddress.requireNetwork (address : BitcoinAddress) (network : Network) :
    Except String BitcoinAddress :=
  if address.networks.contains network then .ok address
  else .error (X.networkMismatch address network)

/-! ## PSBT updates -/

inductive UtxoUpdateError where
  | indexOutOfBounds (index len : Nat)
  | missingUtxo
  | mismatchedScriptPubkey
  deriving DecidableEq, Repr

inductive OutputUpdateError where
  | indexOutOfBounds (index len : Nat)
  | mismatchedScriptPubkey
  deriving DecidableEq, Repr

/-- `update_input_with_descriptor`: checked against the input's `witness_utxo`. -/
def Psbt.updateInputWithDescriptor (psbt : Psbt) (index : Nat) (d : DefiniteDescriptor) :
    Except UtxoUpdateError Psbt :=
  match psbt.inputs[index]? with
  | none => .error (.indexOutOfBounds index psbt.inputs.length)
  | some input =>
    match input.witnessUtxo with
    | none => .error .missingUtxo
    | some utxo =>
      if utxo.scriptPubkey = d.scriptPubkey X then
        .ok { psbt with
          inputs := psbt.inputs.set index { input with
            witnessScript := some (d.witnessScript X)
            bip32Derivation := d.keySources X input.bip32Derivation } }
      else .error .mismatchedScriptPubkey

/-- `update_output_with_descriptor`: checked against the transaction output. -/
def Psbt.updateOutputWithDescriptor (psbt : Psbt) (index : Nat) (d : DefiniteDescriptor) :
    Except OutputUpdateError Psbt :=
  match psbt.outputs[index]?, psbt.unsignedTx.output[index]? with
  | some output, some txout =>
    if txout.scriptPubkey = d.scriptPubkey X then
      .ok { psbt with
        outputs := psbt.outputs.set index { output with
          witnessScript := some (d.witnessScript X)
          bip32Derivation := d.keySources X output.bip32Derivation } }
    else .error .mismatchedScriptPubkey
  | _, _ => .error (.indexOutOfBounds index psbt.outputs.length)

/-! ## What is assumed of derivation -/

/-- `at_derivation_index` as documented: a single key stays as it is, a multipath key is refused,
and so is an index that cannot take the wildcard's place; otherwise the extended key is returned
with the index in that place. The `expect` that the result is definite panics where a hardened step
is left. -/
structure Extern.DerivesKeys (X : Extern) : Prop where
  single : ∀ k index, X.atDerivationIndex (.single k) index = .ok ⟨.single k, rfl⟩
  multiXPub : ∀ k index, X.atDerivationIndex (.multiXPub k) index = .error (.error .multipath)
  outOfRange : ∀ k index, ¬ (DescriptorPublicKey.xPub k).Takes index →
    X.atDerivationIndex (.xPub k) index = .error (.error .hardenedStep)
  xPub : ∀ k index, (DescriptorPublicKey.xPub k).Takes index →
    ∀ definite : (k.replaced index).isDefinite = true,
      X.atDerivationIndex (.xPub k) index = .ok ⟨k.replaced index, definite⟩
  hardened : ∀ k index, (DescriptorPublicKey.xPub k).Takes index →
    (DescriptorPublicKey.xPub k).isHardened = true →
      ∃ message, X.atDerivationIndex (.xPub k) index = .error (.panic message)

/-! ## What is assumed of the finaliser -/

/-- The signature stored under the compressed form of a script key. -/
def PsbtInput.signatureFor (input : PsbtInput) (key : PublicKey) : Option EcdsaSignature :=
  input.partialSigs[(⟨true, key.inner⟩ : PublicKey)]?

/-- The script is a multisig script, and `signed` holds of the keys at `threshold` positions. -/
def EnoughKeys (script : Option ScriptBuf) (signed : PublicKey → Bool) : Prop :=
  match script with
  | some (.multi k keys) => k ≤ keys.countP signed
  | _ => False

instance (script : Option ScriptBuf) (signed : PublicKey → Bool) :
    Decidable (EnoughKeys script signed) := by
  unfold EnoughKeys
  split <;> infer_instance

/-- The input holds signatures under the compressed form of the keys at `threshold` positions of
its witness script. -/
def PsbtInput.Covered (input : PsbtInput) : Prop :=
  EnoughKeys input.witnessScript fun key => (input.signatureFor key).isSome

instance (input : PsbtInput) : Decidable input.Covered := by
  unfold PsbtInput.Covered
  infer_instance

/-- The witness satisfies the input with `threshold` signatures, each stored under the compressed
form of a script key, at different positions of the script. -/
def PsbtInput.Spends (input : PsbtInput) (witness : Witness) : Prop :=
  match input.witnessScript with
  | some (.multi k keys) =>
    witness.signatures.length = k ∧ (witness.signatures.map Prod.fst).Sublist keys ∧
      ∀ s ∈ witness.signatures, input.signatureFor s.1 = some s.2
  | _ => False

/-- `finalize` succeeds exactly when every input is covered, and `extract_tx` on what it
returns. -/
structure Extern.ScriptFinalize (X : Extern) : Prop where
  finalize_isSome : ∀ psbt, (X.finalize psbt).isSome ↔ ∀ input ∈ psbt.inputs, input.Covered
  extract_isSome : ∀ psbt done, X.finalize psbt = some done → (X.extractTx done).isSome

/-- The final transaction spends every input with signatures stored in the PSBT. -/
def Extern.TakesStored (X : Extern) : Prop :=
  ∀ psbt done tx, X.finalize psbt = some done → X.extractTx done = some tx →
    List.Forall₂ (fun (input : PsbtInput) (txin : TxIn) => input.Spends txin.witness)
      psbt.inputs tx.input

/-! ## A small instance

Deterministic stand-ins under which a run can be evaluated: a PSBT serialises to its place in a
table, a digest is the first 32 bytes, a signature is the number that its message and point
determine, and the finaliser takes `threshold` signatures in script order. -/

namespace Extern.Sample

/-- A ranged extended key without origin. -/
def key (seed : Nat) : DescriptorPublicKey := .xPub ⟨none, ⟨seed⟩, [], .unhardened⟩

/-- An extended key with a hardened wildcard. -/
def hardenedKey : DescriptorPublicKey := .xPub ⟨none, ⟨1⟩, [], .hardened⟩

def pathToString (path : DerivationPath) : List Char :=
  path.flatMap fun step => match step with
    | .normal index => '/' :: Nat.toDigits 10 index.toNat
    | .hardened index => '/' :: Nat.toDigits 10 index.toNat ++ ['h']

/-- An origin in brackets. -/
def originToString : Option KeySource → List Char
  | none => []
  | some (fingerprint, path) =>
    '[' :: (KeyFingerprint.display fingerprint).toList ++ pathToString path ++ [']']

def wildcardToString : Wildcard → List Char
  | .none => []
  | .unhardened => "/*".toList
  | .hardened => "/*h".toList

def keyToString : DescriptorPublicKey → List Char
  | .single k => originToString k.origin ++ match k.key with
    | .fullKey pk => Nat.toDigits 10 pk.inner.ser
    | .xOnly x => 'x' :: Nat.toDigits 10 x.even.ser
  | .xPub k => originToString k.origin ++ "xpub".toList ++ Nat.toDigits 10 k.xkey.ser ++
      pathToString k.derivationPath ++ wildcardToString k.wildcard
  | .multiXPub k => originToString k.origin ++ "xpub".toList ++ Nat.toDigits 10 k.xkey.ser ++
      "/<".toList ++ k.derivationPaths.flatMap pathToString ++ '>' :: wildcardToString k.wildcard

def atDerivationIndex : DescriptorPublicKey → UInt32 →
    Except DerivationFailure DefiniteDescriptorKey
  | .single k, _ => .ok ⟨.single k, rfl⟩
  | .multiXPub _, _ => .error (.error .multipath)
  | .xPub k, index =>
    if (DescriptorPublicKey.xPub k).Takes index then
      if h : (k.replaced index).isDefinite = true then .ok ⟨k.replaced index, h⟩
      else .error (.panic "not a definite key")
    else .error (.error .hardenedStep)

def derivePub (xpub : Xpub) (path : DerivationPath) : Point :=
  ⟨path.foldl (fun n step => match step with
    | .normal index => 10 * n + index.toNat
    | .hardened _ => n) xpub.ser⟩

def wscriptHash : ScriptBuf → WScriptHash
  | .multi k keys => ⟨keys.foldl (fun n key => 1000 * n + key.inner.ser) k⟩
  | .p2wsh hash => ⟨hash.val⟩
  | .other bytes => ⟨bytes.length⟩

def serialize (table : List Psbt) (psbt : Psbt) : Bytes := [UInt8.ofNat (table.idxOf psbt)]

def deserialize (table : List Psbt) : Bytes → Except String Psbt
  | [b] => match table[b.toNat]? with
    | some psbt => .ok psbt
    | none => .error "unknown PSBT"
  | _ => .error "not a PSBT"

def sign (message : Message) (point : Point) : Signature := ⟨1000 * message.val + point.ser⟩

def sighashMsg (psbt : Psbt) (index : Nat) : Except String Message :=
  if index < psbt.inputs.length then .ok ⟨psbt.unsignedTx.output.length + 10 * index⟩
  else .error "no such input"

/-- The script signatures an input holds, in script order. -/
def available (input : PsbtInput) (keys : List PublicKey) : List (PublicKey × EcdsaSignature) :=
  keys.filterMap fun key => (input.signatureFor key).map fun sig => (key, sig)

/-- The signatures an input is satisfied with: in script order, those under a key of `skip` left
out as long as the others suffice. -/
def choose (skip : PublicKey → Bool) (k : Nat) (input : PsbtInput) (keys : List PublicKey) :
    List (PublicKey × EcdsaSignature) :=
  let others := (available input keys).filter fun e => !skip e.1
  if k ≤ others.length then others.take k else (available input keys).take k

def finalizeInput (skip : PsbtInput → PublicKey → Bool) (input : PsbtInput) : Option PsbtInput :=
  match input.witnessScript with
  | some (.multi k keys) =>
    if k ≤ (available input keys).length then
      some { input with
        partialSigs := ∅
        finalScriptWitness := some ⟨choose (skip input) k input keys, input.witnessScript⟩ }
    else none
  | _ => none

def finalize (skip : PsbtInput → PublicKey → Bool) (psbt : Psbt) : Option Psbt :=
  (psbt.inputs.mapM (finalizeInput skip)).map fun inputs => { psbt with inputs }

/-- The input of the transaction under construction at this place. -/
def inputAt (tx : Transaction) (index : Nat) : TxIn :=
  match tx.input[index]? with
  | some txin => txin
  | none => ⟨⟨⟨0⟩, 0⟩, [], 0, .empty⟩

/-- The transaction with the witnesses of the finalised inputs. -/
def extractTx (psbt : Psbt) : Option Transaction :=
  (psbt.inputs.mapM PsbtInput.finalScriptWitness).map fun witnesses =>
    { psbt.unsignedTx with
      input := witnesses.mapIdx fun index witness =>
        { inputAt psbt.unsignedTx index with witness } }

end Extern.Sample

/-- The small instance over a table of PSBTs. -/
def Extern.sample (table : List Psbt) : Extern where
  sha256 bytes := Vector.ofFn fun i => bytes.getD i 0
  xpubFingerprint xpub := Fin.ofNat _ xpub.ser
  singleFingerprint
    | .fullKey pk => Fin.ofNat _ pk.inner.ser
    | .xOnly x => Fin.ofNat _ x.even.ser
  keyToString := Extern.Sample.keyToString
  atDerivationIndex := Extern.Sample.atDerivationIndex
  checksum text := Nat.toDigits 10 text.length
  derivePub := Extern.Sample.derivePub
  networkMismatch address _ := address.text
  wscriptHash := Extern.Sample.wscriptHash
  minimalNonDust _ := 330
  serialize := Extern.Sample.serialize table
  deserialize := Extern.Sample.deserialize table
  consensusSerialize tx := [255, UInt8.ofNat tx.input.length, UInt8.ofNat tx.output.length]
  computeTxid tx := ⟨tx.output.length⟩
  sighashMsg := Extern.Sample.sighashMsg
  verifyEcdsa message sig point := sig == Extern.Sample.sign message point
  finalize := Extern.Sample.finalize fun _ _ => false
  extractTx := Extern.Sample.extractTx

/-- The functions of `X`, with another finaliser. -/
def Extern.withFinalizer (X : Extern) (finalize : Psbt → Option Psbt)
    (extractTx : Psbt → Option Transaction) : Extern :=
  { X with finalize, extractTx }

/-- A finaliser that uses no signature under a key of `skip` where it can do without. -/
def Extern.skipping (X : Extern) (skip : PsbtInput → PublicKey → Bool) : Extern :=
  X.withFinalizer (Extern.Sample.finalize skip) Extern.Sample.extractTx

namespace Extern.Sample

theorem derivesKeys (table : List Psbt) : (Extern.sample table).DerivesKeys where
  single _ _ := rfl
  multiXPub _ _ := rfl
  outOfRange _ _ h := if_neg h
  xPub _ _ htakes hdefinite := (if_pos htakes).trans (dif_pos hdefinite)
  hardened k index htakes hhardened := by
    have hleft : ¬ (k.replaced index).isDefinite = true := by
      rw [k.isDefinite_replaced, Bool.not_eq_true, ← Bool.not_eq_true',
        ← DescriptorPublicKey.isHardened_xPub]
      exact hhardened
    exact ⟨_, (if_pos htakes).trans (dif_neg hleft)⟩

theorem length_available (input : PsbtInput) (keys : List PublicKey) :
    (available input keys).length = keys.countP fun key => (input.signatureFor key).isSome := by
  unfold available
  rw [List.length_filterMap_eq_countP]
  exact List.countP_congr fun key _ => by simp

theorem finalizeInput_isSome (skip : PsbtInput → PublicKey → Bool) (input : PsbtInput) :
    (finalizeInput skip input).isSome ↔ input.Covered := by
  unfold finalizeInput PsbtInput.Covered EnoughKeys
  split
  · rw [length_available]
    split <;> simp_all
  · simp

/-- Where the other signatures suffice, none under a key of `skip` is chosen. -/
theorem not_skip_of_mem_choose {skip : PublicKey → Bool} {k : Nat} {input : PsbtInput}
    {keys : List PublicKey}
    (h : k ≤ keys.countP fun key => (input.signatureFor key).isSome && !skip key)
    {e : PublicKey × EcdsaSignature} (he : e ∈ choose skip k input keys) : skip e.1 = false := by
  have hothers : k ≤ ((available input keys).filter fun e => !skip e.1).length := by
    rw [← List.countP_eq_length_filter, available, List.countP_filterMap]
    refine Nat.le_trans h (List.countP_mono_left fun key _ hkey => ?_)
    rw [Bool.and_eq_true, Option.isSome_iff_exists] at hkey
    obtain ⟨⟨sig, hsig⟩, hskip⟩ := hkey
    simpa [hsig] using hskip
  unfold choose at he
  dsimp only at he
  rw [if_pos hothers] at he
  simpa using (List.mem_filter.mp (List.mem_of_mem_take he)).2

/-- What is chosen are enough stored signatures, at different positions of the script. -/
theorem choose_spec {skip : PublicKey → Bool} {k : Nat} {input : PsbtInput} {keys : List PublicKey}
    (h : k ≤ (available input keys).length) :
    (choose skip k input keys).length = k ∧
      (choose skip k input keys).Sublist (available input keys) := by
  unfold choose
  dsimp only
  split
  · rename_i hothers
    exact ⟨by simpa using hothers, (List.take_sublist _ _).trans List.filter_sublist⟩
  · exact ⟨by simpa using h, List.take_sublist _ _⟩

theorem available_keys (input : PsbtInput) (keys : List PublicKey) :
    ((available input keys).map Prod.fst).Sublist keys := by
  unfold available
  induction keys with
  | nil => exact .slnil
  | cons key keys ih =>
    rw [List.filterMap_cons]
    cases input.signatureFor key with
    | none => exact ih.cons key
    | some sig => exact ih.cons_cons key

theorem mem_available {input : PsbtInput} {keys : List PublicKey}
    {e : PublicKey × EcdsaSignature} (h : e ∈ available input keys) :
    e.1 ∈ keys ∧ input.signatureFor e.1 = some e.2 := by
  obtain ⟨key, hkey, hsig⟩ := List.mem_filterMap.mp h
  obtain ⟨sig, hstored, rfl⟩ := Option.map_eq_some_iff.mp hsig
  exact ⟨hkey, hstored⟩

theorem map_witness {f : Nat → Witness → TxIn} (hf : ∀ index witness, (f index witness).witness =
    witness) (witnesses : List Witness) : (witnesses.mapIdx f).map TxIn.witness = witnesses := by
  refine List.ext_getElem? fun i => ?_
  rw [List.getElem?_map, List.getElem?_mapIdx, Option.map_map]
  cases witnesses[i]? with
  | none => rfl
  | some witness => exact congrArg some (hf i witness)

/-- The witness of a finalised input satisfies it. -/
theorem finalizeInput_spends {skip : PsbtInput → PublicKey → Bool} {input done : PsbtInput}
    (h : finalizeInput skip input = some done) :
    ∃ k keys, input.witnessScript = some (.multi k keys) ∧ k ≤ (available input keys).length ∧
      done.finalScriptWitness =
        some ⟨choose (skip input) k input keys, input.witnessScript⟩ := by
  unfold finalizeInput at h
  split at h
  · rename_i k keys hscript
    split at h
    · rename_i hcovered
      obtain rfl := Option.some.inj h
      exact ⟨k, keys, hscript, hcovered, rfl⟩
    · exact absurd h (by simp)
  · exact absurd h (by simp)

end Extern.Sample

namespace Extern

variable (X : Extern) (skip : PsbtInput → PublicKey → Bool)

/-- **The finaliser of the small instance is one the platform may meet.** -/
theorem skipping_scriptFinalize : (X.skipping skip).ScriptFinalize where
  finalize_isSome psbt := by
    show ((psbt.inputs.mapM (Sample.finalizeInput skip)).map _).isSome ↔ _
    rw [Option.isSome_map, Matched.mapM_isSome_iff]
    exact forall₂_congr fun input _ => Sample.finalizeInput_isSome skip input
  extract_isSome psbt done h := by
    obtain ⟨inputs, hinputs, rfl⟩ := Option.map_eq_some_iff.mp h
    show ((inputs.mapM PsbtInput.finalScriptWitness).map _).isSome
    rw [Option.isSome_map, Matched.mapM_isSome_iff]
    intro input hinput
    obtain ⟨original, -, hdone⟩ :=
      Matched.exists_of_mem_right (Matched.mapM_eq_some_iff.mp hinputs) hinput
    obtain ⟨k, keys, -, -, hwitness⟩ := Sample.finalizeInput_spends hdone
    rw [hwitness]
    rfl

/-- What the finaliser puts into the witnesses. -/
theorem skipping_witness {psbt done : Psbt} {tx : Transaction}
    (hfinal : (X.skipping skip).finalize psbt = some done)
    (hextract : (X.skipping skip).extractTx done = some tx) :
    List.Forall₂ (fun (input : PsbtInput) (txin : TxIn) => ∃ k keys,
      input.witnessScript = some (.multi k keys) ∧ k ≤ (Sample.available input keys).length ∧
        txin.witness.signatures = Sample.choose (skip input) k input keys)
      psbt.inputs tx.input := by
  obtain ⟨inputs, hinputs, rfl⟩ := Option.map_eq_some_iff.mp hfinal
  obtain ⟨witnesses, hwitnesses, rfl⟩ := Option.map_eq_some_iff.mp hextract
  have hspends := Matched.comp (Matched.mapM_eq_some_iff.mp hinputs)
    (Matched.mapM_eq_some_iff.mp hwitnesses)
  rw [← Sample.map_witness (f := fun index witness =>
      { Sample.inputAt psbt.unsignedTx index with witness }) (fun _ _ => rfl) witnesses,
    List.forall₂_map_right_iff] at hspends
  refine hspends.imp fun input txin h => ?_
  obtain ⟨d, hd, hwitness⟩ := h
  obtain ⟨k, keys, hscript, hcovered, hfinalWitness⟩ := Sample.finalizeInput_spends hd
  rw [hfinalWitness] at hwitness
  exact ⟨k, keys, hscript, hcovered,
    congrArg Witness.signatures (Option.some.inj hwitness).symm⟩

theorem skipping_takesStored : (X.skipping skip).TakesStored := by
  intro psbt done tx hfinal hextract
  refine (skipping_witness X skip hfinal hextract).imp fun input txin h => ?_
  obtain ⟨k, keys, hscript, hcovered, hwitness⟩ := h
  obtain ⟨hlen, hsub⟩ := @Sample.choose_spec (skip input) _ _ _ hcovered
  unfold PsbtInput.Spends
  rw [hscript, hwitness]
  refine ⟨hlen, (hsub.map Prod.fst).trans (Sample.available_keys input keys), fun e he => ?_⟩
  exact (Sample.mem_available (hsub.subset he)).2

end Extern

/-- The small instance itself skips nothing. -/
theorem Extern.Sample.sample_scriptFinalize (table : List Psbt) :
    (Extern.sample table).ScriptFinalize :=
  Extern.skipping_scriptFinalize (.sample table) fun _ _ => false

end Kota
