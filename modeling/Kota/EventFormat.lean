import Kota.Lib.Json
import Kota.PsbtSession.Entity

/-!
# The persisted form of the events

Model of the `Serialize` and `Deserialize` implementations behind the `event JSONB` columns: the
derived ones of `PsbtSessionEvent` and `WalletEvent` (internally tagged by `type`, variants in
snake case, fields under their own names), of the value types in `psbt_session/primitives.rs`
(fields in camel case) and of the content addresses, and the hand-written ones of
`BitcoinAddress`.

* Identifiers, transaction and block hashes, key fingerprints, keys, descriptors and addresses are
  texts whose printer or parser belongs to another crate: `Texts`. What is assumed of them is said
  of the values of one event (`Printable`), that each parses back from its text.
* A content address is a newtype of an array of bytes, so it is stored as 32 numbers, and only an
  array of exactly 32 bytes reads back.
* The change output of a spend may be absent or `null`.
* The derived readers take more than the derived writers print: a variant as an array with the tag
  first, a struct as the array of its fields, a unit variant as an object of one key (`keys`,
  `Codec.choice`).

Results:
* **`stored_logs_load`**: a log of printable events is read back from rows that name the variants
  and carry the fields of its events, in any key order and among any other keys; the JSONB forms of
  the events are such rows (`PsbtSessionEvent.row_stored`, `WalletEvent.row_stored`).
* **`accepted_events_complete`**: a row is accepted only as an event of the variant it names, and
  only with every field of that variant present, in an object the change output excepted.
-/

namespace Kota

open JsonFormat JsonFormat.Codec

/-! ## Texts of other crates -/

/-- The printers and parsers of other crates that `Extern` does not hold already. -/
structure Texts where
  uuid : TextForm Nat
  txid : TextForm Txid
  blockHash : TextForm BlockHash
  parseFingerprint : String → Option KeyFingerprint
  parseAddress : String → Option BitcoinAddress
  parseKey : String → Option DescriptorPublicKey
  parseDescriptor : String → Option Descriptor
  /-- The text of the error of an event that does not deserialize. -/
  serdeError : List Json → String

namespace Texts

variable (X : Extern) (T : Texts)

def fingerprint : TextForm KeyFingerprint := ⟨KeyFingerprint.display, T.parseFingerprint⟩

def address : TextForm BitcoinAddress := ⟨BitcoinAddress.text, T.parseAddress⟩

def key : TextForm DescriptorPublicKey := ⟨fun k => String.ofList (X.keyToString k), T.parseKey⟩

def descriptor : TextForm Descriptor :=
  ⟨fun d => String.ofList (d.display X), T.parseDescriptor⟩

end Texts

/-- `Network`'s names, which are also its serialised form. -/
def Network.text : TextForm Network :=
  .named (fun n => String.ofList n.display) [.bitcoin, .testnet, .testnet4, .signet, .regtest]

def InvalidationReason.name : InvalidationReason → String
  | .reorged => "reorged"
  | .inputsSpentExternally => "inputs_spent_externally"
  | .replacedByFeeBump => "replaced_by_fee_bump"
  | .mempoolEvicted => "mempool_evicted"

def InvalidationReason.text : TextForm InvalidationReason :=
  .named InvalidationReason.name
    [.reorged, .inputsSpentExternally, .replacedByFeeBump, .mempoolEvicted]

theorem Network.text_reads (n : Network) : Network.text.Reads n := by
  refine TextForm.named_reads ?_ ?_
  · intro a ha b hb
    cases a <;> cases b <;> decide
  · cases n <;> simp

theorem InvalidationReason.text_reads (r : InvalidationReason) : InvalidationReason.text.Reads r := by
  refine TextForm.named_reads ?_ ?_
  · intro a ha b hb
    cases a <;> cases b <;> decide
  · cases r <;> simp

/-! ## Value types -/

section Values

variable (T : Texts)

def WalletId.codec : Codec WalletId := (Codec.text T.uuid).via WalletId.uuid fun n => some ⟨n⟩

def UserId.codec : Codec UserId := (Codec.text T.uuid).via UserId.uuid fun n => some ⟨n⟩

def PsbtSessionId.codec : Codec PsbtSessionId :=
  (Codec.text T.uuid).via PsbtSessionId.uuid fun n => some ⟨n⟩

def u8Codec : Codec UInt8 := .unsigned (2 ^ 8) UInt8.toNat UInt8.ofNat

def u32Codec : Codec UInt32 := .unsigned (2 ^ 32) UInt32.toNat UInt32.ofNat

def u64Codec : Codec UInt64 := .unsigned (2 ^ 64) UInt64.toNat UInt64.ofNat

/-- `[u8; 32]`. -/
def bytes32Codec : Codec (Vector UInt8 32) :=
  (Codec.list u8Codec).via (fun v => v.toList)
    fun l => if h : l.length = 32 then some ⟨l.toArray, h⟩ else none

def PsbtHash.codec : Codec PsbtHash := bytes32Codec.via PsbtHash.inner fun v => some ⟨v⟩

def DescriptorFingerprint.codec : Codec DescriptorFingerprint :=
  bytes32Codec.via DescriptorFingerprint.inner fun v => some ⟨v⟩

/-- `OutPointRef`, fields in camel case. -/
def OutPointRef.codec : Codec OutPointRef :=
  .record ["txid", "vout"]
    (fun o => [("txid", (Codec.text T.txid).encode o.txid), ("vout", u32Codec.encode o.vout)])
    fun fields => do
      let txid ← field fields "txid" (.text T.txid)
      let vout ← field fields "vout" u32Codec
      some ⟨txid, vout⟩

/-- `SpendOutput`, fields in camel case. -/
def SpendOutput.codec : Codec SpendOutput :=
  .record ["address", "amountSats"]
    (fun o => [("address", (Codec.text T.address).encode o.address),
      ("amountSats", u64Codec.encode o.amountSats)])
    fun fields => do
      let address ← field fields "address" (.text T.address)
      let amountSats ← field fields "amountSats" u64Codec
      some ⟨address, amountSats⟩

/-- `ChangeOutput`, fields in camel case. -/
def ChangeOutput.codec : Codec ChangeOutput :=
  .record ["amountSats", "derivationIndex"]
    (fun o => [("amountSats", u64Codec.encode o.amountSats),
      ("derivationIndex", u32Codec.encode o.derivationIndex)])
    fun fields => do
      let amountSats ← field fields "amountSats" u64Codec
      let derivationIndex ← field fields "derivationIndex" u32Codec
      some ⟨amountSats, derivationIndex⟩

def fingerprintsCodec : Codec (List KeyFingerprint) := .list (.text T.fingerprint)

end Values

section ValueLaws

variable {T : Texts}

theorem WalletId.codec_reads {id : WalletId} (h : T.uuid.Reads id.uuid) :
    (WalletId.codec T).Reads id := via_reads (text_reads h) rfl

theorem UserId.codec_reads {id : UserId} (h : T.uuid.Reads id.uuid) :
    (UserId.codec T).Reads id := via_reads (text_reads h) rfl

theorem PsbtSessionId.codec_reads {id : PsbtSessionId} (h : T.uuid.Reads id.uuid) :
    (PsbtSessionId.codec T).Reads id := via_reads (text_reads h) rfl

theorem u8Codec_reads (n : UInt8) : u8Codec.Reads n :=
  unsigned_reads (UInt8.toNat_lt n) UInt8.ofNat_toNat

theorem u32Codec_reads (n : UInt32) : u32Codec.Reads n :=
  unsigned_reads (UInt32.toNat_lt n) UInt32.ofNat_toNat

theorem u64Codec_reads (n : UInt64) : u64Codec.Reads n :=
  unsigned_reads (UInt64.toNat_lt n) UInt64.ofNat_toNat

theorem bytes32Codec_reads (v : Vector UInt8 32) : bytes32Codec.Reads v := by
  refine via_reads (list_reads fun b _ => u8Codec_reads b) ?_
  rw [dif_pos v.length_toList]
  rfl

theorem PsbtHash.codec_reads (hash : PsbtHash) : PsbtHash.codec.Reads hash :=
  via_reads (bytes32Codec_reads hash.inner) rfl

theorem DescriptorFingerprint.codec_reads (fingerprint : DescriptorFingerprint) :
    DescriptorFingerprint.codec.Reads fingerprint :=
  via_reads (bytes32Codec_reads fingerprint.inner) rfl

theorem OutPointRef.codec_reads {o : OutPointRef} (h : T.txid.Reads o.txid) :
    (OutPointRef.codec T).Reads o := by
  refine record_reads (by simp) fun fields hc => ?_
  have htxid : field fields "txid" _ = some o.txid := hc.field (text_reads h) (by simp)
  have hvout : field fields "vout" _ = some o.vout := hc.field (u32Codec_reads _) (by simp)
  simp only [htxid, hvout, Option.bind_eq_bind, Option.bind_some]

theorem SpendOutput.codec_reads {o : SpendOutput} (h : T.address.Reads o.address) :
    (SpendOutput.codec T).Reads o := by
  refine record_reads (by simp) fun fields hc => ?_
  have haddress : field fields "address" _ = some o.address := hc.field (text_reads h) (by simp)
  have hamount : field fields "amountSats" _ = some o.amountSats :=
    hc.field (u64Codec_reads _) (by simp)
  simp only [haddress, hamount, Option.bind_eq_bind, Option.bind_some]

theorem ChangeOutput.codec_reads (c : ChangeOutput) : ChangeOutput.codec.Reads c := by
  refine record_reads (by simp) fun fields hc => ?_
  have hamount : field fields "amountSats" _ = some c.amountSats :=
    hc.field (u64Codec_reads _) (by simp)
  have hindex : field fields "derivationIndex" _ = some c.derivationIndex :=
    hc.field (u32Codec_reads _) (by simp)
  simp only [hamount, hindex, Option.bind_eq_bind, Option.bind_some]

theorem fingerprintsCodec_reads {fps : List KeyFingerprint}
    (h : T.fingerprint.ReadsAll fps) : (fingerprintsCodec T).Reads fps :=
  list_reads fun fp hfp => text_reads (h fp hfp)

end ValueLaws

/-! ## Session events -/

namespace PsbtSessionEvent

variable (T : Texts)

/-- The variant's name, in snake case. -/
def name : PsbtSessionEvent → String
  | .initialized .. => "initialized"
  | .psbtCreated .. => "psbt_created"
  | .signatureAdded .. => "signature_added"
  | .finalized .. => "finalized"
  | .broadcastSeen .. => "broadcast_seen"
  | .confirmed .. => "confirmed"
  | .invalidated .. => "invalidated"
  | .cancelled .. => "cancelled"

/-- The variant's fields. -/
def entries : PsbtSessionEvent → Fields
  | .initialized id walletId proposedBy spend threshold keystores =>
    [("id", (PsbtSessionId.codec T).encode id),
      ("wallet_id", (WalletId.codec T).encode walletId),
      ("proposed_by", (UserId.codec T).encode proposedBy),
      ("inputs", (Codec.list (OutPointRef.codec T)).encode spend.inputs),
      ("outputs", (Codec.list (SpendOutput.codec T)).encode spend.outputs),
      ("fee_sats", u64Codec.encode spend.feeSats),
      ("change_output", encodeOption ChangeOutput.codec spend.changeOutput),
      ("threshold", u32Codec.encode threshold),
      ("keystores", (fingerprintsCodec T).encode keystores)]
  | .psbtCreated unsignedPsbtHash =>
    [("unsigned_psbt_hash", PsbtHash.codec.encode unsignedPsbtHash)]
  | .signatureAdded fingerprint signedPsbtHash =>
    [("fingerprint", (Codec.text T.fingerprint).encode fingerprint),
      ("signed_psbt_hash", PsbtHash.codec.encode signedPsbtHash)]
  | .finalized txid finalTxHash sigsUsed =>
    [("txid", (Codec.text T.txid).encode txid),
      ("final_tx_hash", PsbtHash.codec.encode finalTxHash),
      ("sigs_used", (fingerprintsCodec T).encode sigsUsed)]
  | .broadcastSeen txid => [("txid", (Codec.text T.txid).encode txid)]
  | .confirmed txid height blockHash =>
    [("txid", (Codec.text T.txid).encode txid), ("height", u64Codec.encode height),
      ("block_hash", (Codec.text T.blockHash).encode blockHash)]
  | .invalidated reason => [("reason", (Codec.choice InvalidationReason.text).encode reason)]
  | .cancelled cancelledBy reason =>
    [("cancelled_by", (UserId.codec T).encode cancelledBy), ("reason", string.encode reason)]

/-- The fields of the variant with the given name, in the order they are declared. -/
def keys : String → List String
  | "initialized" => ["id", "wallet_id", "proposed_by", "inputs", "outputs", "fee_sats",
    "change_output", "threshold", "keystores"]
  | "psbt_created" => ["unsigned_psbt_hash"]
  | "signature_added" => ["fingerprint", "signed_psbt_hash"]
  | "finalized" => ["txid", "final_tx_hash", "sigs_used"]
  | "broadcast_seen" => ["txid"]
  | "confirmed" => ["txid", "height", "block_hash"]
  | "invalidated" => ["reason"]
  | "cancelled" => ["cancelled_by", "reason"]
  | _ => []

/-- The reader of the variant with the given name; an unknown name is refused. -/
def read (variant : String) (fields : Fields) : Option PsbtSessionEvent :=
  if variant = "initialized" then do
    let id ← field fields "id" (PsbtSessionId.codec T)
    let walletId ← field fields "wallet_id" (WalletId.codec T)
    let proposedBy ← field fields "proposed_by" (UserId.codec T)
    let inputs ← field fields "inputs" (.list (OutPointRef.codec T))
    let outputs ← field fields "outputs" (.list (SpendOutput.codec T))
    let feeSats ← field fields "fee_sats" u64Codec
    let changeOutput ← optionalField fields "change_output" ChangeOutput.codec
    let threshold ← field fields "threshold" u32Codec
    let keystores ← field fields "keystores" (fingerprintsCodec T)
    some (.initialized id walletId proposedBy ⟨inputs, outputs, feeSats, changeOutput⟩ threshold
      keystores)
  else if variant = "psbt_created" then do
    let unsignedPsbtHash ← field fields "unsigned_psbt_hash" PsbtHash.codec
    some (.psbtCreated unsignedPsbtHash)
  else if variant = "signature_added" then do
    let fingerprint ← field fields "fingerprint" (.text T.fingerprint)
    let signedPsbtHash ← field fields "signed_psbt_hash" PsbtHash.codec
    some (.signatureAdded fingerprint signedPsbtHash)
  else if variant = "finalized" then do
    let txid ← field fields "txid" (.text T.txid)
    let finalTxHash ← field fields "final_tx_hash" PsbtHash.codec
    let sigsUsed ← field fields "sigs_used" (fingerprintsCodec T)
    some (.finalized txid finalTxHash sigsUsed)
  else if variant = "broadcast_seen" then do
    let txid ← field fields "txid" (.text T.txid)
    some (.broadcastSeen txid)
  else if variant = "confirmed" then do
    let txid ← field fields "txid" (.text T.txid)
    let height ← field fields "height" u64Codec
    let blockHash ← field fields "block_hash" (.text T.blockHash)
    some (.confirmed txid height blockHash)
  else if variant = "invalidated" then do
    let reason ← field fields "reason" (.choice InvalidationReason.text)
    some (.invalidated reason)
  else if variant = "cancelled" then do
    let cancelledBy ← field fields "cancelled_by" (UserId.codec T)
    let reason ← field fields "reason" string
    some (.cancelled cancelledBy reason)
  else none

/-- The derived `Serialize` and `Deserialize`. -/
def codec : Codec PsbtSessionEvent := .tagged "type" keys name (entries T) (read T)

/-- Every text in the event parses back. -/
def Printable : PsbtSessionEvent → Prop
  | .initialized id walletId proposedBy spend _ keystores =>
    T.uuid.Reads id.uuid ∧ T.uuid.Reads walletId.uuid ∧ T.uuid.Reads proposedBy.uuid ∧
      (∀ o ∈ spend.inputs, T.txid.Reads o.txid) ∧
      (∀ o ∈ spend.outputs, T.address.Reads o.address) ∧
      T.fingerprint.ReadsAll keystores
  | .psbtCreated _ => True
  | .signatureAdded fingerprint _ => T.fingerprint.Reads fingerprint
  | .finalized txid _ sigsUsed => T.txid.Reads txid ∧ T.fingerprint.ReadsAll sigsUsed
  | .broadcastSeen txid => T.txid.Reads txid
  | .confirmed txid _ blockHash => T.txid.Reads txid ∧ T.blockHash.Reads blockHash
  | .invalidated _ => True
  | .cancelled cancelledBy _ => T.uuid.Reads cancelledBy.uuid

instance : DecidablePred (Printable T) := fun e => by
  cases e <;> unfold Printable <;> infer_instance

/-- A row that names the variant of the event and carries its fields. -/
def Row : PsbtSessionEvent → Json → Prop := Document "type" name (entries T)

variable {T}

/-- The variant's own reader finds its fields wherever they stand. -/
theorem read_of_carries {e : PsbtSessionEvent} (h : e.Printable T) {fields : Fields}
    (hc : Carries fields (e.entries T)) : read T e.name fields = some e := by
  cases e with
  | initialized id walletId proposedBy spend threshold keystores =>
    obtain ⟨hid, hwallet, huser, hinputs, houtputs, hkeys⟩ := h
    have h1 : field fields "id" _ = some id :=
      hc.field (PsbtSessionId.codec_reads hid) (by simp [entries])
    have h2 : field fields "wallet_id" _ = some walletId :=
      hc.field (WalletId.codec_reads hwallet) (by simp [entries])
    have h3 : field fields "proposed_by" _ = some proposedBy :=
      hc.field (UserId.codec_reads huser) (by simp [entries])
    have h4 : field fields "inputs" _ = some spend.inputs :=
      hc.field (list_reads fun o ho => OutPointRef.codec_reads (hinputs o ho)) (by simp [entries])
    have h5 : field fields "outputs" _ = some spend.outputs :=
      hc.field (list_reads fun o ho => SpendOutput.codec_reads (houtputs o ho)) (by simp [entries])
    have h6 : field fields "fee_sats" _ = some spend.feeSats :=
      hc.field (u64Codec_reads _) (by simp [entries])
    have h7 : optionalField fields "change_output" _ = some spend.changeOutput :=
      hc.optionalField (fun c _ => ⟨ChangeOutput.codec_reads c, record_ne_null _ _ _ c⟩)
        (by simp [entries])
    have h8 : field fields "threshold" _ = some threshold :=
      hc.field (u32Codec_reads _) (by simp [entries])
    have h9 : field fields "keystores" _ = some keystores :=
      hc.field (fingerprintsCodec_reads hkeys) (by simp [entries])
    simp only [name, read, if_true, h1, h2, h3, h4, h5, h6, h7, h8, h9, Option.bind_eq_bind,
      Option.bind_some]
  | psbtCreated hash =>
    have h1 : field fields "unsigned_psbt_hash" _ = some hash :=
      hc.field (PsbtHash.codec_reads hash) (by simp [entries])
    simp [name, read, h1]
  | signatureAdded fingerprint hash =>
    have h1 : field fields "fingerprint" _ = some fingerprint :=
      hc.field (text_reads h) (by simp [entries])
    have h2 : field fields "signed_psbt_hash" _ = some hash :=
      hc.field (PsbtHash.codec_reads hash) (by simp [entries])
    simp [name, read, h1, h2]
  | finalized txid hash sigsUsed =>
    have h1 : field fields "txid" _ = some txid := hc.field (text_reads h.1) (by simp [entries])
    have h2 : field fields "final_tx_hash" _ = some hash :=
      hc.field (PsbtHash.codec_reads hash) (by simp [entries])
    have h3 : field fields "sigs_used" _ = some sigsUsed :=
      hc.field (fingerprintsCodec_reads h.2) (by simp [entries])
    simp [name, read, h1, h2, h3]
  | broadcastSeen txid =>
    have h1 : field fields "txid" _ = some txid := hc.field (text_reads h) (by simp [entries])
    simp [name, read, h1]
  | confirmed txid height blockHash =>
    have h1 : field fields "txid" _ = some txid := hc.field (text_reads h.1) (by simp [entries])
    have h2 : field fields "height" _ = some height := hc.field (u64Codec_reads _) (by simp [entries])
    have h3 : field fields "block_hash" _ = some blockHash :=
      hc.field (text_reads h.2) (by simp [entries])
    simp [name, read, h1, h2, h3]
  | invalidated reason =>
    have h1 : field fields "reason" _ = some reason :=
      hc.field (choice_reads (InvalidationReason.text_reads reason)) (by simp [entries])
    simp [name, read, h1]
  | cancelled cancelledBy reason =>
    have h1 : field fields "cancelled_by" _ = some cancelledBy :=
      hc.field (UserId.codec_reads h) (by simp [entries])
    have h2 : field fields "reason" _ = some reason := hc.field (string_reads _) (by simp [entries])
    simp [name, read, h1, h2]

theorem keys_name (e : PsbtSessionEvent) : keys e.name = (e.entries T).map Prod.fst := by
  cases e <;> rfl

/-- No variant uses a key twice, or the key of the tag. -/
theorem nodup_keys (e : PsbtSessionEvent) : ("type" :: (e.entries T).map Prod.fst).Nodup := by
  cases e <;> simp [entries]

theorem row_stored (e : PsbtSessionEvent) : Row T e ((codec T).encode e).jsonb :=
  document_stored (nodup_keys e)

theorem decode_row {e : PsbtSessionEvent} (h : e.Printable T) {j : Json} (hj : Row T e j) :
    (codec T).decode j = some e := decode_of_document (fun _ hc => read_of_carries h hc) hj

theorem codec_reads {e : PsbtSessionEvent} (h : e.Printable T) : (codec T).Reads e :=
  decode_row h (row_stored e)

/-- What the reader of a variant accepts is of that variant, and had all its fields; the change
output alone may be missing. -/
theorem read_eq_some {variant : String} {fields : Fields} {e : PsbtSessionEvent}
    (h : read T variant fields = some e) :
    variant = e.name ∧
      ∀ entry ∈ e.entries T, entry.1 ≠ "change_output" → Has fields entry.1 := by
  unfold read at h
  simp only [Option.bind_eq_bind] at h
  split at h
  · rename_i hname
    simp only [Option.bind_eq_some_iff, Option.some.injEq] at h
    obtain ⟨id, h1, walletId, h2, user, h3, inputs, h4, outputs, h5, fee, h6, change, -, threshold,
      h8, keystores, h9, rfl⟩ := h
    refine ⟨hname, ?_⟩
    simp [entries, field_has h1, field_has h2, field_has h3, field_has h4,
      field_has h5, field_has h6, field_has h8, field_has h9]
  split at h
  · rename_i hname
    simp only [Option.bind_eq_some_iff, Option.some.injEq] at h
    obtain ⟨hash, h1, rfl⟩ := h
    exact ⟨hname, by simp [entries, field_has h1]⟩
  split at h
  · rename_i hname
    simp only [Option.bind_eq_some_iff, Option.some.injEq] at h
    obtain ⟨fingerprint, h1, hash, h2, rfl⟩ := h
    exact ⟨hname, by simp [entries, field_has h1, field_has h2]⟩
  split at h
  · rename_i hname
    simp only [Option.bind_eq_some_iff, Option.some.injEq] at h
    obtain ⟨txid, h1, hash, h2, sigs, h3, rfl⟩ := h
    exact ⟨hname, by simp [entries, field_has h1, field_has h2, field_has h3]⟩
  split at h
  · rename_i hname
    simp only [Option.bind_eq_some_iff, Option.some.injEq] at h
    obtain ⟨txid, h1, rfl⟩ := h
    exact ⟨hname, by simp [entries, field_has h1]⟩
  split at h
  · rename_i hname
    simp only [Option.bind_eq_some_iff, Option.some.injEq] at h
    obtain ⟨txid, h1, height, h2, hash, h3, rfl⟩ := h
    exact ⟨hname, by simp [entries, field_has h1, field_has h2, field_has h3]⟩
  split at h
  · rename_i hname
    simp only [Option.bind_eq_some_iff, Option.some.injEq] at h
    obtain ⟨reason, h1, rfl⟩ := h
    exact ⟨hname, by simp [entries, field_has h1]⟩
  split at h
  · rename_i hname
    simp only [Option.bind_eq_some_iff, Option.some.injEq] at h
    obtain ⟨user, h1, reason, h2, rfl⟩ := h
    exact ⟨hname, by simp [entries, field_has h1, field_has h2]⟩
  · exact absurd h (by simp)

end PsbtSessionEvent

/-! ## Wallet events -/

namespace WalletEvent

variable (X : Extern) (T : Texts)

/-- The variant's name, in snake case. -/
def name : WalletEvent → String
  | .initialized .. => "initialized"
  | .keystoreAdded .. => "keystore_added"
  | .keystoreRemoved .. => "keystore_removed"
  | .activated .. => "activated"
  | .cancelled .. => "cancelled"

/-- The variant's fields. -/
def entries : WalletEvent → Fields
  | .initialized id network threshold participants =>
    [("id", (WalletId.codec T).encode id), ("network", (Codec.choice Network.text).encode network),
      ("threshold", u32Codec.encode threshold),
      ("participants", (Codec.list (UserId.codec T)).encode participants)]
  | .keystoreAdded keystore submittedBy =>
    [("keystore", (Codec.text (T.key X)).encode keystore),
      ("submitted_by", (UserId.codec T).encode submittedBy)]
  | .keystoreRemoved participant keystore removedBy =>
    [("participant", (UserId.codec T).encode participant),
      ("keystore", (Codec.text (T.key X)).encode keystore),
      ("removed_by", (UserId.codec T).encode removedBy)]
  | .activated descriptor fingerprint =>
    [("descriptor", (Codec.text (T.descriptor X)).encode descriptor),
      ("descriptor_fingerprint", DescriptorFingerprint.codec.encode fingerprint)]
  | .cancelled cancelledBy reason =>
    [("cancelled_by", (UserId.codec T).encode cancelledBy), ("reason", string.encode reason)]

/-- The fields of the variant with the given name, in the order they are declared. -/
def keys : String → List String
  | "initialized" => ["id", "network", "threshold", "participants"]
  | "keystore_added" => ["keystore", "submitted_by"]
  | "keystore_removed" => ["participant", "keystore", "removed_by"]
  | "activated" => ["descriptor", "descriptor_fingerprint"]
  | "cancelled" => ["cancelled_by", "reason"]
  | _ => []

/-- The reader of the variant with the given name; an unknown name is refused. -/
def read (variant : String) (fields : Fields) : Option WalletEvent :=
  if variant = "initialized" then do
    let id ← field fields "id" (WalletId.codec T)
    let network ← field fields "network" (.choice Network.text)
    let threshold ← field fields "threshold" u32Codec
    let participants ← field fields "participants" (.list (UserId.codec T))
    some (.initialized id network threshold participants)
  else if variant = "keystore_added" then do
    let keystore ← field fields "keystore" (.text (T.key X))
    let submittedBy ← field fields "submitted_by" (UserId.codec T)
    some (.keystoreAdded keystore submittedBy)
  else if variant = "keystore_removed" then do
    let participant ← field fields "participant" (UserId.codec T)
    let keystore ← field fields "keystore" (.text (T.key X))
    let removedBy ← field fields "removed_by" (UserId.codec T)
    some (.keystoreRemoved participant keystore removedBy)
  else if variant = "activated" then do
    let descriptor ← field fields "descriptor" (.text (T.descriptor X))
    let fingerprint ← field fields "descriptor_fingerprint" DescriptorFingerprint.codec
    some (.activated descriptor fingerprint)
  else if variant = "cancelled" then do
    let cancelledBy ← field fields "cancelled_by" (UserId.codec T)
    let reason ← field fields "reason" string
    some (.cancelled cancelledBy reason)
  else none

/-- The derived `Serialize` and `Deserialize`. -/
def codec : Codec WalletEvent := .tagged "type" keys name (entries X T) (read X T)

/-- Every text in the event parses back. -/
def Printable : WalletEvent → Prop
  | .initialized id _ _ participants =>
    T.uuid.Reads id.uuid ∧ ∀ user ∈ participants, T.uuid.Reads user.uuid
  | .keystoreAdded keystore submittedBy => (T.key X).Reads keystore ∧ T.uuid.Reads submittedBy.uuid
  | .keystoreRemoved participant keystore removedBy =>
    T.uuid.Reads participant.uuid ∧ (T.key X).Reads keystore ∧ T.uuid.Reads removedBy.uuid
  | .activated descriptor _ => (T.descriptor X).Reads descriptor
  | .cancelled cancelledBy _ => T.uuid.Reads cancelledBy.uuid

instance : DecidablePred (Printable X T) := fun e => by
  cases e <;> unfold Printable <;> infer_instance

/-- A row that names the variant of the event and carries its fields. -/
def Row : WalletEvent → Json → Prop := Document "type" name (entries X T)

variable {X T}

/-- The variant's own reader finds its fields wherever they stand. -/
theorem read_of_carries {e : WalletEvent} (h : e.Printable X T) {fields : Fields}
    (hc : Carries fields (e.entries X T)) : read X T e.name fields = some e := by
  cases e with
  | initialized id network threshold participants =>
    have h1 : field fields "id" _ = some id :=
      hc.field (WalletId.codec_reads h.1) (by simp [entries])
    have h2 : field fields "network" _ = some network :=
      hc.field (choice_reads (Network.text_reads network)) (by simp [entries])
    have h3 : field fields "threshold" _ = some threshold :=
      hc.field (u32Codec_reads _) (by simp [entries])
    have h4 : field fields "participants" _ = some participants :=
      hc.field (list_reads fun user huser => UserId.codec_reads (h.2 user huser))
        (by simp [entries])
    simp [name, read, h1, h2, h3, h4]
  | keystoreAdded keystore submittedBy =>
    have h1 : field fields "keystore" _ = some keystore :=
      hc.field (text_reads h.1) (by simp [entries])
    have h2 : field fields "submitted_by" _ = some submittedBy :=
      hc.field (UserId.codec_reads h.2) (by simp [entries])
    simp [name, read, h1, h2]
  | keystoreRemoved participant keystore removedBy =>
    have h1 : field fields "participant" _ = some participant :=
      hc.field (UserId.codec_reads h.1) (by simp [entries])
    have h2 : field fields "keystore" _ = some keystore :=
      hc.field (text_reads h.2.1) (by simp [entries])
    have h3 : field fields "removed_by" _ = some removedBy :=
      hc.field (UserId.codec_reads h.2.2) (by simp [entries])
    simp [name, read, h1, h2, h3]
  | activated descriptor fingerprint =>
    have h1 : field fields "descriptor" _ = some descriptor :=
      hc.field (text_reads h) (by simp [entries])
    have h2 : field fields "descriptor_fingerprint" _ = some fingerprint :=
      hc.field (DescriptorFingerprint.codec_reads fingerprint) (by simp [entries])
    simp [name, read, h1, h2]
  | cancelled cancelledBy reason =>
    have h1 : field fields "cancelled_by" _ = some cancelledBy :=
      hc.field (UserId.codec_reads h) (by simp [entries])
    have h2 : field fields "reason" _ = some reason := hc.field (string_reads _) (by simp [entries])
    simp [name, read, h1, h2]

theorem keys_name (e : WalletEvent) : keys e.name = (e.entries X T).map Prod.fst := by
  cases e <;> rfl

theorem nodup_keys (e : WalletEvent) : ("type" :: (e.entries X T).map Prod.fst).Nodup := by
  cases e <;> simp [entries]

theorem row_stored (e : WalletEvent) : Row X T e ((codec X T).encode e).jsonb :=
  document_stored (nodup_keys e)

theorem decode_row {e : WalletEvent} (h : e.Printable X T) {j : Json} (hj : Row X T e j) :
    (codec X T).decode j = some e := decode_of_document (fun _ hc => read_of_carries h hc) hj

theorem codec_reads {e : WalletEvent} (h : e.Printable X T) : (codec X T).Reads e :=
  decode_row h (row_stored e)

/-- What the reader of a variant accepts is of that variant, and had all its fields. -/
theorem read_eq_some {variant : String} {fields : Fields} {e : WalletEvent}
    (h : read X T variant fields = some e) :
    variant = e.name ∧ ∀ entry ∈ e.entries X T, Has fields entry.1 := by
  unfold read at h
  simp only [Option.bind_eq_bind] at h
  split at h
  · rename_i hname
    simp only [Option.bind_eq_some_iff, Option.some.injEq] at h
    obtain ⟨id, h1, network, h2, threshold, h3, participants, h4, rfl⟩ := h
    refine ⟨hname, ?_⟩
    simp [entries, field_has h1, field_has h2, field_has h3, field_has h4]
  split at h
  · rename_i hname
    simp only [Option.bind_eq_some_iff, Option.some.injEq] at h
    obtain ⟨keystore, h1, user, h2, rfl⟩ := h
    exact ⟨hname, by simp [entries, field_has h1, field_has h2]⟩
  split at h
  · rename_i hname
    simp only [Option.bind_eq_some_iff, Option.some.injEq] at h
    obtain ⟨participant, h1, keystore, h2, user, h3, rfl⟩ := h
    exact ⟨hname, by simp [entries, field_has h1, field_has h2, field_has h3]⟩
  split at h
  · rename_i hname
    simp only [Option.bind_eq_some_iff, Option.some.injEq] at h
    obtain ⟨descriptor, h1, fingerprint, h2, rfl⟩ := h
    exact ⟨hname, by simp [entries, field_has h1, field_has h2]⟩
  split at h
  · rename_i hname
    simp only [Option.bind_eq_some_iff, Option.some.injEq] at h
    obtain ⟨user, h1, reason, h2, rfl⟩ := h
    exact ⟨hname, by simp [entries, field_has h1, field_has h2]⟩
  · exact absurd h (by simp)

end WalletEvent

/-! ## Logs -/

/-- **A log is read back from its rows**, whatever their key order and whatever keys were added to
them since; the JSONB form of each event is such a row. -/
theorem stored_logs_load (X : Extern) (T : Texts) {log : List PsbtSessionEvent}
    (hlog : ∀ e ∈ log, e.Printable T) {rows : List Json}
    (hrows : List.Forall₂ (PsbtSessionEvent.Row T) log rows) {walletLog : List WalletEvent}
    (hwallet : ∀ e ∈ walletLog, e.Printable X T) {walletRows : List Json}
    (hwalletRows : List.Forall₂ (WalletEvent.Row X T) walletLog walletRows) :
    rows.mapM (PsbtSessionEvent.codec T).decode = some log ∧
      walletRows.mapM (WalletEvent.codec X T).decode = some walletLog ∧
      (∀ e ∈ log, PsbtSessionEvent.Row T e ((PsbtSessionEvent.codec T).encode e).jsonb) ∧
      ∀ e ∈ walletLog, WalletEvent.Row X T e ((WalletEvent.codec X T).encode e).jsonb := by
  refine ⟨mapM_decode_of_documents ?_, mapM_decode_of_documents ?_, fun e _ => e.row_stored,
    fun e _ => e.row_stored⟩
  · exact ((List.forall₂_and_left _ _).mpr ⟨hlog, hrows⟩).imp fun e j h =>
      PsbtSessionEvent.decode_row h.1 h.2
  · exact ((List.forall₂_and_left _ _).mpr ⟨hwallet, hwalletRows⟩).imp fun e j h =>
      WalletEvent.decode_row h.1 h.2

/-! ### A small instance -/

/-- Texts of the usual shapes, for the small values of a run that can be evaluated. -/
def Texts.sample : Texts where
  uuid := .named (fun n => "00000000-0000-4000-8000-00000000000" ++ String.ofList [Nat.digitChar n])
    (List.range 10)
  txid := .named (fun t => String.ofList (List.replicate 63 '0' ++ [Nat.digitChar t.val]))
    ((List.range 10).map Txid.mk)
  blockHash := .named (fun b => String.ofList (List.replicate 63 '0' ++ [Nat.digitChar b.val]))
    ((List.range 10).map BlockHash.mk)
  parseFingerprint s := ((List.range 10).map (Fin.ofNat _)).find? fun fp => fp.display == s
  parseAddress s := if s = "bc1" then some ⟨"bc1", [.bitcoin], .other [1]⟩ else none
  parseKey s := [Extern.Sample.key 1, Extern.Sample.key 2].find? fun k =>
    String.ofList (Extern.Sample.keyToString k) == s
  parseDescriptor s := [⟨1, [Extern.Sample.key 1]⟩].find? fun d =>
    String.ofList (d.display (.sample [])) == s
  serdeError _ := "unknown variant"

/-- A session's log with an event of every variant, and a wallet's. -/
def Texts.sampleLog : List PsbtSessionEvent :=
  [.initialized ⟨3⟩ ⟨1⟩ ⟨7⟩ ⟨[⟨⟨5⟩, 0⟩], [⟨⟨"bc1", [.bitcoin], .other [1]⟩, 1000⟩], 10, some ⟨5, 0⟩⟩ 1
      [1],
    .psbtCreated ⟨.replicate 32 0⟩, .signatureAdded 1 ⟨.replicate 32 1⟩,
    .finalized ⟨6⟩ ⟨.replicate 32 2⟩ [1], .broadcastSeen ⟨6⟩, .confirmed ⟨6⟩ 850000 ⟨9⟩,
    .invalidated .reorged, .cancelled ⟨7⟩ "superseded"]

def Texts.sampleWalletLog : List WalletEvent :=
  [.initialized ⟨1⟩ .signet 1 [⟨7⟩], .keystoreAdded (Extern.Sample.key 2) ⟨7⟩,
    .keystoreRemoved ⟨7⟩ (Extern.Sample.key 2) ⟨7⟩, .keystoreAdded (Extern.Sample.key 1) ⟨7⟩,
    .activated ⟨1, [Extern.Sample.key 1]⟩ ⟨.replicate 32 3⟩, .cancelled ⟨7⟩ "unused"]

theorem stored_logs_load_sample :
    (Texts.sampleLog.map fun e => ((PsbtSessionEvent.codec .sample).encode e).jsonb).mapM
        (PsbtSessionEvent.codec .sample).decode = some Texts.sampleLog ∧
      (Texts.sampleWalletLog.map fun e =>
          ((WalletEvent.codec (.sample []) .sample).encode e).jsonb).mapM
        (WalletEvent.codec (.sample []) .sample).decode = some Texts.sampleWalletLog := by
  obtain ⟨hlog, hwallet, -⟩ :=
    @stored_logs_load (.sample []) .sample Texts.sampleLog (by decide +kernel) _
      (List.forall₂_map_right_iff.mpr (List.forall₂_same.mpr fun e _ => e.row_stored))
      Texts.sampleWalletLog (by decide +kernel) _
      (List.forall₂_map_right_iff.mpr (List.forall₂_same.mpr fun e _ => e.row_stored))
  exact ⟨hlog, hwallet⟩

/-- **Only complete rows are accepted.** What decodes is an object that names the variant of the
event under `type` and has each of that variant's keys, but for the optional change output; or an
array of the variant's name and exactly one item for each of its fields. -/
theorem accepted_events_complete (X : Extern) (T : Texts) :
    (∀ j e, (PsbtSessionEvent.codec T).decode j = some e →
      (∃ fields, j = .obj fields ∧ fields.lookup "type" = some (.str e.name) ∧
        ∀ entry ∈ e.entries T, entry.1 ≠ "change_output" → Has fields entry.1) ∨
      ∃ items, j = .arr (.str e.name :: items) ∧ items.length = (e.entries T).length) ∧
    ∀ j e, (WalletEvent.codec X T).decode j = some e →
      (∃ fields, j = .obj fields ∧ fields.lookup "type" = some (.str e.name) ∧
        ∀ entry ∈ e.entries X T, Has fields entry.1) ∨
      ∃ items, j = .arr (.str e.name :: items) ∧ items.length = (e.entries X T).length := by
  constructor
  · intro j e h
    obtain ⟨variant, fields, hread, ⟨rfl, htag⟩ | ⟨items, rfl, hitems⟩⟩ := tagged_decode_eq_some h
    · obtain ⟨rfl, hhas⟩ := PsbtSessionEvent.read_eq_some hread
      exact Or.inl ⟨fields, rfl, htag, hhas⟩
    · obtain ⟨rfl, -⟩ := PsbtSessionEvent.read_eq_some hread
      have hlength := positional_eq_some hitems
      rw [PsbtSessionEvent.keys_name (T := T), List.length_map] at hlength
      exact Or.inr ⟨items, rfl, hlength⟩
  · intro j e h
    obtain ⟨variant, fields, hread, ⟨rfl, htag⟩ | ⟨items, rfl, hitems⟩⟩ := tagged_decode_eq_some h
    · obtain ⟨rfl, hhas⟩ := WalletEvent.read_eq_some hread
      exact Or.inl ⟨fields, rfl, htag, hhas⟩
    · obtain ⟨rfl, -⟩ := WalletEvent.read_eq_some hread
      have hlength := positional_eq_some hitems
      rw [WalletEvent.keys_name (X := X) (T := T), List.length_map] at hlength
      exact Or.inr ⟨items, rfl, hlength⟩

-- a row without keys, as no writer leaves it
example : (PsbtSessionEvent.codec .sample).decode
    (.arr [.str "invalidated", .obj [("reorged", .null)]]) = some (.invalidated .reorged) := rfl

end Kota
