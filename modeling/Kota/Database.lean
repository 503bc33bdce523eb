import Kota.Lib.EventTable
import Kota.ContentAddress
import Kota.EventFormat
import Kota.PsbtSession.Repo

/-!
# The database

The two repositories over the tables they really have (`migrations/20260101000000_core_setup.sql`,
the queries of `.sqlx` and the columns of `wallet/repo.rs` and `psbt_session/repo.rs`): an index
table and an events table for each kind of entity, the events as JSONB documents, statuses and
descriptor fingerprints as texts. Timestamps and the columns no code reads (`event_type`,
`context`) are left out.

* `WalletTables` and `SessionTables` carry the repository calls.
* `Fits`: the new events of an entity are such as their columns take. A JSONB column refuses texts
  with U+0000, which the reason of a cancellation may hold, and `sequence` is an `INT`.
* `Holds`: the tables hold these `Wallets`, or these `PsbtSessions`, and every event of them can be
  printed.
* **`findById_eq`, `create_agree`, `update_agree`**: then each call answers as on the stores, and the
  tables after a write hold what the store holds after it; a write of events that do not fit is
  refused (`fits_of_update`).
-/

namespace Kota

open EventLog EventTable JsonFormat

/-! ## Columns -/

/-- The texts of `WalletStatus` (`strum`, snake case). -/
def WalletStatus.name : WalletStatus → String
  | .collectingKeystores => "collecting_keystores"
  | .active => "active"
  | .cancelled => "cancelled"

def WalletStatus.text : TextForm WalletStatus :=
  .named WalletStatus.name [.collectingKeystores, .active, .cancelled]

/-- The texts of `PsbtSessionStatus` (`strum`, snake case). -/
def PsbtSessionStatus.name : PsbtSessionStatus → String
  | .pending => "pending"
  | .collecting => "collecting"
  | .finalized => "finalized"
  | .broadcast => "broadcast"
  | .confirmed => "confirmed"
  | .invalidated => "invalidated"
  | .cancelled => "cancelled"

def PsbtSessionStatus.text : TextForm PsbtSessionStatus :=
  .named PsbtSessionStatus.name
    [.pending, .collecting, .finalized, .broadcast, .confirmed, .invalidated, .cancelled]

theorem WalletStatus.text_reads (status : WalletStatus) : WalletStatus.text.Reads status := by
  cases status <;> decide

theorem PsbtSessionStatus.text_reads (status : PsbtSessionStatus) :
    PsbtSessionStatus.text.Reads status := by
  cases status <;> decide

/-- The columns of `core_wallets`, but for the id. -/
structure WalletColumns where
  status : String
  descriptorFingerprint : Option String
  deriving DecidableEq, Repr

/-- `UNIQUE` on a nullable column: two rows may both hold `NULL`. -/
def WalletColumns.clash (a b : WalletColumns) : Bool :=
  a.descriptorFingerprint.isSome && a.descriptorFingerprint == b.descriptorFingerprint

/-- The columns of `core_psbt_sessions`, but for the id. -/
structure SessionColumns where
  walletId : WalletId
  status : String
  deriving DecidableEq, Repr

/-- No column of a session is unique. -/
def SessionColumns.clash (_ _ : SessionColumns) : Bool := false

/-- The columns of a wallet, by the accessors `status()` and `descriptor_fingerprint()`. -/
def Wallet.columns (w : Wallet) : WalletColumns :=
  ⟨WalletStatus.text.print w.status, w.descriptorFingerprint.map DescriptorFingerprint.display⟩

/-- The columns of a session: its field `wallet_id`, and the accessor `status()`. -/
def PsbtSession.columns (s : PsbtSession) : SessionColumns :=
  ⟨s.walletId, PsbtSessionStatus.text.print s.status⟩

/-- The columns of the wallet with this log. -/
def walletColumns (log : List WalletEvent) : Option WalletColumns :=
  some ⟨WalletStatus.text.print (statusOf log),
    (Wallets.fingerprintOf log).map DescriptorFingerprint.display⟩

/-- The columns of the session with this log. -/
def sessionColumns (log : List PsbtSessionEvent) : Option SessionColumns :=
  (log.foldl PsbtSessionBuilder.event PsbtSessionBuilder.default).walletId.map fun walletId =>
    ⟨walletId, PsbtSessionStatus.text.print (.ofLog log)⟩

theorem DescriptorFingerprint.display_injective :
    Function.Injective DescriptorFingerprint.display := by
  rintro ⟨a⟩ ⟨b⟩ h
  exact congrArg DescriptorFingerprint.mk (encode32_injective h)

/-! ## Event rows -/

/-- What the columns of an events table take: a JSONB document, and a sequence number that is an
`INT`. -/
def fitsRow {ι : Type} (row : EventRow ι Json) : Bool :=
  row.event.storable && decide (row.sequence < 2 ^ 31)

/-- The new events of an entity are such as their columns take. -/
structure Fits {ι ε : Type} (store : ε → Json) (es : EntityEvents ι ε) : Prop where
  storable : ∀ e ∈ es.fresh, (store e).storable = true
  sequence : es.fresh ≠ [] → es.iterAll.length < 2 ^ 31

/-- The last of the rows has the highest number. -/
theorem fits_iff {ι ε : Type} {store : ε → Json} {es : EntityEvents ι ε} (id : ι) :
    (numbered id es.persisted.length (es.fresh.map store)).all fitsRow = true ↔ Fits store es := by
  have hlen : es.iterAll.length = es.persisted.length + es.fresh.length := List.length_append
  rw [List.all_eq_true]
  constructor
  · intro h
    have hrow : ∀ i (hi : i < es.fresh.length), (store es.fresh[i]).storable = true ∧
        i + 1 + es.persisted.length < 2 ^ 31 := by
      intro i hi
      have hfits := h ⟨id, i + 1 + es.persisted.length, store es.fresh[i]⟩
        (mem_numbered.mpr ⟨rfl, i, by simpa using hi, rfl, by simp [hi]⟩)
      rwa [fitsRow, Bool.and_eq_true, decide_eq_true_eq] at hfits
    refine ⟨fun e he => ?_, fun hne => ?_⟩
    · obtain ⟨i, hi, rfl⟩ := List.mem_iff_getElem.mp he
      exact (hrow i hi).1
    · have hpos := List.length_pos_iff.mpr hne
      have hlast := (hrow (es.fresh.length - 1) (by omega)).2
      omega
  · intro h row hrow
    obtain ⟨-, i, hi, hseq, hevent⟩ := mem_numbered.mp hrow
    rw [List.length_map] at hi
    rw [List.getElem?_map] at hevent
    obtain ⟨e, he, hstore⟩ := Option.map_eq_some_iff.mp hevent
    have hbound := h.sequence (List.ne_nil_of_length_pos (Nat.zero_lt_of_lt hi))
    rw [fitsRow, Bool.and_eq_true, decide_eq_true_eq, ← hstore]
    exact ⟨h.storable e (List.mem_of_getElem? he), by omega⟩

/-- Nothing is written. -/
theorem Fits.of_fresh_nil {ι ε : Type} {store : ε → Json} {es : EntityEvents ι ε}
    (h : es.fresh = []) : Fits store es :=
  ⟨fun _ he => absurd (h ▸ he) List.not_mem_nil, fun hne => absurd h hne⟩

/-- What begins a log that was stored fits. -/
theorem Fits.of_begins {ι ε : Type} {store : ε → Json} {es : EntityEvents ι ε} {log : List ε}
    (hbegins : es.iterAll <+: log) (hlen : log.length < 2 ^ 31)
    (hstore : ∀ e ∈ log, (store e).storable = true) : Fits store es where
  storable e he := hstore e (hbegins.subset (List.mem_append_right _ he))
  sequence _ := Nat.lt_of_le_of_lt hbegins.length_le hlen

/-! ## The repositories -/

abbrev WalletTables := Tables WalletId WalletColumns Json

abbrev SessionTables := Tables PsbtSessionId SessionColumns Json

section Repositories

variable (X : Extern) (T : Texts)

/-- What the events table holds of an event. -/
def WalletEvent.stored (e : WalletEvent) : Json := ((WalletEvent.codec X T).encode e).jsonb

def PsbtSessionEvent.stored (e : PsbtSessionEvent) : Json :=
  ((PsbtSessionEvent.codec T).encode e).jsonb

namespace WalletTables

/-- `WalletRepo::find_by_id`. -/
def findById (t : WalletTables) (id : WalletId) : Except FindError Wallet :=
  match t.find? id with
  | none => .error .notFound
  | some rows =>
    match rows.mapM (WalletEvent.codec X T).decode with
    | none => .error (.hydration (.eventDeserialization (T.serdeError rows)))
    | some log =>
      match Wallet.tryFromEvents (.load id log) with
      | .error e => .error (.hydration e)
      | .ok wallet => .ok wallet

/-- `WalletRepo::find_by_descriptor_fingerprint`. -/
def findByDescriptorFingerprint (t : WalletTables) (fingerprint : DescriptorFingerprint) :
    Except FindError Wallet :=
  let ids := t.idsWhere fun columns => columns.descriptorFingerprint == some fingerprint.display
  match ids.head? with
  | none => .error .notFound
  | some id => findById X T t id

/-- `WalletRepo::create`. A new wallet has no fingerprint, so its id is all that can be taken. -/
def create (t : WalletTables) (n : NewWallet) : Except CreateError (Wallet × WalletTables) :=
  match Tables.create WalletColumns.clash fitsRow t n.id n.registered.columns
      (n.intoEvents.iterAll.map (WalletEvent.stored X T)) with
  | .error .primaryKey => .error .duplicateId
  | .error _ => .error .sqlx
  | .ok t => .ok (n.registered, t)

/-- `WalletRepo::update`. -/
def update (t : WalletTables) (wallet : Wallet) : Except ModifyError WalletTables :=
  if wallet.events.fresh.isEmpty then .ok t
  else match Tables.update WalletColumns.clash fitsRow t wallet.id wallet.columns
      wallet.events.persisted.length (wallet.events.fresh.map (WalletEvent.stored X T)) with
    | .error .uniqueColumn => .error .duplicateFingerprint
    | .error .uniqueSequence => .error .concurrentModification
    | .error _ => .error .sqlx
    | .ok t => .ok t

end WalletTables

namespace SessionTables

/-- `PsbtSessionRepo::find_by_id`. -/
def findById (t : SessionTables) (id : PsbtSessionId) : Except FindError PsbtSession :=
  match t.find? id with
  | none => .error .notFound
  | some rows =>
    match rows.mapM (PsbtSessionEvent.codec T).decode with
    | none => .error (.hydration (.eventDeserialization (T.serdeError rows)))
    | some log =>
      match PsbtSession.tryFromEvents (.load id log) with
      | .error e => .error (.hydration e)
      | .ok session => .ok session

/-- `PsbtSessionRepo::create`. -/
def create (t : SessionTables) (n : NewPsbtSession) :
    Except CreateError (PsbtSession × SessionTables) :=
  match Tables.create SessionColumns.clash fitsRow t n.id n.proposed.columns
      (n.intoEvents.iterAll.map (PsbtSessionEvent.stored T)) with
  | .error .primaryKey => .error .duplicateId
  | .error _ => .error .sqlx
  | .ok t => .ok (n.proposed, t)

/-- `PsbtSessionRepo::update`. -/
def update (t : SessionTables) (session : PsbtSession) : Except ModifyError SessionTables :=
  if session.events.fresh.isEmpty then .ok t
  else match Tables.update SessionColumns.clash fitsRow t session.id session.columns
      session.events.persisted.length
      (session.events.fresh.map (PsbtSessionEvent.stored T)) with
    | .error .uniqueSequence => .error .concurrentModification
    | .error _ => .error .sqlx
    | .ok t => .ok t

end SessionTables

end Repositories

/-! ## What tables hold of a store -/

section Represents

variable (X : Extern) (T : Texts)

/-- The tables hold these wallets, every event of them printable. -/
structure WalletTables.Holds (t : WalletTables) (wallets : Wallets) : Prop where
  repr : Represents walletColumns (WalletEvent.stored X T) t wallets
  printable : ∀ row ∈ wallets.rows, ∀ e ∈ row.2, e.Printable X T

/-- The tables hold these sessions, every event of them printable. -/
structure SessionTables.Holds (t : SessionTables) (sessions : PsbtSessions) : Prop where
  repr : Represents sessionColumns (PsbtSessionEvent.stored T) t sessions
  printable : ∀ row ∈ sessions.rows, ∀ e ∈ row.2, e.Printable T

variable {X T}

namespace WalletTables

variable {t : WalletTables} {wallets : Wallets}

/-- **Loading a wallet** from the tables is loading it from its log. -/
theorem Holds.findById_eq (h : Holds X T t wallets) (id : WalletId) :
    findById X T t id = wallets.findById id := by
  unfold findById Wallets.findById
  rw [h.repr.find?_eq]
  cases hlog : wallets.find? id with
  | none => rfl
  | some log =>
    have hdecode : (log.map (WalletEvent.stored X T)).mapM (WalletEvent.codec X T).decode =
        some log := by
      refine Codec.mapM_decode_of_documents (List.forall₂_map_right_iff.mpr ?_)
      exact List.forall₂_same.mpr fun e he =>
        WalletEvent.codec_reads (h.printable _ (mem_rows_of_find? hlog) e he)
    cases hload : Wallet.tryFromEvents (.load id log) <;>
      simp only [Option.map_some, hdecode, hload]

/-- **Loading a wallet by its fingerprint column** is looking its log up by the fingerprint. -/
theorem Holds.findByDescriptorFingerprint_eq (h : Holds X T t wallets)
    (fingerprint : DescriptorFingerprint) :
    findByDescriptorFingerprint X T t fingerprint =
      wallets.findByDescriptorFingerprint fingerprint := by
  have htest : ∀ row : WalletId × List WalletEvent,
      ((walletColumns row.2).any fun columns =>
        columns.descriptorFingerprint == some fingerprint.display) =
      (Wallets.fingerprintOf row.2 == some fingerprint) := by
    intro row
    show ((Wallets.fingerprintOf row.2).map DescriptorFingerprint.display ==
      some fingerprint.display) = _
    rw [Bool.eq_iff_iff, beq_iff_eq, beq_iff_eq, ← Option.map_some,
      (Option.map_injective DescriptorFingerprint.display_injective).eq_iff]
  unfold findByDescriptorFingerprint Wallets.findByDescriptorFingerprint
  dsimp only
  rw [h.repr.idsWhere_eq, List.head?_map, List.head?_filter]
  simp only [htest]
  cases wallets.rows.find? fun row => Wallets.fingerprintOf row.2 == some fingerprint with
  | none => rfl
  | some row => exact h.findById_eq row.1

/-- Creating a wallet: the same answer, and the tables hold what the store then holds. -/
theorem Holds.create_agree (h : Holds X T t wallets) {n : NewWallet}
    (hprint : ∀ e ∈ n.intoEvents.iterAll, e.Printable X T)
    (hfits : Fits (WalletEvent.stored X T) n.intoEvents) :
    Agree (fun a b => a.1 = b.1 ∧ Holds X T a.2 b.2) (create X T t n) (wallets.create n) := by
  have hfree : Represents.Taken walletColumns WalletColumns.clash wallets n.id
      n.registered.columns = false := by
    refine List.any_eq_false.mpr fun row _ => ?_
    show ¬ ((row.1 != n.id) && WalletColumns.clash _ ⟨_, none⟩) = true
    unfold WalletColumns.clash
    cases (Wallets.fingerprintOf row.2).map DescriptorFingerprint.display <;> simp
  unfold create Wallets.create
  have hcols : walletColumns n.intoEvents.iterAll = some n.registered.columns := rfl
  rcases h.repr.create_eq WalletColumns.clash fitsRow n.id hcols (by simp [NewWallet.intoEvents])
    with ⟨hold, herr⟩ | ⟨-, htaken, -⟩ | ⟨-, hrefused, -⟩ | ⟨-, -, t', wallets', hok, hcreate, hrepr⟩
  · rw [herr]
    unfold Store.create
    cases hfind : Store.find? wallets n.id with
    | none => exact absurd hfind hold
    | some log => rfl
  · rw [hfree] at htaken
    exact absurd htaken Bool.false_ne_true
  · exact absurd (((fits_iff n.id).mpr hfits).symm.trans hrefused) (by simp)
  · rw [hok, hcreate]
    exact ⟨rfl, hrepr, Represents.forall_events_create h.printable hprint hcreate⟩

/-- A wallet in memory: its persisted events were once its log. -/
structure Held (X : Extern) (wallets : Wallets) (w : Wallet) : Prop where
  inv : Wallet.Inv X w
  replays : w.Replays
  loaded : ∃ log, wallets.find? w.id = some log ∧ w.events.persisted <+: log

theorem taken_eq (wallets : Wallets) (w : Wallet) :
    Represents.Taken walletColumns WalletColumns.clash wallets w.id w.columns =
      wallets.rows.any fun row => row.1 != w.id && w.descriptorFingerprint.isSome &&
        Wallets.fingerprintOf row.2 == w.descriptorFingerprint := by
  have hrow : ∀ row : WalletId × List WalletEvent,
      ((walletColumns row.2).any fun c => row.1 != w.id && WalletColumns.clash c w.columns) =
      (row.1 != w.id && w.descriptorFingerprint.isSome &&
        Wallets.fingerprintOf row.2 == w.descriptorFingerprint) := by
    intro row
    show (row.1 != w.id && (((Wallets.fingerprintOf row.2).map DescriptorFingerprint.display).isSome &&
      (Wallets.fingerprintOf row.2).map DescriptorFingerprint.display ==
        w.descriptorFingerprint.map DescriptorFingerprint.display)) = _
    have hinj := (Option.map_injective DescriptorFingerprint.display_injective).eq_iff
      (a := Wallets.fingerprintOf row.2) (b := w.descriptorFingerprint)
    rw [Bool.and_assoc, Option.isSome_map]
    congr 1
    rw [Bool.eq_iff_iff, Bool.and_eq_true, Bool.and_eq_true, beq_iff_eq, beq_iff_eq, hinj]
    constructor
    · rintro ⟨h, heq⟩
      exact ⟨heq ▸ h, heq⟩
    · rintro ⟨h, heq⟩
      exact ⟨heq ▸ h, heq⟩
  unfold Represents.Taken
  simp only [hrow]

/-- Saving a wallet: the same answer, and the tables hold what the store then holds. -/
theorem Holds.update_agree (h : Holds X T t wallets) {w : Wallet} (hw : Held X wallets w)
    (hprint : ∀ e ∈ w.log, e.Printable X T) (hfits : Fits (WalletEvent.stored X T) w.events) :
    Agree (Holds X T) (update X T t w) (wallets.update w) := by
  obtain ⟨log, hlog, hbegins⟩ := hw.loaded
  unfold update Wallets.update
  split
  · exact h
  · rename_i hfresh
    have hcols : w.events.persisted.length = log.length →
        walletColumns (log ++ w.events.fresh) = some w.columns := by
      intro hlen
      rw [← hbegins.eq_of_length hlen]
      rfl
    rcases h.repr.update_eq WalletColumns.clash fitsRow hlog hbegins.length_le hcols
      (fun hnil => hfresh (List.isEmpty_iff.mpr hnil)) with ⟨htaken, herr⟩ | ⟨hrefused, -⟩ |
      ⟨htaken, hlt, herr⟩ | ⟨htaken, hlen, t', wallets', hok, happend, hrepr⟩
    · rw [taken_eq] at htaken
      rw [herr, if_pos htaken]
      rfl
    · exact absurd (((fits_iff w.id).mpr hfits).symm.trans hrefused) (by simp)
    · rw [taken_eq] at htaken
      rw [herr, if_neg (by rw [htaken]; exact Bool.false_ne_true)]
      unfold Store.append
      rw [hlog]
      dsimp only
      rw [if_pos hlt]
      rfl
    · rw [taken_eq] at htaken
      rw [hok, if_neg (by rw [htaken]; exact Bool.false_ne_true), happend]
      exact ⟨hrepr, Represents.forall_events_append h.printable
        (fun e he => hprint e (List.mem_append_right _ he)) happend⟩

/-- What was saved were events that fit. -/
theorem fits_of_update {w : Wallet} {t' : WalletTables} (h : update X T t w = .ok t') :
    Fits (WalletEvent.stored X T) w.events := by
  unfold update at h
  split at h
  · rename_i hfresh
    exact .of_fresh_nil (List.isEmpty_iff.mp hfresh)
  · cases hu : Tables.update WalletColumns.clash fitsRow t w.id w.columns w.events.persisted.length
        (w.events.fresh.map (WalletEvent.stored X T)) with
    | error v =>
      rw [hu] at h
      cases v <;> exact absurd h (by simp)
    | ok t' => exact (fits_iff w.id).mp (Tables.takes_of_update hu)

theorem fits_of_create {n : NewWallet} {r : Wallet × WalletTables} (h : create X T t n = .ok r) :
    Fits (WalletEvent.stored X T) n.intoEvents := by
  unfold create at h
  cases hc : Tables.create WalletColumns.clash fitsRow t n.id n.registered.columns
      (n.intoEvents.iterAll.map (WalletEvent.stored X T)) with
  | error v =>
    rw [hc] at h
    cases v <;> exact absurd h (by simp)
  | ok t' => exact (fits_iff n.id).mp (Tables.takes_of_create hc)

end WalletTables

namespace SessionTables

variable {t : SessionTables} {sessions : PsbtSessions}

/-- **Loading a session** from the tables is loading it from its log. -/
theorem Holds.findById_eq (h : Holds T t sessions) (id : PsbtSessionId) :
    findById T t id = sessions.findById id := by
  unfold findById PsbtSessions.findById
  rw [h.repr.find?_eq]
  cases hlog : sessions.find? id with
  | none => rfl
  | some log =>
    have hdecode : (log.map (PsbtSessionEvent.stored T)).mapM (PsbtSessionEvent.codec T).decode =
        some log := by
      refine Codec.mapM_decode_of_documents (List.forall₂_map_right_iff.mpr ?_)
      exact List.forall₂_same.mpr fun e he =>
        PsbtSessionEvent.codec_reads (h.printable _ (mem_rows_of_find? hlog) e he)
    cases hload : PsbtSession.tryFromEvents (.load id log) <;>
      simp only [Option.map_some, hdecode, hload]

theorem taken_eq_false (sessions : PsbtSessions) (id : PsbtSessionId) (cols : SessionColumns) :
    Represents.Taken sessionColumns SessionColumns.clash sessions id cols = false := by
  refine List.any_eq_false.mpr fun row _ => ?_
  cases sessionColumns row.2 <;> simp [SessionColumns.clash]

/-- Creating a session: the same answer, and the tables hold what the store then holds. -/
theorem Holds.create_agree (h : Holds T t sessions) {n : NewPsbtSession}
    (hprint : ∀ e ∈ n.proposed.log, e.Printable T)
    (hfits : Fits (PsbtSessionEvent.stored T) n.intoEvents) :
    Agree (fun a b => a.1 = b.1 ∧ Holds T a.2 b.2) (create T t n) (sessions.create n) := by
  unfold create PsbtSessions.create
  have hcols : sessionColumns n.intoEvents.iterAll = some n.proposed.columns := rfl
  rcases h.repr.create_eq SessionColumns.clash fitsRow n.id hcols
    (by simp [NewPsbtSession.intoEvents]) with ⟨hold, herr⟩ | ⟨-, htaken, -⟩ | ⟨-, hrefused, -⟩ |
    ⟨-, -, t', sessions', hok, hcreate, hrepr⟩
  · rw [herr]
    unfold Store.create
    cases hfind : Store.find? sessions n.id with
    | none => exact absurd hfind hold
    | some log => rfl
  · rw [taken_eq_false] at htaken
    exact absurd htaken Bool.false_ne_true
  · exact absurd (((fits_iff n.id).mpr hfits).symm.trans hrefused) (by simp)
  · rw [hok, hcreate]
    exact ⟨rfl, hrepr, Represents.forall_events_create h.printable hprint hcreate⟩

/-- A session in memory: its persisted events were once its log. -/
structure Held (sessions : PsbtSessions) (s : PsbtSession) : Prop where
  grammatical : PsbtSession.Grammatical s
  loaded : ∃ log, sessions.find? s.id = some log ∧ s.events.persisted <+: log

/-- The columns of a session in memory are those of its log. -/
theorem sessionColumns_log {s : PsbtSession} (h : PsbtSession.Hydrates s) :
    sessionColumns s.log = some s.columns := by
  unfold sessionColumns
  rw [h]
  rfl

/-- Saving a session: the same answer, and the tables hold what the store then holds. -/
theorem Holds.update_agree (h : Holds T t sessions) {s : PsbtSession} (hs : Held sessions s)
    (hprint : ∀ e ∈ s.log, e.Printable T) (hfits : Fits (PsbtSessionEvent.stored T) s.events) :
    Agree (Holds T) (update T t s) (sessions.update s) := by
  obtain ⟨log, hlog, hbegins⟩ := hs.loaded
  unfold update PsbtSessions.update
  split
  · exact h
  · rename_i hfresh
    have hcols : s.events.persisted.length = log.length →
        sessionColumns (log ++ s.events.fresh) = some s.columns := by
      intro hlen
      rw [← hbegins.eq_of_length hlen]
      exact sessionColumns_log hs.grammatical.loaded.hydrates
    rcases h.repr.update_eq SessionColumns.clash fitsRow hlog hbegins.length_le hcols
      (fun hnil => hfresh (List.isEmpty_iff.mpr hnil)) with ⟨htaken, -⟩ | ⟨hrefused, -⟩ |
      ⟨-, hlt, herr⟩ | ⟨-, hlen, t', sessions', hok, happend, hrepr⟩
    · rw [taken_eq_false] at htaken
      exact absurd htaken Bool.false_ne_true
    · exact absurd (((fits_iff s.id).mpr hfits).symm.trans hrefused) (by simp)
    · rw [herr]
      unfold Store.append
      rw [hlog]
      dsimp only
      rw [if_pos hlt]
      rfl
    · rw [hok, happend]
      exact ⟨hrepr, Represents.forall_events_append h.printable
        (fun e he => hprint e (List.mem_append_right _ he)) happend⟩

/-- What was saved were events that fit. -/
theorem fits_of_update {s : PsbtSession} {t' : SessionTables} (h : update T t s = .ok t') :
    Fits (PsbtSessionEvent.stored T) s.events := by
  unfold update at h
  split at h
  · rename_i hfresh
    exact .of_fresh_nil (List.isEmpty_iff.mp hfresh)
  · cases hu : Tables.update SessionColumns.clash fitsRow t s.id s.columns
        s.events.persisted.length (s.events.fresh.map (PsbtSessionEvent.stored T)) with
    | error v =>
      rw [hu] at h
      cases v <;> exact absurd h (by simp)
    | ok t' => exact (fits_iff s.id).mp (Tables.takes_of_update hu)

theorem fits_of_create {n : NewPsbtSession} {r : PsbtSession × SessionTables}
    (h : create T t n = .ok r) : Fits (PsbtSessionEvent.stored T) n.intoEvents := by
  unfold create at h
  cases hc : Tables.create SessionColumns.clash fitsRow t n.id n.proposed.columns
      (n.intoEvents.iterAll.map (PsbtSessionEvent.stored T)) with
  | error v =>
    rw [hc] at h
    cases v <;> exact absurd h (by simp)
  | ok t' => exact (fits_iff n.id).mp (Tables.takes_of_create hc)

end SessionTables

end Represents

end Kota
