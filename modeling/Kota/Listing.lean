import Kota.Lib.Keyset
import Kota.Backend
import Mathlib.Data.Prod.Lex

/-!
# Listing the entities

The `list_…` queries of the two repositories (`.sqlx`): the rows of the index with a status, or all
of them, after a cursor, in the order of `id` or of `(created_at, id)`, in either direction, up to a
limit, each loaded as `find_by_id` loads it. Requests write between two pages.

* `Lists`: the queries, each with the order and the filter it has.
* **`Backend.listings_complete`**: pages read one after another repeat nothing, each holds what
  loads with that status when it is read, and once a page is short no entity was missed that had
  the status at every page; without a status, none that was there at the first.
-/

namespace Kota

open EventLog EventTable JsonFormat Keyset

/-! ## Queries -/

section Orders

variable {ι : Type} (uuid : ι → Nat) (huuid : Function.Injective uuid)

/-- `ORDER BY id`. -/
def orderById : ListOrder ι := ⟨Nat, inferInstance, uuid, huuid⟩

/-- `ORDER BY created_at, id`. The column is set by the insert of a row and by no update, so it is
a function of the id. -/
def orderByCreatedAt (createdAt : ι → Int) : ListOrder ι where
  Key := Int ×ₗ Nat
  linear := inferInstance
  key id := toLex (createdAt id, uuid id)
  injective _ _ h := huuid (congrArg Prod.snd (toLex.injective h))

end Orders

inductive ListDirection where
  | ascending
  | descending
  deriving DecidableEq, Repr

def ListDirection.of {ι : Type} (order : ListOrder ι) : ListDirection → ListOrder ι
  | .ascending => order
  | .descending => order.reverse

/-- `COALESCE(status = $1, $1 IS NULL)`, where the columns hold the texts that statuses print to. -/
def statusFilter {σ : Type} (print : σ → String) (filter : Option σ) (status : String) : Bool :=
  (filter.map fun s => status == print s).getD true

theorem WalletId.uuid_injective : Function.Injective WalletId.uuid := fun a b h => by
  cases a; cases b; exact congrArg _ h

theorem PsbtSessionId.uuid_injective : Function.Injective PsbtSessionId.uuid := fun a b h => by
  cases a; cases b; exact congrArg _ h

section Repositories

variable (X : Extern) (T : Texts)

namespace WalletTables

def reading (t : WalletTables) (filter : Option WalletStatus) :
    Reading WalletId FindError Wallet where
  ids := t.idsWhere fun columns => statusFilter WalletStatus.text.print filter columns.status
  joined id := (t.find? id).isSome
  load := findById X T t

variable (t : WalletTables) (after : Option WalletId) (limit : Nat) (direction : ListDirection)

/-- What the queries have in common. -/
def list (order : ListOrder WalletId) (filter : Option WalletStatus) :
    Except FindError (List Wallet) :=
  (reading X T t filter).page order limit after

def byId : ListOrder WalletId := orderById WalletId.uuid WalletId.uuid_injective

def byCreatedAt (createdAt : WalletId → Int) : ListOrder WalletId :=
  orderByCreatedAt WalletId.uuid WalletId.uuid_injective createdAt

def listById : Except FindError (List Wallet) := list X T t after limit (direction.of byId) none

def listByCreatedAt (createdAt : WalletId → Int) : Except FindError (List Wallet) :=
  list X T t after limit (direction.of (byCreatedAt createdAt)) none

def listForStatusById (status : WalletStatus) : Except FindError (List Wallet) :=
  list X T t after limit (direction.of byId) (some status)

def listForFiltersById (filter : Option WalletStatus) : Except FindError (List Wallet) :=
  list X T t after limit (direction.of byId) filter

def listForFiltersByCreatedAt (createdAt : WalletId → Int) (filter : Option WalletStatus) :
    Except FindError (List Wallet) :=
  list X T t after limit (direction.of (byCreatedAt createdAt)) filter

/-- The list queries of `WalletRepo`, each with the order and the filter it has. -/
inductive Lists (limit : Nat) : ListOrder WalletId → Option WalletStatus →
    (Option WalletId → WalletTables → Except FindError (List Wallet)) → Prop
  | byId (direction : ListDirection) :
      Lists limit (direction.of byId) none fun after t => listById X T t after limit direction
  | byCreatedAt (direction : ListDirection) (createdAt : WalletId → Int) :
      Lists limit (direction.of (byCreatedAt createdAt)) none fun after t =>
        listByCreatedAt X T t after limit direction createdAt
  | forStatusById (direction : ListDirection) (status : WalletStatus) :
      Lists limit (direction.of byId) (some status) fun after t =>
        listForStatusById X T t after limit direction status
  | forFiltersById (direction : ListDirection) (filter : Option WalletStatus) :
      Lists limit (direction.of byId) filter fun after t =>
        listForFiltersById X T t after limit direction filter
  | forFiltersByCreatedAt (direction : ListDirection) (createdAt : WalletId → Int)
      (filter : Option WalletStatus) :
      Lists limit (direction.of (byCreatedAt createdAt)) filter fun after t =>
        listForFiltersByCreatedAt X T t after limit direction createdAt filter

end WalletTables

namespace SessionTables

def reading (t : SessionTables) (filter : Option PsbtSessionStatus) :
    Reading PsbtSessionId FindError PsbtSession where
  ids := t.idsWhere fun columns => statusFilter PsbtSessionStatus.text.print filter columns.status
  joined id := (t.find? id).isSome
  load := findById T t

variable (t : SessionTables) (after : Option PsbtSessionId) (limit : Nat)
  (direction : ListDirection)

/-- What the queries have in common. -/
def list (order : ListOrder PsbtSessionId) (filter : Option PsbtSessionStatus) :
    Except FindError (List PsbtSession) :=
  (reading T t filter).page order limit after

def byId : ListOrder PsbtSessionId := orderById PsbtSessionId.uuid PsbtSessionId.uuid_injective

def byCreatedAt (createdAt : PsbtSessionId → Int) : ListOrder PsbtSessionId :=
  orderByCreatedAt PsbtSessionId.uuid PsbtSessionId.uuid_injective createdAt

def listById : Except FindError (List PsbtSession) := list T t after limit (direction.of byId) none

def listByCreatedAt (createdAt : PsbtSessionId → Int) : Except FindError (List PsbtSession) :=
  list T t after limit (direction.of (byCreatedAt createdAt)) none

def listForStatusById (status : PsbtSessionStatus) : Except FindError (List PsbtSession) :=
  list T t after limit (direction.of byId) (some status)

def listForFiltersById (filter : Option PsbtSessionStatus) :
    Except FindError (List PsbtSession) :=
  list T t after limit (direction.of byId) filter

def listForFiltersByCreatedAt (createdAt : PsbtSessionId → Int)
    (filter : Option PsbtSessionStatus) : Except FindError (List PsbtSession) :=
  list T t after limit (direction.of (byCreatedAt createdAt)) filter

/-- The list queries of `PsbtSessionRepo`, each with the order and the filter it has. -/
inductive Lists (limit : Nat) : ListOrder PsbtSessionId → Option PsbtSessionStatus →
    (Option PsbtSessionId → SessionTables → Except FindError (List PsbtSession)) → Prop
  | byId (direction : ListDirection) :
      Lists limit (direction.of byId) none fun after t => listById T t after limit direction
  | byCreatedAt (direction : ListDirection) (createdAt : PsbtSessionId → Int) :
      Lists limit (direction.of (byCreatedAt createdAt)) none fun after t =>
        listByCreatedAt T t after limit direction createdAt
  | forStatusById (direction : ListDirection) (status : PsbtSessionStatus) :
      Lists limit (direction.of byId) (some status) fun after t =>
        listForStatusById T t after limit direction status
  | forFiltersById (direction : ListDirection) (filter : Option PsbtSessionStatus) :
      Lists limit (direction.of byId) filter fun after t =>
        listForFiltersById T t after limit direction filter
  | forFiltersByCreatedAt (direction : ListDirection) (createdAt : PsbtSessionId → Int)
      (filter : Option PsbtSessionStatus) :
      Lists limit (direction.of (byCreatedAt createdAt)) filter fun after t =>
        listForFiltersByCreatedAt T t after limit direction createdAt filter

end SessionTables

end Repositories

/-! ## What a page is read from -/

section Walks

variable {X : Extern} {T : Texts} {limit : Nat}

/-- Reading the pages of a list query is a walk over its readings. -/
theorem WalletTables.Lists.readPages_eq {order : ListOrder WalletId} {filter : Option WalletStatus}
    {query : Option WalletId → WalletTables → Except FindError (List Wallet)}
    (h : Lists X T limit order filter query) (reads : List Backend) :
    readPages Wallet.id (fun after b => query after b.wallets) none reads =
      walk Wallet.id order limit none (reads.map fun b => reading X T b.wallets filter) := by
  rw [← readPages_eq_walk]
  cases h <;> rfl

theorem SessionTables.Lists.readPages_eq {order : ListOrder PsbtSessionId}
    {filter : Option PsbtSessionStatus}
    {query : Option PsbtSessionId → SessionTables → Except FindError (List PsbtSession)}
    (h : Lists T limit order filter query) (reads : List Backend) :
    readPages PsbtSession.id (fun after b => query after b.sessions) none reads =
      walk PsbtSession.id order limit none (reads.map fun b => reading T b.sessions filter) := by
  rw [← readPages_eq_walk]
  cases h <;> rfl

end Walks

theorem statusFilter_eq_true {σ : Type} {print : σ → String} (hinj : Function.Injective print)
    {filter : Option σ} {status : σ} :
    statusFilter print filter (print status) = true ↔ ∀ s ∈ filter, status = s := by
  cases filter with
  | none => simp [statusFilter]
  | some s =>
    rw [statusFilter, Option.map_some, Option.getD_some, beq_iff_eq]
    exact ⟨fun h s' hs' => Option.mem_some.mp hs' ▸ hinj h, fun h => congrArg print (h s rfl)⟩

theorem nodup_idsWhere {ι κ π : Type} {t : Tables ι κ π} (h : t.ids.Nodup) (p : κ → Bool) :
    (t.idsWhere p).Nodup :=
  h.sublist (List.filter_sublist.map Prod.fst)

namespace Backend.Represents

variable {X : Extern} {T : Texts} {b : Backend} {wallets : Wallets} {sessions : PsbtSessions}

/-- A wallet reading has the wallets that load with the status. -/
theorem mem_walletReading (h : Represents X T b wallets sessions) {filter : Option WalletStatus}
    {id : WalletId} :
    id ∈ (WalletTables.reading X T b.wallets filter).ids ↔
      ∃ w, WalletTables.findById X T b.wallets id = .ok w ∧ ∀ s ∈ filter, w.status = s := by
  unfold WalletTables.reading
  dsimp only
  rw [Tables.mem_idsWhere]
  constructor
  · rintro ⟨columns, hrow, hstatus⟩
    obtain ⟨w, hw, rfl⟩ := h.mem_walletIndex.mp hrow
    exact ⟨w, hw, (statusFilter_eq_true WalletStatus.name_injective).mp hstatus⟩
  · rintro ⟨w, hw, hstatus⟩
    exact ⟨w.columns, h.mem_walletIndex.mpr ⟨w, hw, rfl⟩,
      (statusFilter_eq_true WalletStatus.name_injective).mpr hstatus⟩

theorem mem_sessionReading (h : Represents X T b wallets sessions)
    {filter : Option PsbtSessionStatus} {id : PsbtSessionId} :
    id ∈ (SessionTables.reading T b.sessions filter).ids ↔
      ∃ s, SessionTables.findById T b.sessions id = .ok s ∧ ∀ st ∈ filter, s.status = st := by
  unfold SessionTables.reading
  dsimp only
  rw [Tables.mem_idsWhere]
  constructor
  · rintro ⟨columns, hrow, hstatus⟩
    obtain ⟨s, hs, rfl⟩ := h.mem_sessionIndex.mp hrow
    exact ⟨s, hs, (statusFilter_eq_true PsbtSessionStatus.name_injective).mp hstatus⟩
  · rintro ⟨s, hs, hstatus⟩
    exact ⟨s.columns, h.mem_sessionIndex.mpr ⟨s, hs, rfl⟩,
      (statusFilter_eq_true PsbtSessionStatus.name_injective).mpr hstatus⟩

theorem walletReading_sound (h : Represents X T b wallets sessions)
    (filter : Option WalletStatus) :
    (WalletTables.reading X T b.wallets filter).Sound Wallet.id where
  nodup := by
    unfold WalletTables.reading
    dsimp only
    exact nodup_idsWhere (h.walletTables.repr.ids_eq ▸ h.walletTables.repr.nodup) _
  joined id hid := by
    obtain ⟨w, hw, -⟩ := h.mem_walletReading.mp hid
    show (b.wallets.find? id).isSome = true
    rw [h.walletTables.repr.find?_eq, (h.findWallet_iff.mp hw).log_eq]
    rfl
  loads id hid := by
    obtain ⟨w, hw, -⟩ := h.mem_walletReading.mp hid
    exact ⟨w, hw, (h.findWallet_iff.mp hw).id_eq⟩

theorem sessionReading_sound (h : Represents X T b wallets sessions)
    (filter : Option PsbtSessionStatus) :
    (SessionTables.reading T b.sessions filter).Sound PsbtSession.id where
  nodup := by
    unfold SessionTables.reading
    dsimp only
    exact nodup_idsWhere (h.sessionTables.repr.ids_eq ▸ h.sessionTables.repr.nodup) _
  joined id hid := by
    obtain ⟨s, hs, -⟩ := h.mem_sessionReading.mp hid
    show (b.sessions.find? id).isSome = true
    rw [h.sessionTables.repr.find?_eq, (h.findSession_iff.mp hs).log_eq]
    rfl
  loads id hid := by
    obtain ⟨s, hs, -⟩ := h.mem_sessionReading.mp hid
    exact ⟨s, hs, (h.findSession_iff.mp hs).id_eq⟩

end Backend.Represents

/-! ## Pages among requests -/

section Listed

variable {ι α σ : Type} (find : Backend → ι → Except FindError α) (idOf : α → ι)
  (statusOf : α → σ)

/-- The id loads, with the status if one is asked for. -/
def Selects (filter : Option σ) (b : Backend) (id : ι) : Prop :=
  ∃ a, find b id = .ok a ∧ ∀ status ∈ filter, statusOf a = status

/-- What there is to say of the pages of a listing that was read while requests went on. `find` is
what an id loads as, `rows` the ids of the index. -/
structure Listed (rows : Backend → List ι) (order : ListOrder ι) (filter : Option σ) (limit : Nat)
    (reads : List Backend) (pages : List (List α)) : Prop where
  /-- nothing comes twice, and all in order -/
  ordered : pages.flatten.Pairwise fun a a' => order.Before (idOf a) (idOf a')
  /-- a page holds what has the status when it is read -/
  current : List.Forall₂ (fun b page => ∀ a ∈ page, find b (idOf a) = .ok a ∧
    ∀ status ∈ filter, statusOf a = status) reads pages
  /-- what has the status at every page has come when one is short -/
  covers : ∀ last, pages.getLast? = some last → last.length < limit →
    ∀ id, (∀ b ∈ reads, Selects find statusOf filter b id) → ∃ a ∈ pages.flatten, idOf a = id
  /-- and without a status, what is there at the first page -/
  all : filter = none → ∀ last, pages.getLast? = some last → last.length < limit →
    ∀ b, reads.head? = some b → ∀ id a, find b id = .ok a → ∃ a' ∈ pages.flatten, idOf a' = id
  /-- full pages run out -/
  ends : (∀ page ∈ pages, page.length = limit) → ∀ b, reads.getLast? = some b →
    pages.length * limit ≤ (rows b).length

variable {find idOf statusOf}

/-- A complete walk lists, where readings have what is selected and ids go on loading. -/
theorem listed_of_complete {reading : Backend → Reading ι FindError α}
    {rows : Backend → List ι} {order : ListOrder ι} {filter : Option σ} {limit : Nat}
    {reads : List Backend} {pages : List (List α)}
    (h : Complete idOf order limit (reads.map reading) pages)
    (hload : ∀ b, (reading b).load = find b)
    (hmem : ∀ b ∈ reads, ∀ id, id ∈ (reading b).ids ↔ Selects find statusOf filter b id)
    (hkept : reads.Pairwise fun b b' => ∀ id, Selects find statusOf none b id →
      Selects find statusOf none b' id)
    (hrows : ∀ b ∈ reads, ∀ id, Selects find statusOf none b id → id ∈ rows b) :
    Listed find idOf statusOf rows order filter limit reads pages := by
  have hcovers : ∀ last, pages.getLast? = some last → last.length < limit →
      ∀ id, (∀ b ∈ reads, Selects find statusOf filter b id) → ∃ a ∈ pages.flatten, idOf a = id := by
    intro last hlast hshort id hid
    refine h.covers last hlast hshort id fun r hr => ?_
    obtain ⟨b, hb, rfl⟩ := List.mem_map.mp hr
    exact (hmem b hb id).mpr (hid b hb)
  refine ⟨h.ordered, ?_, hcovers, ?_, ?_⟩
  · refine (Matched.imp_mem_right (List.forall₂_map_left_iff.mp h.current).flip
      fun page b hb hpage a ha => ?_).flip
    obtain ⟨hid, hloaded⟩ := hpage a ha
    rw [hload] at hloaded
    obtain ⟨a', ha', hstatus⟩ := (hmem b hb _).mp hid
    exact ⟨hloaded, Except.ok.inj (hloaded.symm.trans ha') ▸ hstatus⟩
  · rintro rfl last hlast hshort b hb id a ha
    refine hcovers last hlast hshort id fun b' hb' => ?_
    obtain ⟨later, rfl⟩ := List.head?_eq_some_iff.mp hb
    rcases List.mem_cons.mp hb' with rfl | hb'
    · exact ⟨a, ha, fun status hstatus => absurd hstatus (by simp)⟩
    · exact (List.pairwise_cons.mp hkept).1 b' hb' id
        ⟨a, ha, fun status hstatus => absurd hstatus (by simp)⟩
  · intro hfull b hb
    refine h.ends (rows b) (fun r hr id hid => ?_) hfull
    obtain ⟨b', hb', rfl⟩ := List.mem_map.mp hr
    obtain ⟨earlier, rfl⟩ := List.getLast?_eq_some_iff.mp hb
    obtain ⟨a, ha, -⟩ := (hmem b' hb' id).mp hid
    refine hrows b (List.mem_append_right _ (List.mem_singleton_self _)) id ?_
    have hthere : Selects find statusOf none b' id :=
      ⟨a, ha, fun status hstatus => absurd hstatus (by simp)⟩
    rcases List.mem_append.mp hb' with hb' | hb'
    · exact (List.pairwise_append.mp hkept).2.2 b' hb' b (List.mem_singleton_self _) id hthere
    · exact List.mem_singleton.mp hb' ▸ hthere

end Listed

variable {X : Extern} {T : Texts} {network : Network}

/-- What has loaded goes on loading. -/
theorem Backend.loads_later {b b' : Backend} (hb : Backend.Run X T network .empty b)
    (hrun : Backend.Run X T network b b') :
    (∀ id w, WalletTables.findById X T b.wallets id = .ok w →
      ∃ w', WalletTables.findById X T b'.wallets id = .ok w') ∧
    ∀ id s, SessionTables.findById T b.sessions id = .ok s →
      ∃ s', SessionTables.findById T b'.sessions id = .ok s' := by
  obtain ⟨wallets, sessions, hrep, -, -⟩ := Backend.Represents.empty.run hb
  obtain ⟨wallets', sessions', hrep', hwallets, hsessions⟩ := hrep.run hrun
  constructor
  · intro id w hw
    obtain ⟨more, hlog⟩ := hwallets id w.log (hrep.findWallet_iff.mp hw).log_eq
    obtain ⟨w', hrow⟩ := hrep'.walletsSound id _ hlog
    exact ⟨w', hrep'.findWallet_iff.mpr hrow⟩
  · intro id s hs
    obtain ⟨more, hlog⟩ := hsessions id s.log (hrep.findSession_iff.mp hs).log_eq
    obtain ⟨s', hrow⟩ := hrep'.sessionsSound id _ hlog
    exact ⟨s', hrep'.findSession_iff.mpr hrow⟩

/-- **Listings are complete.** Let requests go on in any way, and read the pages of a listing one
after another at any points: of wallets and of sessions, with any status or without, in any order
and with any limit. Every page loads, and the pages are `Listed`. Each list query of the
repositories is such a listing. -/
theorem Backend.listings_complete (limit : Nat) {reads : List Backend}
    (h : List.IsChain (Backend.Run X T network) (.empty :: reads)) :
    (∀ order filter, ∃ pages,
      walk Wallet.id order limit none
        (reads.map fun b => WalletTables.reading X T b.wallets filter) = .ok pages ∧
      (∀ query, WalletTables.Lists X T limit order filter query →
        readPages Wallet.id (fun after b => query after b.wallets) none reads = .ok pages) ∧
      Listed (fun b => WalletTables.findById X T b.wallets) Wallet.id Wallet.status
        (fun b => b.wallets.ids) order filter limit reads pages) ∧
    ∀ order filter, ∃ pages,
      walk PsbtSession.id order limit none
        (reads.map fun b => SessionTables.reading T b.sessions filter) = .ok pages ∧
      (∀ query, SessionTables.Lists T limit order filter query →
        readPages PsbtSession.id (fun after b => query after b.sessions) none reads = .ok pages) ∧
      Listed (fun b => SessionTables.findById T b.sessions) PsbtSession.id PsbtSession.status
        (fun b => b.sessions.ids) order filter limit reads pages := by
  have hchain := List.pairwise_cons.mp (List.isChain_iff_pairwise.mp h)
  have hrep : ∀ b ∈ reads, ∃ wallets sessions, Represents X T b wallets sessions := by
    intro b hb
    obtain ⟨wallets, sessions, hrep, -, -⟩ := Backend.Represents.empty.run (hchain.1 b hb)
    exact ⟨wallets, sessions, hrep⟩
  constructor
  · intro order filter
    obtain ⟨pages, hpages, hcomplete⟩ := walk_ok Wallet.id order limit
      (reads.map fun b => WalletTables.reading X T b.wallets filter) fun r hr => by
        obtain ⟨b, hb, rfl⟩ := List.mem_map.mp hr
        obtain ⟨wallets, sessions, hrep⟩ := hrep b hb
        exact hrep.walletReading_sound filter
    refine ⟨pages, hpages, fun query hquery => (hquery.readPages_eq reads).trans hpages,
      listed_of_complete hcomplete (fun b => rfl) (fun b hb id => ?_) ?_ ?_⟩
    · obtain ⟨wallets, sessions, hrep⟩ := hrep b hb
      exact hrep.mem_walletReading
    · refine hchain.2.imp_of_mem fun hb _ hrun id hid => ?_
      obtain ⟨w, hw, -⟩ := hid
      obtain ⟨w', hw'⟩ := (Backend.loads_later (hchain.1 _ hb) hrun).1 id w hw
      exact ⟨w', hw', fun status hstatus => absurd hstatus (by simp)⟩
    · rintro b hb id ⟨w, hw, -⟩
      obtain ⟨wallets, sessions, hrep⟩ := hrep b hb
      exact List.mem_map_of_mem (hrep.mem_walletIndex.mpr ⟨w, hw, rfl⟩)
  · intro order filter
    obtain ⟨pages, hpages, hcomplete⟩ := walk_ok PsbtSession.id order limit
      (reads.map fun b => SessionTables.reading T b.sessions filter) fun r hr => by
        obtain ⟨b, hb, rfl⟩ := List.mem_map.mp hr
        obtain ⟨wallets, sessions, hrep⟩ := hrep b hb
        exact hrep.sessionReading_sound filter
    refine ⟨pages, hpages, fun query hquery => (hquery.readPages_eq reads).trans hpages,
      listed_of_complete hcomplete (fun b => rfl) (fun b hb id => ?_) ?_ ?_⟩
    · obtain ⟨wallets, sessions, hrep⟩ := hrep b hb
      exact hrep.mem_sessionReading
    · refine hchain.2.imp_of_mem fun hb _ hrun id hid => ?_
      obtain ⟨s, hs, -⟩ := hid
      obtain ⟨s', hs'⟩ := (Backend.loads_later (hchain.1 _ hb) hrun).2 id s hs
      exact ⟨s', hs', fun status hstatus => absurd hstatus (by simp)⟩
    · rintro b hb id ⟨s, hs, -⟩
      obtain ⟨wallets, sessions, hrep⟩ := hrep b hb
      exact List.mem_map_of_mem (hrep.mem_sessionIndex.mpr ⟨s, hs, rfl⟩)

open Backend.Sample in
/-- Two pages of sessions, one before and one after a save. -/
theorem Backend.listings_complete_saved :
    ∃ pages, readPages PsbtSession.id
        (fun after b => SessionTables.listById .sample b.sessions after 2 .ascending) none
        [proposed, proposed.afterSave created createdTables] = .ok pages ∧
      Listed (fun b => SessionTables.findById .sample b.sessions) PsbtSession.id
        PsbtSession.status (fun b => b.sessions.ids) SessionTables.byId none 2
        [proposed, proposed.afterSave created createdTables] pages := by
  obtain ⟨pages, -, hqueries, hlisted⟩ :=
    (Backend.listings_complete (X := .sample []) (T := .sample) 2
      (.cons_cons run_proposed (.cons_cons
        (.single (.saveSession List.mem_cons_self (by decide +kernel) created_save))
        (.singleton _)))).2 SessionTables.byId none
  exact ⟨pages, hqueries _ (.byId .ascending), hlisted⟩

end Kota
