import Kota.Wallet.Lifecycle

/-!
# The wallet repository

Model of `wallet/repo.rs` over the table of event logs: a wallet is loaded by hydrating its log,
and written back by appending its fresh events. The `descriptor_fingerprint` column is unique over
all wallets.

`Wallets.Sound` is what the table satisfies when every log was written by wallet commands;
`Sound.create` and `Sound.update` keep it.
-/

namespace Kota

open EventLog

variable {X : Extern}

/-- `EsRepo`'s find errors. -/
inductive FindError where
  | notFound
  | hydration (e : EntityHydrationError)
  deriving DecidableEq, Repr

/-- `EsRepo`'s create errors. -/
inductive CreateError where
  | duplicateId
  /-- Any other refusal of the database. -/
  | sqlx
  deriving DecidableEq, Repr

/-- `EsRepo`'s update errors. -/
inductive ModifyError where
  | concurrentModification
  | duplicateFingerprint
  /-- Any other refusal of the database. -/
  | sqlx
  deriving DecidableEq, Repr

abbrev Wallets := Store WalletId WalletEvent

namespace Wallets

def create (wallets : Wallets) (n : NewWallet) : Except CreateError (Wallet × Wallets) :=
  match Store.create wallets n.id n.intoEvents.iterAll with
  | none => .error .duplicateId
  | some wallets => .ok (n.registered, wallets)

def findById (wallets : Wallets) (id : WalletId) : Except FindError Wallet :=
  match wallets.find? id with
  | none => .error .notFound
  | some log =>
    match Wallet.tryFromEvents (.load id log) with
    | .error e => .error (.hydration e)
    | .ok wallet => .ok wallet

/-- The descriptor fingerprint column of a row. -/
def fingerprintOf (log : List WalletEvent) : Option DescriptorFingerprint :=
  log.findSome? WalletEvent.activatedFingerprint

def findByDescriptorFingerprint (wallets : Wallets) (fingerprint : DescriptorFingerprint) :
    Except FindError Wallet :=
  match wallets.rows.find? fun row => fingerprintOf row.2 == some fingerprint with
  | none => .error .notFound
  | some row => wallets.findById row.1

/-- Write the fresh events, unless the log grew since the wallet was loaded or another wallet has
its descriptor fingerprint. -/
def update (wallets : Wallets) (wallet : Wallet) : Except ModifyError Wallets :=
  if wallet.events.fresh.isEmpty then .ok wallets
  else if wallets.rows.any fun row => row.1 != wallet.id &&
      wallet.descriptorFingerprint.isSome && fingerprintOf row.2 == wallet.descriptorFingerprint then
    .error .duplicateFingerprint
  else match wallets.append wallet.id wallet.events with
    | none => .error .concurrentModification
    | some wallets => .ok wallets

/-! ## What the calls do -/

theorem create_spec {wallets wallets' : Wallets} {n : NewWallet} {w : Wallet}
    (h : wallets.create n = .ok (w, wallets')) :
    w = n.registered ∧ wallets.find? n.id = none ∧
      ∀ j, wallets'.find? j = if j = n.id then some n.intoEvents.iterAll else wallets.find? j := by
  unfold create at h
  split at h
  · exact absurd h (by simp)
  · rename_i wallets'' hc
    obtain ⟨rfl, rfl⟩ := Prod.mk.inj (Except.ok.inj h)
    exact ⟨rfl, Store.create_isSome_iff.mp (by rw [hc]; rfl), Store.find?_create hc⟩

theorem findById_eq_ok_iff {wallets : Wallets} {id : WalletId} {w : Wallet} :
    wallets.findById id = .ok w ↔
      ∃ log, wallets.find? id = some log ∧ Wallet.tryFromEvents (.load id log) = .ok w := by
  unfold findById
  cases hlog : wallets.find? id with
  | none => simp
  | some log =>
    dsimp only
    cases htry : Wallet.tryFromEvents (.load id log) with
    | error e => simp [htry]
    | ok wallet => simp [htry]

theorem findById_congr {wallets wallets' : Wallets} {id : WalletId}
    (h : wallets'.find? id = wallets.find? id) : wallets'.findById id = wallets.findById id := by
  unfold findById
  rw [h]

/-- A successful update writes nothing, or the fresh events after the log they were computed
from. -/
theorem update_spec {wallets wallets' : Wallets} {w : Wallet}
    (h : wallets.update w = .ok wallets') :
    (w.events.fresh = [] ∧ wallets' = wallets) ∨
    ∃ log, wallets.find? w.id = some log ∧ log.length ≤ w.events.persisted.length ∧
      ∀ j, wallets'.find? j = if j = w.id then some (log ++ w.events.fresh)
        else wallets.find? j := by
  unfold update at h
  split at h
  · rename_i hempty
    exact Or.inl ⟨List.isEmpty_iff.mp hempty, (Except.ok.inj h).symm⟩
  · split at h
    · exact absurd h (by simp)
    · split at h
      · exact absurd h (by simp)
      · rename_i wallets'' happend
        obtain rfl := Except.ok.inj h
        exact Or.inr (Store.append_spec happend)

/-! ## A table of wallet logs -/

/-- The table holds `w` under `id`, with a log its commands could have written. -/
structure Row (X : Extern) (wallets : Wallets) (id : WalletId) (w : Wallet) : Prop where
  found : wallets.findById id = .ok w
  log_eq : wallets.find? id = some w.log
  id_eq : w.id = id
  events_eq : w.events = .load id w.log
  inv : Wallet.Inv X w
  replays : w.Replays

/-- Every log in the table is that of a wallet under its own id, as its commands leave it. -/
def Sound (X : Extern) (wallets : Wallets) : Prop :=
  ∀ id log, wallets.find? id = some log → ∃ w, Row X wallets id w

theorem sound_empty : Sound X Store.empty := fun id log h => by
  rw [Store.find?_empty] at h
  exact absurd h (by simp)

theorem Sound.row {wallets : Wallets} (h : Sound X wallets) {id : WalletId} {w : Wallet}
    (hw : wallets.findById id = .ok w) : Row X wallets id w := by
  obtain ⟨log, hlog, -⟩ := findById_eq_ok_iff.mp hw
  obtain ⟨w', hrow⟩ := h id log hlog
  obtain rfl := Except.ok.inj (hw.symm.trans hrow.found)
  exact hrow

/-- A wallet whose log stands in the table is what the table loads. -/
theorem row_of_log {wallets : Wallets} {w : Wallet} (hinv : Wallet.Inv X w) (hr : w.Replays)
    (hlog : wallets.find? w.id = some w.log) :
    Row X wallets w.id { w with events := .load w.id w.log } := by
  have hsame : ({ w with events := .load w.id w.log } : Wallet).log = w.log :=
    EntityEvents.iterAll_load _ _
  refine ⟨findById_eq_ok_iff.mpr ⟨_, hlog, hr _ (EntityEvents.iterAll_load _ _)⟩, ?_, rfl, ?_,
    hinv.of_log_eq rfl rfl rfl hsame, ?_⟩
  · rw [hsame, hlog]
  · rw [hsame]
  · intro events he
    rw [hsame] at he
    exact hr events he

theorem Row.congr {wallets wallets' : Wallets} {id : WalletId} {w : Wallet}
    (h : Row X wallets id w) (hfind : wallets'.find? id = wallets.find? id) :
    Row X wallets' id w :=
  ⟨(findById_congr hfind).trans h.found, hfind.trans h.log_eq, h.id_eq, h.events_eq, h.inv, h.replays⟩

theorem Sound.create {wallets wallets' : Wallets} (h : Sound X wallets) {id : WalletId}
    {network : Network} {threshold : UInt32} {participants : List UserId} {n : NewWallet}
    (hn : NewWallet.new id network threshold participants = .ok n) {w : Wallet}
    (hc : wallets.create n = .ok (w, wallets')) : Sound X wallets' := by
  obtain ⟨-, -, hfind⟩ := create_spec hc
  have hlog : wallets'.find? n.id = some n.registered.log := by
    rw [hfind, if_pos rfl]
    rfl
  refine Store.forall_of_written h hfind ⟨_, row_of_log (NewWallet.registered_inv X hn)
    (NewWallet.registered_replays n) hlog⟩ ?_
  rintro j hsame ⟨w, hrow⟩
  exact ⟨w, hrow.congr hsame⟩

section Update

variable {wallets wallets' : Wallets} {id : WalletId} {w : Wallet}

/-- Writing back what a command left puts its log into the table, and nothing else. -/
theorem Row.find?_update (h : Row X wallets id w) (c : WalletCommand)
    (hu : wallets.update (w.apply X c).2 = .ok wallets') (j : WalletId) :
    wallets'.find? j = if j = id then some (w.apply X c).2.log else wallets.find? j := by
  have hid : (w.apply X c).2.id = id := (Wallet.apply_id w c).trans h.id_eq
  have hrow : wallets.find? (w.apply X c).2.id = some (w.apply X c).2.events.persisted := by
    rw [hid, h.log_eq, Wallet.apply_persisted, h.events_eq]
    rfl
  have hfind := Store.find?_written hrow (update_spec hu) j
  rwa [hid] at hfind

/-- The row after a command's result was written back. -/
theorem Row.update (h : Row X wallets id w) (c : WalletCommand)
    (hu : wallets.update (w.apply X c).2 = .ok wallets') :
    Row X wallets' id { (w.apply X c).2 with events := .load id (w.apply X c).2.log } := by
  have hid : (w.apply X c).2.id = id := (Wallet.apply_id w c).trans h.id_eq
  have hrow := h.find?_update c hu id
  rw [if_pos rfl] at hrow
  have hinv := Wallet.apply_induction Wallet.Inv.record h.inv c
  have hreplays := Wallet.apply_induction (X := X) Wallet.Replays.record h.replays c
  rw [← hid] at hrow ⊢
  exact row_of_log hinv hreplays hrow

/-- **Writing back what a command left keeps the table sound.** -/
theorem Sound.update (h : Sound X wallets) (hrow : Row X wallets id w) (c : WalletCommand)
    (hu : wallets.update (w.apply X c).2 = .ok wallets') : Sound X wallets' := by
  refine Store.forall_of_written h (hrow.find?_update c hu) ⟨_, hrow.update c hu⟩ ?_
  rintro j hsame ⟨w', hrow'⟩
  exact ⟨w', hrow'.congr hsame⟩

end Update

end Wallets

end Kota
