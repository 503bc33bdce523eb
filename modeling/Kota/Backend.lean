import Mathlib.Logic.Relation
import Kota.Database

/-!
# Requests over the database

`Backend` is the system: the tables of `Database.lean`, and the entities that requests hold in
memory after loading them, some of them out of date. A step is one repository call, or one command
on a held entity, by any request; nothing says in which order requests take theirs.

* `Backend.Represents`: the tables hold a `Wallets` and a `PsbtSessions`, sound ones, no two wallets
  of them with one fingerprint, and the persisted part of a held entity was once its log.
* **`Backend.refines`**: every state that steps reach represents stores on which each repository
  call has the same answer, and the tables after a call represent the store after it.
* **`Backend.columns_current`**: the index columns are those of the entity that loading the row
  gives, so no query by status or fingerprint reads a stale column.
* **`Backend.queries_exact`**: so such a query finds the entities that load with that status or
  fingerprint.
* **`Backend.wallet_save_iff`**, **`Backend.session_save_iff`**: a save of new events succeeds exactly
  when nobody else saved since the entity was loaded, no other wallet has its fingerprint, and the
  events fit their columns.
* **`Backend.no_lost_update`**: so what one request saved is part of what the next one saves.
-/

namespace Kota

open EventLog EventTable JsonFormat

variable (X : Extern) (T : Texts) (network : Network)

/-- The tables, and the entities in the memory of the requests under way. -/
structure Backend where
  wallets : WalletTables
  sessions : SessionTables
  heldWallets : List Wallet
  heldSessions : List PsbtSession

namespace Backend

def empty : Backend := ⟨Tables.empty, Tables.empty, [], []⟩

/-- One step of a request. What is written must be printable: its texts come from the printers of
types whose parsers built them. -/
inductive Step : Backend → Backend → Prop
  | registerWallet {b : Backend} {id : WalletId} {threshold : UInt32} {participants : List UserId}
      {n : NewWallet} {w : Wallet} {t : WalletTables}
      (hn : NewWallet.new id network threshold participants = .ok n)
      (hprint : ∀ e ∈ n.intoEvents.iterAll, e.Printable X T)
      (h : WalletTables.create X T b.wallets n = .ok (w, t)) :
      Step b { b with wallets := t, heldWallets := w :: b.heldWallets }
  | loadWallet {b : Backend} {id : WalletId} {w : Wallet}
      (h : WalletTables.findById X T b.wallets id = .ok w) :
      Step b { b with heldWallets := w :: b.heldWallets }
  | commandWallet {b : Backend} {w : Wallet} (hw : w ∈ b.heldWallets) (c : WalletCommand) :
      Step b { b with heldWallets := (w.apply X c).2 :: b.heldWallets }
  | saveWallet {b : Backend} {w : Wallet} {t : WalletTables} (hw : w ∈ b.heldWallets)
      (hprint : ∀ e ∈ w.log, e.Printable X T) (h : WalletTables.update X T b.wallets w = .ok t) :
      Step b { b with
        wallets := t
        heldWallets := { w with events := .load w.id w.log } :: b.heldWallets }
  | proposeSession {b : Backend} {w : Wallet} {id : PsbtSessionId} {proposedBy : UserId}
      {spend : SpendSpec} {n : NewPsbtSession} {s : PsbtSession} {t : SessionTables}
      (hw : w ∈ b.heldWallets) (hn : NewPsbtSession.tryNew X id w proposedBy spend = .ok n)
      (hprint : ∀ e ∈ n.proposed.log, e.Printable T)
      (h : SessionTables.create T b.sessions n = .ok (s, t)) :
      Step b { b with sessions := t, heldSessions := s :: b.heldSessions }
  | loadSession {b : Backend} {id : PsbtSessionId} {s : PsbtSession}
      (h : SessionTables.findById T b.sessions id = .ok s) :
      Step b { b with heldSessions := s :: b.heldSessions }
  | commandSession {b : Backend} {s : PsbtSession} (hs : s ∈ b.heldSessions)
      (c : PsbtSessionCommand) :
      Step b { b with heldSessions := (s.apply c).2 :: b.heldSessions }
  | saveSession {b : Backend} {s : PsbtSession} {t : SessionTables} (hs : s ∈ b.heldSessions)
      (hprint : ∀ e ∈ s.log, e.Printable T) (h : SessionTables.update T b.sessions s = .ok t) :
      Step b { b with
        sessions := t
        heldSessions := { s with events := .load s.id s.log } :: b.heldSessions }

/-- Steps of requests, in any order, lead from one state to the other. -/
abbrev Run : Backend → Backend → Prop := Relation.ReflTransGen (Step X T network)

end Backend

/-- Every history of `S` is the beginning of the one `S'` has under its id. -/
def Backend.Grows {ι ε : Type} [DecidableEq ι] (S S' : Store ι ε) : Prop :=
  ∀ id log, S.find? id = some log → ∃ more, S'.find? id = some (log ++ more)

section Growth

variable {ι ε : Type} [DecidableEq ι] {S S' S'' : Store ι ε}

theorem Backend.Grows.refl (S : Store ι ε) : Backend.Grows S S := fun id log h =>
  ⟨[], by rw [List.append_nil, h]⟩

theorem Backend.Grows.trans (h : Backend.Grows S S') (h' : Backend.Grows S' S'') :
    Backend.Grows S S'' := by
  intro id log hlog
  obtain ⟨more, hmore⟩ := h id log hlog
  obtain ⟨more', hmore'⟩ := h' id _ hmore
  exact ⟨more ++ more', by rw [hmore', List.append_assoc]⟩

/-- A write under one id that extends the history there, if any, only makes histories grow. -/
theorem grows_of_written {id : ι} {new : List ε}
    (hfind : ∀ j, S'.find? j = if j = id then some new else S.find? j)
    (hold : ∀ old, S.find? id = some old → old <+: new) : Backend.Grows S S' := by
  intro j log hlog
  by_cases hj : j = id
  · obtain ⟨more, hmore⟩ := hold log (hj ▸ hlog)
    exact ⟨more, by rw [hfind, if_pos hj, hmore]⟩
  · exact ⟨[], by rw [hfind, if_neg hj, hlog, List.append_nil]⟩

/-- Events written after the history that was there. -/
theorem grows_of_saved {id : ι} {log es : List ε} (hrow : S.find? id = some log)
    (hfind : ∀ j, S'.find? j = if j = id then some (log ++ es) else S.find? j) :
    Backend.Grows S S' :=
  grows_of_written hfind fun old hold => by
    obtain rfl := Option.some.inj (hold.symm.trans hrow)
    exact List.prefix_append _ _

end Growth

/-! ## Held entities -/

section Held

variable {X T network}

namespace WalletTables

variable {wallets wallets' : Wallets} {w : Wallet}

/-- A held wallet stays one while logs only grow. -/
theorem Held.mono (h : Held X wallets w) (hgrow : Backend.Grows wallets wallets') :
    Held X wallets' w := by
  obtain ⟨log, hlog, hbegins⟩ := h.loaded
  obtain ⟨more, hmore⟩ := hgrow w.id log hlog
  exact ⟨h.inv, h.replays, _, hmore, hbegins.trans (List.prefix_append log more)⟩

/-- What is loaded is held. -/
theorem held_of_row {id : WalletId} (h : Wallets.Row X wallets id w) : Held X wallets w := by
  refine ⟨h.inv, h.replays, w.log, ?_, ?_⟩
  · rw [h.id_eq, h.log_eq]
  · rw [h.events_eq]
    exact List.prefix_refl _

/-- A command leaves the persisted part of a held wallet alone. -/
theorem Held.apply (h : Held X wallets w) (c : WalletCommand) : Held X wallets (w.apply X c).2 := by
  obtain ⟨log, hlog, hbegins⟩ := h.loaded
  refine ⟨Wallet.apply_induction Wallet.Inv.record h.inv c,
    Wallet.apply_induction (X := X) Wallet.Replays.record h.replays c, log, ?_, ?_⟩
  · rw [Wallet.apply_id]
    exact hlog
  · rw [Wallet.apply_persisted]
    exact hbegins

/-- A held wallet whose log is still one in the store stays held when all its events count as
persisted. -/
theorem Held.persist (h : Held X wallets w) {log : List WalletEvent}
    (hlog : wallets.find? w.id = some log) (hbegins : w.log <+: log) :
    Held X wallets { w with events := .load w.id w.log } := by
  have hsame : ({ w with events := .load w.id w.log } : Wallet).log = w.log :=
    EntityEvents.iterAll_load _ _
  refine ⟨h.inv.of_log_eq rfl rfl rfl hsame, ?_, log, hlog, hbegins⟩
  intro events he
  rw [hsame] at he
  exact h.replays events he

/-- **What a save of a held wallet does**: nothing when there is nothing to write; otherwise the
wallet was up to date, and its log is now the one in the store. -/
theorem Held.saved (h : Held X wallets w) (hu : wallets.update w = .ok wallets') :
    (w.events.fresh = [] ∧ wallets' = wallets) ∨
    (wallets.find? w.id = some w.events.persisted ∧
      ∀ j, wallets'.find? j = if j = w.id then some w.log else wallets.find? j) := by
  obtain ⟨log, hlog, hbegins⟩ := h.loaded
  rcases Wallets.update_spec hu with hnone | ⟨log', hlog', hlen, hfind⟩
  · exact Or.inl hnone
  · obtain rfl : log = log' := Option.some.inj (hlog.symm.trans hlog')
    have hsame : w.events.persisted = log :=
      hbegins.eq_of_length (Nat.le_antisymm hbegins.length_le hlen)
    refine Or.inr ⟨hsame ▸ hlog, fun j => ?_⟩
    rw [hfind, ← hsame]
    rfl

/-- What was saved is in the store. -/
theorem Held.in_store (h : Held X wallets w) (hu : wallets.update w = .ok wallets') :
    ∃ log, wallets'.find? w.id = some log ∧ w.log <+: log := by
  rcases h.saved hu with ⟨hnone, rfl⟩ | ⟨-, hfind⟩
  · obtain ⟨log, hlog, hbegins⟩ := h.loaded
    have hwlog : w.log = w.events.persisted := by
      show w.events.persisted ++ w.events.fresh = _
      rw [hnone, List.append_nil]
    exact ⟨log, hlog, hwlog ▸ hbegins⟩
  · exact ⟨w.log, by rw [hfind, if_pos rfl], List.prefix_refl _⟩

end WalletTables

namespace SessionTables

variable {sessions sessions' : PsbtSessions} {s : PsbtSession}

theorem Held.mono (h : Held sessions s) (hgrow : Backend.Grows sessions sessions') :
    Held sessions' s := by
  obtain ⟨log, hlog, hbegins⟩ := h.loaded
  obtain ⟨more, hmore⟩ := hgrow s.id log hlog
  exact ⟨h.grammatical, _, hmore, hbegins.trans (List.prefix_append log more)⟩

theorem held_of_row {id : PsbtSessionId} (h : PsbtSessions.Row sessions id s) :
    Held sessions s := by
  refine ⟨h.grammatical, s.log, ?_, ?_⟩
  · rw [h.id_eq, h.log_eq]
  · rw [h.events_eq]
    exact List.prefix_refl _

theorem Held.apply (h : Held sessions s) (c : PsbtSessionCommand) :
    Held sessions (s.apply c).2 := by
  obtain ⟨log, hlog, hbegins⟩ := h.loaded
  refine ⟨PsbtSession.apply_induction PsbtSession.Grammatical.record h.grammatical c, log, ?_, ?_⟩
  · rw [PsbtSession.apply_id]
    exact hlog
  · rw [PsbtSession.apply_persisted]
    exact hbegins

theorem Held.persist (h : Held sessions s) {log : List PsbtSessionEvent}
    (hlog : sessions.find? s.id = some log) (hbegins : s.log <+: log) :
    Held sessions { s with events := .load s.id s.log } := by
  have hload := h.grammatical.loaded.of_log_eq (EntityEvents.iterAll_load s.id s.log)
  refine ⟨⟨hload, ?_⟩, log, hlog, hbegins⟩
  unfold PsbtSession.log
  rw [EntityEvents.iterAll_load]
  exact h.grammatical.admitted

theorem Held.saved (h : Held sessions s) (hu : sessions.update s = .ok sessions') :
    (s.events.fresh = [] ∧ sessions' = sessions) ∨
    (sessions.find? s.id = some s.events.persisted ∧
      ∀ j, sessions'.find? j = if j = s.id then some s.log else sessions.find? j) := by
  obtain ⟨log, hlog, hbegins⟩ := h.loaded
  rcases PsbtSessions.update_spec hu with hnone | ⟨log', hlog', hlen, hfind⟩
  · exact Or.inl hnone
  · obtain rfl : log = log' := Option.some.inj (hlog.symm.trans hlog')
    have hsame : s.events.persisted = log :=
      hbegins.eq_of_length (Nat.le_antisymm hbegins.length_le hlen)
    refine Or.inr ⟨hsame ▸ hlog, fun j => ?_⟩
    rw [hfind, ← hsame]
    rfl

theorem Held.in_store (h : Held sessions s) (hu : sessions.update s = .ok sessions') :
    ∃ log, sessions'.find? s.id = some log ∧ s.log <+: log := by
  rcases h.saved hu with ⟨hnone, rfl⟩ | ⟨-, hfind⟩
  · obtain ⟨log, hlog, hbegins⟩ := h.loaded
    have hslog : s.log = s.events.persisted := by
      show s.events.persisted ++ s.events.fresh = _
      rw [hnone, List.append_nil]
    exact ⟨log, hlog, hslog ▸ hbegins⟩
  · exact ⟨s.log, by rw [hfind, if_pos rfl], List.prefix_refl _⟩

end SessionTables

/-! ## What steps keep -/

/-- No two wallets have one descriptor fingerprint. -/
def Wallets.Apart (wallets : Wallets) : Prop :=
  ∀ id id' log log' fingerprint, wallets.find? id = some log → wallets.find? id' = some log' →
    Wallets.fingerprintOf log = some fingerprint → Wallets.fingerprintOf log' = some fingerprint →
      id = id'

/-- What a write leaves apart: no other wallet has the fingerprint of the log written. -/
theorem Wallets.Apart.written {wallets wallets' : Wallets} (h : wallets.Apart) {id : WalletId}
    {new : List WalletEvent}
    (hfind : ∀ j, wallets'.find? j = if j = id then some new else wallets.find? j)
    (hfree : ∀ j log fingerprint, j ≠ id → wallets.find? j = some log →
      Wallets.fingerprintOf new = some fingerprint →
        Wallets.fingerprintOf log ≠ some fingerprint) : wallets'.Apart := by
  intro a b log log' fingerprint ha hb hfa hfb
  rw [hfind] at ha hb
  split at ha <;> split at hb
  · rename_i hia hib
    rw [hia, hib]
  · rename_i hia hib
    obtain rfl := Option.some.inj ha
    exact absurd hfb (hfree b log' fingerprint hib hb hfa)
  · rename_i hia hib
    obtain rfl := Option.some.inj hb
    exact absurd hfa (hfree a log fingerprint hia ha hfb)
  · exact h a b log log' fingerprint ha hb hfa hfb

/-- The fingerprint of a wallet finds it. -/
theorem Wallets.Apart.find_eq {wallets : Wallets} (h : wallets.Apart) (hu : wallets.ids.Nodup)
    {w : Wallet} (hrow : Wallets.Row X wallets w.id w) {fingerprint : DescriptorFingerprint}
    (hfp : w.descriptorFingerprint = some fingerprint) :
    wallets.findByDescriptorFingerprint fingerprint = .ok w := by
  unfold Wallets.findByDescriptorFingerprint
  cases hfind : wallets.rows.find? fun row => Wallets.fingerprintOf row.2 == some fingerprint with
  | none =>
    have hnot := List.find?_eq_none.mp hfind _ (mem_rows_of_find? hrow.log_eq)
    exact absurd (beq_iff_eq.mpr hfp) hnot
  | some row =>
    have hlog := Store.find?_of_mem hu (List.mem_of_find?_eq_some hfind)
    have hread := List.find?_some hfind
    rw [beq_iff_eq] at hread
    have hid : row.1 = w.id := h row.1 w.id row.2 w.log fingerprint hlog hrow.log_eq hread hfp
    dsimp only
    rw [hid]
    exact hrow.found

/-- Without new events nothing is written. -/
theorem Wallets.eq_of_update {wallets wallets' : Wallets} {w : Wallet}
    (hu : wallets.update w = .ok wallets') (hfresh : w.events.fresh = []) : wallets' = wallets := by
  unfold Wallets.update at hu
  rw [if_pos (List.isEmpty_iff.mpr hfresh)] at hu
  exact (Except.ok.inj hu).symm

/-- An update that writes found the fingerprint free. -/
theorem Wallets.update_free {wallets wallets' : Wallets} {w : Wallet}
    (hu : wallets.update w = .ok wallets') (hfresh : w.events.fresh ≠ []) {j : WalletId}
    {log : List WalletEvent} (hj : j ≠ w.id) (hlog : wallets.find? j = some log)
    {fingerprint : DescriptorFingerprint} (hw : w.descriptorFingerprint = some fingerprint) :
    Wallets.fingerprintOf log ≠ some fingerprint := by
  intro hf
  unfold Wallets.update at hu
  rw [if_neg fun hempty => hfresh (List.isEmpty_iff.mp hempty)] at hu
  split at hu
  · exact absurd hu (by simp)
  · rename_i hany
    refine hany (List.any_eq_true.mpr ⟨_, mem_rows_of_find? hlog, ?_⟩)
    simp [hj, hw, hf]

variable (X T) in
/-- The tables hold these stores, and the entities in memory come from them. -/
structure Backend.Represents (b : Backend) (wallets : Wallets) (sessions : PsbtSessions) :
    Prop where
  walletTables : WalletTables.Holds X T b.wallets wallets
  sessionTables : SessionTables.Holds T b.sessions sessions
  walletsSound : wallets.Sound X
  sessionsSound : sessions.Sound
  apart : wallets.Apart
  heldWallets : ∀ w ∈ b.heldWallets, WalletTables.Held X wallets w
  heldSessions : ∀ s ∈ b.heldSessions, SessionTables.Held sessions s

namespace Backend.Represents

variable {T : Texts} {b b' : Backend} {wallets : Wallets} {sessions : PsbtSessions}

theorem empty : Represents X T Backend.empty Store.empty Store.empty where
  walletTables := ⟨.empty _ _, fun _ h => absurd h List.not_mem_nil⟩
  sessionTables := ⟨.empty _ _, fun _ h => absurd h List.not_mem_nil⟩
  walletsSound := Wallets.sound_empty
  sessionsSound := PsbtSessions.sound_empty
  apart := fun _ _ _ _ _ h => absurd h (by simp)
  heldWallets := fun _ h => absurd h List.not_mem_nil
  heldSessions := fun _ h => absurd h List.not_mem_nil

/-- One more entity in memory. -/
theorem holdWallet (h : Represents X T b wallets sessions) {w : Wallet}
    (hw : WalletTables.Held X wallets w) :
    Represents X T { b with heldWallets := w :: b.heldWallets } wallets sessions :=
  { h with heldWallets := List.forall_mem_cons.mpr ⟨hw, h.heldWallets⟩ }

theorem holdSession (h : Represents X T b wallets sessions) {s : PsbtSession}
    (hs : SessionTables.Held sessions s) :
    Represents X T { b with heldSessions := s :: b.heldSessions } wallets sessions :=
  { h with heldSessions := List.forall_mem_cons.mpr ⟨hs, h.heldSessions⟩ }

/-- New wallet tables, in which histories only grew. -/
theorem withWallets (h : Represents X T b wallets sessions) {t : WalletTables} {wallets' : Wallets}
    (ht : WalletTables.Holds X T t wallets') (hs : wallets'.Sound X) (ha : wallets'.Apart)
    (hgrow : Backend.Grows wallets wallets') :
    Represents X T { b with wallets := t } wallets' sessions :=
  { h with
    walletTables := ht
    walletsSound := hs
    apart := ha
    heldWallets := fun w hw => (h.heldWallets w hw).mono hgrow }

theorem withSessions (h : Represents X T b wallets sessions) {t : SessionTables}
    {sessions' : PsbtSessions} (ht : SessionTables.Holds T t sessions') (hs : sessions'.Sound)
    (hgrow : Backend.Grows sessions sessions') :
    Represents X T { b with sessions := t } wallets sessions' :=
  { h with
    sessionTables := ht
    sessionsSound := hs
    heldSessions := fun s hs => (h.heldSessions s hs).mono hgrow }

/-- Registering a wallet. -/
theorem registered (h : Represents X T b wallets sessions) {id : WalletId} {threshold : UInt32}
    {participants : List UserId} {n : NewWallet} {w : Wallet} {t : WalletTables}
    (hn : NewWallet.new id network threshold participants = .ok n)
    (hprint : ∀ e ∈ n.intoEvents.iterAll, e.Printable X T)
    (hc : WalletTables.create X T b.wallets n = .ok (w, t)) :
    ∃ wallets', wallets.create n = .ok (w, wallets') ∧
      Represents X T { b with wallets := t, heldWallets := w :: b.heldWallets } wallets' sessions ∧
      Backend.Grows wallets wallets' := by
  have hagree := h.walletTables.create_agree hprint (WalletTables.fits_of_create hc)
  rw [hc] at hagree
  obtain ⟨⟨w', wallets'⟩, hcreate, hw, ht⟩ := hagree.of_ok
  obtain ⟨hw', hnew, hfind⟩ := Wallets.create_spec hcreate
  have hgrow := grows_of_written hfind fun old hold => absurd (hold.symm.trans hnew) (by simp)
  have hapart := h.apart.written hfind fun j log fingerprint _ _ hf => absurd hf (by
    simp [Wallets.fingerprintOf, NewWallet.intoEvents, WalletEvent.activatedFingerprint])
  obtain rfl : w = w' := hw
  refine ⟨wallets', hcreate,
    (h.withWallets ht (h.walletsSound.create hn hcreate) hapart hgrow).holdWallet ?_, hgrow⟩
  obtain rfl : w = n.registered := hw'
  have hlog : wallets'.find? n.registered.id = some n.registered.events.persisted := by
    rw [show n.registered.id = n.id from rfl, hfind, if_pos rfl]
    rfl
  exact ⟨NewWallet.registered_inv X hn, NewWallet.registered_replays n, _, hlog,
    List.prefix_refl _⟩

/-- Saving a wallet. -/
theorem savedWallet (h : Represents X T b wallets sessions) {w : Wallet} {t : WalletTables}
    (hw : w ∈ b.heldWallets) (hprint : ∀ e ∈ w.log, e.Printable X T)
    (hu : WalletTables.update X T b.wallets w = .ok t) :
    ∃ wallets', wallets.update w = .ok wallets' ∧ Represents X T { b with
      wallets := t
      heldWallets := { w with events := .load w.id w.log } :: b.heldWallets } wallets'
      sessions ∧ Backend.Grows wallets wallets' := by
  have hheld := h.heldWallets w hw
  have hagree := h.walletTables.update_agree hheld hprint (WalletTables.fits_of_update hu)
  rw [hu] at hagree
  obtain ⟨wallets', hupdate, ht⟩ := hagree.of_ok
  refine ⟨wallets', hupdate, ?_⟩
  obtain ⟨log, hlog, hbegins⟩ := hheld.in_store hupdate
  by_cases hfresh : w.events.fresh = []
  · obtain rfl := Wallets.eq_of_update hupdate hfresh
    exact ⟨(h.withWallets ht h.walletsSound h.apart (.refl _)).holdWallet
      (hheld.persist hlog hbegins), .refl _⟩
  · rcases hheld.saved hupdate with ⟨hnone, -⟩ | ⟨hrow, hfind⟩
    · exact absurd hnone hfresh
    · have hgrow := grows_of_saved hrow hfind
      have hapart := h.apart.written hfind fun j log fingerprint hj hlog hf =>
        Wallets.update_free hupdate hfresh hj hlog hf
      have hsound : wallets'.Sound X := by
        refine Store.forall_of_written h.walletsSound hfind
          ⟨_, Wallets.row_of_log hheld.inv hheld.replays ((hfind w.id).trans (if_pos rfl))⟩ ?_
        rintro j hsame ⟨w', hrow'⟩
        exact ⟨w', hrow'.congr hsame⟩
      exact ⟨(h.withWallets ht hsound hapart hgrow).holdWallet
        ((hheld.mono hgrow).persist hlog hbegins), hgrow⟩

/-- Proposing a session. -/
theorem proposed (h : Represents X T b wallets sessions) {w : Wallet} {id : PsbtSessionId}
    {proposedBy : UserId} {spend : SpendSpec} {n : NewPsbtSession} {s : PsbtSession}
    {t : SessionTables} (hw : w ∈ b.heldWallets)
    (hn : NewPsbtSession.tryNew X id w proposedBy spend = .ok n)
    (hprint : ∀ e ∈ n.proposed.log, e.Printable T)
    (hc : SessionTables.create T b.sessions n = .ok (s, t)) :
    ∃ sessions', sessions.create n = .ok (s, sessions') ∧
      Represents X T { b with sessions := t, heldSessions := s :: b.heldSessions } wallets sessions' ∧
      Backend.Grows sessions sessions' := by
  have hagree := h.sessionTables.create_agree hprint (SessionTables.fits_of_create hc)
  rw [hc] at hagree
  obtain ⟨⟨s', sessions'⟩, hcreate, hs, ht⟩ := hagree.of_ok
  obtain ⟨hs', hnew, hfind⟩ := PsbtSessions.create_spec hcreate
  have hgrow := grows_of_written hfind fun old hold => absurd (hold.symm.trans hnew) (by simp)
  have hloaded := PsbtSession.loaded_proposed (h.heldWallets w hw).inv hn
  obtain rfl : s = s' := hs
  refine ⟨sessions', hcreate,
    (h.withSessions ht (h.sessionsSound.create hloaded hcreate) hgrow).holdSession ?_, hgrow⟩
  obtain rfl : s = n.proposed := hs'
  have hlog : sessions'.find? n.proposed.id = some n.proposed.events.persisted := by
    rw [show n.proposed.id = n.id from rfl, hfind, if_pos rfl]
    rfl
  exact ⟨PsbtSession.Grammatical.proposed hloaded, _, hlog, List.prefix_refl _⟩

/-- Saving a session. -/
theorem savedSession (h : Represents X T b wallets sessions) {s : PsbtSession} {t : SessionTables}
    (hs : s ∈ b.heldSessions) (hprint : ∀ e ∈ s.log, e.Printable T)
    (hu : SessionTables.update T b.sessions s = .ok t) :
    ∃ sessions', sessions.update s = .ok sessions' ∧ Represents X T { b with
      sessions := t
      heldSessions := { s with events := .load s.id s.log } :: b.heldSessions } wallets
      sessions' ∧ Backend.Grows sessions sessions' := by
  have hheld := h.heldSessions s hs
  have hagree := h.sessionTables.update_agree hheld hprint (SessionTables.fits_of_update hu)
  rw [hu] at hagree
  obtain ⟨sessions', hupdate, ht⟩ := hagree.of_ok
  refine ⟨sessions', hupdate, ?_⟩
  obtain ⟨log, hlog, hbegins⟩ := hheld.in_store hupdate
  rcases hheld.saved hupdate with ⟨-, rfl⟩ | ⟨hrow, hfind⟩
  · exact ⟨(h.withSessions ht h.sessionsSound (.refl _)).holdSession
      (hheld.persist hlog hbegins), .refl _⟩
  · have hgrow := grows_of_saved hrow hfind
    have hsound : sessions'.Sound := by
      refine Store.forall_of_written h.sessionsSound hfind
        ⟨_, PsbtSessions.row_of_log hheld.grammatical ((hfind s.id).trans (if_pos rfl))⟩ ?_
      rintro j hsame ⟨s', hrow'⟩
      exact ⟨s', hrow'.congr hsame⟩
    exact ⟨(h.withSessions ht hsound hgrow).holdSession
      ((hheld.mono hgrow).persist hlog hbegins), hgrow⟩

/-- **A step keeps the representation**, of the stores that the call leaves, in which histories
only grew. -/
theorem step (h : Represents X T b wallets sessions) (hs : Backend.Step X T network b b') :
    ∃ wallets' sessions', Represents X T b' wallets' sessions' ∧ Backend.Grows wallets wallets' ∧
      Backend.Grows sessions sessions' := by
  cases hs with
  | registerWallet hn hprint hc =>
    obtain ⟨wallets', -, h', hgrow⟩ := h.registered hn hprint hc
    exact ⟨wallets', sessions, h', hgrow, .refl _⟩
  | loadWallet hload =>
    rw [h.walletTables.findById_eq] at hload
    exact ⟨wallets, sessions, h.holdWallet (WalletTables.held_of_row (h.walletsSound.row hload)),
      .refl _, .refl _⟩
  | commandWallet hw c =>
    exact ⟨wallets, sessions, h.holdWallet ((h.heldWallets _ hw).apply c), .refl _, .refl _⟩
  | saveWallet hw hprint hu =>
    obtain ⟨wallets', -, h', hgrow⟩ := h.savedWallet hw hprint hu
    exact ⟨wallets', sessions, h', hgrow, .refl _⟩
  | proposeSession hw hn hprint hc =>
    obtain ⟨sessions', -, h', hgrow⟩ := h.proposed hw hn hprint hc
    exact ⟨wallets, sessions', h', .refl _, hgrow⟩
  | loadSession hload =>
    rw [h.sessionTables.findById_eq] at hload
    exact ⟨wallets, sessions,
      h.holdSession (SessionTables.held_of_row (h.sessionsSound.row hload)), .refl _, .refl _⟩
  | commandSession hs c =>
    exact ⟨wallets, sessions, h.holdSession ((h.heldSessions _ hs).apply c), .refl _, .refl _⟩
  | saveSession hs hprint hu =>
    obtain ⟨sessions', -, h', hgrow⟩ := h.savedSession hs hprint hu
    exact ⟨wallets, sessions', h', .refl _, hgrow⟩

/-- Further steps, in which histories only grow. -/
theorem run (h : Represents X T b wallets sessions)
    (hrun : Backend.Run X T network b b') :
    ∃ wallets' sessions', Represents X T b' wallets' sessions' ∧ Backend.Grows wallets wallets' ∧
      Backend.Grows sessions sessions' := by
  induction hrun with
  | refl => exact ⟨wallets, sessions, h, .refl _, .refl _⟩
  | tail _ hs ih =>
    obtain ⟨wallets', sessions', h', hw, hs'⟩ := ih
    obtain ⟨wallets'', sessions'', h'', hw', hs''⟩ := h'.step hs
    exact ⟨wallets'', sessions'', h'', hw.trans hw', hs'.trans hs''⟩

end Backend.Represents

/-! ## A small run -/

namespace Backend.Sample

def solo : NewWallet := ⟨⟨1⟩, .bitcoin, 1, [⟨7⟩]⟩

/-- The wallet in memory with its one keystore. -/
def active : Wallet :=
  (solo.registered.apply (.sample []) (.addKeystore (Extern.Sample.key 1) ⟨7⟩)).2

/-- A session that spends from it. -/
def session : NewPsbtSession :=
  ⟨⟨3⟩, ⟨1⟩, ⟨7⟩, ⟨[⟨⟨5⟩, 0⟩], [⟨⟨"bc1", [.bitcoin], .other [1]⟩, 1000⟩], 10, none⟩, 1, [1]⟩

/-- The session in memory with its PSBT, and after that was saved, with a signature. -/
def created : PsbtSession := (session.proposed.apply (.recordPsbtCreated ⟨.replicate 32 0⟩)).2

def signed : PsbtSession :=
  (({ created with events := .load ⟨3⟩ created.log } : PsbtSession).apply
    (.addSignature 1 ⟨.replicate 32 1⟩)).2

def walletTables : WalletTables :=
  ((WalletTables.create (.sample []) .sample Tables.empty solo).toOption.map Prod.snd).getD .empty

def activeTables : WalletTables :=
  (WalletTables.update (.sample []) .sample walletTables active).toOption.getD .empty

def sessionTables : SessionTables :=
  ((SessionTables.create .sample Tables.empty session).toOption.map Prod.snd).getD .empty

def createdTables : SessionTables :=
  (SessionTables.update .sample sessionTables created).toOption.getD .empty

def signedTables : SessionTables :=
  (SessionTables.update .sample createdTables signed).toOption.getD .empty

/-- The wallet is active, the session is proposed, and its PSBT is recorded in memory. -/
def proposed : Backend :=
  ⟨activeTables, sessionTables,
    [{ active with events := .load ⟨1⟩ active.log }, active, solo.registered],
    [created, session.proposed]⟩

theorem run_proposed : Backend.Run (.sample []) .sample .bitcoin .empty proposed := by
  have hnew : NewWallet.new ⟨1⟩ .bitcoin 1 [⟨7⟩] = .ok solo := by decide +kernel
  have hwallet : WalletTables.create (.sample []) .sample Tables.empty solo =
      .ok (solo.registered, walletTables) := rfl
  have hsave : WalletTables.update (.sample []) .sample walletTables active = .ok activeTables := rfl
  have htry : NewPsbtSession.tryNew (.sample []) ⟨3⟩
      { active with events := .load active.id active.log } ⟨7⟩ session.spend = .ok session := by
    decide +kernel
  have hsession : SessionTables.create .sample Tables.empty session =
      .ok (session.proposed, sessionTables) := rfl
  have h1 : Backend.Run (.sample []) .sample .bitcoin .empty
      ⟨walletTables, Tables.empty, [solo.registered], []⟩ :=
    .single (.registerWallet hnew (by decide +kernel) hwallet)
  have h2 := h1.tail (.commandWallet List.mem_cons_self (.addKeystore (Extern.Sample.key 1) ⟨7⟩))
  have h3 := h2.tail (.saveWallet List.mem_cons_self (by decide +kernel) hsave)
  have h4 := h3.tail (.proposeSession List.mem_cons_self htry (by decide +kernel) hsession)
  exact h4.tail (.commandSession List.mem_cons_self (.recordPsbtCreated ⟨.replicate 32 0⟩))

theorem created_save : SessionTables.update .sample proposed.sessions created = .ok createdTables :=
  rfl

theorem signed_save : SessionTables.update .sample createdTables signed = .ok signedTables := rfl

end Backend.Sample

/-! ## Headlines -/

/-- **The tables implement the logs.** Every state that requests reach represents stores of event
logs on which each repository call has the answer it has on the tables, and after each write the
tables hold what the store then holds. A write is one of events that fit their columns; any other
is refused. -/
theorem Backend.refines {T : Texts} {b : Backend} (h : Backend.Run X T network .empty b) :
    ∃ wallets sessions, Backend.Represents X T b wallets sessions ∧
      (∀ id, WalletTables.findById X T b.wallets id = wallets.findById id) ∧
      (∀ fingerprint, WalletTables.findByDescriptorFingerprint X T b.wallets fingerprint =
        wallets.findByDescriptorFingerprint fingerprint) ∧
      (∀ n, (∀ e ∈ n.intoEvents.iterAll, e.Printable X T) →
        Fits (WalletEvent.stored X T) n.intoEvents →
        Agree (fun a a' => a.1 = a'.1 ∧ WalletTables.Holds X T a.2 a'.2)
          (WalletTables.create X T b.wallets n) (wallets.create n)) ∧
      (∀ w ∈ b.heldWallets, (∀ e ∈ w.log, e.Printable X T) →
        Fits (WalletEvent.stored X T) w.events →
        Agree (WalletTables.Holds X T) (WalletTables.update X T b.wallets w) (wallets.update w)) ∧
      (∀ id, SessionTables.findById T b.sessions id = sessions.findById id) ∧
      (∀ n, (∀ e ∈ n.proposed.log, e.Printable T) → Fits (PsbtSessionEvent.stored T) n.intoEvents →
        Agree (fun a a' => a.1 = a'.1 ∧ SessionTables.Holds T a.2 a'.2)
          (SessionTables.create T b.sessions n) (sessions.create n)) ∧
      (∀ s ∈ b.heldSessions, (∀ e ∈ s.log, e.Printable T) →
        Fits (PsbtSessionEvent.stored T) s.events →
        Agree (SessionTables.Holds T) (SessionTables.update T b.sessions s) (sessions.update s)) ∧
      (∀ n r, WalletTables.create X T b.wallets n = .ok r →
        Fits (WalletEvent.stored X T) n.intoEvents) ∧
      (∀ w t, WalletTables.update X T b.wallets w = .ok t →
        Fits (WalletEvent.stored X T) w.events) ∧
      (∀ n r, SessionTables.create T b.sessions n = .ok r →
        Fits (PsbtSessionEvent.stored T) n.intoEvents) ∧
      ∀ s t, SessionTables.update T b.sessions s = .ok t →
        Fits (PsbtSessionEvent.stored T) s.events := by
  obtain ⟨wallets, sessions, hrep, -, -⟩ := Backend.Represents.empty.run h
  refine ⟨wallets, sessions, hrep, hrep.walletTables.findById_eq,
    hrep.walletTables.findByDescriptorFingerprint_eq, ?_, ?_, hrep.sessionTables.findById_eq, ?_,
    ?_, fun n r hc => WalletTables.fits_of_create hc, fun w t hu => WalletTables.fits_of_update hu,
    fun n r hc => SessionTables.fits_of_create hc, fun s t hu => SessionTables.fits_of_update hu⟩
  · exact fun n hprint hfits => hrep.walletTables.create_agree hprint hfits
  · exact fun w hw hprint hfits =>
      hrep.walletTables.update_agree (hrep.heldWallets w hw) hprint hfits
  · exact fun n hprint hfits => hrep.sessionTables.create_agree hprint hfits
  · exact fun s hs hprint hfits =>
      hrep.sessionTables.update_agree (hrep.heldSessions s hs) hprint hfits

theorem Backend.refines_proposed : ∃ wallets sessions,
    Backend.Represents (.sample []) .sample Backend.Sample.proposed wallets sessions ∧
      ∀ id, SessionTables.findById .sample Backend.Sample.proposed.sessions id =
        sessions.findById id := by
  obtain ⟨wallets, sessions, hrep, -, -, -, -, hfind, -⟩ :=
    Backend.refines Backend.Sample.run_proposed
  exact ⟨wallets, sessions, hrep, hfind⟩

namespace Backend.Represents

variable {T : Texts} {b : Backend} {wallets : Wallets} {sessions : PsbtSessions}

/-- A wallet that loads is a row of the store, and every row loads. -/
theorem findWallet_iff (h : Represents X T b wallets sessions) {id : WalletId} {w : Wallet} :
    WalletTables.findById X T b.wallets id = .ok w ↔ Wallets.Row X wallets id w := by
  rw [h.walletTables.findById_eq]
  exact ⟨h.walletsSound.row, fun hrow => hrow.found⟩

theorem findSession_iff (h : Represents X T b wallets sessions) {id : PsbtSessionId}
    {s : PsbtSession} :
    SessionTables.findById T b.sessions id = .ok s ↔ PsbtSessions.Row sessions id s := by
  rw [h.sessionTables.findById_eq]
  exact ⟨h.sessionsSound.row, fun hrow => hrow.found⟩

/-- The rows of `core_wallets` are those of the wallets that load, with their columns. -/
theorem mem_walletIndex (h : Represents X T b wallets sessions) {id : WalletId}
    {columns : WalletColumns} :
    (id, columns) ∈ b.wallets.index ↔
      ∃ w, WalletTables.findById X T b.wallets id = .ok w ∧ w.columns = columns := by
  rw [h.walletTables.repr.mem_index]
  constructor
  · rintro ⟨log, hlog, hcols⟩
    obtain ⟨w, hrow⟩ := h.walletsSound id log hlog
    obtain rfl : w.log = log := Option.some.inj (hrow.log_eq.symm.trans hlog)
    exact ⟨w, h.findWallet_iff.mpr hrow, Option.some.inj hcols⟩
  · rintro ⟨w, hw, rfl⟩
    exact ⟨w.log, (h.findWallet_iff.mp hw).log_eq, rfl⟩

/-- The rows of `core_psbt_sessions` are those of the sessions that load, with their columns. -/
theorem mem_sessionIndex (h : Represents X T b wallets sessions) {id : PsbtSessionId}
    {columns : SessionColumns} :
    (id, columns) ∈ b.sessions.index ↔
      ∃ s, SessionTables.findById T b.sessions id = .ok s ∧ s.columns = columns := by
  rw [h.sessionTables.repr.mem_index]
  constructor
  · rintro ⟨log, hlog, hcols⟩
    obtain ⟨s, hrow⟩ := h.sessionsSound id log hlog
    obtain rfl : s.log = log := Option.some.inj (hrow.log_eq.symm.trans hlog)
    have hs := SessionTables.sessionColumns_log hrow.grammatical.loaded.hydrates
    exact ⟨s, h.findSession_iff.mpr hrow, Option.some.inj (hs.symm.trans hcols)⟩
  · rintro ⟨s, hs, rfl⟩
    have hrow := h.findSession_iff.mp hs
    exact ⟨s.log, hrow.log_eq, SessionTables.sessionColumns_log hrow.grammatical.loaded.hydrates⟩

/-- A lookup by fingerprint finds the wallet that loads with it. -/
theorem findByFingerprint_iff (h : Represents X T b wallets sessions)
    {fingerprint : DescriptorFingerprint} {w : Wallet} :
    WalletTables.findByDescriptorFingerprint X T b.wallets fingerprint = .ok w ↔
      WalletTables.findById X T b.wallets w.id = .ok w ∧
        w.descriptorFingerprint = some fingerprint := by
  rw [h.walletTables.findByDescriptorFingerprint_eq]
  constructor
  · intro hw
    unfold Wallets.findByDescriptorFingerprint at hw
    split at hw
    · exact absurd hw (by simp)
    · rename_i row hrow
      have hmem := List.mem_of_find?_eq_some hrow
      have hfp := List.find?_some hrow
      rw [beq_iff_eq] at hfp
      have hrow' := h.walletsSound.row hw
      rw [h.findWallet_iff, hrow'.id_eq]
      refine ⟨hrow', ?_⟩
      have hfound : wallets.find? row.1 = some row.2 :=
        Store.find?_of_mem h.walletTables.repr.nodup hmem
      obtain hlog : w.log = row.2 := Option.some.inj (hrow'.log_eq.symm.trans hfound)
      unfold Wallet.descriptorFingerprint
      rw [hlog]
      exact hfp
  · rintro ⟨hw, hfp⟩
    exact h.apart.find_eq h.walletTables.repr.nodup (h.findWallet_iff.mp hw) hfp

/-- An up-to-date wallet whose fingerprint is free can be saved. -/
theorem update_isOk (h : Represents X T b wallets sessions) {w : Wallet}
    (hlog : wallets.find? w.id = some w.events.persisted)
    (hfree : ∀ w' fingerprint, WalletTables.findById X T b.wallets w'.id = .ok w' → w'.id ≠ w.id →
      w.descriptorFingerprint = some fingerprint →
        w'.descriptorFingerprint ≠ some fingerprint) :
    ∃ wallets', wallets.update w = .ok wallets' := by
  unfold Wallets.update
  split
  · exact ⟨_, rfl⟩
  · split
    · rename_i hany
      obtain ⟨row, hmem, htest⟩ := List.any_eq_true.mp hany
      rw [Bool.and_eq_true, Bool.and_eq_true, bne_iff_ne, beq_iff_eq] at htest
      obtain ⟨⟨hne, hsome⟩, heq⟩ := htest
      obtain ⟨fingerprint, hfp⟩ := Option.isSome_iff_exists.mp hsome
      have hfound := Store.find?_of_mem h.walletTables.repr.nodup
        (show (row.1, row.2) ∈ wallets.rows from hmem)
      obtain ⟨w', hrow⟩ := h.walletsSound _ _ hfound
      have hlog' : w'.log = row.2 := Option.some.inj (hrow.log_eq.symm.trans hfound)
      refine absurd ?_ (hfree w' fingerprint ?_ ?_ hfp)
      · rw [← hfp, ← heq, ← hlog']
        rfl
      · rw [hrow.id_eq]
        exact h.findWallet_iff.mpr hrow
      · rw [hrow.id_eq]
        exact hne
    · obtain ⟨wallets', happend⟩ := Store.append_eq_some hlog (Nat.le_refl _)
      rw [happend]
      exact ⟨_, rfl⟩

end Backend.Represents

theorem WalletStatus.name_injective : Function.Injective WalletStatus.name := by
  intro a b
  cases a <;> cases b <;> decide

theorem PsbtSessionStatus.name_injective : Function.Injective PsbtSessionStatus.name := by
  intro a b
  cases a <;> cases b <;> decide

/-- **Index columns are never stale.** In every state that requests reach there is one row a
wallet, the rows are those of the wallets that load, each with the status and fingerprint of the
wallet that loads, and no fingerprint stands in two rows; likewise for sessions. -/
theorem Backend.columns_current {T : Texts} {b : Backend} (h : Backend.Run X T network .empty b) :
    b.wallets.ids.Nodup ∧
    (∀ id columns, (id, columns) ∈ b.wallets.index ↔
      ∃ w, WalletTables.findById X T b.wallets id = .ok w ∧ w.columns = columns) ∧
    (∀ row ∈ b.wallets.index, ∀ row' ∈ b.wallets.index,
      WalletColumns.clash row.2 row'.2 = true → row = row') ∧
    b.sessions.ids.Nodup ∧
    ∀ id columns, (id, columns) ∈ b.sessions.index ↔
      ∃ s, SessionTables.findById T b.sessions id = .ok s ∧ s.columns = columns := by
  obtain ⟨wallets, sessions, hrep, -, -⟩ := Backend.Represents.empty.run h
  have hids : b.wallets.ids.Nodup := hrep.walletTables.repr.ids_eq ▸ hrep.walletTables.repr.nodup
  refine ⟨hids, fun id columns => hrep.mem_walletIndex, ?_,
    hrep.sessionTables.repr.ids_eq ▸ hrep.sessionTables.repr.nodup,
    fun id columns => hrep.mem_sessionIndex⟩
  rintro ⟨id, columns⟩ hrow ⟨id', columns'⟩ hrow' hclash
  obtain ⟨log, hlog, hcols⟩ := hrep.walletTables.repr.mem_index.mp hrow
  obtain ⟨log', hlog', hcols'⟩ := hrep.walletTables.repr.mem_index.mp hrow'
  obtain rfl := Option.some.inj hcols
  obtain rfl := Option.some.inj hcols'
  obtain ⟨hsome, heq⟩ := Bool.and_eq_true_iff.mp hclash
  have hfp := Option.map_injective DescriptorFingerprint.display_injective (beq_iff_eq.mp heq)
  obtain ⟨fingerprint, hfingerprint⟩ := Option.isSome_iff_exists.mp (Option.isSome_map ▸ hsome)
  obtain rfl := hrep.apart id id' log log' fingerprint hlog hlog' hfingerprint
    (hfp ▸ hfingerprint)
  obtain rfl := Option.some.inj (hlog.symm.trans hlog')
  rfl

theorem Backend.columns_current_proposed :
    ∃ s, SessionTables.findById .sample Backend.Sample.proposed.sessions ⟨3⟩ = .ok s ∧
      s.columns = ⟨⟨1⟩, "pending"⟩ :=
  ((Backend.columns_current Backend.Sample.run_proposed).2.2.2.2 ⟨3⟩ ⟨⟨1⟩, "pending"⟩).mp
    (by decide +kernel)

/-- **Queries by a column are exact.** The rows with a status are the entities that load with that
status, and a lookup by fingerprint finds the wallet that loads with it. -/
theorem Backend.queries_exact {T : Texts} {b : Backend} (h : Backend.Run X T network .empty b) :
    (∀ status id, id ∈ b.wallets.idsWhere (fun c => c.status == WalletStatus.text.print status) ↔
      ∃ w, WalletTables.findById X T b.wallets id = .ok w ∧ w.status = status) ∧
    (∀ fingerprint w,
      WalletTables.findByDescriptorFingerprint X T b.wallets fingerprint = .ok w ↔
        WalletTables.findById X T b.wallets w.id = .ok w ∧
          w.descriptorFingerprint = some fingerprint) ∧
    (∀ status id,
      id ∈ b.sessions.idsWhere (fun c => c.status == PsbtSessionStatus.text.print status) ↔
      ∃ s, SessionTables.findById T b.sessions id = .ok s ∧ s.status = status) ∧
    ∀ walletId id, id ∈ b.sessions.idsWhere (fun c => c.walletId == walletId) ↔
      ∃ s, SessionTables.findById T b.sessions id = .ok s ∧ s.walletId = walletId := by
  obtain ⟨wallets, sessions, hrep, -, -⟩ := Backend.Represents.empty.run h
  refine ⟨fun status id => ?_, fun fingerprint w => hrep.findByFingerprint_iff,
    fun status id => ?_, fun walletId id => ?_⟩
  · rw [Tables.mem_idsWhere]
    constructor
    · rintro ⟨columns, hrow, hstatus⟩
      obtain ⟨w, hw, rfl⟩ := hrep.mem_walletIndex.mp hrow
      exact ⟨w, hw, WalletStatus.name_injective (beq_iff_eq.mp hstatus)⟩
    · rintro ⟨w, hw, rfl⟩
      exact ⟨w.columns, hrep.mem_walletIndex.mpr ⟨w, hw, rfl⟩, beq_iff_eq.mpr rfl⟩
  · rw [Tables.mem_idsWhere]
    constructor
    · rintro ⟨columns, hrow, hstatus⟩
      obtain ⟨s, hs, rfl⟩ := hrep.mem_sessionIndex.mp hrow
      exact ⟨s, hs, PsbtSessionStatus.name_injective (beq_iff_eq.mp hstatus)⟩
    · rintro ⟨s, hs, rfl⟩
      exact ⟨s.columns, hrep.mem_sessionIndex.mpr ⟨s, hs, rfl⟩, beq_iff_eq.mpr rfl⟩
  · rw [Tables.mem_idsWhere]
    constructor
    · rintro ⟨columns, hrow, hwallet⟩
      obtain ⟨s, hs, rfl⟩ := hrep.mem_sessionIndex.mp hrow
      exact ⟨s, hs, beq_iff_eq.mp hwallet⟩
    · rintro ⟨s, hs, rfl⟩
      exact ⟨s.columns, hrep.mem_sessionIndex.mpr ⟨s, hs, rfl⟩, beq_iff_eq.mpr rfl⟩

theorem Backend.queries_exact_proposed :
    ∃ w, WalletTables.findById (.sample []) .sample Backend.Sample.proposed.wallets ⟨1⟩ = .ok w ∧
      w.status = .active :=
  ((Backend.queries_exact Backend.Sample.run_proposed).1 .active ⟨1⟩).mp (by decide +kernel)

section Saves

variable {T : Texts} {b : Backend}

/-- **A save succeeds exactly on an up-to-date entity.** A held wallet with new events is written
exactly when the wallet that loads is the one it was loaded as, no other wallet has its fingerprint
and the new events fit their columns; afterwards it is what loads, and every other id loads as
before. -/
theorem Backend.wallet_save_iff (h : Backend.Run X T network .empty b) {w : Wallet}
    (hw : w ∈ b.heldWallets) (hfresh : w.events.fresh ≠ [])
    (hprint : ∀ e ∈ w.log, e.Printable X T) :
    ((∃ t, WalletTables.update X T b.wallets w = .ok t) ↔
      (∃ w₀, WalletTables.findById X T b.wallets w.id = .ok w₀ ∧ w₀.log = w.events.persisted) ∧
      (∀ w' fingerprint, WalletTables.findById X T b.wallets w'.id = .ok w' → w'.id ≠ w.id →
        w.descriptorFingerprint = some fingerprint →
          w'.descriptorFingerprint ≠ some fingerprint) ∧
      Fits (WalletEvent.stored X T) w.events) ∧
    ∀ t, WalletTables.update X T b.wallets w = .ok t → ∀ id,
      WalletTables.findById X T t id = if id = w.id then
        .ok { w with events := .load w.id w.log } else WalletTables.findById X T b.wallets id := by
  obtain ⟨wallets, sessions, hrep, -, -⟩ := Backend.Represents.empty.run h
  have hheld := hrep.heldWallets w hw
  have hagree := hrep.walletTables.update_agree hheld hprint
  constructor
  · constructor
    · rintro ⟨t, ht⟩
      have hfits := WalletTables.fits_of_update ht
      obtain ⟨wallets', hu⟩ := (hagree hfits).isOk_iff.mp ⟨t, ht⟩
      rcases hheld.saved hu with ⟨hnone, -⟩ | ⟨hlog, -⟩
      · exact absurd hnone hfresh
      · obtain ⟨w₀, hrow⟩ := hrep.walletsSound _ _ hlog
        refine ⟨⟨w₀, hrep.findWallet_iff.mpr hrow,
          Option.some.inj (hrow.log_eq.symm.trans hlog)⟩, ?_, hfits⟩
        intro w' fingerprint hw' hne hfp
        exact Wallets.update_free hu hfresh hne (hrep.findWallet_iff.mp hw').log_eq hfp
    · rintro ⟨⟨w₀, hw₀, hlog⟩, hfree, hfits⟩
      refine (hagree hfits).isOk_iff.mpr (hrep.update_isOk ?_ hfree)
      rw [(hrep.findWallet_iff.mp hw₀).log_eq, hlog]
  · intro t ht id
    have hagree := hagree (WalletTables.fits_of_update ht)
    rw [ht] at hagree
    obtain ⟨wallets', hu, hholds⟩ := hagree.of_ok
    rcases hheld.saved hu with ⟨hnone, -⟩ | ⟨-, hfind⟩
    · exact absurd hnone hfresh
    · rw [hholds.findById_eq, hrep.walletTables.findById_eq]
      split
      · rename_i hid
        rw [hid]
        exact (Wallets.row_of_log hheld.inv hheld.replays (by rw [hfind, if_pos rfl])).found
      · rename_i hid
        exact Wallets.findById_congr (by rw [hfind, if_neg hid])

/-- The wallet from before its own save is out of date. -/
theorem Backend.wallet_save_iff_active :
    ¬ ∃ t, WalletTables.update (.sample []) .sample Backend.Sample.proposed.wallets
      Backend.Sample.active = .ok t := by
  intro h
  obtain ⟨⟨w₀, hload, hlog⟩, -⟩ := (Backend.wallet_save_iff Backend.Sample.run_proposed
    (List.mem_cons_of_mem _ List.mem_cons_self) (by decide +kernel) (by decide +kernel)).1.mp h
  have hsaved : WalletTables.findById (.sample []) .sample Backend.Sample.proposed.wallets ⟨1⟩ =
      .ok { Backend.Sample.active with events := .load ⟨1⟩ Backend.Sample.active.log } := rfl
  obtain rfl := Except.ok.inj (hsaved.symm.trans hload)
  exact absurd hlog (by decide +kernel)

/-- Likewise for a held session, which has no unique column. -/
theorem Backend.session_save_iff (h : Backend.Run X T network .empty b) {s : PsbtSession}
    (hs : s ∈ b.heldSessions) (hfresh : s.events.fresh ≠ [])
    (hprint : ∀ e ∈ s.log, e.Printable T) :
    ((∃ t, SessionTables.update T b.sessions s = .ok t) ↔
      (∃ s₀, SessionTables.findById T b.sessions s.id = .ok s₀ ∧ s₀.log = s.events.persisted) ∧
      Fits (PsbtSessionEvent.stored T) s.events) ∧
    ∀ t, SessionTables.update T b.sessions s = .ok t → ∀ id,
      SessionTables.findById T t id = if id = s.id then
        .ok { s with events := .load s.id s.log } else SessionTables.findById T b.sessions id := by
  obtain ⟨wallets, sessions, hrep, -, -⟩ := Backend.Represents.empty.run h
  have hheld := hrep.heldSessions s hs
  have hagree := hrep.sessionTables.update_agree hheld hprint
  constructor
  · constructor
    · rintro ⟨t, ht⟩
      have hfits := SessionTables.fits_of_update ht
      obtain ⟨sessions', hu⟩ := (hagree hfits).isOk_iff.mp ⟨t, ht⟩
      rcases hheld.saved hu with ⟨hnone, -⟩ | ⟨hlog, -⟩
      · exact absurd hnone hfresh
      · obtain ⟨s₀, hrow⟩ := hrep.sessionsSound _ _ hlog
        exact ⟨⟨s₀, hrep.findSession_iff.mpr hrow,
          Option.some.inj (hrow.log_eq.symm.trans hlog)⟩, hfits⟩
    · rintro ⟨⟨s₀, hs₀, hlog⟩, hfits⟩
      refine (hagree hfits).isOk_iff.mpr ?_
      unfold PsbtSessions.update
      split
      · exact ⟨_, rfl⟩
      · have hfound := (hrep.findSession_iff.mp hs₀).log_eq
        obtain ⟨sessions', happend⟩ := Store.append_eq_some hfound (Nat.le_of_eq
          (congrArg List.length hlog))
        rw [happend]
        exact ⟨_, rfl⟩
  · intro t ht id
    have hagree := hagree (SessionTables.fits_of_update ht)
    rw [ht] at hagree
    obtain ⟨sessions', hu, hholds⟩ := hagree.of_ok
    rcases hheld.saved hu with ⟨hnone, -⟩ | ⟨-, hfind⟩
    · exact absurd hnone hfresh
    · rw [hholds.findById_eq, hrep.sessionTables.findById_eq]
      split
      · rename_i hid
        rw [hid]
        exact (PsbtSessions.row_of_log hheld.grammatical (by rw [hfind, if_pos rfl])).found
      · rename_i hid
        exact PsbtSessions.findById_congr (by rw [hfind, if_neg hid])

/-- The session in memory, cancelled for a reason that no column takes. -/
def Backend.Sample.unstorable : PsbtSession :=
  (Backend.Sample.session.proposed.apply (.cancel ⟨7⟩ "\x00")).2

theorem Backend.session_save_iff_created :
    (∃ t, SessionTables.update .sample Backend.Sample.proposed.sessions Backend.Sample.created =
      .ok t) ∧
    ¬ ∃ t, SessionTables.update .sample Backend.Sample.proposed.sessions
      Backend.Sample.unstorable = .ok t := by
  constructor
  · exact (Backend.session_save_iff Backend.Sample.run_proposed List.mem_cons_self
      (by decide +kernel) (by decide +kernel)).1.mpr
        ⟨⟨_, rfl, rfl⟩, by decide +kernel, by decide +kernel⟩
  · intro h
    have hrun := Backend.Sample.run_proposed.tail (.commandSession
      (List.mem_cons_of_mem _ List.mem_cons_self) (.cancel ⟨7⟩ "\x00"))
    obtain ⟨-, hfits⟩ := (Backend.session_save_iff hrun (s := Backend.Sample.unstorable)
      List.mem_cons_self (by decide +kernel) (by decide +kernel)).1.mp h
    exact absurd hfits.storable (by decide +kernel)

/-- The state after a session was saved, in memory too. -/
def Backend.afterSave (b : Backend) (s : PsbtSession) (t : SessionTables) : Backend :=
  { b with
    sessions := t
    heldSessions := { s with events := .load s.id s.log } :: b.heldSessions }

/-- **No save is lost.** Between two saves of one session stand any steps of any requests; when the
second one writes, the session it writes was computed from a log that begins with all that the
first one wrote. -/
theorem Backend.no_lost_update (h : Backend.Run X T network .empty b) {s : PsbtSession}
    (hs : s ∈ b.heldSessions) (hprint : ∀ e ∈ s.log, e.Printable T) {t : SessionTables}
    (hsave : SessionTables.update T b.sessions s = .ok t) {b' : Backend}
    (hrun : Backend.Run X T network (b.afterSave s t) b') {s' : PsbtSession}
    (hs' : s' ∈ b'.heldSessions) (hid : s'.id = s.id) (hfresh : s'.events.fresh ≠ [])
    (hprint' : ∀ e ∈ s'.log, e.Printable T) {t' : SessionTables}
    (hsave' : SessionTables.update T b'.sessions s' = .ok t') :
    s.log <+: s'.events.persisted := by
  obtain ⟨wallets, sessions, hrep, -, -⟩ := Backend.Represents.empty.run h
  obtain ⟨sessions₁, -, hrep₁, -⟩ := hrep.savedSession hs hprint hsave
  -- what the first save wrote is the log of the entity it leaves in memory
  have hheld := hrep₁.heldSessions _ List.mem_cons_self
  obtain ⟨log, hlog, hbegins⟩ := hheld.loaded
  obtain ⟨wallets₂, sessions₂, hrep₂, -, hgrow⟩ := hrep₁.run hrun
  obtain ⟨more, hmore⟩ := hgrow s.id log hlog
  have hheld' := hrep₂.heldSessions s' hs'
  have hagree := hrep₂.sessionTables.update_agree hheld' hprint'
    (SessionTables.fits_of_update hsave')
  rw [hsave'] at hagree
  obtain ⟨sessions₃, hu, -⟩ := hagree.of_ok
  rcases hheld'.saved hu with ⟨hnone, -⟩ | ⟨hlog', -⟩
  · exact absurd hnone hfresh
  · rw [hid, hmore, Option.some.injEq] at hlog'
    rw [← hlog']
    exact hbegins.trans (List.prefix_append log more)

theorem Backend.no_lost_update_signed :
    Backend.Sample.created.log <+: Backend.Sample.signed.events.persisted :=
  Backend.no_lost_update Backend.Sample.run_proposed
    List.mem_cons_self (by decide +kernel) Backend.Sample.created_save
    (.single (.commandSession List.mem_cons_self (.addSignature 1 ⟨.replicate 32 1⟩)))
    List.mem_cons_self rfl (by decide +kernel) (by decide +kernel) Backend.Sample.signed_save

end Saves

end Held

end Kota
