import Kota.Agreement
import Kota.Backend

/-!
# Calls over the tables

Elsewhere calls interleave over stores of event logs (`Traffic`). Here the same interleavings are
carried out over the tables of the database.

* `Backend.Carries`: the tables represent the stores, and what the calls under way have loaded or
  are about to write is in memory.
* **`Backend.carries_calls`**: every interleaving of calls can be carried out over the tables, when
  the events it stores can be printed and fit their columns. Where it leads, each load and each
  write that a call may make next is answered as over the stores. What the other modules prove of
  the stores after any interleaving of calls therefore holds of what the tables load.
-/

namespace Kota

open EventLog EventTable

variable (X : Extern) (T : Texts) (network : Network)

/-! ## The relation -/

/-- The stored events can be printed, and fit their columns. -/
structure Platform.Printed (p : Platform) : Prop where
  wallets : ∀ id log, p.wallets.find? id = some log → log.length < 2 ^ 31 ∧
    ∀ e ∈ log, e.Printable X T ∧ (e.stored X T).storable = true
  sessions : ∀ id log, p.sessions.find? id = some log → log.length < 2 ^ 31 ∧
    ∀ e ∈ log, e.Printable T ∧ (e.stored T).storable = true

/-- What a call holds at this stage is in memory. -/
def Traffic.Stage.InMemory (b : Backend) : Traffic.Stage → Prop
  | .wallet w => w ∈ b.heldWallets
  | .session s => s ∈ b.heldSessions
  | .computed (.ok (some s)) => s ∈ b.heldSessions
  | _ => True

structure Backend.Carries (b : Backend) (c : Traffic) : Prop where
  represents : Backend.Represents X T b c.platform.wallets c.platform.sessions
  memory : ∀ task ∈ c.tasks, task.stage.InMemory b

/-- Steps over the tables that lead to this platform and leave a call at this stage. -/
structure Backend.Leads (b b' : Backend) (p : Platform) (stage : Traffic.Stage) : Prop where
  run : Backend.Run X T network b b'
  represents : Backend.Represents X T b' p.wallets p.sessions
  wallets : b.heldWallets ⊆ b'.heldWallets
  sessions : b.heldSessions ⊆ b'.heldSessions
  memory : stage.InMemory b'

variable {X T network} {b b' : Backend} {p : Platform} {c : Traffic}

theorem Traffic.Stage.InMemory.mono {stage : Traffic.Stage} (h : stage.InMemory b)
    (hw : b.heldWallets ⊆ b'.heldWallets) (hs : b.heldSessions ⊆ b'.heldSessions) :
    stage.InMemory b' := by
  rcases stage with w | s | (e | (_ | s)) | answer | _
  · exact hw h
  · exact hs h
  · exact h
  · exact h
  · exact hs h
  · exact h
  · exact h

/-- What can be printed could be printed before the stores grew. -/
theorem Platform.Printed.earlier {p' : Platform} (h : p'.Printed X T) (hinv : Traffic.Inv X c)
    (hkeeps : Traffic.Keeps X p' c.platform) : c.platform.Printed X T where
  wallets id log hlog := by
    obtain ⟨es, hgrown⟩ := hkeeps.wallets_grow id log hlog
    obtain ⟨hlen, hprint⟩ := h.wallets id _ hgrown
    rw [List.length_append] at hlen
    exact ⟨by omega, fun e he => hprint e (List.mem_append_left _ he)⟩
  sessions id log hlog := by
    obtain ⟨s, hrow⟩ := hinv.sessions id log hlog
    obtain ⟨s', es, hrow', hgrown⟩ := hkeeps.sessions_grow id s hrow
    obtain rfl := Option.some.inj (hlog.symm.trans hrow.log_eq)
    obtain ⟨hlen, hprint⟩ := h.sessions id _ hrow'.log_eq
    rw [hgrown.log, List.length_append] at hlen
    rw [hgrown.log] at hprint
    exact ⟨by omega, fun e he => hprint e (List.mem_append_left _ he)⟩

/-- What a wallet wrote, when its log begins a stored one. -/
theorem Platform.Printed.written (h : p.Printed X T) {id : WalletId} {log : List WalletEvent}
    (hlog : p.wallets.find? id = some log) {es : EntityEvents WalletId WalletEvent}
    (hbegins : es.iterAll <+: log) :
    (∀ e ∈ es.iterAll, e.Printable X T) ∧ Fits (WalletEvent.stored X T) es := by
  obtain ⟨hlen, hprint⟩ := h.wallets id log hlog
  exact ⟨fun e he => (hprint e (hbegins.subset he)).1,
    .of_begins hbegins hlen fun e he => (hprint e he).2⟩

theorem Platform.Printed.written_session (h : p.Printed X T) {id : PsbtSessionId}
    {log : List PsbtSessionEvent} (hlog : p.sessions.find? id = some log)
    {es : EntityEvents PsbtSessionId PsbtSessionEvent} (hbegins : es.iterAll <+: log) :
    (∀ e ∈ es.iterAll, e.Printable T) ∧ Fits (PsbtSessionEvent.stored T) es := by
  obtain ⟨hlen, hprint⟩ := h.sessions id log hlog
  exact ⟨fun e he => (hprint e (hbegins.subset he)).1,
    .of_begins hbegins hlen fun e he => (hprint e he).2⟩

namespace Backend

/-- No step. -/
theorem Leads.refl {stage : Traffic.Stage} (h : Represents X T b p.wallets p.sessions)
    (hstage : stage.InMemory b) : Leads X T network b b p stage :=
  ⟨.refl, h, List.Subset.refl _, List.Subset.refl _, hstage⟩

/-! ## Loads -/

variable (network) in
/-- A call loads over the tables what it loads over the stores. -/
theorem leads_load (h : Represents X T b p.wallets p.sessions) (call : Call) :
    ∃ b', Leads X T network b b' p (Traffic.load p call) := by
  have hwallet : ∀ id w, p.wallets.findById id = .ok w →
      ∃ b', Leads X T network b b' p (.wallet w) := by
    intro id w hw
    have hload := (h.walletTables.findById_eq id).trans hw
    exact ⟨_, .single (.loadWallet hload),
      h.holdWallet (WalletTables.held_of_row (h.walletsSound.row hw)),
      List.subset_cons_self _ _, List.Subset.refl _, List.mem_cons_self⟩
  cases call with
  | wallet id command =>
    unfold Traffic.load
    dsimp only
    split
    · exact ⟨b, .refl h trivial⟩
    · rename_i w hw
      exact hwallet id w hw
  | proposeSpend id walletId proposedBy spend =>
    unfold Traffic.load
    dsimp only
    split
    · exact ⟨b, .refl h trivial⟩
    · rename_i w hw
      exact hwallet walletId w hw
  | session id call =>
    unfold Traffic.load
    dsimp only
    split
    · exact ⟨b, .refl h trivial⟩
    · rename_i s hs
      have hload := (h.sessionTables.findById_eq id).trans hs
      exact ⟨_, .single (.loadSession hload),
        h.holdSession (SessionTables.held_of_row (h.sessionsSound.row hs)),
        List.Subset.refl _, List.subset_cons_self _ _, List.mem_cons_self⟩

/-! ## Writes -/

variable (network) in
/-- Saving a wallet over the tables, where it is saved over the stores. -/
theorem leads_saveWallet (h : Represents X T b p.wallets p.sessions) {w : Wallet}
    (hw : w ∈ b.heldWallets) {wallets : Wallets} (hu : p.wallets.update w = .ok wallets)
    (hprint : Platform.Printed X T { p with wallets }) (answer : Except Failure Unit) :
    ∃ b', Leads X T network b b' { p with wallets } (.returned answer) := by
  have hheld := h.heldWallets w hw
  obtain ⟨log, hlog, hbegins⟩ := hheld.in_store hu
  obtain ⟨hprint', hfits⟩ := hprint.written hlog hbegins
  obtain ⟨t, ht⟩ := (h.walletTables.update_agree hheld hprint' hfits).isOk_iff.mpr ⟨_, hu⟩
  obtain ⟨wallets', hu', hrep, -⟩ := h.savedWallet hw hprint' ht
  obtain rfl : wallets = wallets' := Except.ok.inj (hu.symm.trans hu')
  exact ⟨_, .single (.saveWallet hw hprint' ht), hrep, List.subset_cons_self _ _,
    List.Subset.refl _, trivial⟩

variable (network) in
theorem leads_saveSession (h : Represents X T b p.wallets p.sessions) {s : PsbtSession}
    (hs : s ∈ b.heldSessions) {sessions : PsbtSessions} (hu : p.sessions.update s = .ok sessions)
    (hprint : Platform.Printed X T { p with sessions }) (answer : Except Failure Unit) :
    ∃ b', Leads X T network b b' { p with sessions } (.returned answer) := by
  have hheld := h.heldSessions s hs
  obtain ⟨log, hlog, hbegins⟩ := hheld.in_store hu
  obtain ⟨hprint', hfits⟩ := hprint.written_session hlog hbegins
  obtain ⟨t, ht⟩ := (h.sessionTables.update_agree hheld hprint' hfits).isOk_iff.mpr ⟨_, hu⟩
  obtain ⟨sessions', hu', hrep, -⟩ := h.savedSession hs hprint' ht
  obtain rfl : sessions = sessions' := Except.ok.inj (hu.symm.trans hu')
  exact ⟨_, .single (.saveSession hs hprint' ht), hrep, List.Subset.refl _,
    List.subset_cons_self _ _, trivial⟩

/-- Steps after a step. -/
theorem Leads.after {b₁ : Backend} {p₁ : Platform} {stage₁ stage : Traffic.Stage}
    (h : Leads X T network b b₁ p₁ stage₁) (h' : Leads X T network b₁ b' p stage) :
    Leads X T network b b' p stage :=
  ⟨h.run.trans h'.run, h'.represents, List.Subset.trans h.wallets h'.wallets,
    List.Subset.trans h.sessions h'.sessions, h'.memory⟩

/-- The second step of a call on a wallet. -/
theorem leads_walletStep (h : Represents X T b p.wallets p.sessions) (command : WalletCommand)
    {w : Wallet} (hw : w ∈ b.heldWallets)
    (hprint : (Traffic.walletStep X p command w).1.Printed X T) :
    ∃ b', Leads X T network b b' (Traffic.walletStep X p command w).1
      (Traffic.walletStep X p command w).2 := by
  unfold Traffic.walletStep at hprint ⊢
  split
  · exact ⟨b, .refl h trivial⟩
  · rename_i applied w' happly
    split
    · exact ⟨b, .refl h trivial⟩
    · rename_i hfresh
      split
      · exact ⟨b, .refl h trivial⟩
      · rename_i wallets hu
        rw [happly] at hprint
        dsimp only at hprint
        rw [if_neg hfresh, hu] at hprint
        have happlied : (w.apply X command).2 = w' := by rw [happly]
        have hcommand : Leads X T network b
            { b with heldWallets := w' :: b.heldWallets } p (.wallet w') :=
          ⟨.single (happlied ▸ .commandWallet hw command),
            h.holdWallet (happlied ▸ (h.heldWallets w hw).apply command),
            List.subset_cons_self _ _, List.Subset.refl _, List.mem_cons_self⟩
        obtain ⟨b', hsave⟩ := leads_saveWallet network hcommand.represents
          List.mem_cons_self hu hprint (.ok ())
        exact ⟨b', hcommand.after hsave⟩

/-- The second step of `propose_spend`. -/
theorem leads_proposalStep (h : Represents X T b p.wallets p.sessions) {id : PsbtSessionId}
    {proposedBy : UserId} {spend : SpendSpec} {w : Wallet} (hw : w ∈ b.heldWallets)
    (hprint : (Traffic.proposalStep X p id proposedBy spend w).1.Printed X T) :
    ∃ b', Leads X T network b b' (Traffic.proposalStep X p id proposedBy spend w).1
      (Traffic.proposalStep X p id proposedBy spend w).2 := by
  unfold Traffic.proposalStep at hprint ⊢
  split
  · exact ⟨b, .refl h trivial⟩
  · exact ⟨b, .refl h trivial⟩
  · rename_i n hn
    split
    · exact ⟨b, .refl h trivial⟩
    · rename_i s sessions hc
      rw [hn] at hprint
      dsimp only at hprint
      rw [hc] at hprint
      have htry := NewPsbtSession.tryNew_of_checked hn
      obtain ⟨-, -, hfind⟩ := PsbtSessions.create_spec hc
      have hnew : sessions.find? n.id = some n.intoEvents.iterAll :=
        (hfind n.id).trans (if_pos rfl)
      obtain ⟨hprint', hfits⟩ := hprint.written_session hnew (List.prefix_refl _)
      obtain ⟨⟨s', t⟩, ht⟩ := (h.sessionTables.create_agree hprint' hfits).isOk_iff.mpr ⟨_, hc⟩
      obtain ⟨sessions', hc', hrep, -⟩ := h.proposed hw htry hprint' ht
      obtain rfl : sessions = sessions' := (Prod.mk.inj (Except.ok.inj (hc.symm.trans hc'))).2
      exact ⟨_, .single (.proposeSession hw htry hprint' ht), hrep, List.Subset.refl _,
        List.subset_cons_self _ _, trivial⟩

/-- The next step of a call. -/
theorem leads_advance (h : Represents X T b p.wallets p.sessions) {call : Call}
    {stage : Traffic.Stage} (hmemory : stage.InMemory b)
    (hgrammar : ∀ s, stage = .session s → PsbtSession.Grammatical s)
    (hprint : (Traffic.advance X network p call stage).1.Printed X T) :
    ∃ b', Leads X T network b b' (Traffic.advance X network p call stage).1
      (Traffic.advance X network p call stage).2 := by
  have hstay : ∃ b', Leads X T network b b' p stage := ⟨b, .refl h hmemory⟩
  cases call with
  | wallet id command =>
    cases stage with
    | wallet w => exact leads_walletStep h command hmemory hprint
    | session | computed | returned | panicked => exact hstay
  | proposeSpend id walletId proposedBy spend =>
    cases stage with
    | wallet w => exact leads_proposalStep h hmemory hprint
    | session | computed | returned | panicked => exact hstay
  | session id call =>
    cases stage with
    | session s =>
      -- the work is one command on the loaded session, or leaves nothing to write
      unfold Traffic.advance
      dsimp only
      rcases hwork : (call.work X network p.wallets p.blobs s).1 with e | (_ | s')
      · exact ⟨b, .refl h trivial⟩
      · exact ⟨b, .refl h trivial⟩
      · obtain ⟨command, e, hexecutes⟩ := SessionCall.work_eq_some (hgrammar s rfl) hwork
        exact ⟨{ b with heldSessions := s' :: b.heldSessions },
          .single (hexecutes.applied ▸ .commandSession hmemory command),
          h.holdSession (hexecutes.applied ▸ (h.heldSessions s hmemory).apply command),
          List.Subset.refl _, List.subset_cons_self _ _, List.mem_cons_self⟩
    | computed work =>
      unfold Traffic.advance SessionCall.write at hprint ⊢
      rcases work with e | (_ | s)
      · exact ⟨b, .refl h trivial⟩
      · exact ⟨b, .refl h trivial⟩
      · dsimp only at hprint ⊢
        cases hu : p.sessions.update s with
        | error e => exact ⟨b, .refl h trivial⟩
        | ok sessions =>
          rw [hu] at hprint
          exact leads_saveSession network h hmemory hu hprint (.ok ())
    | wallet | returned | panicked => exact hstay

/-! ## Runs -/

/-- **One step of the traffic** is some steps over the tables. -/
theorem Carries.act (h : Carries X T b c) (hinv : Traffic.Inv X c) (a : Traffic.Action)
    (hprint : (c.act X network a).platform.Printed X T) :
    ∃ b', Backend.Run X T network b b' ∧ Carries X T b' (c.act X network a) := by
  cases a with
  | register id threshold participants =>
    simp only [Traffic.act] at hprint ⊢
    unfold Coordination.registerWallet at hprint ⊢
    split
    · exact ⟨b, .refl, h⟩
    · rename_i n hn
      split
      · exact ⟨b, .refl, h⟩
      · rename_i w wallets hc
        rw [hn] at hprint
        dsimp only at hprint
        rw [hc] at hprint
        obtain ⟨-, -, hfind⟩ := Wallets.create_spec hc
        have hnew : wallets.find? n.id = some n.intoEvents.iterAll :=
          (hfind n.id).trans (if_pos rfl)
        obtain ⟨hprint', hfits⟩ := hprint.written hnew (List.prefix_refl _)
        obtain ⟨⟨w', t⟩, ht⟩ := (h.represents.walletTables.create_agree hprint' hfits).isOk_iff.mpr
          ⟨_, hc⟩
        obtain ⟨wallets', hc', hrep, -⟩ := h.represents.registered hn hprint' ht
        obtain rfl : wallets = wallets' := (Prod.mk.inj (Except.ok.inj (hc.symm.trans hc'))).2
        exact ⟨_, .single (.registerWallet hn hprint' ht), hrep, fun task htask =>
          (h.memory task htask).mono (List.subset_cons_self _ _) (List.Subset.refl _)⟩
  | call call =>
    obtain ⟨b', hleads⟩ := leads_load network h.represents call
    refine ⟨b', hleads.run, hleads.represents, fun task htask => ?_⟩
    rcases List.mem_append.mp htask with hold | hnew
    · exact (h.memory task hold).mono hleads.wallets hleads.sessions
    · obtain rfl := List.mem_singleton.mp hnew
      exact hleads.memory
  | step i =>
    simp only [Traffic.act] at hprint ⊢
    split
    · exact ⟨b, .refl, h⟩
    · rename_i task hi
      have htask := List.mem_of_getElem? hi
      rw [hi] at hprint
      obtain ⟨b', hleads⟩ := leads_advance h.represents (h.memory task htask) (fun s hs => by
        have hheld := hinv.tasks task htask
        unfold Traffic.Task.Inv at hheld
        rw [hs] at hheld
        obtain ⟨id, call, -, hsnapshot⟩ := hheld
        exact hsnapshot.grammatical) hprint
      refine ⟨b', hleads.run, hleads.represents, fun task' htask' => ?_⟩
      rcases List.mem_or_eq_of_mem_set htask' with hold | rfl
      · exact (h.memory task' hold).mono hleads.wallets hleads.sessions
      · exact hleads.memory

variable (network) in
/-- **A run of the traffic** is a run over the tables. -/
theorem carries_run (actions : List Traffic.Action)
    (hprint : (Traffic.empty.run X network actions).platform.Printed X T) :
    ∃ b, Backend.Run X T network .empty b ∧
      Carries X T b (Traffic.empty.run X network actions) := by
  induction actions using List.reverseRecOn with
  | nil => exact ⟨.empty, .refl, .empty, fun task htask => absurd htask List.not_mem_nil⟩
  | append_singleton actions a ih =>
    rw [Traffic.run_append] at hprint ⊢
    have hinv := Traffic.inv_run X network actions
    obtain ⟨b, hrun, hcarries⟩ := ih (hprint.earlier hinv (hinv.act network a).2)
    obtain ⟨b', hstep, hcarries'⟩ := hcarries.act hinv a hprint
    exact ⟨b', hrun.trans hstep, hcarries'⟩

/-! ## Headline -/

variable (X T) in
/-- The repositories answer over the tables as over the stores, whichever call under way asks. -/
structure Answers (b : Backend) (c : Traffic) : Prop where
  findWallet : ∀ id, WalletTables.findById X T b.wallets id = c.platform.wallets.findById id
  findByFingerprint : ∀ fingerprint,
    WalletTables.findByDescriptorFingerprint X T b.wallets fingerprint =
      c.platform.wallets.findByDescriptorFingerprint fingerprint
  createWallet : ∀ n, (∀ e ∈ n.intoEvents.iterAll, e.Printable X T) →
    Fits (WalletEvent.stored X T) n.intoEvents →
    Agree (fun a a' => a.1 = a'.1 ∧ WalletTables.Holds X T a.2 a'.2)
      (WalletTables.create X T b.wallets n) (c.platform.wallets.create n)
  updateWallet : ∀ task ∈ c.tasks, ∀ w, task.stage = .wallet w → ∀ command : WalletCommand,
    (∀ e ∈ (w.apply X command).2.log, e.Printable X T) →
    Fits (WalletEvent.stored X T) (w.apply X command).2.events →
    Agree (WalletTables.Holds X T) (WalletTables.update X T b.wallets (w.apply X command).2)
      (c.platform.wallets.update (w.apply X command).2)
  findSession : ∀ id, SessionTables.findById T b.sessions id = c.platform.sessions.findById id
  createSession : ∀ n, (∀ e ∈ n.proposed.log, e.Printable T) →
    Fits (PsbtSessionEvent.stored T) n.intoEvents →
    Agree (fun a a' => a.1 = a'.1 ∧ SessionTables.Holds T a.2 a'.2)
      (SessionTables.create T b.sessions n) (c.platform.sessions.create n)
  updateSession : ∀ task ∈ c.tasks, ∀ s, task.stage = .computed (.ok (some s)) →
    (∀ e ∈ s.log, e.Printable T) → Fits (PsbtSessionEvent.stored T) s.events →
    Agree (SessionTables.Holds T) (SessionTables.update T b.sessions s)
      (c.platform.sessions.update s)

theorem Carries.answers (h : Carries X T b c) : Answers X T b c where
  findWallet := h.represents.walletTables.findById_eq
  findByFingerprint := h.represents.walletTables.findByDescriptorFingerprint_eq
  createWallet _ hprint hfits := h.represents.walletTables.create_agree hprint hfits
  updateWallet task htask w hstage command hprint hfits := by
    have hmemory := h.memory task htask
    rw [hstage] at hmemory
    exact h.represents.walletTables.update_agree
      ((h.represents.heldWallets w hmemory).apply command) hprint hfits
  findSession := h.represents.sessionTables.findById_eq
  createSession _ hprint hfits := h.represents.sessionTables.create_agree hprint hfits
  updateSession task htask s hstage hprint hfits := by
    have hmemory := h.memory task htask
    rw [hstage] at hmemory
    exact h.represents.sessionTables.update_agree (h.represents.heldSessions s hmemory) hprint hfits

end Backend

/-- **Calls interleave over the tables as over the stores.** Every interleaving of calls whose
events can be printed and fit their columns is some steps over the tables, after which the
repositories answer each call that may come next as the stores do. -/
theorem Backend.carries_calls (actions : List Traffic.Action)
    (hprint : (Traffic.empty.run X network actions).platform.Printed X T) :
    ∃ b, Backend.Run X T network .empty b ∧
      Backend.Answers X T b (Traffic.empty.run X network actions) := by
  obtain ⟨b, hrun, hcarries⟩ := Backend.carries_run network actions hprint
  exact ⟨b, hrun, hcarries.answers⟩

/-- A wallet, a session on it, and its cancellation about to be written. -/
def Backend.Sample.cancelling : List Traffic.Action :=
  [.register ⟨1⟩ 1 [⟨7⟩], .call (.wallet ⟨1⟩ (.addKeystore (Extern.Sample.key 1) ⟨7⟩)), .step 0,
    .call (.proposeSpend ⟨3⟩ ⟨1⟩ ⟨7⟩ session.spend), .step 1,
    .call (.session ⟨3⟩ (.cancel ⟨7⟩ "unused")), .step 2]

theorem Backend.carries_calls_cancelling : ∃ b,
    Backend.Run (.sample []) .sample .bitcoin .empty b ∧
      Backend.Answers (.sample []) .sample b
        (Traffic.empty.run (.sample []) .bitcoin Backend.Sample.cancelling) :=
  Backend.carries_calls Backend.Sample.cancelling
    { wallets := fun _ _ hlog =>
        (show ∀ row ∈ (Traffic.empty.run (.sample []) .bitcoin Backend.Sample.cancelling
          ).platform.wallets.rows, row.2.length < 2 ^ 31 ∧ ∀ e ∈ row.2,
            e.Printable (.sample []) .sample ∧ (e.stored (.sample []) .sample).storable = true
          by decide +kernel) _ (mem_rows_of_find? hlog)
      sessions := fun _ _ hlog =>
        (show ∀ row ∈ (Traffic.empty.run (.sample []) .bitcoin Backend.Sample.cancelling
          ).platform.sessions.rows, row.2.length < 2 ^ 31 ∧ ∀ e ∈ row.2,
            e.Printable .sample ∧ (e.stored .sample).storable = true
          by decide +kernel) _ (mem_rows_of_find? hlog) }

end Kota
