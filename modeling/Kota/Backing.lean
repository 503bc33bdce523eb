import Kota.Agreement

/-!
# What stands behind a log

Every event of a session that names a document has that document in the blob store, while calls
on any number of wallets and sessions step in between each other (`Traffic`).

* `Move` is all that one step does to sessions, blobs and the calls on sessions (`act_move`).
* `Backs` says of an event what is stored for it: behind a `PsbtCreated` the PSBT that was built
  from the active wallet of the session (`Builds`), behind a `SignatureAdded` a document.
* **`backed_run`**: after every interleaving, every event of every log is backed, and so is every
  event that a call is about to write.
-/

namespace Kota

open EventLog

open PsbtSession (Step Executes Grammatical)
open PsbtSessions (Row Snapshot)
open Platform (Grown)

/-! ## What a step does to the sessions -/

namespace Traffic

/-- The calls made on a session so far. -/
def Made (c : Traffic) (id : PsbtSessionId) (call : SessionCall) : Prop :=
  ∃ task ∈ c.tasks, task.call = .session id call

/-- The `i`-th call is this one on session `id`, and has come this far. -/
def At (c : Traffic) (i : Nat) (id : PsbtSessionId) (call : SessionCall) (stage : Stage) : Prop :=
  c.tasks[i]? = some ⟨.session id call, stage⟩

/-- The table, possibly with one more session. -/
def Proposes (sessions sessions' : PsbtSessions) : Prop :=
  sessions' = sessions ∨ ∃ n s, sessions.create n = .ok (s, sessions')

/-- One step, seen from the sessions. -/
inductive Move (X : Extern) (network : Network) (c : Traffic) : Traffic → Prop
  /-- On a wallet, by a proposal, or nothing at all. -/
  | aside {c' : Traffic} (blobs : c'.platform.blobs = c.platform.blobs)
      (sessions : Proposes c.platform.sessions c'.platform.sessions)
      (length : c'.tasks.length = c.tasks.length)
      (tasks : ∀ i id call stage, c'.At i id call stage ↔ c.At i id call stage) :
      Move X network c c'
  | called (call : Call) :
      Move X network c { c with tasks := c.tasks ++ [⟨call, load c.platform call⟩] }
  | worked {i : Nat} {id : PsbtSessionId} {call : SessionCall} {s : PsbtSession}
      (task : c.At i id call (.session s)) :
      Move X network c
        ⟨{ c.platform with
            blobs := (call.work X network c.platform.wallets c.platform.blobs s).2 },
          c.tasks.set i ⟨.session id call,
            .computed (call.work X network c.platform.wallets c.platform.blobs s).1⟩⟩
  | wrote {i : Nat} {id : PsbtSessionId} {call : SessionCall}
      {work : Except Failure (Option PsbtSession)}
      (task : c.At i id call (.computed work)) :
      Move X network c
        ⟨{ c.platform with sessions := (call.write c.platform.sessions work).2 },
          c.tasks.set i ⟨.session id call, .returned (call.write c.platform.sessions work).1⟩⟩

variable {X : Extern} {network : Network} {c c' : Traffic}

/-- Setting a task that is on no session leaves those that are. -/
theorem getElem?_set_of_ne {tasks : List Task} {i : Nat} {task : Task} {call : Call} {stage : Stage}
    (hi : tasks[i]? = some task) (hcall : ∀ id call', task.call ≠ .session id call')
    (hcall' : ∀ id call', call ≠ .session id call') (j : Nat) (id : PsbtSessionId)
    (call' : SessionCall) (stage' : Stage) :
    (tasks.set i ⟨call, stage⟩)[j]? = some (Task.mk (.session id call') stage') ↔
      tasks[j]? = some (Task.mk (.session id call') stage') := by
  by_cases hj : i = j
  · subst hj
    have hlt : i < tasks.length := (List.getElem?_eq_some_iff.mp hi).1
    rw [List.getElem?_set_self hlt, hi]
    constructor
    · intro h
      exact absurd (congrArg Task.call (Option.some.inj h)) (hcall' id call')
    · intro h
      exact absurd (congrArg Task.call (Option.some.inj h)) (hcall id call')
  · rw [List.getElem?_set_ne hj]

theorem set_self {tasks : List Task} {i : Nat} {task : Task} (hi : tasks[i]? = some task) :
    tasks.set i task = tasks := by
  obtain ⟨hlt, rfl⟩ := List.getElem?_eq_some_iff.mp hi
  exact List.set_getElem_self hlt

theorem Move.stay : Move X network c c :=
  .aside rfl (Or.inl rfl) rfl fun _ _ _ _ => Iff.rfl

theorem walletStep_sessions (p : Platform) (command : WalletCommand) (w : Wallet) :
    (walletStep X p command w).1.blobs = p.blobs ∧
      (walletStep X p command w).1.sessions = p.sessions := by
  unfold walletStep
  split
  · exact ⟨rfl, rfl⟩
  split
  · exact ⟨rfl, rfl⟩
  split <;> exact ⟨rfl, rfl⟩

theorem proposalStep_sessions (p : Platform) (id : PsbtSessionId) (proposedBy : UserId)
    (spend : SpendSpec) (w : Wallet) :
    (proposalStep X p id proposedBy spend w).1.blobs = p.blobs ∧
      Proposes p.sessions (proposalStep X p id proposedBy spend w).1.sessions := by
  unfold proposalStep
  split
  · exact ⟨rfl, Or.inl rfl⟩
  · exact ⟨rfl, Or.inl rfl⟩
  split
  · exact ⟨rfl, Or.inl rfl⟩
  · rename_i n _ _ s sessions hc
    exact ⟨rfl, Or.inr ⟨n, s, hc⟩⟩

/-- **All a step does to the sessions.** -/
theorem act_move (X : Extern) (network : Network) (c : Traffic) (a : Action) :
    Move X network c (c.act X network a) := by
  cases a with
  | register id threshold participants =>
    exact .aside rfl (Or.inl rfl) rfl fun _ _ _ _ => Iff.rfl
  | call call => exact .called call
  | step i =>
    simp only [act]
    cases hi : c.tasks[i]? with
    | none => exact .stay
    | some task =>
      obtain ⟨call, stage⟩ := task
      have hsame : ∀ stage, c.tasks[i]? = some ⟨call, stage⟩ →
          Move X network c ⟨c.platform, c.tasks.set i ⟨call, stage⟩⟩ := by
        intro stage h
        rw [set_self h]
        exact .stay
      cases call with
      | wallet id command =>
        cases stage with
        | wallet w =>
          obtain ⟨hblobs, hsessions⟩ := walletStep_sessions (X := X) c.platform command w
          exact .aside hblobs (Or.inl hsessions) List.length_set
            (getElem?_set_of_ne hi (fun _ _ => by simp) fun _ _ => by simp)
        | session | computed | returned | panicked => exact hsame _ hi
      | proposeSpend id walletId proposedBy spend =>
        cases stage with
        | wallet w =>
          obtain ⟨hblobs, hsessions⟩ :=
            proposalStep_sessions (X := X) c.platform id proposedBy spend w
          exact .aside hblobs hsessions List.length_set
            (getElem?_set_of_ne hi (fun _ _ => by simp) fun _ _ => by simp)
        | session | computed | returned | panicked => exact hsame _ hi
      | session id call =>
        cases stage with
        | session s => exact .worked hi
        | computed work => exact .wrote hi
        | wallet | returned | panicked => exact hsame _ hi

theorem At.inj {i : Nat} {id id' : PsbtSessionId} {call call' : SessionCall} {stage stage' : Stage}
    (h : c.At i id call stage) (h' : c.At i id' call' stage') :
    id' = id ∧ call' = call ∧ stage' = stage := by
  obtain ⟨hcall, hstage⟩ := Task.mk.inj (Option.some.inj (h'.symm.trans h))
  obtain ⟨hid, hcall⟩ := Call.session.inj hcall
  exact ⟨hid, hcall, hstage⟩

/-- The calls after one of them took a step. -/
theorem at_set {i j : Nat} {id id' : PsbtSessionId} {call call' : SessionCall}
    {stage stage' stage'' : Stage} (h : c.At i id call stage) (p : Platform) :
    At ⟨p, c.tasks.set i ⟨.session id call, stage'⟩⟩ j id' call' stage'' ↔
      if j = i then id' = id ∧ call' = call ∧ stage'' = stage'
      else c.At j id' call' stage'' := by
  unfold At at h ⊢
  dsimp only
  split
  · rename_i hj
    rw [hj, List.getElem?_set_self (List.getElem?_eq_some_iff.mp h).1]
    constructor
    · intro heq
      obtain ⟨hcall, hstage⟩ := Task.mk.inj (Option.some.inj heq)
      obtain ⟨hid, hcall⟩ := Call.session.inj hcall
      exact ⟨hid.symm, hcall.symm, hstage.symm⟩
    · rintro ⟨rfl, rfl, rfl⟩
      rfl
  · rename_i hj
    rw [List.getElem?_set_ne (Ne.symm hj)]

theorem at_append {i : Nat} {id : PsbtSessionId} {call : SessionCall} {stage : Stage}
    {p : Platform} {task : Task} :
    At ⟨p, c.tasks ++ [task]⟩ i id call stage ↔
      c.At i id call stage ∨ i = c.tasks.length ∧ task = ⟨.session id call, stage⟩ := by
  unfold At
  dsimp only
  rw [List.getElem?_append]
  split
  · rename_i hlt
    exact ⟨Or.inl, fun h => h.resolve_right fun hi => absurd hi.1 (Nat.ne_of_lt hlt)⟩
  · rename_i hge
    have hnone : c.tasks[i]? = none := List.getElem?_eq_none (Nat.not_lt.mp hge)
    rw [hnone, List.getElem?_singleton]
    split
    · rename_i hzero
      have hi : i = c.tasks.length := by omega
      simp [hi]
    · rename_i hpos
      have hi : i ≠ c.tasks.length := by omega
      simp [hi]

theorem made_iff {id : PsbtSessionId} {call : SessionCall} :
    c.Made id call ↔ ∃ i stage, c.At i id call stage := by
  constructor
  · rintro ⟨⟨call', stage⟩, htask, rfl⟩
    obtain ⟨i, hi⟩ := List.getElem?_of_mem htask
    exact ⟨i, stage, hi⟩
  · rintro ⟨i, stage, hi⟩
    exact ⟨_, List.mem_of_getElem? hi, rfl⟩

theorem Move.made (h : Move X network c c') {id : PsbtSessionId} {call : SessionCall}
    (hm : c.Made id call) : c'.Made id call := by
  obtain ⟨i, stage, hi⟩ := made_iff.mp hm
  rw [made_iff]
  cases h with
  | aside _ _ _ tasks => exact ⟨i, stage, (tasks i id call stage).mpr hi⟩
  | called call' => exact ⟨i, stage, at_append.mpr (Or.inl hi)⟩
  | worked task | wrote task =>
    rename_i j _ _ _
    by_cases hj : i = j
    · subst hj
      obtain ⟨rfl, rfl, -⟩ := task.inj hi
      exact ⟨i, _, (at_set task _).mpr (by rw [if_pos rfl]; exact ⟨rfl, rfl, rfl⟩)⟩
    · exact ⟨i, stage, (at_set task _).mpr (by rw [if_neg hj]; exact hi)⟩

end Traffic

/-! ## What a unit of work stores -/

namespace SessionCall

variable {X : Extern} {network : Network} {wallets : Wallets} {blobs blobs' : BlobStore}
variable {s s' : PsbtSession} {call : SessionCall}

theorem submitWork_blobs {user : UserId} {bytes : Bytes} :
    (Coordination.submitWork X wallets blobs s user bytes).2.Extends blobs ∧
      (blobs.Addressed X →
        (Coordination.submitWork X wallets blobs s user bytes).2.Addressed X) := by
  unfold Coordination.submitWork
  split
  · exact ⟨BlobStore.Extends.refl _, id⟩
  dsimp only
  split <;> exact ⟨BlobStore.put_extends _ _, fun h => h.put _⟩

/-- Whatever comes of the work, it only puts blobs. -/
theorem work_blobs :
    (call.work X network wallets blobs s).2.Extends blobs ∧
      (blobs.Addressed X → (call.work X network wallets blobs s).2.Addressed X) := by
  cases call with
  | submitSignedPsbt user bytes =>
    have hwork := @submitWork_blobs X wallets blobs s user bytes
    unfold work
    dsimp only
    split
    · rename_i e blobs' h
      rwa [h] at hwork
    · rename_i executed s' blobs' h
      rwa [h] at hwork
  | runPsbtCreation funding => exact Platform.createPsbt_blobs
  | runFinalization =>
    obtain ⟨hmore, haddressed, -⟩ := @Platform.finalizeSession_spec X blobs s
    exact ⟨hmore, haddressed⟩
  | applyChainObservation | cancel => exact ⟨BlobStore.Extends.refl _, id⟩

/-- The PSBT that a unit of work recorded is the one it built and stored. -/
structure Creates (X : Extern) (network : Network) (wallets : Wallets) (blobs' : BlobStore)
    (s : PsbtSession) (call : SessionCall) (hash : PsbtHash) (w : Wallet) (descriptor : Descriptor)
    (utxos : List FundingUtxo) (psbt : Psbt) : Prop where
  found : wallets.findById s.walletId = .ok w
  descriptor_eq : w.descriptor = some descriptor
  funded : ∃ funding, call = .runPsbtCreation funding ∧ funding w s.spend.inputs = .ok utxos
  built : buildUnsignedPsbt X s.spend descriptor utxos network = .ok psbt
  stored : (hash, X.serialize psbt) ∈ blobs'.entries

/-- **What a unit of work records is stored.** -/
theorem work_records (hs : Grammatical s)
    (h : call.work X network wallets blobs s = (.ok (some s'), blobs')) :
    ∃ e, (∃ c, Executes s c e s') ∧
      (∀ hash, e = .psbtCreated hash → ∃ w descriptor utxos psbt,
        Creates X network wallets blobs' s call hash w descriptor utxos psbt) ∧
      ∀ fingerprint hash, e = .signatureAdded fingerprint hash →
        ∃ signed, (hash, X.serialize signed) ∈ blobs'.entries := by
  have hsome : (call.work X network wallets blobs s).1 = .ok (some s') := congrArg Prod.fst h
  cases call with
  | submitSignedPsbt user bytes =>
    obtain ⟨fingerprint, merged, hx, hblobs⟩ := executes_submitSignedPsbt hsome
    refine ⟨_, ⟨_, hx⟩, fun hash he => absurd he (by simp), fun fp hash he => ⟨merged, ?_⟩⟩
    obtain ⟨-, rfl⟩ := PsbtSessionEvent.signatureAdded.inj he
    have hstored : blobs' = (blobs.put X (X.serialize merged)).2 :=
      (congrArg Prod.snd h).symm.trans hblobs
    rw [hstored]
    exact List.mem_cons_self
  | runPsbtCreation funding =>
    obtain ⟨hash, hwork⟩ := eq_persist_of_toWrite hsome
    obtain ⟨hnone, w, descriptor, utxos, psbt, hw, hd, hutxos, hbuilt, hput, applied, hr⟩ :=
      Platform.createPsbt_eq_persist (Prod.ext hwork rfl)
    have hx := executes_recordPsbtCreated (hs.unsignedPsbtHash_eq_none_iff.mp hnone) hr
    have hblobs : (createPsbt X wallets blobs funding network s).2 = blobs' := (Prod.mk.inj h).2
    refine ⟨_, ⟨_, hx⟩, fun hash' he => ?_, fun _ _ he => absurd he (by simp)⟩
    obtain rfl := PsbtSessionEvent.psbtCreated.inj he
    refine ⟨w, descriptor, utxos, psbt, hw, hd, ⟨funding, rfl, hutxos⟩, hbuilt, ?_⟩
    obtain ⟨hhash, hstore⟩ := Prod.mk.inj hput
    rw [hblobs.symm.trans hstore, hhash]
    exact List.mem_cons_self
  | runFinalization =>
    obtain ⟨txid, hwork⟩ := eq_persist_of_toWrite hsome
    obtain ⟨c, e, hx, he⟩ := (finalizeSession_work (X := X) hs blobs).records txid s' hwork
    refine ⟨e, ⟨c, hx⟩, fun hash heq => ?_, fun fp hash heq => ?_⟩ <;>
      exact absurd he (by simp [heq, PsbtSessionEvent.isFinalized])
  | applyChainObservation observation =>
    obtain ⟨e, hx⟩ := PsbtSession.commandWork_eq_some (eq_ok_of_mapError hsome)
    refine ⟨e, ⟨_, hx⟩, fun hash he => ?_, fun fp hash he => ?_⟩ <;>
      (rw [he] at hx; cases observation <;> cases hx.step)
  | cancel cancelledBy reason =>
    obtain ⟨e, hx⟩ := PsbtSession.commandWork_eq_some (eq_ok_of_mapError hsome)
    refine ⟨e, ⟨_, hx⟩, fun hash he => ?_, fun fp hash he => ?_⟩ <;>
      (rw [he] at hx; cases hx.step)

end SessionCall

/-! ## What stands behind an event -/

namespace Traffic

/-- `psbt` was built for `s`: from its wallet, which is active, and from the coins that a creation
job on the session was given. -/
structure Builds (X : Extern) (network : Network) (c : Traffic) (s : PsbtSession) (w : Wallet)
    (descriptor : Descriptor) (utxos : List FundingUtxo) (psbt : Psbt) : Prop where
  row : c.platform.wallets.Row X s.walletId w
  active : w.status = .active
  descriptor_eq : w.descriptor = some descriptor
  funded : ∃ funding, c.Made s.id (.runPsbtCreation funding) ∧
    funding w s.spend.inputs = .ok utxos
  built : buildUnsignedPsbt X s.spend descriptor utxos network = .ok psbt

/-- What is stored for an event of `s`. -/
def Backs (X : Extern) (network : Network) (c : Traffic) (s : PsbtSession) :
    PsbtSessionEvent → Prop
  | .psbtCreated hash => ∃ w descriptor utxos psbt, Builds X network c s w descriptor utxos psbt ∧
      (hash, X.serialize psbt) ∈ c.platform.blobs.entries
  | .signatureAdded _ hash => ∃ signed, (hash, X.serialize signed) ∈ c.platform.blobs.entries
  | _ => True

/-- Every event that is written, or about to be, is backed. -/
structure Backed (X : Extern) (network : Network) (c : Traffic) : Prop where
  addressed : c.platform.blobs.Addressed X
  rows : ∀ id s, Row c.platform.sessions id s → ∀ e ∈ s.log, Backs X network c s e
  computed : ∀ i id call s, c.At i id call (.computed (.ok (some s))) →
    ∀ e ∈ s.log, Backs X network c s e

/-- What an event needs to stay backed. -/
structure Follows (X : Extern) (c' c : Traffic) : Prop where
  wallets : ∀ id w, c.platform.wallets.Row X id w → w.status = .active →
    c'.platform.wallets.Row X id w
  made : ∀ id call, c.Made id call → c'.Made id call
  blobs : c'.platform.blobs.Extends c.platform.blobs

variable {X : Extern} {network : Network} {c c' : Traffic}

theorem Move.follows (h : Move X network c c') (hk : Keeps X c'.platform c.platform) :
    Follows X c' c where
  wallets _ _ hrow hactive := hrow.of_grows hactive hk.wallets hk.wallets_grow
  made _ _ hm := h.made hm
  blobs := by
    cases h with
    | aside blobs => exact blobs ▸ BlobStore.Extends.refl _
    | called | wrote => exact BlobStore.Extends.refl _
    | worked => exact SessionCall.work_blobs.1

theorem Move.addressed (h : Move X network c c') (ha : c.platform.blobs.Addressed X) :
    c'.platform.blobs.Addressed X := by
  cases h with
  | aside blobs => exact blobs ▸ ha
  | called | wrote => exact ha
  | worked => exact SessionCall.work_blobs.2 ha

/-- An event stays backed while its session grows and others go on. -/
theorem Backs.mono {s s' : PsbtSession} {e : PsbtSessionEvent} (h : Backs X network c s e)
    (hf : Follows X c' c) {es : List PsbtSessionEvent} (hg : Grown s' s es ∨ Grown s s' es) :
    Backs X network c' s' e := by
  obtain ⟨hid, hwalletId, hspend⟩ :
      s'.id = s.id ∧ s'.walletId = s.walletId ∧ s'.spend = s.spend := by
    rcases hg with hg | hg
    · exact ⟨hg.id, hg.walletId, hg.spend⟩
    · exact ⟨hg.id.symm, hg.walletId.symm, hg.spend.symm⟩
  cases e with
  | psbtCreated hash =>
    obtain ⟨w, descriptor, utxos, psbt, hb, hstored⟩ := h
    obtain ⟨funding, hmade, hutxos⟩ := hb.funded
    refine ⟨w, descriptor, utxos, psbt, ⟨?_, hb.active, hb.descriptor_eq, ⟨funding, ?_, ?_⟩, ?_⟩,
      hf.blobs.mem hstored⟩
    · rw [hwalletId]
      exact hf.wallets _ _ hb.row hb.active
    · rw [hid]
      exact hf.made _ _ hmade
    · rw [hspend]
      exact hutxos
    · rw [hspend]
      exact hb.built
  | signatureAdded fingerprint hash =>
    obtain ⟨signed, hstored⟩ := h
    exact ⟨signed, hf.blobs.mem hstored⟩
  | _ => exact trivial

theorem backed_empty (X : Extern) (network : Network) : Backed X network empty where
  addressed := BlobStore.addressed_empty
  rows id s hrow := absurd hrow.log_eq (by simp [empty, Platform.empty])
  computed i id call s h := absurd h (by simp [At, empty])

theorem Follows.refl (c : Traffic) : Follows X c c :=
  ⟨fun _ _ hrow _ => hrow, fun _ _ hm => hm, BlobStore.Extends.refl _⟩

theorem Follows.trans {c'' : Traffic} (h' : Follows X c'' c') (h : Follows X c' c) :
    Follows X c'' c where
  wallets id w hrow hactive := h'.wallets id w (h.wallets id w hrow hactive) hactive
  made id call hm := h'.made id call (h.made id call hm)
  blobs := h'.blobs.trans h.blobs

theorem grown_of_executes {s s' : PsbtSession} {command : PsbtSessionCommand}
    {e : PsbtSessionEvent} (h : Executes s command e s') : Grown s' s [e] := by
  rw [h.left]
  exact ⟨PsbtSession.record_id s e, PsbtSession.record_walletId s e,
    PsbtSession.record_spend s e, PsbtSession.record_threshold s e,
    PsbtSession.record_keystores s e, PsbtSession.record_log s e⟩

/-- The events of a snapshot are backed, as those of the row are. -/
theorem Backed.snapshot (h : Backed X network c) {id : PsbtSessionId} {s : PsbtSession}
    (hs : Snapshot c.platform.sessions id s) : ∀ e ∈ s.log, Backs X network c s e := by
  obtain ⟨s', es, hrow, hg⟩ := hs.current
  intro e he
  refine (h.rows id s' hrow e ?_).mono (Follows.refl c) (Or.inr hg)
  rw [hg.log]
  exact List.mem_append_left _ he

/-- What comes of a write. -/
theorem write_cases (sessions : PsbtSessions) (call : SessionCall)
    (work : Except Failure (Option PsbtSession)) :
    (∃ e, call.write sessions work = (.error e, sessions)) ∨
    (work = .ok none ∧ call.write sessions work = (.ok (), sessions)) ∨
    ∃ s sessions', work = .ok (some s) ∧ sessions.update s = .ok sessions' ∧
      call.write sessions work = (.ok (), sessions') := by
  rcases work with e | (_ | s)
  · exact Or.inl ⟨e, rfl⟩
  · exact Or.inr (Or.inl ⟨rfl, rfl⟩)
  · unfold SessionCall.write
    dsimp only
    cases hu : sessions.update s with
    | error e => exact Or.inl ⟨_, rfl⟩
    | ok sessions' => exact Or.inr (Or.inr ⟨s, sessions', rfl, hu, rfl⟩)

/-- **A step backs what it writes**: a unit of work stores what it is about to record. -/
theorem Backed.move (h : Backed X network c) (hinv : Inv X c)
    (hk : Keeps X c'.platform c.platform) (hm : Move X network c c') : Backed X network c' := by
  have hf := hm.follows hk
  have haddressed := hm.addressed h.addressed
  have hrow : ∀ id s, Row c.platform.sessions id s → ∀ e ∈ s.log, Backs X network c' s e :=
    fun id s hrow e he => (h.rows id s hrow e he).mono hf (Or.inl (Grown.refl s))
  have hcomputed : ∀ i id call s, c.At i id call (.computed (.ok (some s))) →
      ∀ e ∈ s.log, Backs X network c' s e :=
    fun i id call s hi e he => (h.computed i id call s hi e he).mono hf (Or.inl (Grown.refl s))
  cases hm with
  | aside blobs sessions length tasks =>
    refine ⟨haddressed, fun id s hs => ?_, fun i id call s hi =>
      hcomputed i id call s ((tasks i id call _).mp hi)⟩
    rcases sessions with hsame | ⟨n, s₀, hc⟩
    · exact hrow id s (hsame ▸ hs)
    · obtain ⟨-, -, hfind⟩ := PsbtSessions.create_spec hc
      by_cases hid : id = n.id
      · -- a proposal names no document
        intro e he
        have hlog := hs.log_eq
        rw [hfind, if_pos hid] at hlog
        rw [← Option.some.inj hlog] at he
        obtain rfl := List.mem_singleton.mp he
        exact trivial
      · refine hrow id s (hs.congr ?_)
        rw [hfind, if_neg hid]
  | called call =>
    refine ⟨haddressed, hrow, fun i id call' s hi => ?_⟩
    rcases at_append.mp hi with hold | ⟨-, hnew⟩
    · exact hcomputed i id call' s hold
    · refine absurd (congrArg Task.stage hnew) ?_
      cases call <;> (dsimp only [load]; split <;> simp)
  | worked task =>
    rename_i j id₀ call₀ s₀
    refine ⟨haddressed, hrow, fun i id call s hi => ?_⟩
    rw [at_set task] at hi
    split at hi
    · obtain ⟨rfl, rfl, hstage⟩ := hi
      obtain ⟨id', call', hcall, hsnapshot⟩ := hinv.tasks _ (List.mem_of_getElem? task)
      obtain ⟨rfl, rfl⟩ := Call.session.inj hcall
      obtain ⟨e, ⟨c₀, hx⟩, hcreated, hsigned⟩ := SessionCall.work_records hsnapshot.grammatical
        (Prod.ext (Stage.computed.inj hstage).symm rfl)
      have hg := grown_of_executes hx
      intro x hmem
      rw [hg.log] at hmem
      rcases List.mem_append.mp hmem with hmem | hmem
      · exact (h.snapshot hsnapshot x hmem).mono hf (Or.inl hg)
      · obtain rfl := List.mem_singleton.mp hmem
        cases x with
        | psbtCreated hash =>
          obtain ⟨w, descriptor, utxos, psbt, hcreates⟩ := hcreated hash rfl
          obtain ⟨funding, rfl, hutxos⟩ := hcreates.funded
          obtain ⟨s', es, hrow', hg'⟩ := hsnapshot.current
          obtain ⟨w', hw', hactive, -⟩ := (agrees_of_grown hg').mp (hinv.agrees _ s' hrow')
          obtain rfl := Except.ok.inj (hcreates.found.symm.trans hw'.found)
          refine ⟨w, descriptor, utxos, psbt, ⟨?_, hactive, hcreates.descriptor_eq,
            ⟨funding, ?_, ?_⟩, ?_⟩, hcreates.stored⟩
          · rw [hg.walletId]
            exact hw'
          · rw [hg.id, hsnapshot.id_eq]
            exact hf.made _ _ (made_iff.mpr ⟨_, _, task⟩)
          · rw [hg.spend]
            exact hutxos
          · rw [hg.spend]
            exact hcreates.built
        | signatureAdded fingerprint hash => exact hsigned fingerprint hash rfl
        | _ => exact trivial
    · exact hcomputed i id call s hi
  | wrote task =>
    rename_i j id₀ call₀ work
    refine ⟨haddressed, fun id s hs => ?_, fun i id call s hi => ?_⟩
    · rcases write_cases c.platform.sessions call₀ work with
        ⟨e, hw⟩ | ⟨-, hw⟩ | ⟨s', sessions', rfl, hu, hw⟩
      · rw [hw] at hs
        exact hrow id s hs
      · rw [hw] at hs
        exact hrow id s hs
      · rw [hw] at hs
        obtain ⟨id', call', hcall, hwork, -⟩ := hinv.tasks _ (List.mem_of_getElem? task)
        obtain ⟨rfl, rfl⟩ := Call.session.inj hcall
        obtain ⟨s₀, c₀, e, hsnapshot, hx⟩ := hwork s' rfl
        rcases (hsnapshot.writes hx hu).row hs with
          ⟨hold, -⟩ | ⟨n, hn, -⟩ | ⟨s₁, -, e₁, he, hold, -, hg⟩
        · exact hrow id s hold
        · obtain ⟨-, rfl⟩ := Prod.mk.inj (Option.some.inj hn)
          cases hx.step
        · -- what was written is what the unit of work left
          obtain ⟨rfl, rfl⟩ := Prod.mk.inj (Option.some.inj he)
          obtain rfl := Except.ok.inj (hold.found.symm.trans (hsnapshot.row_of_update hx hu).found)
          intro x hmem
          have hlog : s.log = s'.log := hg.log.trans (grown_of_executes hx).log.symm
          exact ((h.computed _ _ _ s' task x (hlog ▸ hmem)).mono (Follows.refl c)
            (Or.inr (grown_of_executes hx))).mono hf (Or.inl hg)
    · rw [at_set task] at hi
      split at hi
      · exact absurd hi.2.2 (by simp)
      · exact hcomputed i id call s hi

/-- **Every interleaving backs every event.** -/
theorem backed_run (X : Extern) (network : Network) (actions : List Action) :
    Backed X network (empty.run X network actions) := by
  induction actions using List.reverseRecOn with
  | nil => exact backed_empty X network
  | append_singleton actions a ih =>
    have hinv := inv_run X network actions
    rw [run_append]
    exact ih.move hinv (hinv.act network a).2 (act_move X network _ a)

/-- What was there stays there, whatever comes later. -/
theorem run_follows (network : Network) (hinv : Inv X c) (actions : List Action) :
    Follows X (c.run X network actions) c := by
  induction actions generalizing c with
  | nil => exact Follows.refl c
  | cons a actions ih =>
    have hstep := hinv.act network a
    exact (ih hstep.1).trans ((act_move X network c a).follows hstep.2)

end Traffic

end Kota
