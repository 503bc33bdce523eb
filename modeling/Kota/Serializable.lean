import Kota.Linearization

/-!
# Calls are serializable

Calls interleave (`Traffic`): each loads an aggregate without a lock, and by the time it writes any
other call may have written. Most read one aggregate and write another: a proposal reads a wallet
and writes a session, and work on a session reads its wallet and documents.

* `Request.alone` is a request that nothing interrupts: the use case or the job unit itself.
* `Traffic.writes` lists the requests of a run that wrote, in the order in which they wrote.
* **`stores_serializable`**: these requests, run one after another, each alone, all return `Ok` and
  leave the very wallets and sessions that the interleaving left. So no call ever worked on a
  wallet or a document that had changed under it when it wrote, and what holds of the stores after
  requests one after another holds of them after any interleaving.

`session_work_linearizable` is about the calls on one session, those that only read included.
-/

namespace Kota

open EventLog

open PsbtSession (Executes Grammatical)
open PsbtSessions (Row Snapshot Writes)

/-! ## Requests one after another -/

/-- What is asked of the platform. -/
inductive Request where
  | register (id : WalletId) (threshold : UInt32) (participants : List UserId)
  | call (call : Call)

namespace Request

variable (X : Extern) (network : Network)

/-- The answer of a use case, without the entity it returns. -/
def answered {α : Type} (answer : Except CoordinationError α) : Except Failure Unit :=
  (answer.map fun _ => ()).mapError .useCase

/-- A request that nothing interrupts. -/
def alone (p : Platform) : Request → Except Failure Unit × Platform
  | .register id threshold participants =>
    let (answer, wallets) := Coordination.registerWallet p.wallets network id threshold participants
    (answered answer, { p with wallets })
  | .call (.wallet id (.addKeystore keystore submittedBy)) =>
    let (answer, wallets) := Coordination.submitKeystore X p.wallets id submittedBy keystore
    (answered answer, { p with wallets })
  | .call (.wallet id (.removeKeystore participant removedBy)) =>
    let (answer, wallets) := Coordination.removeKeystore p.wallets id participant removedBy
    (answered answer, { p with wallets })
  | .call (.wallet id (.cancel cancelledBy reason)) =>
    let (answer, wallets) := Coordination.cancelWallet p.wallets id cancelledBy reason
    (answered answer, { p with wallets })
  | .call (.proposeSpend id walletId proposedBy spend) =>
    let (answer, sessions) :=
      Coordination.proposeSpend X p.wallets p.sessions id walletId proposedBy spend
    (answered answer, { p with sessions })
  | .call (.session id work) => work.alone X network p id

/-- The requests, each alone, one after another; all of them return `Ok`. -/
inductive Serially : Platform → List Request → Platform → Prop
  | nil (p : Platform) : Serially p [] p
  | cons {p p' p'' : Platform} {request : Request} {requests : List Request}
      (head : request.alone X network p = (.ok (), p')) (tail : Serially p' requests p'') :
      Serially p (request :: requests) p''

variable {X network} {p p' p'' : Platform}

theorem Serially.append {requests later : List Request} (h : Serially X network p requests p')
    (h' : Serially X network p' later p'') : Serially X network p (requests ++ later) p'' := by
  induction h with
  | nil => exact h'
  | cons head _ ih => exact .cons head (ih h')

theorem Serially.single {request : Request} (h : request.alone X network p = (.ok (), p')) :
    Serially X network p [request] p' := .cons h (.nil _)

/-- A command on a wallet that is executed and saved. -/
theorem alone_wallet {id : WalletId} {command : WalletCommand} {w w' : Wallet} {wallets : Wallets}
    (hw : p.wallets.findById id = .ok w) (happly : w.apply X command = (.ok (.executed ()), w'))
    (hu : p.wallets.update w' = .ok wallets) :
    alone X network p (.call (.wallet id command)) = (.ok (), { p with wallets }) := by
  cases command with
  | addKeystore keystore user =>
    simp only [Wallet.apply] at happly
    simp [alone, Coordination.submitKeystore, hw, happly, hu, Idempotent.wasAlreadyApplied,
      answered, Except.map, Except.mapError]
  | removeKeystore participant removedBy =>
    simp only [Wallet.apply] at happly
    simp [alone, Coordination.removeKeystore, hw, happly, hu, Idempotent.wasAlreadyApplied,
      answered, Except.map, Except.mapError]
  | cancel cancelledBy reason =>
    simp only [Wallet.apply] at happly
    simp [alone, Coordination.cancelWallet, hw, happly, hu, Idempotent.wasAlreadyApplied, answered,
      Except.map, Except.mapError]

/-- A proposal that is accepted and saved. -/
theorem alone_proposeSpend {id : PsbtSessionId} {walletId : WalletId} {proposedBy : UserId}
    {spend : SpendSpec} {w : Wallet} {n : NewPsbtSession} {s : PsbtSession}
    {sessions : PsbtSessions}
    (hw : p.wallets.findById walletId = .ok w)
    (hn : NewPsbtSession.tryNew X id w proposedBy spend = .ok n)
    (hc : p.sessions.create n = .ok (s, sessions)) :
    alone X network p (.call (.proposeSpend id walletId proposedBy spend)) =
      (.ok (), { p with sessions }) := by
  simp [alone, Coordination.proposeSpend, hw, hn, hc, answered, Except.map, Except.mapError]

/-- A registration that is accepted and saved. -/
theorem alone_register {id : WalletId} {threshold : UInt32} {participants : List UserId}
    {n : NewWallet} {w : Wallet} {wallets : Wallets}
    (hn : NewWallet.new id network threshold participants = .ok n)
    (hc : p.wallets.create n = .ok (w, wallets)) :
    alone X network p (.register id threshold participants) = (.ok (), { p with wallets }) := by
  simp [alone, Coordination.registerWallet, hn, hc, answered, Except.map, Except.mapError]

end Request

/-! ## The requests that wrote -/

namespace Traffic

variable (X : Extern) (network : Network)

/-- The request that a step belongs to. -/
def request (c : Traffic) : Action → Option Request
  | .register id threshold participants => some (.register id threshold participants)
  | .call _ => none
  | .step i => c.tasks[i]?.map fun task => .call task.call

/-- The request that a step writes for, if it changes the wallets or the sessions. -/
def wrote (c : Traffic) (a : Action) : Option Request :=
  if (c.act X network a).platform.wallets.rows = c.platform.wallets.rows ∧
      (c.act X network a).platform.sessions.rows = c.platform.sessions.rows then none
  else c.request a

/-- The requests that wrote, in the order in which they wrote. -/
def writes (c : Traffic) : List Action → List Request
  | [] => []
  | a :: actions => (c.wrote X network a).toList ++ (c.act X network a).writes actions

variable {X network}

theorem writes_append (c : Traffic) (actions later : List Action) :
    c.writes X network (actions ++ later) =
      c.writes X network actions ++ (c.run X network actions).writes X network later := by
  induction actions generalizing c with
  | nil => rfl
  | cons a actions ih =>
    rw [List.cons_append, writes, writes, ih, List.append_assoc]
    rfl

theorem writes_concat (c : Traffic) (actions : List Action) (a : Action) :
    c.writes X network (actions ++ [a]) = c.writes X network actions ++
      ((c.run X network actions).wrote X network a).toList := by
  rw [writes_append, writes, writes, List.append_nil]

/-! ### Steps on wallets -/

variable {q : Platform} {w : Wallet}

variable (network) in
/-- The second step of a call on a wallet writes what the use case writes, or nothing. -/
theorem walletStep_serial (command : WalletCommand) (hw : q.wallets.Held X w.id w) :
    (walletStep X q command w).1 = q ∨
    ∃ wallets, (walletStep X q command w).1 = { q with wallets } ∧
      ∀ p : Platform, p.wallets = q.wallets →
        Request.alone X network p (.call (.wallet w.id command)) =
          (.ok (), { p with wallets }) := by
  unfold walletStep
  split
  · exact Or.inl rfl
  · rename_i applied w' happly
    split
    · exact Or.inl rfl
    · rename_i hfresh
      split
      · exact Or.inl rfl
      · rename_i wallets hu
        obtain ⟨u, rfl⟩ := Idempotent.eq_executed hfresh
        -- the write succeeded, so the copy is what the table loads
        have hrow := hw.row_of_update (congrArg Prod.fst happly)
          ((congrArg (fun r => q.wallets.update r.2) happly).trans hu)
        exact Or.inr ⟨wallets, rfl, fun p hp =>
          Request.alone_wallet (hp ▸ hrow.found) happly (hp ▸ hu)⟩

variable (network) in
/-- The second step of a proposal creates the session that the use case creates, or nothing. -/
theorem proposalStep_serial (id : PsbtSessionId) (proposedBy : UserId) (spend : SpendSpec)
    (hs : q.wallets.Sound X) (hw : q.wallets.Held X w.id w) :
    (proposalStep X q id proposedBy spend w).1 = q ∨
    ∃ n s sessions, (proposalStep X q id proposedBy spend w).1 = { q with sessions } ∧
      PsbtSession.Loaded n.proposed ∧ q.sessions.create n = .ok (s, sessions) ∧
      ∀ p : Platform, p.wallets = q.wallets → p.sessions = q.sessions →
        Request.alone X network p (.call (.proposeSpend id w.id proposedBy spend)) =
          (.ok (), { p with sessions }) := by
  unfold proposalStep
  split
  · exact Or.inl rfl
  · exact Or.inl rfl
  · rename_i n hn
    split
    · exact Or.inl rfl
    · rename_i s sessions hc
      have htry := NewPsbtSession.tryNew_of_checked hn
      -- the wallet is active, so the copy is what the table still loads
      have hrow := hw.row_of_active hs (NewPsbtSession.tryNew_eq_ok_iff.mp htry).1
      exact Or.inr ⟨n, s, sessions, rfl, PsbtSession.loaded_proposed hw.inv htry, hc,
        fun p hp hp' => Request.alone_proposeSpend (hp ▸ hrow.found) htry (hp' ▸ hc)⟩

end Traffic

/-! ### Steps on sessions -/

/-- A platform with the wallets and sessions of another, some of the blobs of a third, and every
document that a log names. -/
structure Serialized (final q p : Platform) : Prop where
  wallets : p.wallets = q.wallets
  sessions : p.sessions = q.sessions
  within : p.blobs.Within final.blobs
  holds : ∀ id s, Row p.sessions id s → p.blobs.Holds s.log

section Sessions

variable {X : Extern} {network : Network} {final : Platform} {c : Traffic} {p : Platform}
variable {wallets : Wallets} {blobs : BlobStore} {id : PsbtSessionId} {s s' : PsbtSession}
variable {call : SessionCall} {command : PsbtSessionCommand} {e : PsbtSessionEvent}

theorem BlobStore.Holds.mono {blobs' : BlobStore} {log : List PsbtSessionEvent}
    (h : blobs.Holds log) (hmore : blobs'.Extends blobs) : blobs'.Holds log := by
  intro e he hash hdocument
  obtain ⟨bytes, hstored⟩ := h e he hash hdocument
  exact ⟨bytes, hmore.mem hstored⟩

/-- One event makes one session of another. -/
theorem PsbtSession.Executes.eq_of {command' : PsbtSessionCommand} {e' : PsbtSessionEvent}
    (h : Executes s command e s') (h' : Executes s command' e' s') : e = e' := by
  have hlog := (Traffic.grown_of_executes h).log.symm.trans (Traffic.grown_of_executes h').log
  exact List.singleton_inj.mp (List.append_cancel_left hlog)

/-- After the work on a session, the documents of its log are there, with that of the new event. -/
theorem SessionCall.holds_of_work (hs : Grammatical s) (hholds : blobs.Holds s.log)
    (hwork : (call.work X network wallets blobs s).1 = .ok (some s'))
    (hx : Executes s command e s') :
    (call.work X network wallets blobs s).2.Holds (s.log ++ [e]) := by
  intro x hmem hash hdocument
  rcases List.mem_append.mp hmem with hmem | hmem
  · exact hholds.mono SessionCall.work_blobs.1 x hmem hash hdocument
  · obtain rfl := List.mem_singleton.mp hmem
    obtain ⟨x', ⟨_, hx'⟩, hcreated, hsigned⟩ := SessionCall.work_records hs (Prod.ext hwork rfl)
    obtain rfl : x' = x := hx'.eq_of hx
    cases x' with
    | psbtCreated hash' =>
      obtain rfl := Option.some.inj hdocument
      obtain ⟨_, _, _, psbt, hcreates⟩ := hcreated _ rfl
      exact ⟨_, hcreates.stored⟩
    | signatureAdded fingerprint hash' =>
      obtain rfl := Option.some.inj hdocument
      obtain ⟨signed, hstored⟩ := hsigned _ _ rfl
      exact ⟨_, hstored⟩
    | _ => exact absurd hdocument (by simp [PsbtSessionEvent.document])

variable {sessions : PsbtSessions} {p' q : Platform}

/-- A step that leaves the wallets and the sessions needs no request. -/
theorem Serialized.congr (h : Serialized final c.platform p) (hw : q.wallets = c.platform.wallets)
    (hs : q.sessions = c.platform.sessions) : Serialized final q p :=
  ⟨h.wallets.trans hw.symm, h.sessions.trans hs.symm, h.within, h.holds⟩

open Traffic in
/-- **A unit of work that writes back comes to the same alone.** -/
theorem Serialized.session {final : Traffic} (h : Serialized final.platform c.platform p)
    (hinv : Inv X c) (hf : Follows X final c) (ha : final.platform.blobs.Addressed X)
    (hc : final.platform.blobs.NoCollision X) (hsnapshot : Snapshot c.platform.sessions id s)
    (hx : Executes s command e s')
    (heffect : call.Effect X network final.platform.wallets final.platform.blobs id s.log [e])
    (hu : c.platform.sessions.update s' = .ok sessions) :
    ∃ p', Request.alone X network p (.call (.session id call)) = (.ok (), p') ∧
      Serialized final.platform { c.platform with sessions } p' := by
  have hrow := hsnapshot.row_of_update hx hu
  have hloaded := hrow.grammatical.loaded
  have hholds := h.holds id s (h.sessions ▸ hrow)
  obtain ⟨s₀, left, hs₀, hwork, hleft, hwithin⟩ := heffect
  obtain rfl := Except.ok.inj ((PsbtSession.tryFromEvents_eq_ok_iff.mpr
    ⟨hrow.events_eq, hloaded⟩).symm.trans hs₀)
  -- its wallet and its documents are what they were, so the work is
  obtain ⟨hsame, puts, hputs, hputs₀⟩ := SessionCall.work_congr network
    ((congrArg (fun wallets : Wallets => wallets.findById s.walletId) h.wallets).trans
      (wallet_of_snapshot hinv hf hsnapshot).symm)
    (h.within.fetchVerified ha hc hloaded.hydrates hholds) call
  rw [hwork] at hsame
  obtain ⟨s'', rfl⟩ : ∃ s'', left = some s'' := by
    cases left with
    | none => exact absurd hleft (by simp [PsbtSession.leftEvents])
    | some s'' => exact ⟨s'', rfl⟩
  obtain ⟨command', e', hx'⟩ := SessionCall.work_eq_some hrow.grammatical hsame
  have hfresh : s''.events.fresh = [e'] := by
    rw [hx'.left, PsbtSession.record_events, hrow.events_eq]
    rfl
  obtain rfl : e = e' := List.singleton_inj.mp (hleft.trans hfresh)
  obtain rfl : s'' = s' := hx'.left.trans hx.left.symm
  refine ⟨{ p with sessions, blobs := (call.work X network p.wallets p.blobs s).2 }, ?_,
    h.wallets, rfl, fun x hmem => ?_, fun id' s₁ hrow' => ?_⟩
  · show call.alone X network p id = _
    unfold SessionCall.alone SessionCall.write
    rw [h.sessions, hrow.found]
    dsimp only
    rw [hsame]
    dsimp only
    rw [hu]
  · rw [hputs] at hmem
    rcases List.mem_append.mp hmem with hmem | hmem
    · exact hwithin x (hputs₀ ▸ List.mem_append_left _ hmem)
    · exact h.within x hmem
  · rcases (Writes.event hrow hx hu).row hrow' with
      ⟨hold, -⟩ | ⟨n, hn, -⟩ | ⟨s₂, -, e₂, he, hold, -, hg⟩
    · exact (h.holds id' s₁ (h.sessions ▸ hold)).mono SessionCall.work_blobs.1
    · obtain ⟨-, rfl⟩ := Prod.mk.inj (Option.some.inj hn)
      cases hx.step
    · obtain ⟨rfl, rfl⟩ := Prod.mk.inj (Option.some.inj he)
      obtain rfl := Except.ok.inj (hold.found.symm.trans hrow.found)
      rw [hg.log]
      exact SessionCall.holds_of_work hrow.grammatical hholds hsame hx

/-- A session that is proposed has no documents yet. -/
theorem Serialized.proposed {n : NewPsbtSession} (h : Serialized final c.platform p)
    (hn : PsbtSession.Loaded n.proposed)
    (hcreate : c.platform.sessions.create n = .ok (s, sessions)) :
    Serialized final { c.platform with sessions } { p with sessions } := by
  refine ⟨h.wallets, rfl, h.within, fun id' s' hrow => ?_⟩
  rcases (Writes.proposal hn hcreate).row hrow with
    ⟨hold, -⟩ | ⟨n', -, hg⟩ | ⟨_, _, e', he, -, hstep, -⟩
  · exact h.holds id' s' (h.sessions ▸ hold)
  · intro x hmem hash hdocument
    rw [hg.log, List.append_nil] at hmem
    obtain rfl := List.mem_singleton.mp hmem
    exact absurd hdocument (by simp [PsbtSessionEvent.document])
  · obtain ⟨-, rfl⟩ := Prod.mk.inj (Option.some.inj he)
    cases hstep

end Sessions

/-! ## The run -/

namespace Traffic

variable {X : Extern} {network : Network} {c : Traffic}

/-- A wallet that a call holds is the one that it names. -/
def Names (c : Traffic) : Prop :=
  ∀ task ∈ c.tasks, ∀ w, task.stage = .wallet w →
    (∃ command, task.call = .wallet w.id command) ∨
    ∃ id proposedBy spend, task.call = .proposeSpend id w.id proposedBy spend

variable (network) in
theorem Names.act (h : c.Names) (hinv : Inv X c) (a : Action) : (c.act X network a).Names := by
  cases a with
  | register => exact h
  | call call =>
    intro task htask w hw
    rcases List.mem_append.mp htask with hold | hnew
    · exact h task hold w hw
    · obtain rfl := List.mem_singleton.mp hnew
      dsimp only at hw
      unfold load at hw
      cases call with
      | wallet id command =>
        dsimp only at hw
        split at hw
        · exact absurd hw (by simp)
        · rename_i w' hfound
          obtain rfl := Stage.wallet.inj hw
          exact Or.inl ⟨command, by rw [(hinv.wallets.row hfound).id_eq]⟩
      | proposeSpend id walletId proposedBy spend =>
        dsimp only at hw
        split at hw
        · exact absurd hw (by simp)
        · rename_i w' hfound
          obtain rfl := Stage.wallet.inj hw
          exact Or.inr ⟨id, proposedBy, spend, by rw [(hinv.wallets.row hfound).id_eq]⟩
      | session id call =>
        dsimp only at hw
        split at hw <;> exact absurd hw (by simp)
  | step i =>
    simp only [Traffic.act]
    split
    · exact h
    · rename_i task hi
      intro task' htask' w hw
      rcases List.mem_or_eq_of_mem_set htask' with hold | rfl
      · exact h task' hold w hw
      · -- no step loads a wallet
        refine h task (List.mem_of_getElem? hi) w ?_
        revert hw
        obtain ⟨call, stage⟩ := task
        dsimp only
        unfold advance
        split
        · rename_i id command w'
          unfold walletStep
          repeat' split
          all_goals exact fun hw => absurd hw (by simp)
        · unfold proposalStep
          repeat' split
          all_goals exact fun hw => absurd hw (by simp)
        · exact fun hw => absurd hw (by simp)
        · exact fun hw => absurd hw (by simp)
        · exact id

theorem names_run (X : Extern) (network : Network) (actions : List Action) :
    (empty.run X network actions).Names := by
  induction actions using List.reverseRecOn with
  | nil => exact fun task htask => absurd htask List.not_mem_nil
  | append_singleton actions a ih =>
    rw [run_append]
    exact ih.act network (inv_run X network actions) a

/-- What a unit of work is about to write back is its effect on the log it loaded, with all that
will be stored. -/
theorem effect_of_computed {final : Traffic} (hc : final.platform.blobs.NoCollision X)
    {actions later : List Action} (hfinal : final = empty.run X network (actions ++ later))
    {i : Nat} {id : PsbtSessionId} {call : SessionCall} {s' : PsbtSession}
    (task : (empty.run X network actions).At i id call (.computed (.ok (some s')))) :
    ∃ s command e, Snapshot (empty.run X network actions).platform.sessions id s ∧
      Executes s command e s' ∧
      call.Effect X network final.platform.wallets final.platform.blobs id s.log [e] := by
  obtain ⟨id', call', hcall, hwork, -⟩ :=
    (inv_run X network actions).tasks _ (List.mem_of_getElem? task)
  obtain ⟨rfl, rfl⟩ := Call.session.inj hcall
  obtain ⟨s, command, e, hsnapshot, hx⟩ := hwork s' rfl
  obtain ⟨current, -, hrow, -⟩ := hsnapshot.current
  -- it has a place in the order of the calls on its session, with the log it loaded there
  obtain ⟨_, order, -, hl⟩ :=
    (linear_run X network id hc actions later hfinal).present _ hrow.log_eq
  obtain ⟨_, _, copy, -, -, ⟨stage, hat, hcopy⟩, -⟩ := hl.held (i, call) ⟨_, task, trivial⟩
  obtain ⟨-, -, rfl⟩ := task.inj hat
  obtain ⟨heffect, hpersisted⟩ := hcopy
  have hevents : s'.events = ⟨id, s.log, [e]⟩ := by
    rw [hx.left, PsbtSession.record_events, hsnapshot.events_eq]
    rfl
  obtain rfl : s.log = copy :=
    (congrArg EntityEvents.persisted hevents).symm.trans (hpersisted s' rfl)
  refine ⟨s, command, e, hsnapshot, hx, ?_⟩
  have hleft : PsbtSession.leftEvents (some s') = [e] := congrArg EntityEvents.fresh hevents
  rwa [hleft] at heffect

/-! ### One step -/

variable {final p p' : Platform} {a : Action}

/-- A step that writes nothing. -/
theorem serial_of_unwritten (h : Serialized final c.platform p)
    (hw : (c.act X network a).platform.wallets = c.platform.wallets)
    (hs : (c.act X network a).platform.sessions = c.platform.sessions) :
    ∃ p', Request.Serially X network p (c.wrote X network a).toList p' ∧
      Serialized final (c.act X network a).platform p' := by
  have hnone : c.wrote X network a = none := by
    unfold wrote
    rw [if_pos ⟨congrArg Store.rows hw, congrArg Store.rows hs⟩]
  rw [hnone]
  exact ⟨p, .nil p, h.congr hw hs⟩

/-- A step that writes what its request writes alone. -/
theorem serial_of_alone {request : Request} (h : Serialized final c.platform p)
    (hrequest : c.request a = some request) (halone : request.alone X network p = (.ok (), p'))
    (h' : Serialized final (c.act X network a).platform p') :
    ∃ p', Request.Serially X network p (c.wrote X network a).toList p' ∧
      Serialized final (c.act X network a).platform p' := by
  by_cases hsame : (c.act X network a).platform.wallets.rows = c.platform.wallets.rows ∧
      (c.act X network a).platform.sessions.rows = c.platform.sessions.rows
  · exact serial_of_unwritten h (congrArg Store.mk hsame.1) (congrArg Store.mk hsame.2)
  · unfold wrote
    rw [if_neg hsame, hrequest]
    exact ⟨p', .single halone, h'⟩

/-- A registration. -/
theorem serial_register (h : Serialized final c.platform p) (id : WalletId) (threshold : UInt32)
    (participants : List UserId) :
    ∃ p', Request.Serially X network p
        (c.wrote X network (.register id threshold participants)).toList p' ∧
      Serialized final (c.act X network (.register id threshold participants)).platform p' := by
  cases hn : NewWallet.new id network threshold participants with
  | error e =>
    refine serial_of_unwritten h ?_ rfl
    simp only [Traffic.act, Coordination.registerWallet, hn]
  | ok n =>
    cases hcreate : c.platform.wallets.create n with
    | error e =>
      refine serial_of_unwritten h ?_ rfl
      simp only [Traffic.act, Coordination.registerWallet, hn, hcreate]
    | ok created =>
      obtain ⟨w, wallets⟩ := created
      refine serial_of_alone h rfl (Request.alone_register hn (h.wallets.symm ▸ hcreate)) ?_
      refine ⟨?_, h.sessions, h.within, h.holds⟩
      simp only [Traffic.act, Coordination.registerWallet, hn, hcreate]

variable (network) in
/-- **One step, one request at most.** The step of a call writes nothing, or it writes what the
whole call writes when it runs alone now. -/
theorem serial_act {final : Traffic} {actions later : List Action} {a : Action}
    (hfinal : final = empty.run X network (actions ++ a :: later))
    (hc : final.platform.blobs.NoCollision X)
    (h : Serialized final.platform (empty.run X network actions).platform p) :
    ∃ p', Request.Serially X network p ((empty.run X network actions).wrote X network a).toList p' ∧
      Serialized final.platform ((empty.run X network actions).act X network a).platform p' := by
  have hinv := inv_run X network actions
  have hf : Follows X final (empty.run X network actions) := by
    rw [hfinal, run_append]
    exact run_follows network hinv (a :: later)
  have ha : final.platform.blobs.Addressed X := hfinal ▸ (backed_run X network _).addressed
  have hcomputed := @effect_of_computed X network final hc actions (a :: later) hfinal
  have hnames := names_run X network actions
  generalize empty.run X network actions = c at *
  cases a with
  | register id threshold participants => exact serial_register h id threshold participants
  | call call => exact serial_of_unwritten h rfl rfl
  | step i =>
    cases hi : c.tasks[i]? with
    | none =>
      refine serial_of_unwritten h ?_ ?_ <;> simp only [Traffic.act, hi]
    | some task =>
      have hact : (c.act X network (.step i)).platform =
          (advance X network c.platform task.call task.stage).1 := by
        simp only [Traffic.act, hi]
      have hrequest : c.request (.step i) = some (.call task.call) := by
        simp only [request, hi, Option.map_some]
      have hmem := List.mem_of_getElem? hi
      have hkept : (advance X network c.platform task.call task.stage).1.wallets =
            c.platform.wallets →
          (advance X network c.platform task.call task.stage).1.sessions = c.platform.sessions →
          ∃ p', Request.Serially X network p (c.wrote X network (.step i)).toList p' ∧
            Serialized final.platform (c.act X network (.step i)).platform p' := fun hw hs =>
        serial_of_unwritten h (hact ▸ hw) (hact ▸ hs)
      have htask := hinv.tasks task hmem
      have hnamed := hnames task hmem
      obtain ⟨call, stage⟩ := task
      cases stage with
      | wallet w =>
        rcases hnamed w rfl with ⟨command, rfl⟩ | ⟨id, proposedBy, spend, rfl⟩
        · rcases walletStep_serial network command htask with
            hsame | ⟨wallets, hstep, halone⟩
          · exact hkept (congrArg Platform.wallets hsame) (congrArg Platform.sessions hsame)
          · refine serial_of_alone h hrequest (halone p h.wallets) ?_
            rw [hact.trans hstep]
            exact ⟨rfl, h.sessions, h.within, h.holds⟩
        · rcases proposalStep_serial network id proposedBy spend hinv.wallets htask with
            hsame | ⟨n, s, sessions, hstep, hloaded, hcreate, halone⟩
          · exact hkept (congrArg Platform.wallets hsame) (congrArg Platform.sessions hsame)
          · refine serial_of_alone h hrequest (halone p h.wallets h.sessions) ?_
            rw [hact.trans hstep]
            exact h.proposed hloaded hcreate
      | session s =>
        obtain ⟨id, call', rfl, -⟩ := htask
        exact hkept rfl rfl
      | computed work =>
        obtain ⟨id, call', rfl, -⟩ := htask
        rcases write_cases c.platform.sessions call' work with
          ⟨e, hw⟩ | ⟨-, hw⟩ | ⟨s', sessions, rfl, hu, hw⟩
        · exact hkept rfl (congrArg Prod.snd hw)
        · exact hkept rfl (congrArg Prod.snd hw)
        · obtain ⟨s, command, e, hsnapshot, hx, heffect⟩ := hcomputed hi
          obtain ⟨p', halone, h'⟩ := h.session hinv hf ha hc hsnapshot hx heffect hu
          refine serial_of_alone h hrequest halone ?_
          rw [hact]
          exact ⟨h'.wallets, h'.sessions.trans (congrArg Prod.snd hw).symm, h'.within, h'.holds⟩
      | returned answer => cases call <;> exact hkept rfl rfl
      | panicked => exact absurd htask id

/-- **The requests that wrote, one after another.** -/
theorem serialized_run {final : Traffic} (hc : final.platform.blobs.NoCollision X)
    (actions later : List Action) (hfinal : final = empty.run X network (actions ++ later)) :
    ∃ p, Request.Serially X network .empty (empty.writes X network actions) p ∧
      Serialized final.platform (empty.run X network actions).platform p := by
  induction actions using List.reverseRecOn generalizing later with
  | nil =>
    refine ⟨.empty, .nil _, rfl, rfl, fun e he => absurd he List.not_mem_nil, fun id s hrow => ?_⟩
    exact absurd hrow.log_eq (by simp [Platform.empty])
  | append_singleton actions a ih =>
    have hsplit : actions ++ [a] ++ later = actions ++ a :: later := by rw [List.append_assoc]; rfl
    obtain ⟨p, hserially, h⟩ := ih (a :: later) (by rw [hfinal, hsplit])
    obtain ⟨p', hstep, h'⟩ := serial_act network (hsplit ▸ hfinal) hc h
    rw [writes_concat, run_append]
    exact ⟨p', hserially.append hstep, h'⟩

end Traffic

open Traffic in
/-- **Calls are serializable.** After any interleaving, the requests that wrote, run one after
another in the order in which they wrote, each alone and on what the ones before it left, all
return `Ok`. They leave the wallets and the sessions as the interleaving left them, and every
document that a session names reads the same. -/
theorem stores_serializable (X : Extern) (network : Network) (actions : List Traffic.Action)
    (hcollision : (empty.run X network actions).platform.blobs.NoCollision X) :
    ∃ p, Request.Serially X network .empty (empty.writes X network actions) p ∧
      p.wallets = (empty.run X network actions).platform.wallets ∧
      p.sessions = (empty.run X network actions).platform.sessions ∧
      ∀ id s, p.sessions.findById id = .ok s → ∀ hash ∈ s.documentHashes,
        p.blobs.fetchVerified X hash =
          (empty.run X network actions).platform.blobs.fetchVerified X hash := by
  obtain ⟨p, hserially, h⟩ := serialized_run hcollision actions [] (by rw [List.append_nil])
  refine ⟨p, hserially, h.wallets, h.sessions, fun id s hs hash hmem => ?_⟩
  have hrow := (inv_run X network actions).sessions.row (h.sessions ▸ hs)
  exact h.within.fetchVerified (backed_run X network actions).addressed hcollision
    hrow.grammatical.loaded.hydrates (h.holds id s (h.sessions ▸ hrow)) hash hmem

open Extern.Sample in
theorem stores_serializable_racing :
    ∃ p, Request.Serially (.sample [soloUnsigned, soloSigned true]) .bitcoin .empty
        (Traffic.empty.writes (.sample [soloUnsigned, soloSigned true]) .bitcoin racing) p ∧
      p.sessions.find? ⟨0⟩ = some soloCollected.log ∧
      (Traffic.empty.writes (.sample [soloUnsigned, soloSigned true]) .bitcoin racing).length =
        5 := by
  obtain ⟨p, hserially, -, hsessions, -⟩ := stores_serializable
    (.sample [soloUnsigned, soloSigned true]) .bitcoin racing (by decide +kernel)
  exact ⟨p, hserially, by rw [hsessions]; decide +kernel, by decide +kernel⟩

end Kota
