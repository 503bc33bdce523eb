import Kota.Linearization
import Kota.Lib.Selection

/-!
# Sessions do not interfere

All sessions live in one table, their documents in one blob store, and their calls interleave
(`Traffic`). Sessions share wallets, which no session writes.

* `Traffic.concerning` keeps, of a run, what is done to wallets and to some of the sessions
  (`mine`), with the calls numbered among themselves.
* `Isolated` relates that run to the whole one (**`isolated_run`**): the same wallets, logs and
  calls; its blob store holds less, but whatever the sessions read.
* **`sessions_isolated`**: two runs that do the same to wallets and to these sessions, and anything
  to others, leave the same logs and documents of them and the same calls on them, each as far and
  with the same answer.

Wallets are not isolated from one another: two that come to the same descriptor collide.
-/

namespace Kota

open EventLog Selection

open PsbtSession (Executes Grammatical)
open PsbtSessions (Row Snapshot)

/-! ## What concerns some of the sessions -/

/-- The call is on a wallet, or on one of these sessions. -/
def Call.concerns (mine : PsbtSessionId → Bool) : Call → Bool
  | .wallet .. => true
  | .proposeSpend id .. | .session id _ => mine id

namespace Traffic

variable (mine : PsbtSessionId → Bool)

/-- The call that an action makes. -/
def Action.made : Action → List Call
  | .call c => [c]
  | .register .. | .step _ => []

/-- The action, if it concerns these sessions, after these calls. -/
def shown (made : List Call) : Action → Option Action
  | .register id threshold participants => some (.register id threshold participants)
  | .call call => if call.concerns mine then some (.call call) else none
  | .step i =>
    match made[i]? with
    | none => none
    | some call =>
      if call.concerns mine then some (.step (rank (Call.concerns mine) made i)) else none

/-- The actions that concern these sessions, after these calls. -/
def concerning (made : List Call) : List Action → List Action
  | [] => []
  | a :: actions => (shown mine made a).toList ++ concerning (made ++ a.made) actions

/-- The calls that concern these sessions. -/
def tasksOf (c : Traffic) : List Task := c.tasks.filter fun task => task.call.concerns mine

end Traffic

/-- `p'` has all of `p` that concerns these sessions. -/
structure Platform.Part (mine : PsbtSessionId → Bool) (p' p : Platform) : Prop where
  wallets : p'.wallets = p.wallets
  sessions : SameOn mine p'.sessions p.sessions
  within : p'.blobs.Within p.blobs

/-- `c'` has all of `c` that concerns these sessions, and no call that does not. -/
structure Traffic.Isolated (mine : PsbtSessionId → Bool) (c' c : Traffic) : Prop where
  platform : c'.platform.Part mine c.platform
  tasks : c'.tasks = c.tasksOf mine

/-! ## The tables -/

section Tables

variable {mine : PsbtSessionId → Bool} {sessions sessions' : PsbtSessions}

theorem PsbtSessions.create_sameOn (h : SameOn mine sessions' sessions) {n : NewPsbtSession}
    (hn : mine n.id = true) :
    (∃ e, sessions.create n = .error e ∧ sessions'.create n = .error e) ∨
    ∃ s t t', sessions.create n = .ok (s, t) ∧ sessions'.create n = .ok (s, t') ∧
      SameOn mine t' t := by
  unfold PsbtSessions.create
  rcases h.create hn n.intoEvents.iterAll with ⟨hc, hc'⟩ | ⟨t, t', hc, hc', ht⟩
  · rw [hc, hc']
    exact Or.inl ⟨_, rfl, rfl⟩
  · rw [hc, hc']
    exact Or.inr ⟨_, t, t', rfl, rfl, ht⟩

theorem PsbtSessions.update_sameOn (h : SameOn mine sessions' sessions) {s : PsbtSession}
    (hs : mine s.id = true) :
    (∃ e, sessions.update s = .error e ∧ sessions'.update s = .error e) ∨
    ∃ t t', sessions.update s = .ok t ∧ sessions'.update s = .ok t' ∧ SameOn mine t' t := by
  unfold PsbtSessions.update
  split
  · exact Or.inr ⟨sessions, sessions', rfl, rfl, h⟩
  · rcases h.append hs s.events with ⟨ha, ha'⟩ | ⟨t, t', ha, ha', ht⟩
    · rw [ha, ha']
      exact Or.inl ⟨_, rfl, rfl⟩
    · rw [ha, ha']
      exact Or.inr ⟨t, t', rfl, rfl, ht⟩

end Tables

/-! ## One step of a call -/

namespace Traffic

variable {X : Extern} {network : Network} {mine : PsbtSessionId → Bool} {p p' : Platform}
variable {c c' : Traffic}

theorem load_part (h : p'.Part mine p) {call : Call} (hcall : call.concerns mine = true) :
    load p' call = load p call := by
  unfold load
  cases call with
  | wallet id command => rw [h.wallets]
  | proposeSpend id walletId proposedBy spend => rw [h.wallets]
  | session id call =>
    dsimp only
    rw [PsbtSessions.findById_congr (h.sessions id hcall)]

theorem walletStep_part (h : p'.Part mine p) (command : WalletCommand) (w : Wallet) :
    (walletStep X p' command w).2 = (walletStep X p command w).2 ∧
      (walletStep X p' command w).1.Part mine (walletStep X p command w).1 := by
  unfold walletStep
  rw [h.wallets]
  split
  · exact ⟨rfl, h⟩
  split
  · exact ⟨rfl, h⟩
  split
  · exact ⟨rfl, h⟩
  · exact ⟨rfl, rfl, h.sessions, h.within⟩

theorem proposalStep_part (h : p'.Part mine p) {id : PsbtSessionId} (hid : mine id = true)
    (proposedBy : UserId) (spend : SpendSpec) (w : Wallet) :
    (proposalStep X p' id proposedBy spend w).2 = (proposalStep X p id proposedBy spend w).2 ∧
      (proposalStep X p' id proposedBy spend w).1.Part mine
        (proposalStep X p id proposedBy spend w).1 := by
  unfold proposalStep
  split
  · exact ⟨rfl, h⟩
  · exact ⟨rfl, h⟩
  · rename_i n hn
    have hn' : mine n.id = true := by
      obtain ⟨-, -, rfl⟩ :=
        NewPsbtSession.tryNew_eq_ok_iff.mp (NewPsbtSession.tryNew_of_checked hn)
      exact hid
    rcases PsbtSessions.create_sameOn h.sessions hn' with ⟨e, hc, hc'⟩ | ⟨s, t, t', hc, hc', ht⟩
    · rw [hc, hc']
      exact ⟨rfl, h⟩
    · rw [hc, hc']
      exact ⟨rfl, h.wallets, ht, h.within⟩

variable (network) in
/-- A unit of work reads its wallet and its documents, which both platforms have. -/
theorem work_part (h : p'.Part mine p) (ha : p.blobs.Addressed X) (hc : p.blobs.NoCollision X)
    {s : PsbtSession} (hs : PsbtSession.Hydrates s) (hholds : p'.blobs.Holds s.log)
    (call : SessionCall) :
    (call.work X network p'.wallets p'.blobs s).1 = (call.work X network p.wallets p.blobs s).1 ∧
      (call.work X network p'.wallets p'.blobs s).2.Within
        (call.work X network p.wallets p.blobs s).2 := by
  obtain ⟨hsame, puts, hputs', hputs⟩ := SessionCall.work_congr network
    (congrArg (fun wallets : Wallets => wallets.findById s.walletId) h.wallets)
    (h.within.fetchVerified ha hc hs hholds) call
  refine ⟨hsame, fun e he => ?_⟩
  rw [hputs'] at he
  rw [hputs]
  rcases List.mem_append.mp he with he | he
  · exact List.mem_append_left _ he
  · exact List.mem_append_right _ (h.within e he)

theorem write_part (h : p'.Part mine p) (call : SessionCall)
    (work : Except Failure (Option PsbtSession))
    (hwork : ∀ s, work = .ok (some s) → mine s.id = true) :
    (call.write p'.sessions work).1 = (call.write p.sessions work).1 ∧
      SameOn mine (call.write p'.sessions work).2 (call.write p.sessions work).2 := by
  unfold SessionCall.write
  split
  · exact ⟨rfl, h.sessions⟩
  · exact ⟨rfl, h.sessions⟩
  · rename_i s
    rcases PsbtSessions.update_sameOn h.sessions (hwork s rfl) with
      ⟨e, hu, hu'⟩ | ⟨t, t', hu, hu', ht⟩
    · rw [hu, hu']
      exact ⟨rfl, h.sessions⟩
    · rw [hu, hu']
      exact ⟨rfl, ht⟩

/-- The session that a call is about to write back is its own. -/
theorem Task.Inv.id_eq {wallets : Wallets} {sessions : PsbtSessions} {id : PsbtSessionId}
    {call : SessionCall} {work : Except Failure (Option PsbtSession)}
    (h : Task.Inv X wallets sessions ⟨.session id call, .computed work⟩) {s : PsbtSession}
    (hs : work = .ok (some s)) : s.id = id := by
  obtain ⟨id', call', hcall, hwork, -⟩ := h
  obtain ⟨rfl, rfl⟩ := Call.session.inj hcall
  obtain ⟨s₀, command, e, hsnapshot, hx⟩ := hwork s hs
  rw [hx.left, PsbtSession.record_id, hsnapshot.id_eq]

variable (network) in
/-- **A step of a call that concerns the sessions** comes to the same on both platforms. -/
theorem advance_part (h : p'.Part mine p) (ha : p.blobs.Addressed X) (hc : p.blobs.NoCollision X)
    {task : Task} (hcall : task.call.concerns mine = true)
    (hinv : task.Inv X p.wallets p.sessions)
    (hholds : ∀ s, task.stage = .session s → p'.blobs.Holds s.log) :
    (advance X network p' task.call task.stage).2 = (advance X network p task.call task.stage).2 ∧
      (advance X network p' task.call task.stage).1.Part mine
        (advance X network p task.call task.stage).1 := by
  obtain ⟨call, stage⟩ := task
  cases stage with
  | wallet w =>
    cases call with
    | wallet id command => exact walletStep_part h command w
    | proposeSpend id walletId proposedBy spend =>
      exact proposalStep_part h hcall proposedBy spend w
    | session id call => exact ⟨rfl, h⟩
  | session s =>
    obtain ⟨id, call', rfl, hsnapshot⟩ := hinv
    obtain ⟨hsame, hwithin⟩ := work_part network h ha hc
      hsnapshot.grammatical.loaded.hydrates (hholds s rfl) call'
    exact ⟨congrArg Stage.computed hsame, h.wallets, h.sessions, hwithin⟩
  | computed work =>
    obtain ⟨id, call', rfl, -⟩ := id hinv
    obtain ⟨hsame, hsessions⟩ := write_part h call' work fun s hs => by
      rw [hinv.id_eq hs]
      exact hcall
    exact ⟨congrArg Stage.returned hsame, h.wallets, hsessions, h.within⟩
  | returned answer => cases call <;> exact ⟨rfl, h⟩
  | panicked => cases call <;> exact ⟨rfl, h⟩

variable (network) in
/-- **A step of any other call** is not seen. -/
theorem advance_aside (h : p'.Part mine p) {task : Task}
    (hcall : task.call.concerns mine = false) (hinv : task.Inv X p.wallets p.sessions) :
    p'.Part mine (advance X network p task.call task.stage).1 := by
  obtain ⟨call, stage⟩ := task
  cases stage with
  | wallet w =>
    cases call with
    | wallet id command => exact absurd hcall (by simp [Call.concerns])
    | proposeSpend id walletId proposedBy spend =>
      show p'.Part mine (proposalStep X p id proposedBy spend w).1
      unfold proposalStep
      split
      · exact h
      · exact h
      · rename_i n hn
        obtain ⟨-, -, rfl⟩ :=
          NewPsbtSession.tryNew_eq_ok_iff.mp (NewPsbtSession.tryNew_of_checked hn)
        split
        · exact h
        · rename_i s sessions hcreate
          obtain ⟨-, -, hfind⟩ := PsbtSessions.create_spec hcreate
          exact ⟨h.wallets, h.sessions.aside hcall hfind, h.within⟩
    | session id call => exact h
  | session s =>
    obtain ⟨id, call', rfl, -⟩ := hinv
    exact ⟨h.wallets, h.sessions, fun e he => SessionCall.work_blobs.1.mem (h.within e he)⟩
  | computed work =>
    obtain ⟨id, call', rfl, -⟩ := id hinv
    refine ⟨h.wallets, ?_, h.within⟩
    show SameOn mine p'.sessions (call'.write p.sessions work).2
    rcases write_cases p.sessions call' work with ⟨e, hw⟩ | ⟨-, hw⟩ | ⟨s, sessions, hs, hu, hw⟩
    · rw [hw]
      exact h.sessions
    · rw [hw]
      exact h.sessions
    · rw [hw]
      rcases PsbtSessions.update_spec hu with ⟨-, rfl⟩ | ⟨log, -, -, hfind⟩
      · exact h.sessions
      · exact h.sessions.aside (by rw [hinv.id_eq hs]; exact hcall) hfind
  | returned answer => cases call <;> exact h
  | panicked => cases call <;> exact h

/-! ## The run -/

theorem act_calls (c : Traffic) (a : Action) :
    (c.act X network a).tasks.map Task.call = c.tasks.map Task.call ++ a.made := by
  cases a with
  | register => exact (List.append_nil _).symm
  | call call => exact List.map_append
  | step i =>
    simp only [act, Action.made, List.append_nil]
    split
    · rfl
    · rename_i task hi
      -- the call of a task stays
      obtain ⟨pre, post, htasks, rfl⟩ := exists_split hi
      dsimp only
      rw [htasks, List.set_append_right _ _ (Nat.le_refl _), Nat.sub_self, List.set_cons_zero,
        List.map_append, List.map_append]
      rfl

theorem tasksOf_append {p : Platform} {call : Call} {stage : Stage} :
    tasksOf mine ⟨p, c.tasks ++ [⟨call, stage⟩]⟩ =
      c.tasksOf mine ++ if call.concerns mine then [⟨call, stage⟩] else [] := by
  unfold tasksOf
  dsimp only
  rw [List.filter_append, List.filter_cons]
  rfl

theorem getElem?_tasksOf {i : Nat} {call : Call} {stage : Stage}
    (hi : c.tasks[i]? = some ⟨call, stage⟩) (hcall : call.concerns mine = true) :
    (c.tasksOf mine)[rank (Call.concerns mine) (c.tasks.map Task.call) i]? =
      some ⟨call, stage⟩ := by
  rw [rank_map]
  exact getElem?_rank (p := fun task : Task => task.call.concerns mine) hi hcall

theorem tasksOf_set {p : Platform} {i : Nat} {call : Call} {stage stage' : Stage}
    (hi : c.tasks[i]? = some ⟨call, stage⟩) (hcall : call.concerns mine = true) :
    tasksOf mine ⟨p, c.tasks.set i ⟨call, stage'⟩⟩ =
      (c.tasksOf mine).set (rank (Call.concerns mine) (c.tasks.map Task.call) i)
        ⟨call, stage'⟩ := by
  rw [rank_map]
  exact filter_set (p := fun task : Task => task.call.concerns mine) hi hcall hcall

theorem tasksOf_set_of_not {p : Platform} {i : Nat} {call : Call} {stage stage' : Stage}
    (hi : c.tasks[i]? = some ⟨call, stage⟩) (hcall : call.concerns mine = false) :
    tasksOf mine ⟨p, c.tasks.set i ⟨call, stage'⟩⟩ = c.tasksOf mine :=
  filter_set_of_not (p := fun task : Task => task.call.concerns mine) hi hcall hcall

/-- **One step**, taken on both sides when it concerns the sessions. -/
theorem Isolated.act (h : c'.Isolated mine c) (hinv : Inv X c) (hinv' : Inv X c')
    (hback' : Backed X network c') (ha : c.platform.blobs.Addressed X)
    (hc : c.platform.blobs.NoCollision X) (a : Action) :
    (c'.run X network (shown mine (c.tasks.map Task.call) a).toList).Isolated mine
      (c.act X network a) := by
  obtain ⟨hpart, htasks⟩ := h
  cases a with
  | register id threshold participants =>
    refine ⟨⟨?_, hpart.sessions, hpart.within⟩, htasks⟩
    show (Coordination.registerWallet c'.platform.wallets network id threshold participants).2 = _
    rw [hpart.wallets]
    rfl
  | call call =>
    by_cases hcall : call.concerns mine = true
    · simp only [shown, if_pos hcall]
      refine ⟨hpart, ?_⟩
      show c'.tasks ++ [⟨call, load c'.platform call⟩] = tasksOf mine ⟨_, _⟩
      rw [tasksOf_append, if_pos hcall, load_part hpart hcall, htasks]
    · simp only [shown, if_neg hcall]
      refine ⟨hpart, ?_⟩
      show c'.tasks = tasksOf mine ⟨_, _⟩
      rw [tasksOf_append, if_neg hcall, htasks, List.append_nil]
  | step i =>
    cases hi : c.tasks[i]? with
    | none =>
      have hnone : (c.tasks.map Task.call)[i]? = none := by rw [List.getElem?_map, hi]; rfl
      have hsame : c.act X network (.step i) = c := by simp only [Traffic.act, hi]
      simp only [shown, hnone, hsame]
      exact ⟨hpart, htasks⟩
    | some task =>
      have htask := hinv.tasks task (List.mem_of_getElem? hi)
      obtain ⟨call, stage⟩ := task
      have hsome : (c.tasks.map Task.call)[i]? = some call := by rw [List.getElem?_map, hi]; rfl
      have hact : c.act X network (.step i) = ⟨(advance X network c.platform call stage).1,
          c.tasks.set i ⟨call, (advance X network c.platform call stage).2⟩⟩ := by
        simp only [Traffic.act, hi]
      rw [hact]
      by_cases hcall : call.concerns mine = true
      · -- the task has its number on the other side, and the documents that it may read
        have hi' := getElem?_tasksOf hi hcall
        rw [← htasks] at hi'
        have hholds : ∀ s, stage = .session s → c'.platform.blobs.Holds s.log := by
          rintro s rfl
          obtain ⟨id, call', -, hsnapshot⟩ := hinv'.tasks _ (List.mem_of_getElem? hi')
          exact BlobStore.holds_of_backs (hback'.snapshot hsnapshot)
        obtain ⟨hstage, hpart'⟩ := advance_part network hpart ha hc hcall htask hholds
        simp only [shown, hsome, if_pos hcall]
        show Isolated mine (c'.act X network (.step _)) _
        simp only [Traffic.act, hi']
        refine ⟨hpart', ?_⟩
        rw [tasksOf_set hi hcall, ← htasks, ← hstage]
      · have hnot : call.concerns mine = false := Bool.not_eq_true _ ▸ hcall
        simp only [shown, hsome, if_neg hcall]
        exact ⟨advance_aside network hpart hnot htask,
          htasks.trans (tasksOf_set_of_not hi hnot).symm⟩

/-- **The run of what concerns the sessions** has all that concerns them. -/
theorem Isolated.run (h : c'.Isolated mine c) (hinv : Inv X c) (hinv' : Inv X c')
    (hback : Backed X network c) (hback' : Backed X network c') (actions : List Action)
    (hc : (c.run X network actions).platform.blobs.NoCollision X) :
    (c'.run X network (concerning mine (c.tasks.map Task.call) actions)).Isolated mine
      (c.run X network actions) := by
  induction actions generalizing c c' with
  | nil => exact h
  | cons a actions ih =>
    have hstep := hinv.act network a
    have hwithin := (run_follows network hinv (a :: actions)).blobs.within
    have hisolated := h.act hinv hinv' hback' hback.addressed (hwithin.noCollision hc) a
    rw [concerning, run_append, ← act_calls]
    refine ih hisolated hstep.1 (hinv'.run _) (hback.move hinv hstep.2 (act_move X network c a))
      ?_ hc
    cases hshown : shown mine (c.tasks.map Task.call) a with
    | none => exact hback'
    | some a' => exact hback'.move hinv' (hinv'.act network a').2 (act_move X network c' a')

/-- What concerns the sessions, run apart. -/
theorem isolated_run (X : Extern) (network : Network) (mine : PsbtSessionId → Bool)
    (actions : List Action) (hc : (empty.run X network actions).platform.blobs.NoCollision X) :
    (empty.run X network (concerning mine [] actions)).Isolated mine
      (empty.run X network actions) :=
  Isolated.run ⟨⟨rfl, fun _ _ => rfl, fun _ he => he⟩, rfl⟩ (inv_empty X) (inv_empty X)
    (backed_empty X network) (backed_empty X network) actions hc

/-- The documents of the sessions read as they do in the whole run. -/
theorem fetchVerified_of_isolated {actions actions' : List Action}
    (h : (empty.run X network actions').Isolated mine (empty.run X network actions))
    (hc : (empty.run X network actions).platform.blobs.NoCollision X) {id : PsbtSessionId}
    (hid : mine id = true) {s : PsbtSession}
    (hs : (empty.run X network actions).platform.sessions.findById id = .ok s) {hash : PsbtHash}
    (hmem : hash ∈ s.documentHashes) :
    (empty.run X network actions').platform.blobs.fetchVerified X hash =
      (empty.run X network actions).platform.blobs.fetchVerified X hash := by
  rw [← PsbtSessions.findById_congr (h.platform.sessions id hid)] at hs
  have hrow := (inv_run X network actions').sessions.row hs
  exact h.platform.within.fetchVerified (backed_run X network actions).addressed hc
    hrow.grammatical.loaded.hydrates
    (BlobStore.holds_of_backs ((backed_run X network actions').rows id s hrow)) hash hmem

end Traffic

open Traffic in
/-- **Sessions do not interfere.** Of two runs that do the same to the wallets and to some sessions,
and anything to all others: the wallets are the same; these sessions have the same logs and the same
documents; and the calls on them and on wallets are as far and gave the same answers. -/
theorem sessions_isolated (X : Extern) (network : Network) (mine : PsbtSessionId → Bool)
    (actions actions' : List Traffic.Action)
    (hsame : concerning mine [] actions' = concerning mine [] actions)
    (hc : (empty.run X network actions).platform.blobs.NoCollision X)
    (hc' : (empty.run X network actions').platform.blobs.NoCollision X) :
    (empty.run X network actions').platform.wallets =
        (empty.run X network actions).platform.wallets ∧
      (empty.run X network actions').tasksOf mine = (empty.run X network actions).tasksOf mine ∧
      ∀ id, mine id = true →
        (empty.run X network actions').platform.sessions.find? id =
          (empty.run X network actions).platform.sessions.find? id ∧
        ∀ s, (empty.run X network actions).platform.sessions.findById id = .ok s →
          ∀ hash ∈ s.documentHashes,
            (empty.run X network actions').platform.blobs.fetchVerified X hash =
              (empty.run X network actions).platform.blobs.fetchVerified X hash := by
  have h := isolated_run X network mine actions hc
  have h' := isolated_run X network mine actions' hc'
  rw [hsame] at h'
  refine ⟨h'.platform.wallets.symm.trans h.platform.wallets, h'.tasks.symm.trans h.tasks,
    fun id hid => ?_⟩
  have hfind := (h'.platform.sessions id hid).symm.trans (h.platform.sessions id hid)
  refine ⟨hfind, fun s hs hash hmem => ?_⟩
  rw [← fetchVerified_of_isolated h hc hid hs hmem]
  rw [← PsbtSessions.findById_congr hfind] at hs
  exact (fetchVerified_of_isolated h' hc' hid hs hmem).symm

/-- `Extern.Sample.racing` with another spend of the wallet, proposed and cancelled in between. -/
def Extern.Sample.crowded : List Traffic.Action :=
  [.register ⟨0⟩ 1 [⟨0⟩], .call (.wallet ⟨0⟩ (.addKeystore (key 1) ⟨0⟩)), .step 0,
    .call (.proposeSpend ⟨1⟩ ⟨0⟩ ⟨0⟩ PsbtSession.soloSpend),
    .call (.proposeSpend ⟨0⟩ ⟨0⟩ ⟨0⟩ PsbtSession.soloSpend), .step 1, .step 2,
    .call (.session ⟨0⟩ (.runPsbtCreation fun _ _ => .ok [coin 1 [10]])),
    .call (.session ⟨1⟩ (.cancel ⟨0⟩ "other")), .step 3, .step 4, .step 3, .step 4,
    .call (.session ⟨0⟩ (.submitSignedPsbt ⟨0⟩ [1])),
    .call (.session ⟨0⟩ (.submitSignedPsbt ⟨0⟩ [1])), .step 5, .step 6, .step 6, .step 5]

open Extern.Sample in
theorem sessions_isolated_crowded :
    (Traffic.empty.run (.sample [soloUnsigned, soloSigned true]) .bitcoin
        crowded).platform.sessions.find? ⟨0⟩ = some soloCollected.log ∧
      (Traffic.empty.run (.sample [soloUnsigned, soloSigned true]) .bitcoin
        crowded).platform.sessions.ids = [⟨1⟩, ⟨0⟩] := by
  obtain ⟨-, -, h⟩ := sessions_isolated (.sample [soloUnsigned, soloSigned true]) .bitcoin
    (fun id => decide (id = ⟨0⟩)) racing crowded rfl (by decide +kernel) (by decide +kernel)
  refine ⟨(h ⟨0⟩ rfl).1.trans ?_, ?_⟩ <;> decide +kernel

end Kota
