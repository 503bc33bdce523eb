import Mathlib.Data.List.Basic

/-!
# Waking pollers

Model of the trigger of `job_setup.sql`. The table `job_executions` has a row for every job that is
not finished; pollers take the pending rows that are due, and between two looks they sleep until
they are notified.

* `notifyJobEvent` is the trigger, `JobExecutions.exec` a statement with the triggers it runs.
* **`no_wake_up_lost`**: a statement wakes the pollers of a job type exactly when a row of the type
  becomes eligible or leaves its queue. So a poller who has heard nothing of its type finds nothing
  new, and one who waits for a job and has not heard of its end finds its row.

Statements are those of the job runtime, which is not part of the source. What is assumed of them is
what the trigger's comments say: a row waits under a time, and taking it clears the time.
-/

namespace Kota

/-! ## The table and its trigger -/

inductive JobExecutionState where
  | pending
  | running
  deriving DecidableEq, Repr

/-- A row of `job_executions`, with the columns that the trigger reads. -/
structure JobExecution where
  id : Nat
  jobType : String
  queueId : Option String
  state : JobExecutionState
  executeAt : Option Int
  deriving DecidableEq, Repr

abbrev JobExecutions := List JobExecution

def PSBT_CREATION_JOB : String := "coordination.psbt-creation"

def FINALIZATION_JOB : String := "coordination.finalization"

/-- What is sent to the channel `job_events`. -/
inductive JobEvent where
  | executionReady (jobType : String)
  | jobTerminal (jobId : Nat)
  deriving DecidableEq, Repr

inductive RowChange where
  | insert (new : JobExecution)
  | update (old new : JobExecution)
  | delete (old : JobExecution)

/-- `notify_job_event`, run after each change of a row. -/
def notifyJobEvent : RowChange → List JobEvent
  | .insert new => [.executionReady new.jobType]
  | .update old new =>
    if new.state = .pending ∧ new.executeAt ≠ old.executeAt then [.executionReady new.jobType]
    else []
  | .delete old =>
    .jobTerminal old.id ::
      if old.queueId ≠ none then [.executionReady old.jobType] else []

/-- A change of one row. An update sets the state and the time; the other columns stay. -/
inductive JobStatement where
  | insert (row : JobExecution)
  | update (id : Nat) (state : JobExecutionState) (executeAt : Option Int)
  | delete (id : Nat)

namespace JobExecutions

def row? (t : JobExecutions) (id : Nat) : Option JobExecution := t.find? fun row => row.id == id

/-- A statement: the table after it, and what its trigger sends. A second row under an id is turned
down, and where there is no row nothing is done. -/
def exec (t : JobExecutions) : JobStatement → JobExecutions × List JobEvent
  | .insert row =>
    if (t.row? row.id).isSome then (t, []) else (t ++ [row], notifyJobEvent (.insert row))
  | .update id state executeAt =>
    match t.row? id with
    | none => (t, [])
    | some old =>
      (t.map fun row => if row.id = id then { row with state, executeAt } else row,
        notifyJobEvent (.update old { old with state, executeAt }))
  | .delete id =>
    match t.row? id with
    | none => (t, [])
    | some old => (t.filter fun row => row.id ≠ id, notifyJobEvent (.delete old))

/-- Statements one after another, and all that is sent. -/
def run : JobExecutions → List JobStatement → JobExecutions × List JobEvent
  | t, [] => (t, [])
  | t, s :: rest => ((run (t.exec s).1 rest).1, (t.exec s).2 ++ (run (t.exec s).1 rest).2)

end JobExecutions

/-! ## What pollers look for -/

/-- A pending row has a time, a running one has none. -/
def JobExecution.Scheduled (row : JobExecution) : Prop :=
  row.state = .pending ↔ row.executeAt ≠ none

/-- What the runtime does: a job is inserted pending, and rows stay scheduled. -/
def JobStatement.Disciplined : JobStatement → Prop
  | .insert row => row.state = .pending ∧ row.executeAt ≠ none
  | .update _ state executeAt => state = .pending ↔ executeAt ≠ none
  | .delete _ => True

namespace JobExecutions

/-- A job of the type is pending under the time. -/
def Eligible (t : JobExecutions) (jobType : String) (id : Nat) (time : Int) : Prop :=
  ∃ row ∈ t.row? id, row.jobType = jobType ∧ row.state = .pending ∧ row.executeAt = some time

/-- A job of the type stands in the queue. -/
def Queued (t : JobExecutions) (jobType : String) (id : Nat) (queue : String) : Prop :=
  ∃ row ∈ t.row? id, row.jobType = jobType ∧ row.queueId = some queue

/-- There is something new for a poller of the type: a job that was not eligible under its time, or
a queue that a job has left. -/
def Gains (jobType : String) (t t' : JobExecutions) : Prop :=
  (∃ id time, t'.Eligible jobType id time ∧ ¬ t.Eligible jobType id time) ∨
    ∃ id queue, t.Queued jobType id queue ∧ ¬ t'.Queued jobType id queue

def Inv (t : JobExecutions) : Prop := ∀ id, ∀ row ∈ t.row? id, row.Scheduled

/-! ## What a statement does -/

variable {t t' t'' : JobExecutions} {s : JobStatement} {jobType : String}

theorem row?_append {row : JobExecution} (h : t.row? row.id = none) (id : Nat) :
    row? (t ++ [row]) id = if id = row.id then some row else t.row? id := by
  unfold row? at h ⊢
  rw [List.find?_append]
  by_cases hid : id = row.id
  · rw [if_pos hid, hid, h, Option.none_or, List.find?_cons_of_pos (by simp)]
  · rw [if_neg hid, List.find?_cons_of_neg (by simpa using Ne.symm hid), List.find?_nil,
      Option.or_none]

theorem row?_map (t : JobExecutions) {f : JobExecution → JobExecution} (hf : ∀ row, (f row).id = row.id)
    (id : Nat) : row? (t.map f) id = (t.row? id).map f := by
  unfold row?
  rw [List.find?_map]
  congr 2
  funext row
  exact congrArg (· == id) (hf row)

theorem row?_filter (t : JobExecutions) (id id' : Nat) :
    row? (t.filter fun row => row.id ≠ id) id' = if id' = id then none else t.row? id' := by
  unfold row?
  rw [List.find?_filter]
  by_cases hid : id' = id
  · rw [if_pos hid, List.find?_eq_none]
    intro row _ h
    have hrow : row.id ≠ id ∧ row.id = id' := by simpa using h
    exact hrow.1 (hrow.2.trans hid)
  · rw [if_neg hid]
    congr 1
    funext row
    by_cases hrow : row.id = id'
    · simp [hrow, hid]
    · simp [hrow]

theorem id_of_row? {id : Nat} {row : JobExecution} (h : t.row? id = some row) : row.id = id := by
  have hfound := List.find?_some h
  exact beq_iff_eq.mp hfound

/-- A statement does nothing, or changes one row and sends what the trigger sends for it. -/
theorem exec_cases (t : JobExecutions) (s : JobStatement) :
    t.exec s = (t, []) ∨
    (∃ row, s = .insert row ∧ t.row? row.id = none ∧
      (∀ id, (t.exec s).1.row? id = if id = row.id then some row else t.row? id) ∧
      (t.exec s).2 = notifyJobEvent (.insert row)) ∨
    (∃ id state executeAt old, s = .update id state executeAt ∧ t.row? id = some old ∧
      (∀ id', (t.exec s).1.row? id' =
        if id' = id then some { old with state, executeAt } else t.row? id') ∧
      (t.exec s).2 = notifyJobEvent (.update old { old with state, executeAt })) ∨
    ∃ id old, s = .delete id ∧ t.row? id = some old ∧
      (∀ id', (t.exec s).1.row? id' = if id' = id then none else t.row? id') ∧
      (t.exec s).2 = notifyJobEvent (.delete old) := by
  cases s with
  | insert row =>
    cases hrow : t.row? row.id with
    | some old => exact Or.inl (by simp [exec, hrow])
    | none =>
      have hexec : t.exec (.insert row) = (t ++ [row], notifyJobEvent (.insert row)) := by
        simp [exec, hrow]
      rw [hexec]
      exact Or.inr (Or.inl ⟨row, rfl, hrow, row?_append hrow, rfl⟩)
  | update id state executeAt =>
    cases hrow : t.row? id with
    | none => exact Or.inl (by simp [exec, hrow])
    | some old =>
      have hexec : t.exec (.update id state executeAt) =
          (t.map fun row => if row.id = id then { row with state, executeAt } else row,
            notifyJobEvent (.update old { old with state, executeAt })) := by
        simp [exec, hrow]
      rw [hexec]
      refine Or.inr (Or.inr (Or.inl ⟨id, state, executeAt, old, rfl, hrow, fun id' => ?_, rfl⟩))
      rw [row?_map t (fun row => by split <;> rfl)]
      by_cases hid : id' = id
      · rw [if_pos hid, hid, hrow, Option.map_some, if_pos (id_of_row? hrow)]
      · rw [if_neg hid]
        cases hrow' : t.row? id' with
        | none => rfl
        | some row => rw [Option.map_some, if_neg (fun h => hid ((id_of_row? hrow').symm.trans h))]
  | delete id =>
    cases hrow : t.row? id with
    | none => exact Or.inl (by simp [exec, hrow])
    | some old =>
      have hexec : t.exec (.delete id) =
          (t.filter fun row => row.id ≠ id, notifyJobEvent (.delete old)) := by
        simp [exec, hrow]
      rw [hexec]
      exact Or.inr (Or.inr (Or.inr ⟨id, old, rfl, hrow, row?_filter t id, rfl⟩))

/-! ## What a statement has for pollers -/

/-- When one row changes, it alone decides what there is to gain. -/
theorem gains_iff {id : Nat} {new : Option JobExecution}
    (h : ∀ id', t'.row? id' = if id' = id then new else t.row? id') :
    Gains jobType t t' ↔
      (∃ time, t'.Eligible jobType id time ∧ ¬ t.Eligible jobType id time) ∨
        ∃ queue, t.Queued jobType id queue ∧ ¬ t'.Queued jobType id queue := by
  have hother : ∀ id', id' ≠ id → t'.row? id' = t.row? id' := fun id' hid => by rw [h, if_neg hid]
  constructor
  · rintro (⟨id', time, hnew, hold⟩ | ⟨id', queue, hold, hnew⟩)
    · by_cases hid : id' = id
      · exact Or.inl ⟨time, hid ▸ hnew, hid ▸ hold⟩
      · unfold Eligible at hnew hold
        rw [hother id' hid] at hnew
        exact absurd hnew hold
    · by_cases hid : id' = id
      · exact Or.inr ⟨queue, hid ▸ hold, hid ▸ hnew⟩
      · unfold Queued at hnew hold
        rw [hother id' hid] at hnew
        exact absurd hold hnew
  · rintro (⟨time, hgain⟩ | ⟨queue, hgain⟩)
    · exact Or.inl ⟨id, time, hgain⟩
    · exact Or.inr ⟨id, queue, hgain⟩

theorem inv_exec (h : t.Inv) (hs : s.Disciplined) : (t.exec s).1.Inv := by
  rcases exec_cases t s with heq | ⟨row, rfl, -, hrow, -⟩ | ⟨id, state, executeAt, old, rfl, -, hrow, -⟩ |
    ⟨id, old, rfl, -, hrow, -⟩
  · rw [heq]
    exact h
  · intro id' row' hrow'
    rw [hrow] at hrow'
    split at hrow'
    · obtain rfl := Option.some.inj hrow'
      exact iff_of_true hs.1 hs.2
    · exact h id' row' hrow'
  · intro id' row' hrow'
    rw [hrow] at hrow'
    split at hrow'
    · obtain rfl := Option.some.inj hrow'
      exact hs
    · exact h id' row' hrow'
  · intro id' row' hrow'
    rw [hrow] at hrow'
    split at hrow'
    · exact absurd hrow' (by simp)
    · exact h id' row' hrow'

section Row

variable {id : Nat} {row : JobExecution}

theorem eligible_iff (h : t.row? id = some row) {time : Int} :
    t.Eligible jobType id time ↔
      row.jobType = jobType ∧ row.state = .pending ∧ row.executeAt = some time := by
  unfold Eligible
  rw [h]
  simp

theorem queued_iff (h : t.row? id = some row) {queue : String} :
    t.Queued jobType id queue ↔ row.jobType = jobType ∧ row.queueId = some queue := by
  unfold Queued
  rw [h]
  simp

theorem not_eligible (h : t.row? id = none) {time : Int} : ¬ t.Eligible jobType id time := by
  rintro ⟨row, hrow, -⟩
  rw [h] at hrow
  exact absurd hrow (by simp)

theorem not_queued (h : t.row? id = none) {queue : String} : ¬ t.Queued jobType id queue := by
  rintro ⟨row, hrow, -⟩
  rw [h] at hrow
  exact absurd hrow (by simp)

end Row

/-- **A statement wakes exactly the pollers who gain by it.** -/
theorem wakes_iff (h : t.Inv) (hs : s.Disciplined) :
    .executionReady jobType ∈ (t.exec s).2 ↔ Gains jobType t (t.exec s).1 := by
  rcases exec_cases t s with heq | ⟨row, rfl, hfree, hrow, hsent⟩ |
    ⟨id, state, executeAt, old, rfl, hold, hrow, hsent⟩ | ⟨id, old, rfl, hold, hrow, hsent⟩
  · rw [heq]
    refine iff_of_false List.not_mem_nil ?_
    rintro (⟨id, time, hnew, hold⟩ | ⟨id, queue, hold, hnew⟩)
    · exact hold hnew
    · exact hnew hold
  · -- a new job is eligible, and stood in no queue before
    have hnew : (t.exec (.insert row)).1.row? row.id = some row := by rw [hrow, if_pos rfl]
    rw [gains_iff hrow, hsent]
    simp only [eligible_iff hnew, notifyJobEvent, List.mem_singleton, JobEvent.executionReady.injEq]
    constructor
    · rintro rfl
      obtain ⟨time, htime⟩ := Option.ne_none_iff_exists'.mp hs.2
      exact Or.inl ⟨time, ⟨rfl, hs.1, htime⟩, not_eligible hfree⟩
    · rintro (⟨time, htime, -⟩ | ⟨queue, hqueue, -⟩)
      · exact htime.1.symm
      · exact absurd hqueue (not_queued hfree)
  · -- an update keeps the queue, and gives the job another time or none
    have hnew : (t.exec (.update id state executeAt)).1.row? id =
        some { old with state, executeAt } := by rw [hrow, if_pos rfl]
    rw [gains_iff hrow, hsent]
    simp only [eligible_iff hnew, eligible_iff hold, queued_iff hnew, queued_iff hold,
      notifyJobEvent]
    constructor
    · intro hmem
      split at hmem
      · rename_i hcond
        obtain rfl := JobEvent.executionReady.inj (List.mem_singleton.mp hmem)
        obtain ⟨time, htime⟩ := Option.ne_none_iff_exists'.mp (hs.mp hcond.1)
        refine Or.inl ⟨time, ⟨rfl, hcond.1, htime⟩, fun hwas => hcond.2 ?_⟩
        exact htime.trans hwas.2.2.symm
      · exact absurd hmem List.not_mem_nil
    · rintro (⟨time, ⟨htype, hstate, htime⟩, hwas⟩ | ⟨queue, hqueue, hnot⟩)
      · have hchanged : executeAt ≠ old.executeAt := by
          intro heq
          have hsome : old.executeAt = some time := heq.symm.trans htime
          exact hwas ⟨htype, (h id old hold).mpr (by simp [hsome]), hsome⟩
        rw [if_pos ⟨hstate, hchanged⟩, htype]
        exact List.mem_singleton_self _
      · exact absurd hqueue hnot
  · -- a job that ends is no longer eligible, and leaves its queue
    have hnew : (t.exec (.delete id)).1.row? id = none := by rw [hrow, if_pos rfl]
    rw [gains_iff hrow, hsent]
    simp only [queued_iff hold, notifyJobEvent, List.mem_cons, reduceCtorEq, false_or]
    constructor
    · intro hmem
      split at hmem
      · rename_i hqueued
        obtain rfl := JobEvent.executionReady.inj (List.mem_singleton.mp hmem)
        obtain ⟨queue, hqueue⟩ := Option.ne_none_iff_exists'.mp hqueued
        exact Or.inr ⟨queue, ⟨rfl, hqueue⟩, not_queued hnew⟩
      · exact absurd hmem List.not_mem_nil
    · rintro (⟨time, hgain, -⟩ | ⟨queue, ⟨htype, hqueue⟩, -⟩)
      · exact absurd hgain (not_eligible hnew)
      · rw [if_pos (by simp [hqueue]), htype]
        exact List.mem_singleton_self _

/-- The end of a job is told when its row goes, and only then. -/
theorem terminal_iff {id : Nat} :
    .jobTerminal id ∈ (t.exec s).2 ↔
      (t.row? id).isSome = true ∧ (t.exec s).1.row? id = none := by
  rcases exec_cases t s with heq | ⟨row, rfl, hfree, hrow, hsent⟩ |
    ⟨id', state, executeAt, old, rfl, hold, hrow, hsent⟩ | ⟨id', old, rfl, hold, hrow, hsent⟩
  · rw [heq]
    exact iff_of_false List.not_mem_nil fun ⟨hsome, hnone⟩ => by
      rw [hnone] at hsome
      exact absurd hsome (by simp)
  · rw [hsent, hrow]
    refine iff_of_false (by simp [notifyJobEvent]) fun ⟨hsome, hnone⟩ => ?_
    split at hnone
    · exact absurd hnone (by simp)
    · rw [hnone] at hsome
      exact absurd hsome (by simp)
  · rw [hsent, hrow]
    refine iff_of_false (fun hmem => ?_) fun ⟨hsome, hnone⟩ => ?_
    · unfold notifyJobEvent at hmem
      dsimp only at hmem
      split at hmem
      · exact absurd (List.mem_singleton.mp hmem) (by simp)
      · exact absurd hmem List.not_mem_nil
    · split at hnone
      · exact absurd hnone (by simp)
      · rw [hnone] at hsome
        exact absurd hsome (by simp)
  · rw [hsent, hrow]
    unfold notifyJobEvent
    dsimp only
    by_cases hid : id = id'
    · subst hid
      rw [if_pos rfl, hold, id_of_row? hold]
      simp
    · rw [if_neg hid, id_of_row? hold, List.mem_cons]
      refine iff_of_false (fun hmem => ?_) fun ⟨hsome, hnone⟩ => ?_
      · rcases hmem with hmem | hmem
        · exact hid (JobEvent.jobTerminal.inj hmem)
        · split at hmem
          · exact absurd (List.mem_singleton.mp hmem) (by simp)
          · exact absurd hmem List.not_mem_nil
      · rw [hnone] at hsome
        exact absurd hsome (by simp)

/-! ## Runs -/

variable (t') in
theorem Gains.cases (h : Gains jobType t t'') : Gains jobType t t' ∨ Gains jobType t' t'' := by
  rcases h with ⟨id, time, hnew, hold⟩ | ⟨id, queue, hold, hnew⟩
  · by_cases hmid : t'.Eligible jobType id time
    · exact Or.inl (Or.inl ⟨id, time, hmid, hold⟩)
    · exact Or.inr (Or.inl ⟨id, time, hnew, hmid⟩)
  · by_cases hmid : t'.Queued jobType id queue
    · exact Or.inr (Or.inr ⟨id, queue, hmid, hnew⟩)
    · exact Or.inl (Or.inr ⟨id, queue, hold, hmid⟩)

theorem inv_run (h : t.Inv) {statements : List JobStatement}
    (hs : ∀ s ∈ statements, s.Disciplined) : (t.run statements).1.Inv := by
  induction statements generalizing t with
  | nil => exact h
  | cons s rest ih =>
    exact ih (inv_exec h (hs s List.mem_cons_self)) fun s hmem => hs s (List.mem_cons_of_mem _ hmem)

/-- Who gains in a run is woken in it. -/
theorem woken_of_gains (h : t.Inv) {statements : List JobStatement}
    (hs : ∀ s ∈ statements, s.Disciplined) (hgains : Gains jobType t (t.run statements).1) :
    .executionReady jobType ∈ (t.run statements).2 := by
  induction statements generalizing t with
  | nil =>
    rcases hgains with ⟨id, time, hnew, hold⟩ | ⟨id, queue, hold, hnew⟩
    · exact absurd hnew hold
    · exact absurd hold hnew
  | cons s rest ih =>
    have hs' := hs s List.mem_cons_self
    rcases Gains.cases (t.exec s).1 hgains with hgains | hgains
    · exact List.mem_append_left _ ((wakes_iff h hs').mpr hgains)
    · exact List.mem_append_right _ (ih (inv_exec h hs')
        (fun s hmem => hs s (List.mem_cons_of_mem _ hmem)) hgains)

/-- The end of a job that is there is told before its row is gone. -/
theorem told_of_gone {id : Nat} {statements : List JobStatement} (hthere : (t.row? id).isSome = true)
    (hgone : (t.run statements).1.row? id = none) :
    .jobTerminal id ∈ (t.run statements).2 := by
  induction statements generalizing t with
  | nil =>
    rw [show (t.run []).1 = t from rfl] at hgone
    rw [hgone] at hthere
    exact absurd hthere (by simp)
  | cons s rest ih =>
    cases hnext : (t.exec s).1.row? id with
    | none => exact List.mem_append_left _ (terminal_iff.mpr ⟨hthere, hnext⟩)
    | some row => exact List.mem_append_right _ (ih (by rw [hnext]; rfl) hgone)

end JobExecutions

open JobExecutions in
/-- **No wake-up is lost.** After any statements of the runtime: the next one notifies the pollers of
a type exactly when there is something new for them, and those who wait for a job exactly when its
row goes. So whatever comes later, a poller that has heard nothing of its type since it looked has
gained nothing, and a job whose end was not told is in the table. -/
theorem no_wake_up_lost {before later : List JobStatement}
    (hbefore : ∀ s ∈ before, s.Disciplined) (hlater : ∀ s ∈ later, s.Disciplined) :
    (∀ s : JobStatement, s.Disciplined →
      (∀ jobType, .executionReady jobType ∈ ((run [] before).1.exec s).2 ↔
        Gains jobType (run [] before).1 ((run [] before).1.exec s).1) ∧
      ∀ id, .jobTerminal id ∈ ((run [] before).1.exec s).2 ↔
        ((run [] before).1.row? id).isSome = true ∧
          ((run [] before).1.exec s).1.row? id = none) ∧
    (∀ jobType, .executionReady jobType ∉ ((run [] before).1.run later).2 →
      ¬ Gains jobType (run [] before).1 ((run [] before).1.run later).1) ∧
    ∀ id, ((run [] before).1.row? id).isSome = true →
      .jobTerminal id ∉ ((run [] before).1.run later).2 →
        (((run [] before).1.run later).1.row? id).isSome = true := by
  have hinv : (run [] before).1.Inv := inv_run (fun id row hrow => absurd hrow (by simp [row?])) hbefore
  refine ⟨fun s hs => ⟨fun jobType => wakes_iff hinv hs, fun id => terminal_iff⟩,
    fun jobType hquiet hgains => hquiet (woken_of_gains hinv hlater hgains), fun id hthere htold => ?_⟩
  rw [Option.isSome_iff_ne_none]
  exact fun hgone => htold (told_of_gone hthere hgone)

/-- A job of either type, spawned. -/
def bothSpawned : List JobStatement :=
  [.insert ⟨1, PSBT_CREATION_JOB, none, .pending, some 0⟩,
    .insert ⟨2, FINALIZATION_JOB, none, .pending, some 0⟩]

open JobExecutions in
/-- A poller that takes a job wakes nobody, and a job that goes wakes no poller of the other type. -/
theorem no_wake_up_lost_taken :
    ¬ Gains PSBT_CREATION_JOB (run [] bothSpawned).1
      ((run [] bothSpawned).1.run [.update 1 .running none, .update 2 .running none,
        .delete 2]).1 :=
  (no_wake_up_lost (by simp [bothSpawned, JobStatement.Disciplined])
    (by simp [JobStatement.Disciplined])).2.1 PSBT_CREATION_JOB (by decide)

end Kota
