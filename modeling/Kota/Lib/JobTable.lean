import Mathlib.Data.List.Basic

/-!
# Job tables

A table of jobs that run at least once. A queued job starts by loading a snapshot of what its key
names, does its work on the snapshot, and ends by writing back what the work left; the answer
completes it, or it is queued again. `start`, `perform` and `finish` are these three moves of the
job in position `i`, and other parties may act between any two of them.

* `Contract` says what holds of a job in each of its states. **`Contract.holds_finish`** and its
  siblings are what has to be shown for one move to keep it for the whole table.
* `Awaits ready` holds of a job that is queued, or runs on a snapshot that is `ready`. A job that
  awaits goes on to await until it completes (**`exists_awaits_finish`**): this is the argument
  that no wake-up is lost.
-/

namespace JobTable

variable {ι σ ω α β : Type}

/-! ## Jobs and their moves -/

inductive JobState (σ ω α : Type) where
  | queued
  | running (snapshot : σ) (work : Option ω)
  | complete (answer : α)
  deriving DecidableEq

structure Job (ι σ ω α : Type) where
  key : ι
  state : JobState σ ω α
  deriving DecidableEq

def spawn (jobs : List (Job ι σ ω α)) (key : ι) : List (Job ι σ ω α) := jobs ++ [⟨key, .queued⟩]

/-- The queued job in position `i` loads its snapshot; it stays queued when there is none. -/
def start (jobs : List (Job ι σ ω α)) (load : ι → Option σ) (i : Nat) : List (Job ι σ ω α) :=
  match jobs[i]? with
  | some ⟨key, .queued⟩ =>
    match load key with
    | some snapshot => jobs.set i ⟨key, .running snapshot none⟩
    | none => jobs
  | _ => jobs

/-- The job in position `i` does its work; the work also leaves something outside the table. -/
def perform (jobs : List (Job ι σ ω α)) (i : Nat) (outside : β) (f : σ → ω × β) :
    List (Job ι σ ω α) × β :=
  match jobs[i]? with
  | some ⟨key, .running snapshot none⟩ =>
    (jobs.set i ⟨key, .running snapshot (some (f snapshot).1)⟩, (f snapshot).2)
  | _ => (jobs, outside)

/-- What becomes of a job that gave this answer. -/
def settled (completes : α → Bool) (answer : α) : JobState σ ω α :=
  if completes answer then .complete answer else .queued

/-- The job in position `i` writes back what its work left, and its answer settles it. -/
def finish (jobs : List (Job ι σ ω α)) (i : Nat) (outside : β) (completes : α → Bool)
    (f : ω → α × β) : List (Job ι σ ω α) × β :=
  match jobs[i]? with
  | some ⟨key, .running _ (some work)⟩ =>
    (jobs.set i ⟨key, settled completes (f work).1⟩, (f work).2)
  | _ => (jobs, outside)

section Moves

variable {jobs : List (Job ι σ ω α)} {i : Nat}

theorem start_spec (jobs : List (Job ι σ ω α)) (load : ι → Option σ) (i : Nat) :
    start jobs load i = jobs ∨ ∃ key s, jobs[i]? = some ⟨key, .queued⟩ ∧ load key = some s ∧
      start jobs load i = jobs.set i ⟨key, .running s none⟩ := by
  unfold start
  split
  · rename_i key hjob
    split
    · rename_i s hload
      exact Or.inr ⟨key, s, hjob, hload, rfl⟩
    · exact Or.inl rfl
  · exact Or.inl rfl

theorem perform_spec (jobs : List (Job ι σ ω α)) (i : Nat) (outside : β) (f : σ → ω × β) :
    perform jobs i outside f = (jobs, outside) ∨
    ∃ key s, jobs[i]? = some ⟨key, .running s none⟩ ∧
      perform jobs i outside f = (jobs.set i ⟨key, .running s (some (f s).1)⟩, (f s).2) := by
  unfold perform
  split
  · rename_i key s hjob
    exact Or.inr ⟨key, s, hjob, rfl⟩
  · exact Or.inl rfl

theorem finish_spec (jobs : List (Job ι σ ω α)) (i : Nat) (outside : β) (completes : α → Bool)
    (f : ω → α × β) :
    finish jobs i outside completes f = (jobs, outside) ∨
    ∃ key s w, jobs[i]? = some ⟨key, .running s (some w)⟩ ∧
      finish jobs i outside completes f =
        (jobs.set i ⟨key, settled completes (f w).1⟩, (f w).2) := by
  unfold finish
  split
  · rename_i key s w hjob
    exact Or.inr ⟨key, s, w, hjob, rfl⟩
  · exact Or.inl rfl

/-! ## One position changes -/

theorem forall_set {P : Job ι σ ω α → Prop} (h : ∀ job ∈ jobs, P job) {new : Job ι σ ω α}
    (hnew : P new) : ∀ job ∈ jobs.set i new, P job := by
  intro job hjob
  rcases List.mem_or_eq_of_mem_set hjob with hjob | rfl
  · exact h job hjob
  · exact hnew

/-- What some job satisfies, some job still does when the one that changed does if it did. -/
theorem exists_set {P : Job ι σ ω α → Prop} (h : ∃ job ∈ jobs, P job) {old new : Job ι σ ω α}
    (hold : jobs[i]? = some old) (hnew : P old → P new) : ∃ job ∈ jobs.set i new, P job := by
  obtain ⟨job, hjob, hP⟩ := h
  obtain ⟨k, hk⟩ := List.mem_iff_getElem?.mp hjob
  by_cases hki : k = i
  · subst hki
    obtain rfl := Option.some.inj (hold.symm.trans hk)
    obtain ⟨hlt, -⟩ := List.getElem?_eq_some_iff.mp hold
    exact ⟨new, List.mem_set hlt new, hnew hP⟩
  · refine ⟨job, List.mem_iff_getElem?.mpr ⟨k, ?_⟩, hP⟩
    rw [List.getElem?_set_ne (Ne.symm hki)]
    exact hk

theorem map_key_set {old new : Job ι σ ω α} (hold : jobs[i]? = some old) (hkey : new.key = old.key) :
    (jobs.set i new).map Job.key = jobs.map Job.key := by
  refine List.ext_getElem? fun k => ?_
  rw [List.getElem?_map, List.getElem?_map, List.getElem?_set]
  split
  · rename_i hik
    subst hik
    obtain ⟨hlt, -⟩ := List.getElem?_eq_some_iff.mp hold
    rw [if_pos hlt, hold, Option.map_some, Option.map_some, hkey]
  · rfl

@[simp] theorem map_key_start (jobs : List (Job ι σ ω α)) (load : ι → Option σ) (i : Nat) :
    (start jobs load i).map Job.key = jobs.map Job.key := by
  rcases start_spec jobs load i with heq | ⟨key, s, hjob, -, heq⟩
  · rw [heq]
  · rw [heq]
    exact map_key_set hjob rfl

@[simp] theorem map_key_perform (jobs : List (Job ι σ ω α)) (i : Nat) (outside : β)
    (f : σ → ω × β) : (perform jobs i outside f).1.map Job.key = jobs.map Job.key := by
  rcases perform_spec jobs i outside f with heq | ⟨key, s, hjob, heq⟩
  · rw [heq]
  · rw [heq]
    exact map_key_set hjob rfl

@[simp] theorem map_key_finish (jobs : List (Job ι σ ω α)) (i : Nat) (outside : β)
    (completes : α → Bool) (f : ω → α × β) :
    (finish jobs i outside completes f).1.map Job.key = jobs.map Job.key := by
  rcases finish_spec jobs i outside completes f with heq | ⟨key, s, w, hjob, heq⟩
  · rw [heq]
  · rw [heq]
    exact map_key_set hjob rfl

@[simp] theorem map_key_spawn (jobs : List (Job ι σ ω α)) (key : ι) :
    (spawn jobs key).map Job.key = jobs.map Job.key ++ [key] := by
  simp [spawn]

theorem exists_spawn {P : Job ι σ ω α → Prop} (h : ∃ job ∈ jobs, P job) (key : ι) :
    ∃ job ∈ spawn jobs key, P job := by
  obtain ⟨job, hjob, hP⟩ := h
  exact ⟨job, List.mem_append_left _ hjob, hP⟩

theorem mem_spawn (jobs : List (Job ι σ ω α)) (key : ι) : ⟨key, .queued⟩ ∈ spawn jobs key :=
  List.mem_append_right _ List.mem_cons_self

end Moves

/-! ## What holds of a job -/

/-- What holds of a job: of its key, of a snapshot it loaded, of what its work made of that
snapshot, and of an answer that completed it. -/
structure Contract (ι σ ω α : Type) where
  spawned : ι → Prop
  loaded : ι → σ → Prop
  worked : σ → ω → Prop
  completed : ι → α → Prop

namespace Contract

def Holds (C : Contract ι σ ω α) (job : Job ι σ ω α) : Prop :=
  C.spawned job.key ∧
  match job.state with
  | .queued => True
  | .running s work => C.loaded job.key s ∧ ∀ w, work = some w → C.worked s w
  | .complete answer => C.completed job.key answer

/-- The contract `C'` asks for nothing that `C` does not give. -/
structure Weaker (C' C : Contract ι σ ω α) : Prop where
  spawned : ∀ key, C.spawned key → C'.spawned key
  loaded : ∀ key s, C.loaded key s → C'.loaded key s
  worked : ∀ s w, C.worked s w → C'.worked s w
  completed : ∀ key a, C.completed key a → C'.completed key a

variable {C C' : Contract ι σ ω α} {jobs : List (Job ι σ ω α)} {i : Nat}

theorem Holds.mono {job : Job ι σ ω α} (h : C.Holds job) (hw : C'.Weaker C) : C'.Holds job := by
  obtain ⟨key, state⟩ := job
  obtain ⟨hkey, hstate⟩ := h
  refine ⟨hw.spawned _ hkey, ?_⟩
  cases state with
  | queued => exact trivial
  | running s work =>
    obtain ⟨hs, hwork⟩ := hstate
    exact ⟨hw.loaded _ _ hs, fun w hw' => hw.worked _ _ (hwork w hw')⟩
  | complete answer => exact hw.completed _ _ hstate

theorem holds_spawn (h : ∀ job ∈ jobs, C.Holds job) {key : ι} (hkey : C.spawned key) :
    ∀ job ∈ spawn jobs key, C.Holds job := by
  intro job hjob
  rcases List.mem_append.mp hjob with hjob | hjob
  · exact h job hjob
  · obtain rfl := List.mem_singleton.mp hjob
    exact ⟨hkey, trivial⟩

theorem holds_start (h : ∀ job ∈ jobs, C.Holds job) {load : ι → Option σ}
    (hload : ∀ key s, C.spawned key → load key = some s → C.loaded key s) :
    ∀ job ∈ start jobs load i, C.Holds job := by
  rcases start_spec jobs load i with heq | ⟨key, s, hjob, hs, heq⟩
  · rw [heq]
    exact h
  · rw [heq]
    obtain ⟨hkey, -⟩ := h _ (List.mem_of_getElem? hjob)
    exact forall_set h ⟨hkey, hload key s hkey hs, fun w hw => absurd hw (by simp)⟩

theorem holds_perform (h : ∀ job ∈ jobs, C.Holds job) {outside : β} {f : σ → ω × β}
    (hwork : ∀ key s, C.loaded key s → C.worked s (f s).1) :
    ∀ job ∈ (perform jobs i outside f).1, C.Holds job := by
  rcases perform_spec jobs i outside f with heq | ⟨key, s, hjob, heq⟩
  · rw [heq]
    exact h
  · rw [heq]
    obtain ⟨hkey, hs, -⟩ := h _ (List.mem_of_getElem? hjob)
    refine forall_set h ⟨hkey, hs, fun w hw => ?_⟩
    obtain rfl := Option.some.inj hw
    exact hwork key s hs

/-- **Writing back keeps the contract** when it keeps it for the other jobs, and what completes
the job is what the contract says. -/
theorem holds_finish (h : ∀ job ∈ jobs, C.Holds job) (hw : C'.Weaker C) {outside : β}
    {completes : α → Bool} {f : ω → α × β}
    (hdone : ∀ key s w, jobs[i]? = some ⟨key, .running s (some w)⟩ → C.loaded key s →
      C.worked s w → completes (f w).1 = true → C'.completed key (f w).1) :
    ∀ job ∈ (finish jobs i outside completes f).1, C'.Holds job := by
  have h' : ∀ job ∈ jobs, C'.Holds job := fun job hjob => (h job hjob).mono hw
  rcases finish_spec jobs i outside completes f with heq | ⟨key, s, w, hjob, heq⟩
  · rw [heq]
    exact h'
  · rw [heq]
    obtain ⟨hkey, hs, hwork⟩ := h _ (List.mem_of_getElem? hjob)
    refine forall_set h' ⟨hw.spawned _ hkey, ?_⟩
    unfold settled
    by_cases hc : completes (f w).1 = true
    · rw [if_pos hc]
      exact hdone key s w hjob hs (hwork w rfl) hc
    · rw [if_neg hc]
      exact trivial

end Contract

/-! ## Jobs that will still look -/

/-- The job has yet to load its snapshot, or has loaded one that is `ready`. -/
def Awaits (ready : σ → Prop) (job : Job ι σ ω α) : Prop :=
  job.state = .queued ∨ ∃ s work, job.state = .running s work ∧ ready s

section Awaiting

variable {jobs : List (Job ι σ ω α)} {ready : σ → Prop} {key : ι} {i : Nat}

theorem exists_awaits_start (h : ∃ job ∈ jobs, job.key = key ∧ Awaits ready job)
    {load : ι → Option σ} (hload : ∀ s, load key = some s → ready s) :
    ∃ job ∈ start jobs load i, job.key = key ∧ Awaits ready job := by
  rcases start_spec jobs load i with heq | ⟨key', s, hjob, hs, heq⟩
  · rw [heq]
    exact h
  · rw [heq]
    refine exists_set h hjob ?_
    rintro ⟨rfl, -⟩
    exact ⟨rfl, Or.inr ⟨s, none, rfl, hload s hs⟩⟩

theorem exists_awaits_perform (h : ∃ job ∈ jobs, job.key = key ∧ Awaits ready job) {outside : β}
    {f : σ → ω × β} :
    ∃ job ∈ (perform jobs i outside f).1, job.key = key ∧ Awaits ready job := by
  rcases perform_spec jobs i outside f with heq | ⟨key', s, hjob, heq⟩
  · rw [heq]
    exact h
  · rw [heq]
    refine exists_set h hjob ?_
    rintro ⟨rfl, hq | ⟨s', work, hrun, hready⟩⟩
    · exact absurd hq (by simp)
    · obtain ⟨rfl, rfl⟩ := JobState.running.inj hrun
      exact ⟨rfl, Or.inr ⟨_, _, rfl, hready⟩⟩

/-- **A job that awaits goes on to await**, unless it completes on a snapshot that is ready. -/
theorem exists_awaits_finish (h : ∃ job ∈ jobs, job.key = key ∧ Awaits ready job) {outside : β}
    {completes : α → Bool} {f : ω → α × β}
    (hretry : ∀ s w, jobs[i]? = some ⟨key, .running s (some w)⟩ → ready s →
      completes (f w).1 = false) :
    ∃ job ∈ (finish jobs i outside completes f).1, job.key = key ∧ Awaits ready job := by
  rcases finish_spec jobs i outside completes f with heq | ⟨key', s, w, hjob, heq⟩
  · rw [heq]
    exact h
  · rw [heq]
    refine exists_set h hjob ?_
    rintro ⟨rfl, hq | ⟨s', work, hrun, hready⟩⟩
    · exact absurd hq (by simp)
    · obtain ⟨rfl, rfl⟩ := JobState.running.inj hrun
      refine ⟨rfl, Or.inl ?_⟩
      show settled completes (f w).1 = .queued
      unfold settled
      rw [hretry s w hjob hready]
      exact if_neg (by simp)

end Awaiting

/-! ## Jobs that are done -/

section Done

variable {jobs : List (Job ι σ ω α)} {job : Job ι σ ω α} {answer : α}
  (hc : job.state = .complete answer)
include hc

theorem mem_set_of_complete (hjob : job ∈ jobs) {i : Nat} {old new : Job ι σ ω α}
    (hold : jobs[i]? = some old) (hrunning : ∀ answer, old.state ≠ .complete answer) :
    job ∈ jobs.set i new := by
  have hset : ∃ job' ∈ jobs.set i new, job' = job := by
    refine exists_set (P := fun job' => job' = job) ⟨job, hjob, rfl⟩ hold ?_
    rintro rfl
    exact absurd hc (hrunning answer)
  obtain ⟨_, hmem, rfl⟩ := hset
  exact hmem

/-- A job that is complete is not started again. -/
theorem mem_start_of_complete (hjob : job ∈ jobs) (load : ι → Option σ) (i : Nat) :
    job ∈ start jobs load i := by
  rcases start_spec jobs load i with heq | ⟨key, s, hold, -, heq⟩
  · rw [heq]
    exact hjob
  · rw [heq]
    exact mem_set_of_complete hc hjob hold fun _ => by simp

theorem mem_perform_of_complete (hjob : job ∈ jobs) (i : Nat) (outside : β) (f : σ → ω × β) :
    job ∈ (perform jobs i outside f).1 := by
  rcases perform_spec jobs i outside f with heq | ⟨key, s, hold, heq⟩
  · rw [heq]
    exact hjob
  · rw [heq]
    exact mem_set_of_complete hc hjob hold fun _ => by simp

theorem mem_finish_of_complete (hjob : job ∈ jobs) (i : Nat) (outside : β)
    (completes : α → Bool) (f : ω → α × β) : job ∈ (finish jobs i outside completes f).1 := by
  rcases finish_spec jobs i outside completes f with heq | ⟨key, s, w, hold, heq⟩
  · rw [heq]
    exact hjob
  · rw [heq]
    exact mem_set_of_complete hc hjob hold fun _ => by simp

end Done

end JobTable
