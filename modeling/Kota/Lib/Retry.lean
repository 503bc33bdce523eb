import Kota.Lib.EventLog

/-!
# Commands that may be repeated

An aggregate answers a command and leaves a state behind. Its caller may repeat a call, at once or
after anything else has happened, and the aggregate may be loaded from its log in between.

* `Safe`: a call that does not execute changes nothing, one that does extends the log, and its
  repetition finds the work done.
* `StepsOr`: a call takes a step or changes nothing, which makes it safe (`StepsOr.safe`).
* `Reached` are the states of a run of commands and reloads in which no barred command executes.
* `Remembered`: once `c` has executed, `c'` finds its work done in every state reached from there.

Rules: `Reached.keeps`, what executions and reloads keep holds in every state reached;
`Reached.extends_log`, a log is only ever extended; `remembered_of_logged`, a guard that looks for
an event anywhere in the log remembers it.
-/

namespace Retry

open EventLog

variable {σ γ ε α : Type}

/-- The call executed. -/
def Executes (apply : σ → γ → Except ε (Idempotent Unit) × σ) (s : σ) (c : γ) : Prop :=
  (apply s c).1 = .ok (.executed ())

/-- The call found its work done. -/
def AlreadyApplied (apply : σ → γ → Except ε (Idempotent Unit) × σ) (s : σ) (c : γ) : Prop :=
  (apply s c).1 = .ok .alreadyApplied

/-- A call that is atomic, and safe to repeat at once. -/
structure Safe (apply : σ → γ → Except ε (Idempotent Unit) × σ) (log : σ → List α) (s : σ)
    (c : γ) : Prop where
  failed : ∀ e, (apply s c).1 = .error e → (apply s c).2 = s
  applied : AlreadyApplied apply s c → (apply s c).2 = s
  extended : Executes apply s c → ∃ es, es ≠ [] ∧ log (apply s c).2 = log s ++ es
  repeated : Executes apply s c → AlreadyApplied apply (apply s c).2 c

/-- The states of a run from `s`: any commands, none of the barred ones executing, and any
reloads. -/
inductive Reached (apply : σ → γ → Except ε (Idempotent Unit) × σ) (reloads : σ → σ → Prop)
    (barred : γ → Prop) (s : σ) : σ → Prop
  | refl : Reached apply reloads barred s s
  | command {s' : σ} (c : γ) (reached : Reached apply reloads barred s s')
      (allowed : barred c → ¬ Executes apply s' c) : Reached apply reloads barred s (apply s' c).2
  | reload {s' s'' : σ} (reached : Reached apply reloads barred s s') (loaded : reloads s' s'') :
      Reached apply reloads barred s s''

/-- Once `c` has executed, `c'` finds its work done in every state reached from there. -/
def Remembered (apply : σ → γ → Except ε (Idempotent Unit) × σ) (reloads : σ → σ → Prop)
    (barred : γ → Prop) (c c' : γ) : Prop :=
  ∀ s s', Executes apply s c → Reached apply reloads barred (apply s c).2 s' →
    AlreadyApplied apply s' c'

variable {apply : σ → γ → Except ε (Idempotent Unit) × σ} {reloads : σ → σ → Prop}
variable {barred : γ → Prop} {log : σ → List α} {s s' : σ} {c c' : γ}

/-- `apply` takes a step of `step` and records it, or changes nothing. -/
def StepsOr {δ : Type} (apply : σ → γ → Except ε (Idempotent Unit) × σ) (step : σ → γ → δ → Prop)
    (record : σ → δ → σ) (s : σ) (c : γ) : Prop :=
  (∃ e, step s c e ∧ apply s c = (.ok (.executed ()), record s e)) ∨
    (apply s c).1 ≠ .ok (.executed ()) ∧ (apply s c).2 = s

section Steps

variable {δ : Type} {step : σ → γ → δ → Prop} {record : σ → δ → σ}

/-- The step of a call that executed. -/
theorem StepsOr.step_of_executes (h : StepsOr apply step record s c) (hx : Executes apply s c) :
    ∃ e, step s c e ∧ (apply s c).2 = record s e := by
  rcases h with ⟨e, hs, he⟩ | ⟨hne, -⟩
  · exact ⟨e, hs, congrArg Prod.snd he⟩
  · exact absurd hx hne

theorem StepsOr.unchanged (h : StepsOr apply step record s c) (hx : ¬ Executes apply s c) :
    (apply s c).2 = s := by
  rcases h with ⟨e, -, he⟩ | ⟨-, heq⟩
  · exact absurd (congrArg Prod.fst he) hx
  · exact heq

/-- **A call is safe** when its step extends the log and is recognised the next time. -/
theorem StepsOr.safe (h : StepsOr apply step record s c)
    (hlog : ∀ e, step s c e → ∃ es, es ≠ [] ∧ log (record s e) = log s ++ es)
    (hrepeated : ∀ e, step s c e → AlreadyApplied apply (record s e) c) :
    Safe apply log s c where
  failed e he := h.unchanged fun hx => absurd (he.symm.trans hx) (by simp)
  applied ha := h.unchanged fun hx => absurd (Eq.trans ha.symm hx) (by simp)
  extended hx := by
    obtain ⟨e, hs, he⟩ := h.step_of_executes hx
    rw [he]
    exact hlog e hs
  repeated hx := by
    obtain ⟨e, hs, he⟩ := h.step_of_executes hx
    rw [he]
    exact hrepeated e hs

end Steps

/-- **What executions and reloads keep, every run keeps.** -/
theorem Reached.keeps {P : σ → Prop} (h : Reached apply reloads barred s s') (hstart : P s)
    (hsafe : ∀ s c, ¬ Executes apply s c → (apply s c).2 = s)
    (hcommand : ∀ s c, P s → Executes apply s c → ¬ barred c → P (apply s c).2)
    (hreload : ∀ s s', P s → reloads s s' → P s') : P s' := by
  induction h with
  | refl => exact hstart
  | @command s' c _ allowed ih =>
    by_cases hx : Executes apply s' c
    · exact hcommand s' c ih hx fun hb => allowed hb hx
    · rw [hsafe s' c hx]
      exact ih
  | reload _ loaded ih => exact hreload _ _ ih loaded

/-- A call that did not execute failed, or found its work done. -/
theorem unchanged_of_safe (h : ∀ s c, Safe apply log s c) (s : σ) (c : γ)
    (hx : ¬ Executes apply s c) : (apply s c).2 = s := by
  cases hr : (apply s c).1 with
  | error e => exact (h s c).failed e hr
  | ok answer =>
    cases answer with
    | executed => exact absurd hr hx
    | alreadyApplied => exact (h s c).applied hr

/-- **A run only ever extends the log.** -/
theorem Reached.extends_log (h : Reached apply reloads barred s s')
    (hsafe : ∀ s c, Safe apply log s c) (hreload : ∀ s s', reloads s s' → log s' = log s) :
    ∃ es, log s' = log s ++ es := by
  refine h.keeps (P := fun s' => ∃ es, log s' = log s ++ es) ⟨[], (List.append_nil _).symm⟩
    (unchanged_of_safe hsafe) ?_ ?_
  · rintro s' c ⟨es, hlog⟩ hx -
    obtain ⟨es', -, hlog'⟩ := (hsafe s' c).extended hx
    exact ⟨es ++ es', by rw [hlog', hlog, List.append_assoc]⟩
  · rintro s' s'' ⟨es, hlog⟩ hr
    exact ⟨es, (hreload s' s'' hr).trans hlog⟩

/-- **A guard on the log is remembered.** `c` writes an event that `applied` recognises, and `c'`
is done wherever such an event is in the log. -/
theorem remembered_of_logged (applied : α → Bool) (hsafe : ∀ s c, Safe apply log s c)
    (hreload : ∀ s s', reloads s s' → log s' = log s)
    (hwrites : ∀ s, Executes apply s c → ∃ e ∈ log (apply s c).2, applied e = true)
    (hguard : ∀ s, (∃ e ∈ log s, applied e = true) → AlreadyApplied apply s c') :
    Remembered apply reloads barred c c' := by
  intro s s' hx hreached
  obtain ⟨es, hlog⟩ := hreached.extends_log hsafe hreload
  obtain ⟨e, he, happlied⟩ := hwrites s hx
  exact hguard s' ⟨e, hlog ▸ List.mem_append_left _ he, happlied⟩

end Retry
