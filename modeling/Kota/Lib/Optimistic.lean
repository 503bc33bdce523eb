import Mathlib.Data.List.Basic
import Mathlib.Data.List.Nodup
import Mathlib.Data.List.Induction

/-!
# Optimistic updates of one log

Calls that load a log, compute on that copy what to append and append it only if the log did not
grow since. A call that has nothing to append succeeds without a write, whatever has become of the
log.

* `effect k log es` says that call `k`, alone on `log`, succeeds and appends `es`.
* `Serial` runs calls one after another.
* `Linearization` is an order of the calls that succeeded which, run one after another, leaves the
  log as it is. A call under way has its place in that order: the one at which it loaded. That is
  where it goes when it ends without a write (`Linearization.skip`); a call that writes goes to
  the end (`Linearization.append`).

`before j i` is what the order has to respect: call `j` was over when call `i` began.
-/

namespace Optimistic

variable {ι κ ε : Type}

/-! ## One after another -/

section Serial

variable (effect : κ → List ε → List ε → Prop)

/-- The calls, each alone, one after another, turn the first log into the second. -/
inductive Serial : List ε → List κ → List ε → Prop
  | nil (log : List ε) : Serial log [] log
  | cons {k : κ} {calls : List κ} {log es log' : List ε} (head : effect k log es)
      (tail : Serial (log ++ es) calls log') : Serial log (k :: calls) log'

variable {effect} {calls calls' : List κ} {log log' : List ε}

theorem Serial.append_iff :
    Serial effect log (calls ++ calls') log' ↔
      ∃ mid, Serial effect log calls mid ∧ Serial effect mid calls' log' := by
  induction calls generalizing log with
  | nil =>
    refine ⟨fun h => ⟨log, .nil log, h⟩, ?_⟩
    rintro ⟨mid, hnil, h⟩
    cases hnil
    exact h
  | cons k calls ih =>
    constructor
    · intro h
      cases h with
      | cons head tail =>
        obtain ⟨mid, hmid, h⟩ := ih.mp tail
        exact ⟨mid, .cons head hmid, h⟩
    · rintro ⟨mid, hmid, h⟩
      cases hmid with
      | cons head tail => exact .cons head (ih.mpr ⟨mid, tail, h⟩)

theorem Serial.single {k : κ} {es : List ε} (h : effect k log es) :
    Serial effect log [k] (log ++ es) := .cons h (.nil _)

/-- Where a call has one effect, calls have one result. -/
theorem Serial.eq_of (hdet : ∀ k log es es', effect k log es → effect k log es' → es = es')
    {log₁ log₂ : List ε} (h₁ : Serial effect log calls log₁) (h₂ : Serial effect log calls log₂) :
    log₁ = log₂ := by
  induction h₁ with
  | nil =>
    cases h₂
    rfl
  | cons head tail ih =>
    cases h₂ with
    | cons head' tail' =>
      obtain rfl := hdet _ _ _ _ head head'
      exact ih tail'

theorem Serial.isPrefix (h : Serial effect log calls log') : log <+: log' := by
  induction h with
  | nil => exact List.prefix_rfl
  | cons _ _ ih => exact (List.prefix_append _ _).trans ih

/-- Every call had its effect on a log between the first and the last. -/
theorem Serial.exists_effect (h : Serial effect log calls log') {k : κ} (hk : k ∈ calls) :
    ∃ mid es, log <+: mid ∧ effect k mid es ∧ mid ++ es <+: log' := by
  induction h with
  | nil => exact absurd hk List.not_mem_nil
  | cons head tail ih =>
    rcases List.mem_cons.mp hk with rfl | hk
    · exact ⟨_, _, List.prefix_rfl, head, tail.isPrefix⟩
    · obtain ⟨mid, es, hmid, heffect, hlast⟩ := ih hk
      exact ⟨mid, es, (List.prefix_append _ _).trans hmid, heffect, hlast⟩

/-- **Every entry was computed on the log before it**, where no call appends two at once. -/
theorem Serial.computed (hone : ∀ k log es, effect k log es → es.length ≤ 1)
    (h : Serial effect log calls log') {pre post : List ε} {e : ε} (hsplit : log' = pre ++ e :: post)
    (hlen : log.length ≤ pre.length) : ∃ k ∈ calls, effect k pre [e] := by
  induction h with
  | nil log =>
    rw [hsplit, List.length_append, List.length_cons] at hlen
    omega
  | cons head tail ih =>
    rename_i k calls log es log'
    by_cases hle : (log ++ es).length ≤ pre.length
    · obtain ⟨k', hk', heffect⟩ := ih hsplit hle
      exact ⟨k', List.mem_cons_of_mem _ hk', heffect⟩
    · -- the entry is the one this call appended
      have hes := hone _ _ _ head
      rw [List.length_append] at hle
      obtain ⟨x, rfl⟩ : ∃ x, es = [x] := List.length_eq_one_iff.mp (by omega)
      obtain ⟨rest, hrest⟩ := tail.isPrefix
      rw [hsplit, List.append_assoc] at hrest
      obtain ⟨rfl, htail⟩ := List.append_inj hrest (by rw [List.length_singleton] at hle; omega)
      obtain ⟨rfl, -⟩ := List.cons.inj htail
      exact ⟨k, List.mem_cons_self, head⟩

end Serial

/-! ## An order of the calls -/

section Order

variable (effect : κ → List ε → List ε → Prop) (call : ι → κ)

/-- `order` is the calls that succeeded, and leaves `log` when they run one after another from
`start`; each pending call has its place in it, after all that were over when it began. -/
structure Linearization (start log : List ε) (before : ι → ι → Prop) (succeeded pending : ι → Prop)
    (loaded : ι → List ε → Prop) (order : List ι) : Prop where
  nodup : order.Nodup
  exact : ∀ i, i ∈ order ↔ succeeded i
  serial : Serial effect start (order.map call) log
  ordered : order.Pairwise fun i j => ¬ before j i
  held : ∀ i, pending i → ∃ pre post copy, order = pre ++ post ∧
    Serial effect start (pre.map call) copy ∧ loaded i copy ∧ ∀ j ∈ post, ¬ before j i

variable {effect call} {start log : List ε} {before before' : ι → ι → Prop}
variable {succeeded succeeded' pending pending' : ι → Prop} {loaded loaded' : ι → List ε → Prop}
variable {order : List ι} {i : ι}

/-- No call so far. -/
theorem Linearization.empty (hs : ∀ i, ¬ succeeded i) (hp : ∀ i, ¬ pending i) :
    Linearization effect call start start before succeeded pending loaded [] where
  nodup := List.nodup_nil
  exact i := ⟨fun h => absurd h List.not_mem_nil, fun h => absurd h (hs i)⟩
  serial := .nil start
  ordered := .nil
  held i h := absurd h (hp i)

/-- Fewer calls are pending, or less is known of what they loaded. -/
theorem Linearization.weaken
    (h : Linearization effect call start log before succeeded pending loaded order)
    (hb : ∀ j k, k ∈ order ∨ pending k → before' j k → before j k)
    (hs : ∀ i, succeeded' i ↔ succeeded i) (hp : ∀ i, pending' i → pending i)
    (hl : ∀ i copy, pending' i → loaded i copy → loaded' i copy) :
    Linearization effect call start log before' succeeded' pending' loaded' order where
  nodup := h.nodup
  exact i := (h.exact i).trans (hs i).symm
  serial := h.serial
  ordered := h.ordered.imp_of_mem fun hmem _ hne hbefore => hne (hb _ _ (Or.inl hmem) hbefore)
  held i hi := by
    obtain ⟨pre, post, copy, horder, hserial, hcopy, hpost⟩ := h.held i (hp i hi)
    exact ⟨pre, post, copy, horder, hserial, hl i copy hi hcopy,
      fun j hj hbefore => hpost j hj (hb _ _ (Or.inr (hp i hi)) hbefore)⟩

/-- **A call that loads** has its place at the end of the order. -/
theorem Linearization.load
    (h : Linearization effect call start log before succeeded pending loaded order)
    (hb : ∀ j k, k ∈ order ∨ pending k → before' j k → before j k)
    (hs : ∀ k, succeeded' k ↔ succeeded k) (hp : ∀ k, pending' k → pending k ∨ k = i)
    (hl : ∀ k copy, pending k → loaded k copy → loaded' k copy) (hi : loaded' i log) :
    Linearization effect call start log before' succeeded' pending' loaded' order where
  nodup := h.nodup
  exact k := (h.exact k).trans (hs k).symm
  serial := h.serial
  ordered := h.ordered.imp_of_mem fun hmem _ hne hbefore => hne (hb _ _ (Or.inl hmem) hbefore)
  held k hk := by
    rcases hp k hk with hold | rfl
    · obtain ⟨pre, post, copy, horder, hserial, hcopy, hpost⟩ := h.held k hold
      exact ⟨pre, post, copy, horder, hserial, hl k copy hold hcopy,
        fun j hj hbefore => hpost j hj (hb _ _ (Or.inr hold) hbefore)⟩
    · exact ⟨order, [], log, (List.append_nil _).symm, h.serial, hi,
        fun j hj => absurd hj List.not_mem_nil⟩

/-- **A call that writes** what it computed on the log as it stands goes to the end. -/
theorem Linearization.append
    (h : Linearization effect call start log before succeeded pending loaded order)
    {es : List ε} (hi : ¬ succeeded i) (hcall : effect (call i) log es)
    (hlast : ∀ k, ¬ before i k) (hs : ∀ j, succeeded' j ↔ succeeded j ∨ j = i)
    (hp : ∀ k, pending' k → pending k) :
    Linearization effect call start (log ++ es) before succeeded' pending' loaded
      (order ++ [i]) where
  nodup := by
    rw [← List.concat_eq_append]
    exact h.nodup.concat fun hmem => hi ((h.exact i).mp hmem)
  exact j := by rw [List.mem_append, List.mem_singleton, h.exact, hs]
  serial := by
    rw [List.map_append]
    exact Serial.append_iff.mpr ⟨log, h.serial, .single hcall⟩
  ordered := by
    refine List.pairwise_append.mpr ⟨h.ordered, List.pairwise_singleton _ _, fun j _ k hk => ?_⟩
    obtain rfl := List.mem_singleton.mp hk
    exact hlast j
  held k hk := by
    obtain ⟨pre, post, copy, rfl, hserial, hcopy, hpost⟩ := h.held k (hp k hk)
    refine ⟨pre, post ++ [i], copy, List.append_assoc _ _ _, hserial, hcopy, fun j hj => ?_⟩
    rcases List.mem_append.mp hj with hj | hj
    · exact hpost j hj
    · obtain rfl := List.mem_singleton.mp hj
      exact hlast k

/-- **A call that ends without a write** goes to the place at which it loaded; the calls after it
do not notice. -/
theorem Linearization.skip
    (h : Linearization effect call start log before succeeded pending loaded order)
    (hdet : ∀ k log es es', effect k log es → effect k log es' → es = es') (hi : ¬ succeeded i)
    (hpending : pending i) (hcall : ∀ copy, loaded i copy → effect (call i) copy [])
    (hlast : ∀ k, ¬ before i k) (hs : ∀ j, succeeded' j ↔ succeeded j ∨ j = i)
    (hp : ∀ k, pending' k → pending k) :
    ∃ order', Linearization effect call start log before succeeded' pending' loaded order' := by
  obtain ⟨pre, post, copy, rfl, hpre, hcopy, hpost⟩ := h.held i hpending
  have hnoop : Serial effect copy [call i] copy := by
    simpa using Serial.single (hcall copy hcopy)
  have hrest : ∀ {calls : List κ} {log' : List ε}, Serial effect start (pre.map call ++ calls) log' →
      Serial effect copy calls log' := by
    intro calls log' hserial
    obtain ⟨mid, hmid, hserial⟩ := Serial.append_iff.mp hserial
    rwa [Serial.eq_of hdet hmid hpre] at hserial
  have hinsert : ∀ {calls : List κ} {log' : List ε},
      Serial effect start (pre.map call ++ calls) log' →
      Serial effect start (pre.map call ++ call i :: calls) log' := by
    intro calls log' hserial
    exact Serial.append_iff.mpr ⟨copy, hpre,
      Serial.append_iff.mpr ⟨copy, hnoop, hrest hserial⟩⟩
  obtain ⟨hpreOrdered, hpostOrdered, hcross⟩ := List.pairwise_append.mp h.ordered
  refine ⟨pre ++ i :: post, ?_, fun j => ?_, ?_, ?_, fun k hk => ?_⟩
  · refine List.nodup_middle.mpr (List.nodup_cons.mpr ⟨fun hmem => ?_, h.nodup⟩)
    exact hi ((h.exact i).mp hmem)
  · have hexact := h.exact j
    rw [List.mem_append] at hexact
    rw [List.mem_append, List.mem_cons, hs, ← hexact]
    tauto
  · have hserial := h.serial
    rw [List.map_append] at hserial ⊢
    exact hinsert hserial
  · refine List.pairwise_append.mpr ⟨hpreOrdered, ?_, fun j hj k hk => ?_⟩
    · exact List.pairwise_cons.mpr ⟨fun j hj => hpost j hj, hpostOrdered⟩
    · rcases List.mem_cons.mp hk with rfl | hk
      · exact hlast j
      · exact hcross j hj k hk
  · obtain ⟨pre', post', copy', horder, hserial, hcopy', hpost'⟩ := h.held k (hp k hk)
    rcases List.append_eq_append_iff.mp horder with ⟨between, rfl, rfl⟩ | ⟨between, rfl, rfl⟩
    · -- `k` loaded after the calls that `i` saw
      refine ⟨pre ++ i :: between, post', copy', by simp, ?_, hcopy', hpost'⟩
      rw [List.map_append] at hserial ⊢
      exact hinsert hserial
    · -- `k` loaded before some of them
      refine ⟨pre', between ++ i :: post, copy', by simp, hserial, hcopy', fun j hj => ?_⟩
      rcases List.mem_append.mp hj with hj | hj
      · exact hpost' j (List.mem_append_left _ hj)
      rcases List.mem_cons.mp hj with rfl | hj
      · exact hlast k
      · exact hpost' j (List.mem_append_right _ hj)

end Order

end Optimistic
