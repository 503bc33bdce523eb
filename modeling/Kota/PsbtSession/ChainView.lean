import Kota.PsbtSession.Hydration

/-!
# The chain, as a session sees it

What the three chain observations read and write of a session, as a machine of its own, and what
delivering the same observations a second time does to it. The three guards reset differently: a
sighting is recorded once for good, a confirmation once until an invalidation, an invalidation
once until a confirmation.

* `ChainView` is whether the sighting is recorded, and a `ChainPhase`; `observe` is one
  observation, refused when it invalidates what the chain never held.
* Once the sighting is recorded, a delivery is a fold of `ChainPhase.settle`, which is idempotent
  (`settleAll_idem`). So two deliveries can differ only over the one sighting that may be
  recorded on the way; `firstSighting` is where.
* **`deliver_twice_iff`**: the second delivery is always accepted, and it leaves the status of the
  first one exactly when `Converges`.
-/

namespace Kota

/-! ## The view of the chain -/

/-- An observation, its arguments left out. -/
inductive ObservationKind where
  | broadcast
  | confirmed
  | invalidated
  deriving DecidableEq, Repr

namespace ObservationKind

/-- What the observation says about the chain's last word. -/
def tip : ObservationKind → Option ChainTip
  | .broadcast => none
  | .confirmed => some .confirmed
  | .invalidated => some .invalidated

end ObservationKind

/-- Where a finalized session is on the chain. `resighted` is a first sighting that came after an
invalidation. -/
inductive ChainPhase where
  | idle
  | sighted
  | confirmed
  | invalidated
  | resighted
  deriving DecidableEq, Repr

namespace ChainPhase

def tip : ChainPhase → Option ChainTip
  | .idle | .sighted => none
  | .confirmed => some .confirmed
  | .invalidated | .resighted => some .invalidated

/-- The status of the phase; a session that is idle on chain keeps the status it had. -/
def status : ChainPhase → Option PsbtSessionStatus
  | .idle => none
  | .sighted | .resighted => some .broadcast
  | .confirmed => some .confirmed
  | .invalidated => some .invalidated

/-- The effect of an observation that is no news as a sighting. -/
def settle (p : ChainPhase) : ObservationKind → ChainPhase
  | .broadcast => p
  | .confirmed => .confirmed
  | .invalidated => if p = .resighted then .resighted else .invalidated

/-- The effect of the sighting. -/
def sight : ChainPhase → ChainPhase
  | .idle | .sighted | .confirmed => .sighted
  | .invalidated | .resighted => .resighted

def settleAll (p : ChainPhase) (ks : List ObservationKind) : ChainPhase := ks.foldl settle p

@[simp] theorem settleAll_nil (p : ChainPhase) : p.settleAll [] = p := rfl

@[simp] theorem settleAll_cons (p : ChainPhase) (k : ObservationKind)
    (ks : List ObservationKind) : p.settleAll (k :: ks) = (p.settle k).settleAll ks := rfl

@[simp] theorem settleAll_append (p : ChainPhase) (ks ks' : List ObservationKind) :
    p.settleAll (ks ++ ks') = (p.settleAll ks).settleAll ks' := List.foldl_append

theorem settle_tip (p : ChainPhase) (k : ObservationKind) :
    (p.settle k).tip = k.tip.or p.tip := by
  cases p <;> cases k <;> rfl

/-- A confirmation forgets the phase before it. -/
theorem settleAll_of_mem {ks : List ObservationKind} (h : .confirmed ∈ ks) (p q : ChainPhase) :
    p.settleAll ks = q.settleAll ks := by
  induction ks generalizing p q with
  | nil => exact absurd h List.not_mem_nil
  | cons k ks ih =>
    rcases List.mem_cons.mp h with rfl | h
    · rfl
    · exact ih h _ _

/-- Without a confirmation only the invalidations count. -/
theorem settleAll_of_not_mem {ks : List ObservationKind} (h : .confirmed ∉ ks) (p : ChainPhase) :
    p.settleAll ks = if .invalidated ∈ ks ∧ p ≠ .resighted then .invalidated else p := by
  induction ks generalizing p with
  | nil => simp
  | cons k ks ih =>
    rw [List.mem_cons, not_or] at h
    rw [settleAll_cons, ih h.2]
    cases k with
    | broadcast => exact if_congr (by simp [settle]) rfl rfl
    | confirmed => exact absurd rfl h.1
    | invalidated =>
      by_cases hp : p = .resighted
      · simp [settle, hp]
      · simp [settle, hp]

/-- **Settling twice is settling once.** -/
theorem settleAll_idem (p : ChainPhase) (ks : List ObservationKind) :
    (p.settleAll ks).settleAll ks = p.settleAll ks := by
  by_cases h : .confirmed ∈ ks
  · exact settleAll_of_mem h _ _
  · rw [settleAll_of_not_mem h (p.settleAll ks), settleAll_of_not_mem h p]
    split
    · simp
    · rfl

/-- Nothing but the sighting leads to a sighted phase. -/
def Unsighted (p : ChainPhase) : Prop := p ≠ .sighted ∧ p ≠ .resighted

theorem Unsighted.settle {p : ChainPhase} (h : p.Unsighted) (k : ObservationKind) :
    (p.settle k).Unsighted := by
  obtain ⟨h1, h2⟩ := h
  cases k with
  | broadcast => exact ⟨h1, h2⟩
  | confirmed => exact ⟨by simp [ChainPhase.settle], by simp [ChainPhase.settle]⟩
  | invalidated => simp [ChainPhase.settle, Unsighted, h2]

theorem Unsighted.settleAll {p : ChainPhase} (h : p.Unsighted) (ks : List ObservationKind) :
    (p.settleAll ks).Unsighted := by
  induction ks generalizing p with
  | nil => exact h
  | cons k ks ih => exact ih (h.settle k)

theorem settle_ne_idle {p : ChainPhase} (h : p ≠ .idle) (k : ObservationKind) :
    p.settle k ≠ .idle := by
  cases k with
  | broadcast => exact h
  | confirmed => simp [settle]
  | invalidated =>
    unfold settle
    dsimp only
    split <;> simp

theorem settleAll_ne_idle {p : ChainPhase} (h : p ≠ .idle) (ks : List ObservationKind) :
    p.settleAll ks ≠ .idle := by
  induction ks generalizing p with
  | nil => exact h
  | cons k ks ih => exact ih (settle_ne_idle h k)

end ChainPhase

/-- Whether the sighting is recorded, and the phase. -/
structure ChainView where
  seen : Bool
  phase : ChainPhase
  deriving DecidableEq, Repr

namespace ChainView

/-- One observation; `none` when it is refused. -/
def observe (v : ChainView) : ObservationKind → Option ChainView
  | .broadcast =>
    if v.seen || v.phase = .confirmed then some v else some ⟨true, v.phase.sight⟩
  | .confirmed => some ⟨v.seen, .confirmed⟩
  | .invalidated =>
    if v.phase = .idle then none else some ⟨v.seen, v.phase.settle .invalidated⟩

def observeAll (v : ChainView) : List ObservationKind → Option ChainView
  | [] => some v
  | k :: ks => (v.observe k).bind fun v' => v'.observeAll ks

/-- A sighted phase comes with a recorded sighting, and a recorded sighting with a phase. -/
structure Valid (v : ChainView) : Prop where
  unseen : v.seen = false → v.phase.Unsighted
  seen : v.seen = true → v.phase ≠ .idle

end ChainView

/-! ## Where the sighting is recorded -/

/-- The observations before and after the first sighting that comes while the chain's last word,
`t` before the first of them, is not a confirmation. -/
def firstSighting (t : Option ChainTip) :
    List ObservationKind → Option (List ObservationKind × List ObservationKind)
  | [] => none
  | k :: ks =>
    if k = .broadcast ∧ t ≠ some .confirmed then some ([], ks)
    else (firstSighting (k.tip.or t) ks).map fun r => (k :: r.1, r.2)

/-- Delivering the observations a second time leaves the status they led to: the sighting was
recorded before, or none is recorded and the observations are not a sighting and an invalidation
without a confirmation, or one is recorded with no confirmation before it or some after it. -/
def Converges (seen : Bool) (t : Option ChainTip) (ks : List ObservationKind) : Prop :=
  seen = true ∨
    match firstSighting t ks with
    | none => .confirmed ∈ ks ∨ .broadcast ∉ ks ∨ .invalidated ∉ ks
    | some (pre, post) => .confirmed ∉ pre ∨ .confirmed ∈ post

instance (seen : Bool) (t : Option ChainTip) (ks : List ObservationKind) :
    Decidable (Converges seen t ks) := by
  unfold Converges
  split <;> infer_instance

theorem firstSighting_cons_eq_some {t : Option ChainTip} {k : ObservationKind}
    {ks pre post : List ObservationKind} (h : firstSighting t (k :: ks) = some (pre, post)) :
    (k = .broadcast ∧ t ≠ some .confirmed ∧ pre = [] ∧ post = ks) ∨
    (¬ (k = .broadcast ∧ t ≠ some .confirmed) ∧
      ∃ pre', pre = k :: pre' ∧ firstSighting (k.tip.or t) ks = some (pre', post)) := by
  unfold firstSighting at h
  split at h
  · rename_i hk
    obtain ⟨rfl, rfl⟩ := Prod.mk.inj (Option.some.inj h)
    exact Or.inl ⟨hk.1, hk.2, rfl, rfl⟩
  · rename_i hk
    obtain ⟨⟨pre', post'⟩, hrest, he⟩ := Option.map_eq_some_iff.mp h
    obtain ⟨rfl, rfl⟩ := Prod.mk.inj he
    exact Or.inr ⟨hk, pre', rfl, hrest⟩

theorem firstSighting_cons_eq_none {t : Option ChainTip} {k : ObservationKind}
    {ks : List ObservationKind} (h : firstSighting t (k :: ks) = none) :
    ¬ (k = .broadcast ∧ t ≠ some .confirmed) ∧ firstSighting (k.tip.or t) ks = none := by
  unfold firstSighting at h
  split at h
  · exact absurd h (by simp)
  · rename_i hk
    exact ⟨hk, Option.map_eq_none_iff.mp h⟩

theorem firstSighting_eq {t : Option ChainTip} {ks pre post : List ObservationKind}
    (h : firstSighting t ks = some (pre, post)) : ks = pre ++ .broadcast :: post := by
  induction ks generalizing t pre with
  | nil => exact absurd h (by simp [firstSighting])
  | cons k ks ih =>
    rcases firstSighting_cons_eq_some h with ⟨rfl, -, rfl, rfl⟩ | ⟨-, pre', rfl, hrest⟩
    · rfl
    · rw [ih hrest, List.cons_append]

/-- Without confirmations, a chain whose last word is not one has its first sighting recorded. -/
theorem not_mem_broadcast {t : Option ChainTip} {ks : List ObservationKind}
    (ht : t ≠ some .confirmed) (hks : .confirmed ∉ ks) (h : firstSighting t ks = none) :
    .broadcast ∉ ks := by
  induction ks generalizing t with
  | nil => exact List.not_mem_nil
  | cons k ks ih =>
    obtain ⟨hk, hrest⟩ := firstSighting_cons_eq_none h
    rw [List.mem_cons, not_or] at hks
    cases k with
    | broadcast => exact absurd ⟨rfl, ht⟩ hk
    | confirmed => exact absurd rfl hks.1
    | invalidated =>
      have := ih (t := some .invalidated) (by simp) hks.2 hrest
      simpa using this

/-- A sighting that only one of two starting points records comes before the chain speaks. -/
theorem tip_of_firstSighting {t t' : Option ChainTip} {ks pre post : List ObservationKind}
    (h : firstSighting t ks = none) (h' : firstSighting t' ks = some (pre, post)) :
    ∀ k ∈ pre, k.tip = none := by
  induction ks generalizing t t' pre with
  | nil => exact absurd h' (by simp [firstSighting])
  | cons k ks ih =>
    obtain ⟨-, hrest⟩ := firstSighting_cons_eq_none h
    rcases firstSighting_cons_eq_some h' with ⟨-, -, rfl, -⟩ | ⟨-, pre', rfl, hrest'⟩
    · exact fun k hk => absurd hk List.not_mem_nil
    · intro x hx
      cases htip : k.tip with
      | some tip =>
        rw [htip] at hrest hrest'
        exact absurd (hrest.symm.trans hrest') (by simp)
      | none =>
        rcases List.mem_cons.mp hx with rfl | hx
        · exact htip
        · exact ih hrest hrest' x hx

/-! ## One delivery -/

namespace ChainView

open ChainPhase

/-- With the sighting recorded, a delivery settles. -/
theorem observeAll_seen {p : ChainPhase} (hp : p ≠ .idle) (ks : List ObservationKind) :
    observeAll ⟨true, p⟩ ks = some ⟨true, p.settleAll ks⟩ := by
  induction ks generalizing p with
  | nil => rfl
  | cons k ks ih =>
    have hstep : observe ⟨true, p⟩ k = some ⟨true, p.settle k⟩ := by
      cases k <;> simp [observe, hp, settle]
    rw [observeAll, hstep, Option.bind_some, ih (settle_ne_idle hp k), settleAll_cons]

/-- An accepted observation that is not the sighting settles. -/
theorem observe_unseen {p : ChainPhase} {k : ObservationKind} {v : ChainView}
    (hk : ¬ (k = .broadcast ∧ p.tip ≠ some .confirmed)) (h : observe ⟨false, p⟩ k = some v) :
    v = ⟨false, p.settle k⟩ := by
  cases k with
  | broadcast =>
    have htip : p.tip = some .confirmed := by simpa using hk
    have hp : p = .confirmed := by
      cases p <;> first
        | rfl
        | exact absurd htip (by simp [ChainPhase.tip])
    subst hp
    exact (Option.some.inj h).symm
  | confirmed => exact (Option.some.inj h).symm
  | invalidated =>
    unfold observe at h
    dsimp only at h
    split at h
    · exact absurd h (by simp)
    · exact (Option.some.inj h).symm

/-- A delivery that records no sighting settles. -/
theorem observeAll_quiet {p : ChainPhase} {ks : List ObservationKind} {v : ChainView}
    (hs : firstSighting p.tip ks = none) (h : observeAll ⟨false, p⟩ ks = some v) :
    v = ⟨false, p.settleAll ks⟩ := by
  induction ks generalizing p with
  | nil => exact (Option.some.inj h).symm
  | cons k ks ih =>
    obtain ⟨hk, hrest⟩ := firstSighting_cons_eq_none hs
    obtain ⟨v', hv', h⟩ := Option.bind_eq_some_iff.mp h
    obtain rfl := observe_unseen hk hv'
    rw [← settle_tip] at hrest
    exact ih hrest h

/-- A delivery that records the sighting settles up to it, sights, and settles after it. -/
theorem observeAll_sighting {p : ChainPhase} {ks pre post : List ObservationKind} {v : ChainView}
    (hs : firstSighting p.tip ks = some (pre, post)) (h : observeAll ⟨false, p⟩ ks = some v) :
    v = ⟨true, (p.settleAll pre).sight.settleAll post⟩ ∧
      (p.settleAll pre).tip ≠ some .confirmed := by
  induction ks generalizing p pre v with
  | nil => exact absurd hs (by simp [firstSighting])
  | cons k ks ih =>
    obtain ⟨v', hv', h⟩ := Option.bind_eq_some_iff.mp h
    rcases firstSighting_cons_eq_some hs with ⟨rfl, htip, rfl, rfl⟩ | ⟨hk, pre', rfl, hrest⟩
    · have hp : p ≠ .confirmed := by
        rintro rfl
        exact htip rfl
      have hstep : observe ⟨false, p⟩ .broadcast = some ⟨true, p.sight⟩ := by
        simp [observe, hp]
      obtain rfl := Option.some.inj (hstep.symm.trans hv')
      have hsight : p.sight ≠ .idle := by cases p <;> simp [sight]
      rw [observeAll_seen hsight] at h
      exact ⟨(Option.some.inj h).symm, htip⟩
    · obtain rfl := observe_unseen hk hv'
      rw [← settle_tip] at hrest
      rw [settleAll_cons]
      exact ih hrest h

/-- Only a view that is idle already is idle after an observation. -/
theorem observe_idle {v v' : ChainView} {k : ObservationKind} (h : v.observe k = some v')
    (hidle : v'.phase = .idle) : v' = v := by
  obtain ⟨seen, p⟩ := v
  cases k with
  | broadcast =>
    unfold observe at h
    dsimp only at h
    split at h
    · exact (Option.some.inj h).symm
    · obtain rfl := Option.some.inj h
      cases p <;> exact absurd hidle (by simp [sight])
  | confirmed =>
    obtain rfl := Option.some.inj h
    exact absurd hidle (by simp)
  | invalidated =>
    unfold observe at h
    dsimp only at h
    split at h
    · exact absurd h (by simp)
    · rename_i hp
      obtain rfl := Option.some.inj h
      exact absurd hidle (settle_ne_idle hp .invalidated)

theorem observeAll_idle {v v' : ChainView} {ks : List ObservationKind}
    (h : v.observeAll ks = some v') (hidle : v'.phase = .idle) : v' = v := by
  induction ks generalizing v with
  | nil => exact (Option.some.inj h).symm
  | cons k ks ih =>
    obtain ⟨v'', hv'', h⟩ := Option.bind_eq_some_iff.mp h
    obtain rfl := ih h
    exact observe_idle hv'' hidle

/-- Nothing is refused once the chain has spoken. -/
theorem observeAll_accepted {v : ChainView} (hv : v.phase ≠ .idle) (ks : List ObservationKind) :
    ∃ v', v.observeAll ks = some v' := by
  induction ks generalizing v with
  | nil => exact ⟨v, rfl⟩
  | cons k ks ih =>
    have hstep : ∃ v', v.observe k = some v' := by
      cases k with
      | broadcast =>
        unfold observe
        dsimp only
        split
        · exact ⟨_, rfl⟩
        · exact ⟨_, rfl⟩
      | confirmed => exact ⟨_, rfl⟩
      | invalidated => exact ⟨_, by simp [observe, hv]; rfl⟩
    obtain ⟨v', hv'⟩ := hstep
    have hne : v'.phase ≠ .idle := fun h => hv (observe_idle hv' h ▸ h)
    obtain ⟨v'', hv''⟩ := ih hne
    exact ⟨v'', by rw [observeAll, hv', Option.bind_some, hv'']⟩

/-! ## Two deliveries -/

/-- Neither delivery records a sighting, or only the second one does. -/
theorem converges_of_quiet {p : ChainPhase} (hp : p.Unsighted) {ks : List ObservationKind}
    (hs : firstSighting p.tip ks = none) {v : ChainView}
    (h : observeAll ⟨false, p.settleAll ks⟩ ks = some v) :
    v.phase.status = (p.settleAll ks).status ↔
      .confirmed ∈ ks ∨ .broadcast ∉ ks ∨ .invalidated ∉ ks := by
  cases hs' : firstSighting (p.settleAll ks).tip ks with
  | none =>
    obtain rfl := observeAll_quiet hs' h
    refine iff_of_true (by rw [settleAll_idem]) ?_
    by_cases hc : .confirmed ∈ ks
    · exact Or.inl hc
    · by_cases hi : .invalidated ∈ ks
      · refine Or.inr (Or.inl (not_mem_broadcast ?_ hc hs'))
        rw [settleAll_of_not_mem hc, if_pos ⟨hi, hp.2⟩]
        simp [ChainPhase.tip]
      · exact Or.inr (Or.inr hi)
  | some r =>
    obtain ⟨pre, post⟩ := r
    obtain ⟨rfl, -⟩ := observeAll_sighting hs' h
    have hks := firstSighting_eq hs'
    have hpre := tip_of_firstSighting hs hs'
    have hcpre : .confirmed ∉ pre := fun hm => absurd (hpre _ hm) (by simp [ObservationKind.tip])
    have hmem : .broadcast ∈ ks := by simp [hks]
    by_cases hc : .confirmed ∈ ks
    · -- the sighting is overwritten by what follows it
      have hpost : .confirmed ∈ post := by
        rw [hks] at hc
        simpa [hcpre] using hc
      refine iff_of_true ?_ (Or.inl hc)
      have hsettle : p.settleAll ks = (p.settleAll pre).settleAll post := by
        rw [hks, settleAll_append, settleAll_cons]
        rfl
      rw [hsettle]
      exact congrArg ChainPhase.status (settleAll_of_mem hpost _ _)
    · by_cases hi : .invalidated ∈ ks
      · -- the sighting stays, after an invalidation that the first delivery ended with
        refine iff_of_false ?_ (by simp [hc, hi, hmem])
        have hfirst : p.settleAll ks = .invalidated := by
          rw [settleAll_of_not_mem hc, if_pos ⟨hi, hp.2⟩]
        have hcpost : .confirmed ∉ post := fun hm => hc (by simp [hks, hm])
        have hmid : ChainPhase.invalidated.settleAll pre = .invalidated := by
          rw [settleAll_of_not_mem hcpre]
          split <;> rfl
        rw [hfirst, hmid]
        simp [sight, settleAll_of_not_mem hcpost, ChainPhase.status]
      · -- nothing moved the chain, so both deliveries start from the same word
        have hfirst : p.settleAll ks = p := by
          rw [settleAll_of_not_mem hc, if_neg (fun h => hi h.1)]
        rw [hfirst, hs] at hs'
        exact absurd hs' (by simp)

/-- The first delivery records the sighting. -/
theorem converges_of_sighting {p : ChainPhase} (hp : p.Unsighted)
    {ks pre post : List ObservationKind} (hks : ks = pre ++ .broadcast :: post)
    (htip : (p.settleAll pre).tip ≠ some .confirmed) :
    (((p.settleAll pre).sight.settleAll post).settleAll ks).status =
      ((p.settleAll pre).sight.settleAll post).status ↔
      .confirmed ∉ pre ∨ .confirmed ∈ post := by
  have hstart : (p.settleAll pre).Unsighted := hp.settleAll pre
  generalize hm : p.settleAll pre = mid at htip hstart
  by_cases hpost : .confirmed ∈ post
  · -- both end where the last confirmation leads
    refine iff_of_true ?_ (Or.inr hpost)
    rw [hks, settleAll_append, settleAll_cons, settleAll_of_mem hpost _ mid.sight]
  · have hend : mid.sight.settleAll post =
        if .invalidated ∈ post ∧ mid.sight ≠ .resighted then .invalidated else mid.sight :=
      settleAll_of_not_mem hpost _
    by_cases hpre : .confirmed ∈ pre
    · -- a confirmation and an invalidation stood before the sighting: the second delivery
      -- ends with the invalidation
      refine iff_of_false ?_ (by simp [hpre, hpost])
      have hmid : mid = .invalidated := by
        have : ∃ q : ChainPhase, q ≠ .idle ∧ q.settleAll pre = mid :=
          ⟨.confirmed, by simp, by rw [← hm]; exact settleAll_of_mem hpre _ _⟩
        obtain ⟨q, hq, rfl⟩ := this
        have hne : q.settleAll pre ≠ .idle := settleAll_ne_idle hq pre
        cases hcase : q.settleAll pre with
        | idle => exact absurd hcase hne
        | sighted => exact absurd hcase hstart.1
        | confirmed => exact absurd (by rw [hcase]; rfl) htip
        | invalidated => rfl
        | resighted => exact absurd hcase hstart.2
      have hagain : ∀ q : ChainPhase, q.settleAll ks = .invalidated := by
        intro q
        rw [hks, settleAll_append, settleAll_cons, settleAll_of_mem hpre q p, hm, hmid]
        rw [settleAll_of_not_mem hpost]
        split <;> rfl
      rw [hagain, hend, hmid]
      simp [sight, ChainPhase.status]
    · -- no confirmation at all: invalidations change nothing any more
      refine iff_of_true ?_ (Or.inl hpre)
      have hc : .confirmed ∉ ks := by simp [hks, hpre, hpost]
      rw [settleAll_of_not_mem hc]
      split
      · rename_i hi
        obtain ⟨hi, hne⟩ := hi
        rw [hend] at hne ⊢
        split at hne
        · rename_i hcond
          rw [if_pos hcond]
        · rename_i hcond
          -- the invalidation would stand before the sighting, and make it a late one
          exfalso
          have hipost : .invalidated ∉ post := fun h => hcond ⟨h, hne⟩
          have hipre : .invalidated ∈ pre := by
            rw [hks] at hi
            simpa [hipost] using hi
          rw [settleAll_of_not_mem hpre, if_pos ⟨hipre, hp.2⟩] at hm
          subst hm
          exact hne rfl
      · rfl

/-- **Delivering the same observations twice.** The second delivery is accepted throughout, and
leaves the status of the first exactly when the observations converge. -/
theorem deliver_twice_iff {v v₁ : ChainView} (hv : v.Valid) {ks : List ObservationKind}
    (h : v.observeAll ks = some v₁) :
    ∃ v₂, v₁.observeAll ks = some v₂ ∧
      (v₂.phase.status = v₁.phase.status ↔ Converges v.seen v.phase.tip ks) := by
  have haccepted : ∃ v₂, v₁.observeAll ks = some v₂ := by
    by_cases hidle : v₁.phase = .idle
    · obtain rfl := observeAll_idle h hidle
      exact ⟨_, h⟩
    · exact observeAll_accepted hidle ks
  obtain ⟨v₂, h₂⟩ := haccepted
  refine ⟨v₂, h₂, ?_⟩
  obtain ⟨seen, p⟩ := v
  cases seen with
  | true =>
    have hp := hv.seen rfl
    rw [observeAll_seen hp] at h
    obtain rfl := Option.some.inj h
    rw [observeAll_seen (settleAll_ne_idle hp ks)] at h₂
    obtain rfl := Option.some.inj h₂
    exact iff_of_true (by rw [settleAll_idem]) (Or.inl rfl)
  | false =>
    have hp := hv.unseen rfl
    unfold Converges
    simp only [Bool.false_eq_true, false_or]
    cases hs : firstSighting p.tip ks with
    | none =>
      obtain rfl := observeAll_quiet hs h
      exact converges_of_quiet hp hs h₂
    | some r =>
      obtain ⟨pre, post⟩ := r
      obtain ⟨rfl, htip⟩ := observeAll_sighting hs h
      have hne : (p.settleAll pre).sight.settleAll post ≠ .idle :=
        settleAll_ne_idle (by cases p.settleAll pre <;> simp [sight]) post
      rw [observeAll_seen hne] at h₂
      obtain rfl := Option.some.inj h₂
      exact converges_of_sighting hp (firstSighting_eq hs) htip

theorem Valid.observe {v v' : ChainView} (h : v.Valid) {k : ObservationKind}
    (hk : v.observe k = some v') : v'.Valid := by
  obtain ⟨seen, p⟩ := v
  cases k with
  | broadcast =>
    unfold ChainView.observe at hk
    dsimp only at hk
    split at hk
    · exact Option.some.inj hk ▸ h
    · obtain rfl := Option.some.inj hk
      exact ⟨fun h => absurd h (by simp), fun _ => by cases p <;> simp [sight]⟩
  | confirmed =>
    obtain rfl := Option.some.inj hk
    exact ⟨fun hs => (h.unseen hs).settle .confirmed, fun _ => by simp⟩
  | invalidated =>
    unfold ChainView.observe at hk
    dsimp only at hk
    split at hk
    · exact absurd hk (by simp)
    · rename_i hp
      obtain rfl := Option.some.inj hk
      exact ⟨fun hs => (h.unseen hs).settle .invalidated,
        fun _ => settle_ne_idle hp .invalidated⟩

end ChainView

end Kota
