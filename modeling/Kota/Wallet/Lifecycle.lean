import Kota.Lib.Distinct
import Kota.Wallet.Entity

/-!
# The wallet lifecycle

`Step w c es` says that command `c` executes on `w` and appends `es`, with the guards under which
it does; `apply_spec` that a command either takes such a step or leaves the wallet as it is. All
of the following is read off these two.

* `Inv` holds of every wallet `NewWallet::new` accepts and is kept by every command: one keystore
  a participant, distinct fingerprints, nothing after `Activated` or `Cancelled`, and an active
  wallet's descriptor is the canonical one of its policy and keystores.
* `run_frozen`: once active or cancelled, a wallet ignores every further command.
* **`lifecycle_of_new`**: the full lifecycle invariant, which also counts submissions against
  participants, holds along every run. `total_keystores` and `missing_keystores` are `u32` casts of
  a length, so it is stated for fewer than `2 ^ 32` participants.
-/

namespace Kota

open EventLog

namespace WalletEvent

/-- `Activated` or `Cancelled`. -/
def isTerminal (e : WalletEvent) : Bool := e.isActivated || e.isCancelled

end WalletEvent

/-- The wallet collects keystores exactly as long as nothing terminal is in the log. -/
theorem statusOf_eq_collecting_iff {log : List WalletEvent} :
    statusOf log = .collectingKeystores ↔ ∀ e ∈ log, e.isTerminal = false := by
  induction log using List.reverseRecOn with
  | nil => simp [statusOf]
  | append_singleton log e ih =>
    rw [statusOf_concat]
    simp only [List.mem_append, List.mem_singleton, or_imp, forall_and, forall_eq]
    cases e <;>
      simp [WalletEvent.foldStatus, WalletEvent.isTerminal, WalletEvent.isActivated,
        WalletEvent.isCancelled, ih]

namespace Wallet

variable {X : Extern}

/-! ## What a command can do -/

/-- The wallet with `es` appended to its log. -/
def record (w : Wallet) (es : List WalletEvent) : Wallet :=
  { w with events := es.foldl EntityEvents.push w.events }

@[simp] theorem record_id (w : Wallet) (es : List WalletEvent) : (w.record es).id = w.id := rfl

@[simp] theorem record_network (w : Wallet) (es : List WalletEvent) :
    (w.record es).network = w.network := rfl

@[simp] theorem record_threshold (w : Wallet) (es : List WalletEvent) :
    (w.record es).threshold = w.threshold := rfl

@[simp] theorem record_participants (w : Wallet) (es : List WalletEvent) :
    (w.record es).participants = w.participants := rfl

theorem foldl_push_iterAll (es : List WalletEvent) (events : EntityEvents WalletId WalletEvent) :
    (es.foldl EntityEvents.push events).iterAll = events.iterAll ++ es := by
  induction es generalizing events with
  | nil => simp
  | cons e es ih => simp [ih]

@[simp] theorem record_log (w : Wallet) (es : List WalletEvent) :
    (w.record es).log = w.log ++ es := foldl_push_iterAll es w.events

@[simp] theorem record_persisted (w : Wallet) (es : List WalletEvent) :
    (w.record es).events.persisted = w.events.persisted := by
  show (es.foldl EntityEvents.push w.events).persisted = w.events.persisted
  generalize w.events = events
  induction es generalizing events with
  | nil => rfl
  | cons e es ih => exact ih _

/-- Command `c` executes on `w` and appends `es`. -/
inductive Step (X : Extern) (w : Wallet) : WalletCommand → List WalletEvent → Prop
  | added (keystore : DescriptorPublicKey) (user : UserId)
      (collecting : w.status = .collectingKeystores) (member : user ∈ w.participants)
      (first : user ∉ w.submissions.map Prod.fst)
      (fresh : keystoreFingerprint X keystore ∉ w.keystores.map (keystoreFingerprint X))
      (more : UInt32.ofNat w.keystores.length + 1 ≠ w.totalKeystores) :
      Step X w (.addKeystore keystore user) [.keystoreAdded keystore user]
  | activated (keystore : DescriptorPublicKey) (user : UserId) (descriptor : Descriptor)
      (collecting : w.status = .collectingKeystores) (member : user ∈ w.participants)
      (first : user ∉ w.submissions.map Prod.fst)
      (fresh : keystoreFingerprint X keystore ∉ w.keystores.map (keystoreFingerprint X))
      (last : UInt32.ofNat w.keystores.length + 1 = w.totalKeystores)
      (derived : sortedmultiWshDescriptor X w.threshold.toNat (w.keystores ++ [keystore]) =
        .ok descriptor) :
      Step X w (.addKeystore keystore user) [.keystoreAdded keystore user,
        .activated descriptor (Kota.descriptorFingerprint X descriptor w.network)]
  | removed (participant : UserId) (keystore : DescriptorPublicKey) (removedBy : UserId)
      (collecting : w.status = .collectingKeystores)
      (held : w.submissionOf participant = some (participant, keystore)) :
      Step X w (.removeKeystore participant removedBy)
        [.keystoreRemoved participant keystore removedBy]
  | cancelled (cancelledBy : UserId) (reason : String)
      (collecting : w.status = .collectingKeystores) :
      Step X w (.cancel cancelledBy reason) [.cancelled cancelledBy reason]

theorem Step.collecting {w : Wallet} {c : WalletCommand} {es : List WalletEvent}
    (h : Step X w c es) : w.status = .collectingKeystores := by
  cases h <;> assumption

/-- A command changed nothing: it failed, or found its work done. -/
def Unchanged (w : Wallet) (r : Except WalletError (Idempotent Unit) × Wallet) : Prop :=
  r.1 ≠ .ok (.executed ()) ∧ r.2 = w

theorem not_mem_submitters_of_not_any {w : Wallet} {user : UserId}
    (h : ¬ w.submissions.any (fun s => s.1 == user) = true) :
    user ∉ w.submissions.map Prod.fst := by
  simp only [List.any_eq_true, beq_iff_eq, not_exists, not_and] at h
  simp only [List.mem_map, not_exists, not_and]
  exact h

theorem not_mem_fingerprints_of_not_any {w : Wallet} {keystore : DescriptorPublicKey}
    (h : ¬ w.keystores.any (fun k => keystoreFingerprint X k == keystoreFingerprint X keystore) =
      true) :
    keystoreFingerprint X keystore ∉ w.keystores.map (keystoreFingerprint X) := by
  simp only [List.any_eq_true, beq_iff_eq, not_exists, not_and] at h
  simp only [List.mem_map, not_exists, not_and]
  exact h

theorem addKeystore_spec (w : Wallet) (keystore : DescriptorPublicKey) (user : UserId) :
    (∃ es, Step X w (.addKeystore keystore user) es ∧
      w.addKeystore X keystore user = (.ok (.executed ()), w.record es)) ∨
    Unchanged w (w.addKeystore X keystore user) := by
  unfold addKeystore
  split
  · exact Or.inr ⟨by simp, rfl⟩
  · split
    · exact Or.inr ⟨by simp, rfl⟩
    · exact Or.inr ⟨by simp, rfl⟩
    · rename_i hstatus
      split
      · exact Or.inr ⟨by simp, rfl⟩
      · rename_i hmember
        split
        · exact Or.inr ⟨by simp, rfl⟩
        · rename_i hfirst
          split
          · exact Or.inr ⟨by simp, rfl⟩
          · rename_i hfresh
            have hmember' : user ∈ w.participants := by simpa using hmember
            have hfirst' := not_mem_submitters_of_not_any hfirst
            have hfresh' := not_mem_fingerprints_of_not_any hfresh
            unfold activation
            by_cases hlast : UInt32.ofNat w.keystores.length + 1 = w.totalKeystores
            · rw [if_pos hlast]
              cases hd : sortedmultiWshDescriptor X w.threshold.toNat (w.keystores ++ [keystore]) with
              | error e => exact Or.inr ⟨by simp, rfl⟩
              | ok d =>
                exact Or.inl
                  ⟨_, .activated keystore user d hstatus hmember' hfirst' hfresh' hlast hd, rfl⟩
            · rw [if_neg hlast]
              exact Or.inl ⟨_, .added keystore user hstatus hmember' hfirst' hfresh' hlast, rfl⟩

theorem removeKeystore_spec (w : Wallet) (participant removedBy : UserId) :
    (∃ es, Step X w (.removeKeystore participant removedBy) es ∧
      w.removeKeystore participant removedBy = (.ok (.executed ()), w.record es)) ∨
    Unchanged w (w.removeKeystore participant removedBy) := by
  unfold removeKeystore
  split
  · exact Or.inr ⟨by simp, rfl⟩
  · exact Or.inr ⟨by simp, rfl⟩
  · rename_i hstatus
    split
    · exact Or.inr ⟨by simp, rfl⟩
    · rename_i p keystore hheld
      obtain ⟨rfl, -⟩ := Distinct.mem_of_find? hheld
      exact Or.inl ⟨_, .removed p keystore removedBy hstatus hheld, rfl⟩

theorem cancel_spec (w : Wallet) (cancelledBy : UserId) (reason : String) :
    (∃ es, Step X w (.cancel cancelledBy reason) es ∧
      w.cancel cancelledBy reason = (.ok (.executed ()), w.record es)) ∨
    Unchanged w (w.cancel cancelledBy reason) := by
  unfold cancel
  split
  · exact Or.inr ⟨by simp, rfl⟩
  · split
    · rename_i hstatus
      exact Or.inl ⟨_, .cancelled cancelledBy reason hstatus, rfl⟩
    · exact Or.inr ⟨by simp, rfl⟩
    · rename_i hguard hstatus
      exact absurd hstatus (statusOf_ne_cancelled hguard)

/-- **All a command can do**: take a `Step`, or change nothing. -/
theorem apply_spec (w : Wallet) (c : WalletCommand) :
    (∃ es, Step X w c es ∧ w.apply X c = (.ok (.executed ()), w.record es)) ∨
    Unchanged w (w.apply X c) := by
  cases c with
  | addKeystore keystore user => exact addKeystore_spec w keystore user
  | removeKeystore participant removedBy => exact removeKeystore_spec w participant removedBy
  | cancel cancelledBy reason => exact cancel_spec w cancelledBy reason

/-- A wallet that is active or cancelled ignores every command. -/
theorem apply_frozen {w : Wallet} (h : w.status ≠ .collectingKeystores) (c : WalletCommand) :
    (w.apply X c).2 = w := by
  rcases apply_spec (X := X) w c with ⟨es, hstep, -⟩ | hun
  · exact absurd hstep.collecting h
  · exact hun.2

theorem run_frozen {w : Wallet} (h : w.status ≠ .collectingKeystores) (cs : List WalletCommand) :
    w.run X cs = w := by
  induction cs with
  | nil => rfl
  | cons c cs ih =>
    show run X (w.apply X c).2 cs = w
    rw [apply_frozen h c, ih]

/-! ## The invariant -/

/-- What every registered wallet satisfies, whatever happened to it. -/
structure Inv (X : Extern) (w : Wallet) : Prop where
  policy : 0 < w.threshold.toNat ∧ w.threshold.toNat ≤ w.participants.length
  participants : w.participants.Nodup
  submitters : (w.submissions.map Prod.fst).Nodup
  members : ∀ p ∈ w.submissions.map Prod.fst, p ∈ w.participants
  fingerprints : (w.keystores.map (keystoreFingerprint X)).Nodup
  terminal : ∀ e ∈ w.log.dropLast, e.isTerminal = false
  descriptor : w.status = .active →
    ∃ d, sortedmultiWshDescriptor X w.threshold.toNat w.keystores = .ok d ∧
      w.descriptor = some d ∧
      w.descriptorFingerprint = some (Kota.descriptorFingerprint X d w.network)
  /-- Read only below the bound at which the counts of `add_keystore` are exact. -/
  active_iff : w.participants.length < 2 ^ 32 →
    (w.status = .active ↔ w.submissions.length = w.participants.length)

/-- A keystore is found under its submitter. -/
theorem Inv.keystoreFingerprintOf_eq {w : Wallet} (h : Inv X w) {user : UserId}
    {keystore : DescriptorPublicKey} (hmem : (user, keystore) ∈ w.submissions) :
    w.keystoreFingerprintOf X user = some (keystoreFingerprint X keystore) := by
  unfold keystoreFingerprintOf submissionOf
  rw [Distinct.find?_of_mem h.submitters hmem]
  rfl

/-- The invariant reads the policy and the log, not how the log is split. -/
theorem Inv.of_log_eq {w w' : Wallet} (h : Inv X w) (hn : w'.network = w.network)
    (ht : w'.threshold = w.threshold) (hp : w'.participants = w.participants)
    (hl : w'.log = w.log) : Inv X w' := by
  obtain ⟨h1, h2, h3, h4, h5, h6, h7, h8⟩ := h
  simp only [status, submissions, keystores, Wallet.descriptor, Wallet.descriptorFingerprint]
    at h3 h4 h5 h6 h7 h8
  constructor <;>
    simp only [status, submissions, keystores, Wallet.descriptor, Wallet.descriptorFingerprint,
      hn, ht, hp, hl] <;> assumption

theorem Inv.length_le {w : Wallet} (h : Inv X w) :
    w.submissions.length ≤ w.participants.length := by
  have := Distinct.length_le_of_subset h.submitters h.members
  simpa using this

@[simp] theorem keystores_length (w : Wallet) : w.keystores.length = w.submissions.length :=
  List.length_map _

/-- What a command that executes does to the submissions. -/
def nextSubmissions (submissions : List (UserId × DescriptorPublicKey)) :
    WalletCommand → List (UserId × DescriptorPublicKey)
  | .addKeystore keystore user => submissions ++ [(user, keystore)]
  | .removeKeystore participant _ => submissions.filter fun s => s.1 != participant
  | .cancel _ _ => submissions

theorem append_pair (log : List WalletEvent) (e e' : WalletEvent) :
    log ++ [e, e'] = (log ++ [e]) ++ [e'] := by simp

theorem submissions_record {w : Wallet} {c : WalletCommand} {es : List WalletEvent}
    (h : Step X w c es) : (w.record es).submissions = nextSubmissions w.submissions c := by
  unfold submissions
  rw [record_log]
  cases h with
  | added keystore user => simp [WalletEvent.foldSubmissions, nextSubmissions]
  | activated keystore user descriptor =>
    rw [append_pair, submissionsOf_concat, submissionsOf_concat]
    rfl
  | removed participant keystore removedBy => simp [WalletEvent.foldSubmissions, nextSubmissions]
  | cancelled cancelledBy reason => simp [WalletEvent.foldSubmissions, nextSubmissions]

theorem status_record {w : Wallet} {c : WalletCommand} {es : List WalletEvent}
    (h : Step X w c es) :
    (w.record es).status = .active ↔ ∃ k u d f, es = [.keystoreAdded k u, .activated d f] := by
  have hc := h.collecting
  unfold status at hc ⊢
  rw [record_log]
  cases h with
  | added keystore user => simp [WalletEvent.foldStatus, hc]
  | activated keystore user descriptor =>
    rw [append_pair, statusOf_concat]
    simp [WalletEvent.foldStatus]
  | removed participant keystore removedBy => simp [WalletEvent.foldStatus, hc]
  | cancelled cancelledBy reason => simp [WalletEvent.foldStatus]

theorem keystores_record {w : Wallet} {c : WalletCommand} {es : List WalletEvent}
    (h : Step X w c es) :
    (w.record es).keystores = (nextSubmissions w.submissions c).map Prod.snd := by
  unfold keystores
  rw [submissions_record h]

/-- A log with nothing terminal in it holds no descriptor. -/
theorem findSome?_eq_none_of_collecting {α : Type} {log : List WalletEvent}
    {f : WalletEvent → Option α} (hlog : ∀ e ∈ log, e.isTerminal = false)
    (hf : ∀ e, e.isTerminal = false → f e = none) : log.findSome? f = none :=
  List.findSome?_eq_none_iff.mpr fun e he => hf e (hlog e he)

/-- Below `2 ^ 32` the comparison of `add_keystore` counts exactly. -/
theorem last_iff {w : Wallet} (hlt : w.participants.length < 2 ^ 32)
    (hle : w.submissions.length < w.participants.length) :
    UInt32.ofNat w.keystores.length + 1 = w.totalKeystores ↔
      w.submissions.length + 1 = w.participants.length := by
  unfold totalKeystores
  rw [← UInt32.toNat_inj, UInt32.toNat_add, keystores_length]
  simp only [UInt32.toNat_ofNat', UInt32.toNat_one]
  omega

/-- A step keeps the submissions one a participant. -/
theorem nextSubmissions_submitters {w : Wallet} {c : WalletCommand} {es : List WalletEvent}
    (hs : Step X w c es) (h : Inv X w) :
    ((nextSubmissions w.submissions c).map Prod.fst).Nodup ∧
      ∀ p ∈ (nextSubmissions w.submissions c).map Prod.fst, p ∈ w.participants := by
  have hadd : ∀ (k : DescriptorPublicKey) (user : UserId), user ∈ w.participants →
      user ∉ w.submissions.map Prod.fst →
      ((w.submissions ++ [(user, k)]).map Prod.fst).Nodup ∧
        ∀ p ∈ (w.submissions ++ [(user, k)]).map Prod.fst, p ∈ w.participants := by
    intro k user hmember hfirst
    rw [List.map_append, List.map_singleton]
    refine ⟨List.nodup_append.mpr ⟨h.submitters, List.nodup_singleton _, ?_⟩, ?_⟩
    · rintro a ha b hb rfl
      obtain rfl := List.mem_singleton.mp hb
      exact hfirst ha
    · intro p hp
      rcases List.mem_append.mp hp with hp | hp
      · exact h.members p hp
      · obtain rfl := List.mem_singleton.mp hp
        exact hmember
  cases hs with
  | added keystore user _ hmember hfirst => exact hadd keystore user hmember hfirst
  | activated keystore user _ _ hmember hfirst => exact hadd keystore user hmember hfirst
  | removed participant keystore removedBy =>
    have hsub : ((w.submissions.filter fun s => s.1 != participant).map Prod.fst).Sublist
        (w.submissions.map Prod.fst) := List.filter_sublist.map _
    exact ⟨hsub.nodup h.submitters, fun p hp => h.members p (hsub.subset hp)⟩
  | cancelled cancelledBy reason => exact ⟨h.submitters, h.members⟩

/-- A step keeps the fingerprints of the held keystores distinct. -/
theorem nextSubmissions_fingerprints {w : Wallet} {c : WalletCommand} {es : List WalletEvent}
    (hs : Step X w c es) (h : Inv X w) :
    (((nextSubmissions w.submissions c).map Prod.snd).map (keystoreFingerprint X)).Nodup := by
  have hadd : ∀ (k : DescriptorPublicKey) (user : UserId),
      keystoreFingerprint X k ∉ w.keystores.map (keystoreFingerprint X) →
      (((w.submissions ++ [(user, k)]).map Prod.snd).map (keystoreFingerprint X)).Nodup := by
    intro k user hfresh
    simp only [List.map_append, List.map_singleton]
    refine List.nodup_append.mpr ⟨h.fingerprints, List.nodup_singleton _, ?_⟩
    rintro a ha b hb rfl
    obtain rfl := List.mem_singleton.mp hb
    exact hfresh ha
  cases hs with
  | added keystore user _ _ _ hfresh => exact hadd keystore user hfresh
  | activated keystore user _ _ _ _ hfresh => exact hadd keystore user hfresh
  | removed participant keystore removedBy =>
    exact ((List.filter_sublist.map _).map _).nodup h.fingerprints
  | cancelled cancelledBy reason => exact h.fingerprints

/-- Only the last event of a step can be terminal. -/
theorem Step.dropLast_terminal {w : Wallet} {c : WalletCommand} {es : List WalletEvent}
    (hs : Step X w c es) : es ≠ [] ∧ ∀ e ∈ es.dropLast, e.isTerminal = false := by
  cases hs <;> simp [WalletEvent.isTerminal, WalletEvent.isActivated, WalletEvent.isCancelled]

/-- The step that activates records the canonical descriptor of the keystores it leaves. -/
theorem descriptor_record {w : Wallet} {c : WalletCommand} {es : List WalletEvent}
    (hs : Step X w c es) (hactive : (w.record es).status = .active) :
    ∃ d, sortedmultiWshDescriptor X w.threshold.toNat (w.record es).keystores = .ok d ∧
      (w.record es).descriptor = some d ∧
      (w.record es).descriptorFingerprint =
        some (Kota.descriptorFingerprint X d w.network) := by
  have hlog := statusOf_eq_collecting_iff.mp hs.collecting
  rw [status_record hs] at hactive
  have hkeys := keystores_record hs
  cases hs with
  | activated keystore user d _ _ _ _ _ hderived =>
    refine ⟨d, ?_, ?_, ?_⟩
    · rw [hkeys]
      simpa [nextSubmissions, keystores] using hderived
    · unfold Wallet.descriptor
      rw [record_log, List.findSome?_append, findSome?_eq_none_of_collecting hlog]
      · rfl
      · intro e he
        cases e <;> simp_all [WalletEvent.isTerminal, WalletEvent.isActivated,
          WalletEvent.activatedDescriptor]
    · unfold Wallet.descriptorFingerprint
      rw [record_log, List.findSome?_append, findSome?_eq_none_of_collecting hlog]
      · rfl
      · intro e he
        cases e <;> simp_all [WalletEvent.isTerminal, WalletEvent.isActivated,
          WalletEvent.activatedFingerprint]
  | added | removed | cancelled => simp at hactive

/-- A step that activates is the one that completes the submissions, below the bound. -/
theorem active_iff_record {w : Wallet} {c : WalletCommand} {es : List WalletEvent}
    (hs : Step X w c es) (h : Inv X w) (hlt : w.participants.length < 2 ^ 32) :
    (w.record es).status = .active ↔
      (w.record es).submissions.length = w.participants.length := by
  have hopen : w.submissions.length < w.participants.length := by
    have hne : ¬ w.submissions.length = w.participants.length := fun he => by
      have := (h.active_iff hlt).mpr he
      rw [hs.collecting] at this
      exact absurd this (by simp)
    exact lt_of_le_of_ne h.length_le hne
  have hlast := last_iff hlt hopen
  rw [status_record hs, submissions_record hs]
  cases hs with
  | added keystore user _ _ _ _ hmore =>
    have := mt hlast.mpr hmore
    simpa [nextSubmissions] using this
  | activated keystore user d _ _ _ _ hl _ =>
    simpa [nextSubmissions] using hlast.mp hl
  | removed participant keystore removedBy =>
    have hle := List.length_filter_le (fun s => s.1 != participant) w.submissions
    simp only [nextSubmissions, List.cons.injEq, reduceCtorEq, false_and, exists_false,
      false_iff]
    omega
  | cancelled cancelledBy reason =>
    simp only [nextSubmissions, List.cons.injEq, reduceCtorEq, false_and, exists_false,
      false_iff]
    omega

/-- **A step keeps the invariant.** -/
theorem Inv.record {w : Wallet} {c : WalletCommand} {es : List WalletEvent}
    (h : Inv X w) (hs : Step X w c es) : Inv X (w.record es) where
  policy := h.policy
  participants := h.participants
  submitters := submissions_record hs ▸ (nextSubmissions_submitters hs h).1
  members := submissions_record hs ▸ (nextSubmissions_submitters hs h).2
  fingerprints := keystores_record hs ▸ nextSubmissions_fingerprints hs h
  terminal := by
    have hlog := statusOf_eq_collecting_iff.mp hs.collecting
    obtain ⟨hne, hes⟩ := hs.dropLast_terminal
    rw [record_log, List.dropLast_append_of_ne_nil hne]
    intro e he
    rcases List.mem_append.mp he with he | he
    · exact hlog e he
    · exact hes e he
  descriptor := descriptor_record hs
  active_iff := active_iff_record hs h

/-- What every step keeps, every command keeps. -/
theorem apply_induction {P : Wallet → Prop}
    (hstep : ∀ {w c es}, P w → Step X w c es → P (w.record es)) {w : Wallet} (h : P w)
    (c : WalletCommand) : P (w.apply X c).2 := by
  rcases apply_spec (X := X) w c with ⟨es, hs, he⟩ | ⟨-, he⟩
  · rw [he]
    exact hstep h hs
  · rw [he]
    exact h

/-- What every step keeps, every run keeps. -/
theorem run_induction {P : Wallet → Prop}
    (hstep : ∀ {w c es}, P w → Step X w c es → P (w.record es)) {w : Wallet} (h : P w)
    (cs : List WalletCommand) : P (w.run X cs) := by
  induction cs generalizing w with
  | nil => exact h
  | cons c cs ih => exact ih (apply_induction hstep h c)

theorem apply_id (w : Wallet) (c : WalletCommand) : (w.apply X c).2.id = w.id :=
  apply_induction (P := fun w' => w'.id = w.id) (fun h _ => h) rfl c

theorem apply_persisted (w : Wallet) (c : WalletCommand) :
    (w.apply X c).2.events.persisted = w.events.persisted :=
  apply_induction (P := fun w' => w'.events.persisted = w.events.persisted)
    (fun h _ => (record_persisted _ _).trans h) rfl c

/-- **Every run keeps the invariant.** -/
theorem Inv.run {w : Wallet} (h : Inv X w) (cs : List WalletCommand) : Inv X (w.run X cs) :=
  run_induction Inv.record h cs

/-! ## The policy, and hydration -/

/-- `w` has the identity and the policy of `n`. -/
structure HasPolicy (n : NewWallet) (w : Wallet) : Prop where
  id : w.id = n.id
  network : w.network = n.network
  threshold : w.threshold = n.threshold
  participants : w.participants = n.participants

theorem HasPolicy.record {n : NewWallet} {w : Wallet} (h : HasPolicy n w)
    (es : List WalletEvent) : HasPolicy n (w.record es) :=
  ⟨h.id, h.network, h.threshold, h.participants⟩

theorem HasPolicy.run {n : NewWallet} {w : Wallet} (h : HasPolicy n w)
    (cs : List WalletCommand) : HasPolicy n (w.run X cs) :=
  run_induction (fun h _ => h.record _) h cs

/-- Any events with the log of `w` hydrate to `w`, however many of them are persisted. -/
def Replays (w : Wallet) : Prop :=
  ∀ events : EntityEvents WalletId WalletEvent, events.iterAll = w.log →
    tryFromEvents events = .ok { w with events }

/-- A builder only looks at `Initialized`, which no command appends. -/
theorem Step.foldl_event {w : Wallet} {c : WalletCommand} {es : List WalletEvent}
    (hs : Step X w c es) (b : WalletBuilder) : es.foldl WalletBuilder.event b = b := by
  cases hs <;> rfl

/-- The hydration of a longer log, when its tail tells the builder nothing new. -/
theorem Replays.record {w : Wallet} {c : WalletCommand} {es : List WalletEvent}
    (h : Replays w) (hs : Step X w c es) : Replays (w.record es) := by
  intro events he
  have hw := h (.load w.id w.log) (EntityEvents.iterAll_load _ _)
  unfold tryFromEvents at hw ⊢
  rw [EntityEvents.iterAll_load] at hw
  rw [he, record_log, List.foldl_append, hs.foldl_event]
  generalize w.log.foldl WalletBuilder.event WalletBuilder.default = b at hw ⊢
  obtain ⟨_ | id, _ | network, _ | threshold, _ | participants⟩ := b
  case some.some.some.some =>
    obtain ⟨rfl, rfl, rfl, rfl, -⟩ := Wallet.mk.inj (Except.ok.inj hw)
    rfl
  all_goals exact absurd hw (by simp [WalletBuilder.build])

theorem Replays.run {w : Wallet} (h : Replays w) (cs : List WalletCommand) :
    Replays (w.run X cs) :=
  run_induction Replays.record h cs

end Wallet

/-! ## Registration -/

namespace NewWallet

/-- The wallet that registering `n` leaves in the store. -/
def registered (n : NewWallet) : Wallet :=
  ⟨n.id, n.network, n.threshold, n.participants, .load n.id n.intoEvents.iterAll⟩

@[simp] theorem registered_log (n : NewWallet) :
    n.registered.log = [.initialized n.id n.network n.threshold n.participants] := rfl

theorem tryFromEvents_load (n : NewWallet) :
    Wallet.tryFromEvents (.load n.id n.intoEvents.iterAll) = .ok n.registered := rfl

theorem registered_hasPolicy (n : NewWallet) : Wallet.HasPolicy n n.registered :=
  ⟨rfl, rfl, rfl, rfl⟩

theorem registered_replays (n : NewWallet) : Wallet.Replays n.registered := by
  intro events he
  unfold Wallet.tryFromEvents
  rw [he]
  rfl

theorem registered_status (n : NewWallet) : n.registered.status = .collectingKeystores := rfl

/-- A registered wallet satisfies the invariant. -/
theorem registered_inv (X : Extern) {id : WalletId} {network : Network} {threshold : UInt32}
    {participants : List UserId} {n : NewWallet}
    (hn : new id network threshold participants = .ok n) : Wallet.Inv X n.registered := by
  obtain ⟨hrange, hnodup, rfl⟩ := new_eq_ok_iff.mp hn
  refine ⟨hrange, hnodup, List.nodup_nil, ?_, List.nodup_nil, ?_, ?_, fun _ => ?_⟩
  · exact fun p hp => absurd hp List.not_mem_nil
  · exact fun e he => absurd he List.not_mem_nil
  · exact fun h => absurd h (by simp [registered_status])
  · constructor
    · exact fun h => absurd h (by simp [registered_status])
    · intro h
      have hpos : (0 : Nat) < participants.length := by omega
      exact absurd h.symm (Nat.ne_of_gt hpos)

end NewWallet

/-! ## The lifecycle invariant -/

namespace Wallet

/-- The documented lifecycle of a wallet registered as `n`, as its readings show it. -/
structure LifecycleInvariant (X : Extern) (n : NewWallet) (w : Wallet) : Prop where
  submitters : (w.submissions.map Prod.fst).Nodup
  members : ∀ p ∈ w.submissions.map Prod.fst, p ∈ n.participants
  fingerprints : (w.keystores.map (keystoreFingerprint X)).Nodup
  counted : w.missingKeystores.toNat + w.submissions.length = n.participants.length
  active_iff : w.status = .active ↔ w.submissions.length = n.participants.length
  activated_once : w.log.countP WalletEvent.isActivated ≤ 1
  cancelled_once : w.log.countP WalletEvent.isCancelled ≤ 1
  exclusive : ¬ (w.log.any WalletEvent.isActivated = true ∧
    w.log.any WalletEvent.isCancelled = true)
  last : ∀ pre e post, w.log = pre ++ e :: post → e.isTerminal = true → post = []
  descriptor : w.status = .active →
    ∃ d, sortedmultiWshDescriptor X n.threshold.toNat w.keystores = .ok d ∧
      w.descriptor = some d ∧
      w.descriptorFingerprint = some (Kota.descriptorFingerprint X d n.network)
  frozen : w.status = .active → ∀ cs, (w.run X cs).log = w.log

/-- Who has not submitted, and who has, add up to the participants. -/
theorem Inv.pending_add {w : Wallet} (h : Inv X w) :
    w.pendingParticipants.length + w.submissions.length = w.participants.length := by
  have := Distinct.length_filter_not_mem_add h.participants h.submitters h.members
  simpa [pendingParticipants] using this

/-- With nothing terminal before the last event, at most one event is terminal. -/
theorem countP_le_one {log : List WalletEvent} {p : WalletEvent → Bool}
    (hlog : ∀ e ∈ log.dropLast, e.isTerminal = false)
    (hp : ∀ e, p e = true → e.isTerminal = true) : log.countP p ≤ 1 := by
  induction log using List.reverseRecOn with
  | nil => simp
  | append_singleton log e _ =>
    rw [List.dropLast_concat] at hlog
    have hzero : log.countP p = 0 := by
      rw [List.countP_eq_zero]
      intro x hx hpx
      exact absurd (hp x hpx) (by simp [hlog x hx])
    rw [List.countP_append, hzero, List.countP_singleton]
    split <;> omega

/-- With nothing terminal before the last event, `Activated` and `Cancelled` exclude each
other. -/
theorem not_activated_and_cancelled {log : List WalletEvent}
    (hlog : ∀ e ∈ log.dropLast, e.isTerminal = false) :
    ¬ (log.any WalletEvent.isActivated = true ∧ log.any WalletEvent.isCancelled = true) := by
  rintro ⟨ha, hc⟩
  obtain ⟨a, ha, hpa⟩ := List.any_eq_true.mp ha
  obtain ⟨c, hc, hpc⟩ := List.any_eq_true.mp hc
  induction log using List.reverseRecOn with
  | nil => exact List.not_mem_nil ha
  | append_singleton log e _ =>
    rw [List.dropLast_concat] at hlog
    have hlast : ∀ x ∈ log ++ [e], x.isTerminal = true → x = e := by
      intro x hx ht
      rcases List.mem_append.mp hx with hx | hx
      · rw [hlog x hx] at ht
        exact absurd ht (by simp)
      · exact List.mem_singleton.mp hx
    obtain rfl := hlast a ha (by simp [WalletEvent.isTerminal, hpa])
    obtain rfl := hlast c hc (by simp [WalletEvent.isTerminal, hpc])
    cases c <;> simp_all [WalletEvent.isActivated, WalletEvent.isCancelled]

/-- Below `2 ^ 32` participants the invariant gives the documented lifecycle. -/
theorem Inv.lifecycle {n : NewWallet} {w : Wallet} (h : Inv X w) (hp : HasPolicy n w)
    (hlt : n.participants.length < 2 ^ 32) : LifecycleInvariant X n w where
  submitters := h.submitters
  members := hp.participants ▸ h.members
  fingerprints := h.fingerprints
  counted := by
    have hadd := h.pending_add
    rw [hp.participants] at hadd
    unfold missingKeystores
    rw [UInt32.toNat_ofNat_of_lt' (by simp only [UInt32.size]; omega)]
    exact hadd
  active_iff := by
    have := h.active_iff
    rw [hp.participants] at this
    exact this hlt
  activated_once := countP_le_one h.terminal fun e he => by
    simp [WalletEvent.isTerminal, he]
  cancelled_once := countP_le_one h.terminal fun e he => by
    simp [WalletEvent.isTerminal, he]
  exclusive := not_activated_and_cancelled h.terminal
  last := by
    rintro pre e post hlog ht
    cases post with
    | nil => rfl
    | cons x post =>
      have hmem : e ∈ w.log.dropLast := by
        rw [hlog, List.dropLast_append_of_ne_nil (by simp), List.dropLast_cons_of_ne_nil (by simp)]
        simp
      rw [h.terminal e hmem] at ht
      exact absurd ht (by simp)
  descriptor := by
    rw [← hp.threshold, ← hp.network]
    exact h.descriptor
  frozen := fun ha cs => by rw [run_frozen (by rw [ha]; simp)]

/-- **The lifecycle invariant holds along every run** of a wallet that `NewWallet::new` accepts,
whoever calls which command in whatever order. `missing_keystores` counts in a `u32`, and no list
of participants has more entries than that. -/
theorem lifecycle_of_new {id : WalletId} {network : Network} {threshold : UInt32}
    {participants : List UserId} {n : NewWallet} {w : Wallet}
    (hn : NewWallet.new id network threshold participants = .ok n)
    (hw : tryFromEvents (.load n.id n.intoEvents.iterAll) = .ok w)
    (hlt : participants.length < 2 ^ 32) (cs : List WalletCommand) :
    LifecycleInvariant X n (w.run X cs) := by
  have hinv := NewWallet.registered_inv X hn
  obtain ⟨-, -, hpolicy⟩ := NewWallet.new_eq_ok_iff.mp hn
  have hlen : n.participants = participants := by rw [hpolicy]
  obtain rfl : n.registered = w := by
    rw [NewWallet.tryFromEvents_load] at hw
    exact Except.ok.inj hw
  exact (hinv.run cs).lifecycle (n.registered_hasPolicy.run cs) (hlen ▸ hlt)

/-- Two participants: one keystore is replaced, one submission fails, and a cancellation comes too
late. -/
def pairCommands : List WalletCommand :=
  [.addKeystore (Extern.Sample.key 1) ⟨7⟩, .removeKeystore ⟨7⟩ ⟨8⟩,
    .addKeystore (Extern.Sample.key 2) ⟨8⟩, .addKeystore (Extern.Sample.key 2) ⟨7⟩,
    .addKeystore (Extern.Sample.key 3) ⟨7⟩, .cancel ⟨8⟩ "late"]

theorem lifecycle_of_new_pair :
    LifecycleInvariant (.sample []) ⟨⟨0⟩, .bitcoin, 2, [⟨7⟩, ⟨8⟩]⟩
        ((NewWallet.registered ⟨⟨0⟩, .bitcoin, 2, [⟨7⟩, ⟨8⟩]⟩).run (.sample []) pairCommands) ∧
      ((NewWallet.registered ⟨⟨0⟩, .bitcoin, 2, [⟨7⟩, ⟨8⟩]⟩).run (.sample [])
        pairCommands).keystores = [Extern.Sample.key 2, Extern.Sample.key 3] :=
  ⟨@lifecycle_of_new (.sample []) ⟨0⟩ .bitcoin 2 [⟨7⟩, ⟨8⟩] _ _ rfl rfl (by decide) pairCommands,
    by decide +kernel⟩

end Wallet

end Kota
