import Kota.Lib.Retry
import Kota.PsbtSession.Hydration
import Kota.Wallet.Lifecycle

/-!
# Atomic commands and retries

The ten commands of the two aggregates, as `Kota.Lib.Retry` looks at commands. `apply_spec` gives
all but the repetition: a command takes a `Step`, or changes nothing. What is added here is that
each `Step` leaves a state in which the same call finds its work done, and which calls a later
state still remembers.

* `PsbtSession.safe`, `Wallet.safe`: every command in every state, whatever its arguments.
* `Wallet.Submitted`: the keystore a participant has in the wallet, kept by all but the removal of
  that participant's keystore.

Result: **`commands_retry_safe`**.
-/

namespace Kota

open EventLog Retry

/-! ## Sessions -/

namespace PsbtSession

/-- The session is loaded again from its log. -/
def Reloads (s s' : PsbtSession) : Prop := tryFromEvents (.load s.id s.log) = .ok s'

theorem log_of_reloads {s s' : PsbtSession} (h : Reloads s s') : s'.log = s.log := by
  obtain ⟨hevents, -⟩ := tryFromEvents_eq_ok_iff.mp h
  unfold log
  rw [hevents, EntityEvents.iterAll_load]
  rfl

/-- A guard that nothing resets, right after the event it looks for. -/
theorem guard_record {s : PsbtSession} {applied resets : PsbtSessionEvent → Bool}
    {e : PsbtSessionEvent} (h : applied e = true) : (s.record e).guard applied resets = true := by
  unfold guard
  rw [record_log, alreadyApplied_concat, if_pos h]

theorem applied_recordPsbtCreated {s : PsbtSession} {hash : PsbtHash}
    (h : s.guard PsbtSessionEvent.isPsbtCreated (fun _ => false) = true) :
    AlreadyApplied apply s (.recordPsbtCreated hash) := by
  simp only [AlreadyApplied, apply, recordPsbtCreated]
  rw [if_pos h]

theorem applied_addSignature {s : PsbtSession} {fingerprint : KeyFingerprint} {hash : PsbtHash}
    (h : s.guard (PsbtSessionEvent.isSignatureOf fingerprint) (fun _ => false) = true) :
    AlreadyApplied apply s (.addSignature fingerprint hash) := by
  simp only [AlreadyApplied, apply, addSignature]
  rw [if_pos h]

theorem applied_finalize {s : PsbtSession} {txid : Txid} {hash : PsbtHash}
    {sigsUsed : List KeyFingerprint}
    (h : s.guard PsbtSessionEvent.isFinalized (fun _ => false) = true) :
    AlreadyApplied apply s (.finalize txid hash sigsUsed) := by
  simp only [AlreadyApplied, apply, finalize]
  rw [if_pos h]
  rfl

/-- Right after a step, the same call finds its work done. -/
theorem Step.repeated {s : PsbtSession} {c : PsbtSessionCommand} {e : PsbtSessionEvent}
    (h : Step s c e) : AlreadyApplied apply (s.record e) c := by
  cases h with
  | created hash => exact applied_recordPsbtCreated (guard_record rfl)
  | signed fingerprint hash =>
    exact applied_addSignature (guard_record (by simp [PsbtSessionEvent.isSignatureOf]))
  | finalized txid hash sigsUsed => exact applied_finalize (guard_record rfl)
  | broadcast f recorded =>
    have hfield : (s.record (.broadcastSeen f.txid)).finalization = some f := recorded
    simp only [AlreadyApplied, apply, markBroadcastSeen]
    rw [hfield]
    simp only [ne_eq, not_true_eq_false, if_false]
    rw [if_pos (guard_record rfl)]
  | confirmed f height blockHash recorded =>
    have hfield : (s.record (.confirmed f.txid height blockHash)).finalization = some f := recorded
    simp only [AlreadyApplied, apply, confirm]
    rw [hfield]
    simp only [ne_eq, not_true_eq_false, if_false]
    rw [if_pos (guard_record rfl)]
  | invalidated reason =>
    simp only [AlreadyApplied, apply, invalidate]
    rw [if_pos (guard_record rfl)]
  | cancelled cancelledBy reason =>
    simp only [AlreadyApplied, apply, cancel]
    rw [if_pos (guard_record rfl)]

/-- The step of a call that executed. -/
theorem step_of_executes {s : PsbtSession} {c : PsbtSessionCommand} (h : Executes apply s c) :
    ∃ e, Step s c e ∧ (s.apply c).2 = s.record e :=
  StepsOr.step_of_executes (apply_spec s c) h

/-- **Every command of a session is atomic and safe to repeat.** -/
theorem safe (s : PsbtSession) (c : PsbtSessionCommand) : Safe apply log s c := by
  refine StepsOr.safe (apply_spec s c) (fun e _ => ?_) fun e hs => hs.repeated
  exact ⟨[e], List.cons_ne_nil _ _, record_log s e⟩

/-- A call whose guard looks for the event it writes is remembered. -/
theorem remembered {applied : PsbtSessionEvent → Bool} {c c' : PsbtSessionCommand}
    (hwrites : ∀ s e, Step s c e → applied e = true)
    (hguard : ∀ s : PsbtSession, s.guard applied (fun _ => false) = true →
      AlreadyApplied apply s c') :
    Remembered apply Reloads (fun _ => False) c c' := by
  refine remembered_of_logged applied safe (fun _ _ => log_of_reloads) ?_ ?_
  · intro s hx
    obtain ⟨e, hs, he⟩ := step_of_executes hx
    rw [he, record_log]
    exact ⟨e, List.mem_append_right _ (List.mem_singleton_self e), hwrites s e hs⟩
  · intro s hlog
    exact hguard s (alreadyApplied_iff_exists.mpr hlog)

end PsbtSession

/-! ## Wallets -/

namespace Wallet

variable {X : Extern}

/-- The wallet is loaded again from its log. -/
def Reloads (w w' : Wallet) : Prop := tryFromEvents (.load w.id w.log) = .ok w'

theorem log_of_reloads {w w' : Wallet} (h : Reloads w w') : w'.log = w.log := by
  unfold Reloads tryFromEvents at h
  rw [EntityEvents.iterAll_load] at h
  generalize w.log.foldl WalletBuilder.event WalletBuilder.default = b at h
  obtain ⟨_ | id, _ | network, _ | threshold, _ | participants⟩ := b
  case some.some.some.some =>
    obtain rfl := Except.ok.inj h
    exact EntityEvents.iterAll_load _ _
  all_goals exact absurd h (by simp [WalletBuilder.build])

/-- The participant's keystore in the wallet. -/
def Submitted (keystore : DescriptorPublicKey) (user : UserId) (w : Wallet) : Prop :=
  w.submissionOf user = some (user, keystore)

theorem submitted_iff {keystore : DescriptorPublicKey} {user : UserId} {w : Wallet} :
    Submitted keystore user w ↔
      (submissionsOf w.log).find? (fun s => s.1 == user) = some (user, keystore) := Iff.rfl

theorem applied_addKeystore {keystore : DescriptorPublicKey} {user : UserId} {w : Wallet}
    (h : Submitted keystore user w) : AlreadyApplied (apply X) w (.addKeystore keystore user) := by
  simp only [AlreadyApplied, apply, addKeystore]
  rw [show w.submissionOf user = some (user, keystore) from h, if_pos (by simp)]

theorem applied_cancel {w : Wallet} {cancelledBy : UserId} {reason : String}
    (h : alreadyApplied WalletEvent.isCancelled (fun _ => false) w.log = true) :
    AlreadyApplied (apply X) w (.cancel cancelledBy reason) := by
  simp only [AlreadyApplied, apply, cancel]
  split
  · rfl
  · rename_i hguard
    rw [h] at hguard
    exact absurd hguard (by simp)

/-- The keystore a step adds is its participant's. -/
theorem submitted_append {keystore : DescriptorPublicKey} {user : UserId}
    {submissions : List (UserId × DescriptorPublicKey)}
    (hfirst : user ∉ submissions.map Prod.fst) :
    (submissions ++ [(user, keystore)]).find? (fun s => s.1 == user) = some (user, keystore) := by
  rw [List.find?_append, Distinct.find?_eq_none_iff.mpr hfirst]
  simp

/-- **What keeps a submission**: every step but the removal of the participant's keystore. -/
theorem Submitted.record {keystore : DescriptorPublicKey} {user : UserId} {w : Wallet}
    (h : Submitted keystore user w) {c : WalletCommand} {es : List WalletEvent}
    (hs : Step X w c es) (hkeep : ∀ removedBy, c ≠ .removeKeystore user removedBy) :
    Submitted keystore user (w.record es) := by
  unfold Submitted submissionOf at h ⊢
  rw [submissions_record hs]
  cases hs with
  | added | activated =>
    simp only [nextSubmissions]
    rw [List.find?_append, h]
    rfl
  | removed participant keystore' removedBy =>
    have hne : participant ≠ user := by
      rintro rfl
      exact hkeep removedBy rfl
    simp only [nextSubmissions]
    rw [List.find?_filter]
    refine Eq.trans (congrArg (fun p => w.submissions.find? p) (funext fun s => ?_)) h
    by_cases hu : s.1 = user
    · simp [hu, hne.symm]
    · simp [hu]
  | cancelled => exact h

/-- Right after a step, the same call finds its work done. -/
theorem Step.repeated {w : Wallet} {c : WalletCommand} {es : List WalletEvent}
    (h : Step X w c es) : AlreadyApplied (apply X) (w.record es) c := by
  have hsubmissions := submissions_record h
  cases h with
  | added keystore user _ _ first =>
    refine applied_addKeystore ?_
    unfold Submitted submissionOf
    rw [hsubmissions]
    exact submitted_append first
  | activated keystore user descriptor _ _ first =>
    refine applied_addKeystore ?_
    unfold Submitted submissionOf
    rw [hsubmissions]
    exact submitted_append first
  | removed participant keystore removedBy collecting =>
    have hstatus : (w.record [.keystoreRemoved participant keystore removedBy]).status =
        .collectingKeystores := by
      unfold status at collecting ⊢
      rw [record_log, statusOf_concat]
      exact collecting
    have hnone : (w.record [.keystoreRemoved participant keystore removedBy]).submissionOf
        participant = none := by
      unfold submissionOf
      rw [hsubmissions, Distinct.find?_eq_none_iff]
      simp [nextSubmissions]
    simp only [AlreadyApplied, apply, removeKeystore]
    rw [hstatus, hnone]
  | cancelled cancelledBy reason =>
    refine applied_cancel ?_
    rw [record_log, alreadyApplied_concat]
    rfl

theorem step_of_executes {w : Wallet} {c : WalletCommand} (h : Executes (apply X) w c) :
    ∃ es, Step X w c es ∧ (w.apply X c).2 = w.record es :=
  StepsOr.step_of_executes (apply_spec w c) h

theorem Step.ne_nil {w : Wallet} {c : WalletCommand} {es : List WalletEvent}
    (h : Step X w c es) : es ≠ [] := by
  cases h <;> simp

/-- **Every command of a wallet is atomic and safe to repeat.** -/
theorem safe (w : Wallet) (c : WalletCommand) : Safe (apply X) log w c := by
  refine StepsOr.safe (apply_spec w c) (fun es hs => ?_) fun es hs => hs.repeated
  exact ⟨es, hs.ne_nil, record_log w es⟩

theorem remembered_cancel (cancelledBy cancelledBy' : UserId) (reason reason' : String) :
    Remembered (apply X) Reloads (fun _ => False) (.cancel cancelledBy reason)
      (.cancel cancelledBy' reason') := by
  refine remembered_of_logged WalletEvent.isCancelled safe
    (fun _ _ => log_of_reloads) ?_ ?_
  · intro w hx
    obtain ⟨es, hs, he⟩ := step_of_executes hx
    rw [he, record_log]
    cases hs
    exact ⟨_, List.mem_append_right _ (List.mem_singleton_self _), rfl⟩
  · intro w hlog
    exact applied_cancel (alreadyApplied_iff_exists.mpr hlog)

/-- **A submitted keystore is remembered** until it is removed. -/
theorem remembered_addKeystore (keystore : DescriptorPublicKey) (user : UserId) :
    Remembered (apply X) Reloads (fun c => ∃ removedBy, c = .removeKeystore user removedBy)
      (.addKeystore keystore user) (.addKeystore keystore user) := by
  intro w w' hx hreached
  have hstart : Submitted keystore user (w.apply X (.addKeystore keystore user)).2 := by
    obtain ⟨es, hs, he⟩ := step_of_executes hx
    rw [he]
    unfold Submitted submissionOf
    rw [submissions_record hs]
    cases hs with
    | added _ _ _ _ first => exact submitted_append first
    | activated _ _ _ _ _ first => exact submitted_append first
  refine applied_addKeystore (hreached.keeps hstart (unchanged_of_safe safe) ?_ ?_)
  · intro w'' c h hexec hallowed
    obtain ⟨es, hs, he⟩ := step_of_executes hexec
    rw [he]
    exact h.record hs fun removedBy heq => hallowed ⟨removedBy, heq⟩
  · intro w1 w2 h hreload
    rw [submitted_iff] at h ⊢
    rwa [log_of_reloads hreload]

end Wallet

/-- **Commands are atomic and retry-safe.** For every session and every wallet, every command and
all arguments: a failed call, and one that finds its work done, leaves everything as it was; a call
that executes extends the log, and its repetition finds the work done. A retry that arrives late,
after any commands and reloads, still finds it done for the recorded PSBT, a keystore's signature,
the finalization and a wallet's cancellation, and for a submitted keystore until that participant's
keystore is removed. -/
theorem commands_retry_safe (X : Extern) :
    (∀ (s : PsbtSession) (c : PsbtSessionCommand), Safe PsbtSession.apply PsbtSession.log s c) ∧
    (∀ (w : Wallet) (c : WalletCommand), Safe (Wallet.apply X) Wallet.log w c) ∧
    (∀ hash hash', Remembered PsbtSession.apply PsbtSession.Reloads (fun _ => False)
      (.recordPsbtCreated hash) (.recordPsbtCreated hash')) ∧
    (∀ fingerprint hash hash', Remembered PsbtSession.apply PsbtSession.Reloads (fun _ => False)
      (.addSignature fingerprint hash) (.addSignature fingerprint hash')) ∧
    (∀ txid txid' hash hash' sigsUsed sigsUsed', Remembered PsbtSession.apply PsbtSession.Reloads
      (fun _ => False) (.finalize txid hash sigsUsed) (.finalize txid' hash' sigsUsed')) ∧
    (∀ cancelledBy cancelledBy' reason reason', Remembered (Wallet.apply X) Wallet.Reloads
      (fun _ => False) (.cancel cancelledBy reason) (.cancel cancelledBy' reason')) ∧
    ∀ keystore user, Remembered (Wallet.apply X) Wallet.Reloads
      (fun c => ∃ removedBy, c = .removeKeystore user removedBy)
      (.addKeystore keystore user) (.addKeystore keystore user) := by
  refine ⟨PsbtSession.safe, Wallet.safe, fun hash hash' => ?_, fun fingerprint hash hash' => ?_,
    fun txid txid' hash hash' sigsUsed sigsUsed' => ?_, Wallet.remembered_cancel,
    Wallet.remembered_addKeystore⟩
  · refine PsbtSession.remembered (fun s e hs => ?_) fun s => PsbtSession.applied_recordPsbtCreated
    cases hs
    rfl
  · refine PsbtSession.remembered (fun s e hs => ?_) fun s => PsbtSession.applied_addSignature
    cases hs
    simp [PsbtSessionEvent.isSignatureOf]
  · refine PsbtSession.remembered (fun s e hs => ?_) fun s => PsbtSession.applied_finalize
    cases hs
    rfl

/-- The submission that activates the wallet, and its retry. -/
example :
    let w := (NewWallet.registered ⟨⟨0⟩, .bitcoin, 1, [⟨7⟩]⟩).run (.sample [])
      [.addKeystore (Extern.Sample.key 1) ⟨7⟩]
    w.status = .active ∧
      (w.apply (.sample []) (.addKeystore (Extern.Sample.key 1) ⟨7⟩)).1 = .ok .alreadyApplied := by
  decide +kernel

end Kota
