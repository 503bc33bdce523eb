import Kota.PsbtSession.Entity
import Kota.Wallet.Lifecycle

/-!
# Replay equals memory

What a session command can do, and why a log written by commands always loads.

* `Step s c e` says that command `c` executes on `s` and records `e`; **`apply_spec`** that a
  command either takes such a step or leaves the session as it is.
* `Loaded s`: the fields of `s` are the fold of its log, and `WellFormed s` is what
  `verify_hydrated_invariants` checks. `tryFromEvents_eq_ok_iff` says that hydration succeeds on
  exactly these.
* **`replay_eq_memory`**: after any commands on a hydrated session, its events hydrate again, to
  the same session. The start is any log that hydrates, in whatever order its events stand, so
  the argument never uses the lifecycle.
-/

namespace Kota

open EventLog

/-- What the newest of `Confirmed` and `Invalidated` says about the chain. -/
inductive ChainTip where
  | confirmed
  | invalidated
  deriving DecidableEq, Repr

namespace PsbtSessionEvent

def tip : PsbtSessionEvent → Option ChainTip
  | .confirmed .. => some .confirmed
  | .invalidated .. => some .invalidated
  | _ => none

def signature : PsbtSessionEvent → Option SignatureRecord
  | .signatureAdded fingerprint signedPsbtHash => some ⟨fingerprint, signedPsbtHash⟩
  | _ => none

def unsignedPsbtHash : PsbtSessionEvent → Option PsbtHash
  | .psbtCreated unsignedPsbtHash => some unsignedPsbtHash
  | _ => none

def finalization : PsbtSessionEvent → Option FinalizationRecord
  | .finalized txid finalTxHash sigsUsed => some ⟨txid, finalTxHash, sigsUsed⟩
  | _ => none

end PsbtSessionEvent

namespace PsbtSession

/-! ## What a command can do -/

/-- The session with `e` recorded: appended to the log, and the field it is kept in updated. -/
def record (s : PsbtSession) (e : PsbtSessionEvent) : PsbtSession :=
  match e with
  | .psbtCreated hash => { s with unsignedPsbtHash := some hash, events := s.events.push e }
  | .signatureAdded fingerprint hash => { s with
      signatures := s.signatures ++ [⟨fingerprint, hash⟩]
      events := s.events.push e }
  | .finalized txid hash sigsUsed => { s with
      finalization := some ⟨txid, hash, sigsUsed⟩
      events := s.events.push e }
  | _ => { s with events := s.events.push e }

@[simp] theorem record_events (s : PsbtSession) (e : PsbtSessionEvent) :
    (s.record e).events = s.events.push e := by
  cases e <;> rfl

@[simp] theorem record_log (s : PsbtSession) (e : PsbtSessionEvent) :
    (s.record e).log = s.log ++ [e] := by
  unfold log
  rw [record_events, EntityEvents.iterAll_push]

@[simp] theorem record_status (s : PsbtSession) (e : PsbtSessionEvent) :
    (s.record e).status = e.status.getD s.status := by
  unfold status
  rw [record_log, PsbtSessionStatus.ofLog_concat]

@[simp] theorem record_id (s : PsbtSession) (e : PsbtSessionEvent) : (s.record e).id = s.id := by
  cases e <;> rfl

@[simp] theorem record_walletId (s : PsbtSession) (e : PsbtSessionEvent) :
    (s.record e).walletId = s.walletId := by
  cases e <;> rfl

@[simp] theorem record_spend (s : PsbtSession) (e : PsbtSessionEvent) :
    (s.record e).spend = s.spend := by
  cases e <;> rfl

@[simp] theorem record_threshold (s : PsbtSession) (e : PsbtSessionEvent) :
    (s.record e).threshold = s.threshold := by
  cases e <;> rfl

@[simp] theorem record_keystores (s : PsbtSession) (e : PsbtSessionEvent) :
    (s.record e).keystores = s.keystores := by
  cases e <;> rfl

/-- Command `c` executes on `s` and records `e`. -/
inductive Step (s : PsbtSession) : PsbtSessionCommand → PsbtSessionEvent → Prop
  | created (hash : PsbtHash)
      (once : ∀ e ∈ s.log, e.isPsbtCreated = false) (pending : s.status = .pending) :
      Step s (.recordPsbtCreated hash) (.psbtCreated hash)
  | signed (fingerprint : KeyFingerprint) (hash : PsbtHash)
      (once : ∀ e ∈ s.log, e.isSignatureOf fingerprint = false)
      (collecting : s.status = .collecting) (policy : fingerprint ∈ s.keystores) :
      Step s (.addSignature fingerprint hash) (.signatureAdded fingerprint hash)
  | finalized (txid : Txid) (hash : PsbtHash) (sigsUsed : List KeyFingerprint)
      (once : ∀ e ∈ s.log, e.isFinalized = false) (collecting : s.status = .collecting)
      (enough : s.threshold.toNat ≤ sigsUsed.length) (distinct : sigsUsed.Nodup)
      (collected : ∀ fp ∈ sigsUsed, s.hasSigned fp = true) :
      Step s (.finalize txid hash sigsUsed) (.finalized txid hash (Sorting.sort sigsUsed))
  | broadcast (f : FinalizationRecord) (recorded : s.finalization = some f)
      (once : ∀ e ∈ s.log, e.isBroadcastSeen = false) (unconfirmed : s.status ≠ .confirmed) :
      Step s (.markBroadcastSeen f.txid) (.broadcastSeen f.txid)
  | confirmed (f : FinalizationRecord) (height : UInt64) (blockHash : BlockHash)
      (recorded : s.finalization = some f)
      (fresh : latest PsbtSessionEvent.tip s.log ≠ some .confirmed) :
      Step s (.confirm f.txid height blockHash) (.confirmed f.txid height blockHash)
  | invalidated (reason : InvalidationReason)
      (fresh : latest PsbtSessionEvent.tip s.log ≠ some .invalidated)
      (onChain : s.status = .broadcast ∨ s.status = .confirmed) :
      Step s (.invalidate reason) (.invalidated reason)
  | cancelled (cancelledBy : UserId) (reason : String)
      (once : ∀ e ∈ s.log, e.isCancelled = false)
      (early : s.status = .pending ∨ s.status = .collecting ∨ s.status = .finalized) :
      Step s (.cancel cancelledBy reason) (.cancelled cancelledBy reason)

/-- A command changed nothing: it failed, or found its work done. -/
def Unchanged (s : PsbtSession) (r : Except PsbtSessionError (Idempotent Unit) × PsbtSession) :
    Prop :=
  r.1 ≠ .ok (.executed ()) ∧ r.2 = s

/-- A guard without resets lets a command through while the log has no such event. -/
theorem guard_eq_false_iff {s : PsbtSession} {applied : PsbtSessionEvent → Bool} :
    s.guard applied (fun _ => false) = false ↔ ∀ e ∈ s.log, applied e = false := by
  unfold guard
  rw [← Bool.not_eq_true, alreadyApplied_iff_exists]
  simp

theorem once_of_guard {s : PsbtSession} {applied : PsbtSessionEvent → Bool}
    (h : ¬ s.guard applied (fun _ => false) = true) : ∀ e ∈ s.log, applied e = false :=
  guard_eq_false_iff.mp (Bool.not_eq_true _ ▸ h)

theorem guard_confirmed_iff {s : PsbtSession} :
    s.guard PsbtSessionEvent.isConfirmed PsbtSessionEvent.isInvalidated = true ↔
      latest PsbtSessionEvent.tip s.log = some .confirmed := by
  refine alreadyApplied_iff_latest (fun e => ?_) (fun e => ?_) s.log <;>
    cases e <;> simp [PsbtSessionEvent.isConfirmed, PsbtSessionEvent.isInvalidated,
      PsbtSessionEvent.tip]

theorem guard_invalidated_iff {s : PsbtSession} :
    s.guard PsbtSessionEvent.isInvalidated PsbtSessionEvent.isConfirmed = true ↔
      latest PsbtSessionEvent.tip s.log = some .invalidated := by
  refine alreadyApplied_iff_latest (fun e => ?_) (fun e => ?_) s.log <;>
    cases e <;> simp [PsbtSessionEvent.isConfirmed, PsbtSessionEvent.isInvalidated,
      PsbtSessionEvent.tip]

theorem isCollecting_iff {s : PsbtSession} : s.isCollecting = true ↔ s.status = .collecting := by
  simp [isCollecting]

theorem recordPsbtCreated_spec (s : PsbtSession) (hash : PsbtHash) :
    (∃ e, Step s (.recordPsbtCreated hash) e ∧
      s.recordPsbtCreated hash = (.ok (.executed ()), s.record e)) ∨
    Unchanged s (s.recordPsbtCreated hash) := by
  unfold recordPsbtCreated
  split
  · exact Or.inr ⟨by simp, rfl⟩
  · rename_i hguard
    split
    · exact Or.inr ⟨by simp, rfl⟩
    · rename_i hpending
      exact Or.inl ⟨_, .created hash (once_of_guard hguard) (not_not.mp hpending), rfl⟩

/-- The first PSBT of a pending session is recorded. -/
theorem recordPsbtCreated_pending {s : PsbtSession}
    (once : ∀ e ∈ s.log, e.isPsbtCreated = false) (pending : s.status = .pending)
    (hash : PsbtHash) :
    s.recordPsbtCreated hash = (.ok (.executed ()), s.record (.psbtCreated hash)) := by
  unfold recordPsbtCreated
  rw [guard_eq_false_iff.mpr once, if_neg Bool.false_ne_true, if_neg (not_not.mpr pending)]
  rfl

theorem addSignature_spec (s : PsbtSession) (fingerprint : KeyFingerprint) (hash : PsbtHash) :
    (∃ e, Step s (.addSignature fingerprint hash) e ∧
      s.addSignature fingerprint hash = (.ok (.executed ()), s.record e)) ∨
    Unchanged s (s.addSignature fingerprint hash) := by
  unfold addSignature
  split
  · exact Or.inr ⟨by simp, rfl⟩
  · rename_i hguard
    split
    · exact Or.inr ⟨by simp, rfl⟩
    · rename_i hcollecting
      split
      · exact Or.inr ⟨by simp, rfl⟩
      · rename_i hpolicy
        refine Or.inl ⟨_, .signed fingerprint hash (once_of_guard hguard) ?_ ?_, rfl⟩
        · exact isCollecting_iff.mp (by simpa using hcollecting)
        · simpa using hpolicy

/-- `finalize` executes exactly on at least `threshold` distinct collected fingerprints. -/
theorem finalize_spec (s : PsbtSession) (txid : Txid) (hash : PsbtHash)
    (sigsUsed : List KeyFingerprint) :
    (∃ e, Step s (.finalize txid hash sigsUsed) e ∧
      s.finalize txid hash sigsUsed = (.ok (.executed txid), s.record e)) ∨
    (∀ t, (s.finalize txid hash sigsUsed).1 ≠ .ok (.executed t)) ∧
      (s.finalize txid hash sigsUsed).2 = s := by
  unfold finalize
  split
  · exact Or.inr ⟨by simp, rfl⟩
  · rename_i hguard
    split
    · exact Or.inr ⟨by simp, rfl⟩
    · rename_i hcollecting
      split
      · exact Or.inr ⟨by simp, rfl⟩
      · rename_i henough
        dsimp only
        split
        · exact Or.inr ⟨by simp, rfl⟩
        · rename_i hdistinct
          have hnodup : sigsUsed.Nodup := Sorting.length_dedup_sort_iff.mp (not_not.mp hdistinct)
          rw [Sorting.dedup_sort_of_nodup hnodup]
          split
          · exact Or.inr ⟨by simp, rfl⟩
          · rename_i hcollected
            refine Or.inl ⟨_, .finalized txid hash sigsUsed (once_of_guard hguard) ?_
              (Nat.not_lt.mp henough) hnodup ?_, rfl⟩
            · exact isCollecting_iff.mp (by simpa using hcollecting)
            · intro fp hfp
              have hall : (Sorting.sort sigsUsed).all s.hasSigned = true := by
                simpa using hcollected
              exact List.all_eq_true.mp hall fp (Sorting.mem_sort.mpr hfp)

theorem markBroadcastSeen_spec (s : PsbtSession) (txid : Txid) :
    (∃ e, Step s (.markBroadcastSeen txid) e ∧
      s.markBroadcastSeen txid = (.ok (.executed ()), s.record e)) ∨
    Unchanged s (s.markBroadcastSeen txid) := by
  unfold markBroadcastSeen
  split
  · exact Or.inr ⟨by simp, rfl⟩
  · rename_i f hrecorded
    split
    · exact Or.inr ⟨by simp, rfl⟩
    · rename_i hsame
      obtain rfl : f.txid = txid := not_not.mp hsame
      split
      · exact Or.inr ⟨by simp, rfl⟩
      · rename_i hguard
        split
        · exact Or.inr ⟨by simp, rfl⟩
        · rename_i hunconfirmed
          exact Or.inl ⟨_, .broadcast f hrecorded (once_of_guard hguard) hunconfirmed, rfl⟩

theorem confirm_spec (s : PsbtSession) (txid : Txid) (height : UInt64) (blockHash : BlockHash) :
    (∃ e, Step s (.confirm txid height blockHash) e ∧
      s.confirm txid height blockHash = (.ok (.executed ()), s.record e)) ∨
    Unchanged s (s.confirm txid height blockHash) := by
  unfold confirm
  split
  · exact Or.inr ⟨by simp, rfl⟩
  · rename_i f hrecorded
    split
    · exact Or.inr ⟨by simp, rfl⟩
    · rename_i hsame
      obtain rfl : f.txid = txid := not_not.mp hsame
      split
      · exact Or.inr ⟨by simp, rfl⟩
      · rename_i hguard
        exact Or.inl ⟨_, .confirmed f height blockHash hrecorded
          (fun h => hguard (guard_confirmed_iff.mpr h)), rfl⟩

theorem invalidate_spec (s : PsbtSession) (reason : InvalidationReason) :
    (∃ e, Step s (.invalidate reason) e ∧
      s.invalidate reason = (.ok (.executed ()), s.record e)) ∨
    Unchanged s (s.invalidate reason) := by
  unfold invalidate
  split
  · exact Or.inr ⟨by simp, rfl⟩
  · rename_i hguard
    have hfresh := fun h => hguard (guard_invalidated_iff.mpr h)
    split
    · rename_i hstatus
      exact Or.inl ⟨_, .invalidated reason hfresh (Or.inl hstatus), rfl⟩
    · rename_i hstatus
      exact Or.inl ⟨_, .invalidated reason hfresh (Or.inr hstatus), rfl⟩
    · exact Or.inr ⟨by simp, rfl⟩

theorem cancel_spec (s : PsbtSession) (cancelledBy : UserId) (reason : String) :
    (∃ e, Step s (.cancel cancelledBy reason) e ∧
      s.cancel cancelledBy reason = (.ok (.executed ()), s.record e)) ∨
    Unchanged s (s.cancel cancelledBy reason) := by
  unfold cancel
  split
  · exact Or.inr ⟨by simp, rfl⟩
  · rename_i hguard
    have honce := once_of_guard hguard
    split
    · rename_i hstatus
      exact Or.inl ⟨_, .cancelled cancelledBy reason honce (Or.inl hstatus), rfl⟩
    · rename_i hstatus
      exact Or.inl ⟨_, .cancelled cancelledBy reason honce (Or.inr (Or.inl hstatus)), rfl⟩
    · rename_i hstatus
      exact Or.inl ⟨_, .cancelled cancelledBy reason honce (Or.inr (Or.inr hstatus)), rfl⟩
    · exact Or.inr ⟨by simp, rfl⟩

/-- An answer other than `Executed` stays one when its transaction id is dropped. -/
theorem map_ne_executed {answer : Except PsbtSessionError (Idempotent Txid)}
    (h : ∀ t, answer ≠ .ok (.executed t)) :
    (answer.map fun a => a.map fun _ => ()) ≠ .ok (.executed ()) := by
  rcases answer with e | (t | _)
  · simp [Except.map]
  · exact absurd rfl (h t)
  · simp [Except.map, Idempotent.map]

/-- **All a command can do**: take a `Step`, or change nothing. -/
theorem apply_spec (s : PsbtSession) (c : PsbtSessionCommand) :
    (∃ e, Step s c e ∧ s.apply c = (.ok (.executed ()), s.record e)) ∨
    Unchanged s (s.apply c) := by
  cases c with
  | recordPsbtCreated hash => exact recordPsbtCreated_spec s hash
  | addSignature fingerprint hash => exact addSignature_spec s fingerprint hash
  | finalize txid hash sigsUsed =>
    rcases finalize_spec s txid hash sigsUsed with ⟨e, hstep, he⟩ | ⟨hne, heq⟩
    · exact Or.inl ⟨e, hstep, by simp [apply, he, Except.map, Idempotent.map]⟩
    · exact Or.inr ⟨map_ne_executed hne, heq⟩
  | markBroadcastSeen txid => exact markBroadcastSeen_spec s txid
  | confirm txid height blockHash => exact confirm_spec s txid height blockHash
  | invalidate reason => exact invalidate_spec s reason
  | cancel cancelledBy reason => exact cancel_spec s cancelledBy reason

/-- What every step keeps, every command keeps. -/
theorem apply_induction {P : PsbtSession → Prop}
    (hstep : ∀ {s c e}, P s → Step s c e → P (s.record e)) {s : PsbtSession} (h : P s)
    (c : PsbtSessionCommand) : P (s.apply c).2 := by
  rcases apply_spec s c with ⟨e, hs, he⟩ | ⟨-, he⟩
  · rw [he]
    exact hstep h hs
  · rw [he]
    exact h

/-- What every step keeps, every run keeps. -/
theorem run_induction {P : PsbtSession → Prop}
    (hstep : ∀ {s c e}, P s → Step s c e → P (s.record e)) {s : PsbtSession} (h : P s)
    (cs : List PsbtSessionCommand) : P (s.run cs) := by
  induction cs generalizing s with
  | nil => exact h
  | cons c cs ih => exact ih (apply_induction hstep h c)

theorem apply_id (s : PsbtSession) (c : PsbtSessionCommand) : (s.apply c).2.id = s.id :=
  apply_induction (P := fun s' => s'.id = s.id) (fun h _ => (record_id _ _).trans h) rfl c

theorem id_run (s : PsbtSession) (cs : List PsbtSessionCommand) : (s.run cs).id = s.id :=
  run_induction (P := fun s' => s'.id = s.id) (fun h _ => (record_id _ _).trans h) rfl cs

theorem apply_persisted (s : PsbtSession) (c : PsbtSessionCommand) :
    (s.apply c).2.events.persisted = s.events.persisted :=
  apply_induction (P := fun s' => s'.events.persisted = s.events.persisted)
    (fun h _ => by rw [record_events, EntityEvents.persisted_push, h]) rfl c

/-! ## What hydration checks -/

/-- The keystores that have signed, in recording order. -/
def signers (s : PsbtSession) : List KeyFingerprint := s.signatures.map SignatureRecord.fingerprint

@[simp] theorem signers_record_signed (s : PsbtSession) (fp : KeyFingerprint) (hash : PsbtHash) :
    (s.record (.signatureAdded fp hash)).signers = s.signers ++ [fp] := by
  simp [signers, record]

/-- The construction invariants of a session. -/
structure WellFormed (s : PsbtSession) : Prop where
  threshold_pos : 0 < s.threshold.toNat
  threshold_le : s.threshold.toNat ≤ s.keystores.length
  keystores : s.keystores.Nodup
  signers : s.signers.Nodup
  policy : ∀ fp ∈ s.signers, fp ∈ s.keystores
  finalization : ∀ f, s.finalization = some f →
    s.threshold.toNat ≤ f.sigsUsed.length ∧ f.sigsUsed.Nodup ∧
      ∀ fp ∈ f.sigsUsed, fp ∈ s.signers

theorem hasSigned_iff {s : PsbtSession} {fp : KeyFingerprint} :
    s.hasSigned fp = true ↔ fp ∈ s.signers := by
  simp [hasSigned, signers]

theorem verifySignatures_eq_ok_iff {keystores : List KeyFingerprint} :
    ∀ (signatures : List SignatureRecord) (seen : List KeyFingerprint),
      verifySignatures keystores seen signatures = .ok () ↔
        (∀ fp ∈ signatures.map SignatureRecord.fingerprint, fp ∈ keystores) ∧
        (∀ fp ∈ signatures.map SignatureRecord.fingerprint, fp ∉ seen) ∧
        (signatures.map SignatureRecord.fingerprint).Nodup
  | [], seen => by simp [verifySignatures]
  | sig :: rest, seen => by
    unfold verifySignatures
    have ih := @verifySignatures_eq_ok_iff keystores rest (sig.fingerprint :: seen)
    split
    · rename_i h
      have hnot : sig.fingerprint ∉ keystores := by simpa using h
      simp [hnot]
    · rename_i h
      have hin : sig.fingerprint ∈ keystores := by simpa using h
      split
      · rename_i hseen
        have hseen' : sig.fingerprint ∈ seen := by simpa using hseen
        simp [hseen']
      · rename_i hseen
        have hseen' : sig.fingerprint ∉ seen := by simpa using hseen
        rw [ih, List.map_cons, List.nodup_cons]
        simp only [List.mem_cons, forall_eq_or_imp, not_or]
        constructor
        · rintro ⟨h1, h2, h3⟩
          exact ⟨⟨hin, h1⟩, ⟨hseen', fun fp hfp => (h2 fp hfp).2⟩,
            fun hm => (h2 _ hm).1 rfl, h3⟩
        · rintro ⟨⟨-, h1⟩, ⟨-, h2⟩, h3, h4⟩
          refine ⟨h1, fun fp hfp => ⟨?_, h2 fp hfp⟩, h4⟩
          rintro rfl
          exact h3 hfp

theorem verifyFinalization_eq_ok_iff {s : PsbtSession} :
    s.verifyFinalization = .ok () ↔ ∀ f, s.finalization = some f →
      s.threshold.toNat ≤ f.sigsUsed.length ∧ f.sigsUsed.Nodup ∧
        ∀ fp ∈ f.sigsUsed, fp ∈ s.signers := by
  unfold verifyFinalization
  cases hf : s.finalization with
  | none => simp
  | some f =>
    simp only [Option.some.injEq, forall_eq']
    split
    · rename_i h
      simp only [reduceCtorEq, false_iff, not_and]
      omega
    · rename_i h
      split
      · rename_i hdup
        have hnot : ¬ f.sigsUsed.Nodup := fun hn => hdup (Sorting.length_dedup_sort_iff.mpr hn)
        simp [hnot]
      · rename_i hdup
        have hnodup := Sorting.length_dedup_sort_iff.mp (not_not.mp hdup)
        have hsub : (f.sigsUsed.all fun fp => s.signatures.any fun r => r.fingerprint == fp) =
            true ↔ ∀ fp ∈ f.sigsUsed, fp ∈ s.signers := by
          simp [List.all_eq_true, signers]
        split
        · rename_i hall
          have hnot : ¬ ∀ fp ∈ f.sigsUsed, fp ∈ s.signers := fun hm => by
            rw [hsub.mpr hm] at hall
            exact absurd hall (by simp)
          simp only [reduceCtorEq, false_iff, not_and]
          exact fun _ _ => hnot
        · rename_i hall
          have hm := hsub.mp (by simpa using hall)
          exact iff_of_true rfl ⟨Nat.not_lt.mp h, hnodup, hm⟩

/-- **`verify_hydrated_invariants` accepts exactly the well-formed sessions.** -/
theorem verifyHydratedInvariants_eq_ok_iff {s : PsbtSession} :
    s.verifyHydratedInvariants = .ok () ↔ WellFormed s := by
  have hzero : s.threshold = 0 ↔ s.threshold.toNat = 0 := by
    rw [← UInt32.toNat_inj]
    rfl
  unfold verifyHydratedInvariants
  split
  · rename_i h
    simp only [Bool.or_eq_true, decide_eq_true_eq, hzero] at h
    simp only [reduceCtorEq, false_iff]
    intro hw
    have h1 := hw.threshold_pos
    have h2 := hw.threshold_le
    omega
  · rename_i h
    simp only [Bool.or_eq_true, decide_eq_true_eq, hzero, not_or] at h
    split
    · rename_i hdup
      simp only [reduceCtorEq, false_iff]
      exact fun hw => hdup (Sorting.length_dedup_sort_iff.mpr hw.keystores)
    · rename_i hdup
      have hnodup := Sorting.length_dedup_sort_iff.mp (not_not.mp hdup)
      have hsigs := @verifySignatures_eq_ok_iff s.keystores s.signatures []
      change _ ↔ (∀ fp ∈ s.signers, fp ∈ s.keystores) ∧ (∀ fp ∈ s.signers, fp ∉ []) ∧
        s.signers.Nodup at hsigs
      split
      · rename_i e he
        rw [he] at hsigs
        simp only [reduceCtorEq, false_iff] at hsigs ⊢
        exact fun hw => hsigs ⟨hw.policy, fun _ _ => List.not_mem_nil, hw.signers⟩
      · rename_i he
        obtain ⟨hpolicy, -, hsigners⟩ := hsigs.mp he
        rw [verifyFinalization_eq_ok_iff]
        constructor
        · intro hf
          exact ⟨by omega, by omega, hnodup, hsigners, hpolicy, hf⟩
        · exact fun hw => hw.finalization

/-! ## The fields are the fold of the log -/

/-- The builder that holds the fields of `s`. -/
def builder (s : PsbtSession) : PsbtSessionBuilder :=
  ⟨some s.id, some s.walletId, some s.proposedBy, some s.spend, s.unsignedPsbtHash,
    some s.threshold, some s.keystores, s.signatures, s.finalization⟩

theorem build_eq_ok_iff {b : PsbtSessionBuilder}
    {events : EntityEvents PsbtSessionId PsbtSessionEvent} {s : PsbtSession} :
    b.build events = .ok s ↔ b = s.builder ∧ s.events = events := by
  constructor
  · intro h
    unfold PsbtSessionBuilder.build at h
    obtain ⟨_, _, _, _, _, _, _, _, _⟩ := b
    repeat' split at h
    all_goals first
      | obtain rfl := Except.ok.inj h
        simp_all [builder]
      | exact absurd h (by simp)
  · rintro ⟨rfl, rfl⟩
    rfl

/-- The fields of `s` are what the loop of `try_from_events` makes of its log. -/
def Hydrates (s : PsbtSession) : Prop :=
  s.log.foldl PsbtSessionBuilder.event PsbtSessionBuilder.default = s.builder

/-- The state of a session that can be loaded. -/
structure Loaded (s : PsbtSession) : Prop where
  hydrates : Hydrates s
  wellFormed : WellFormed s

/-- **What hydrates**: a log that folds to the fields of a well-formed session. -/
theorem tryFromEvents_eq_ok_iff {events : EntityEvents PsbtSessionId PsbtSessionEvent}
    {s : PsbtSession} : tryFromEvents events = .ok s ↔ s.events = events ∧ Loaded s := by
  unfold tryFromEvents
  constructor
  · intro h
    split at h
    · exact absurd h (by simp)
    · rename_i entity hbuild
      split at h
      · exact absurd h (by simp)
      · rename_i hverify
        obtain rfl := Except.ok.inj h
        obtain ⟨hb, rfl⟩ := build_eq_ok_iff.mp hbuild
        exact ⟨rfl, hb, verifyHydratedInvariants_eq_ok_iff.mp hverify⟩
  · rintro ⟨rfl, hb, hw⟩
    have hbuild : PsbtSessionBuilder.build
        (s.events.iterAll.foldl PsbtSessionBuilder.event PsbtSessionBuilder.default) s.events =
        .ok s := build_eq_ok_iff.mpr ⟨hb, rfl⟩
    rw [hbuild]
    simp only [verifyHydratedInvariants_eq_ok_iff.mpr hw]

/-- A loaded session is loaded however its events are split into persisted and fresh ones. -/
theorem Loaded.of_log_eq {s : PsbtSession} (h : Loaded s)
    {events : EntityEvents PsbtSessionId PsbtSessionEvent} (hlog : events.iterAll = s.log) :
    Loaded { s with events } := by
  refine ⟨?_, h.wellFormed.1, h.wellFormed.2, h.wellFormed.3, h.wellFormed.4, h.wellFormed.5,
    h.wellFormed.6⟩
  have := h.hydrates
  unfold Hydrates log at this ⊢
  rw [hlog]
  exact this

theorem foldl_event_signatures (log : List PsbtSessionEvent) :
    (log.foldl PsbtSessionBuilder.event PsbtSessionBuilder.default).signatures =
      log.filterMap PsbtSessionEvent.signature := by
  induction log using List.reverseRecOn with
  | nil => rfl
  | append_singleton log e ih =>
    rw [List.foldl_append, List.filterMap_append, ← ih]
    cases e <;> simp [PsbtSessionBuilder.event, PsbtSessionEvent.signature]

theorem foldl_event_unsignedPsbtHash (log : List PsbtSessionEvent) :
    (log.foldl PsbtSessionBuilder.event PsbtSessionBuilder.default).unsignedPsbtHash =
      latest PsbtSessionEvent.unsignedPsbtHash log := by
  induction log using List.reverseRecOn with
  | nil => rfl
  | append_singleton log e ih =>
    rw [List.foldl_append, latest_concat, ← ih]
    cases e <;> simp [PsbtSessionBuilder.event, PsbtSessionEvent.unsignedPsbtHash]

theorem foldl_event_finalization (log : List PsbtSessionEvent) :
    (log.foldl PsbtSessionBuilder.event PsbtSessionBuilder.default).finalization =
      latest PsbtSessionEvent.finalization log := by
  induction log using List.reverseRecOn with
  | nil => rfl
  | append_singleton log e ih =>
    rw [List.foldl_append, latest_concat, ← ih]
    cases e <;> simp [PsbtSessionBuilder.event, PsbtSessionEvent.finalization]

theorem Hydrates.signatures_eq {s : PsbtSession} (h : Hydrates s) :
    s.signatures = s.log.filterMap PsbtSessionEvent.signature := by
  rw [← foldl_event_signatures, h]
  rfl

theorem Hydrates.unsignedPsbtHash_eq {s : PsbtSession} (h : Hydrates s) :
    s.unsignedPsbtHash = latest PsbtSessionEvent.unsignedPsbtHash s.log := by
  rw [← foldl_event_unsignedPsbtHash, h]
  rfl

/-- The recorded unsigned PSBT is that of a `PsbtCreated` event. -/
theorem Hydrates.psbtCreated_mem {s : PsbtSession} (h : Hydrates s) {hash : PsbtHash}
    (hhash : s.unsignedPsbtHash = some hash) : .psbtCreated hash ∈ s.log := by
  rw [h.unsignedPsbtHash_eq] at hhash
  obtain ⟨e, he, hread⟩ := latest_mem hhash
  cases e with
  | psbtCreated hash' =>
    obtain rfl := Option.some.inj hread
    exact he
  | _ => exact absurd hread (by simp [PsbtSessionEvent.unsignedPsbtHash])

theorem Hydrates.finalization_eq {s : PsbtSession} (h : Hydrates s) :
    s.finalization = latest PsbtSessionEvent.finalization s.log := by
  rw [← foldl_event_finalization, h]
  rfl

theorem Step.not_initialized {s : PsbtSession} {c : PsbtSessionCommand} {e : PsbtSessionEvent}
    (hs : Step s c e) : s.builder.event e = (s.record e).builder := by
  cases hs <;> rfl

/-- Every command updates its field the way the loop does. -/
theorem Hydrates.record {s : PsbtSession} {c : PsbtSessionCommand} {e : PsbtSessionEvent}
    (h : Hydrates s) (hs : Step s c e) : Hydrates (s.record e) := by
  unfold Hydrates at h ⊢
  rw [record_log, List.foldl_append, h]
  exact hs.not_initialized

/-- Who has signed is who has a `SignatureAdded` in the log. -/
theorem Hydrates.mem_signers {s : PsbtSession} (h : Hydrates s) {fp : KeyFingerprint} :
    fp ∈ s.signers ↔ ∃ e ∈ s.log, e.isSignatureOf fp = true := by
  unfold signers
  rw [h.signatures_eq]
  simp only [List.mem_map, List.mem_filterMap]
  constructor
  · rintro ⟨r, ⟨e, he, hsig⟩, rfl⟩
    refine ⟨e, he, ?_⟩
    cases e with
    | signatureAdded fp h =>
      obtain rfl := Option.some.inj hsig
      simp [PsbtSessionEvent.isSignatureOf]
    | _ => exact absurd hsig (by simp [PsbtSessionEvent.signature])
  · rintro ⟨e, he, hsig⟩
    cases e with
    | signatureAdded fp' hash =>
      obtain rfl : fp' = fp := by simpa [PsbtSessionEvent.isSignatureOf] using hsig
      exact ⟨_, ⟨_, he, rfl⟩, rfl⟩
    | _ => exact absurd hsig (by simp [PsbtSessionEvent.isSignatureOf])

/-- A keystore without a `SignatureAdded` in the log has not signed. -/
theorem Hydrates.not_signed {s : PsbtSession} (h : Hydrates s) {fp : KeyFingerprint}
    (honce : ∀ e ∈ s.log, e.isSignatureOf fp = false) : fp ∉ s.signers := by
  rw [h.mem_signers]
  rintro ⟨e, he, hsig⟩
  rw [honce e he] at hsig
  exact absurd hsig (by simp)

/-- **Every step keeps a session loadable.** -/
theorem Loaded.record {s : PsbtSession} {c : PsbtSessionCommand} {e : PsbtSessionEvent}
    (h : Loaded s) (hs : Step s c e) : Loaded (s.record e) := by
  refine ⟨h.hydrates.record hs, ?_⟩
  obtain ⟨hpos, hle, hkeys, hsigners, hpolicy, hfinal⟩ := h.wellFormed
  cases hs with
  | signed fp hash honce _ hin =>
    have hnot := h.hydrates.not_signed honce
    refine ⟨hpos, hle, hkeys, ?_, ?_, ?_⟩
    · rw [signers_record_signed]
      refine List.nodup_append.mpr ⟨hsigners, List.nodup_singleton _, ?_⟩
      rintro a ha b hb rfl
      obtain rfl := List.mem_singleton.mp hb
      exact hnot ha
    · rw [signers_record_signed]
      intro x hx
      rcases List.mem_append.mp hx with hx | hx
      · exact hpolicy x hx
      · obtain rfl := List.mem_singleton.mp hx
        exact hin
    · intro f hf
      obtain ⟨h1, h2, h3⟩ := hfinal f hf
      rw [signers_record_signed]
      exact ⟨h1, h2, fun x hx => List.mem_append_left _ (h3 x hx)⟩
  | finalized txid hash sigsUsed _ _ henough hdistinct hcollected =>
    refine ⟨hpos, hle, hkeys, hsigners, hpolicy, ?_⟩
    intro f hf
    obtain rfl := Option.some.inj hf
    refine ⟨by simpa using henough, Sorting.nodup_sort.mpr hdistinct, fun x hx => ?_⟩
    exact hasSigned_iff.mp (hcollected x (Sorting.mem_sort.mp hx))
  | created | broadcast | confirmed | invalidated | cancelled =>
    exact ⟨hpos, hle, hkeys, hsigners, hpolicy, hfinal⟩

theorem Loaded.run {s : PsbtSession} (h : Loaded s) (cs : List PsbtSessionCommand) :
    Loaded (s.run cs) :=
  run_induction Loaded.record h cs

theorem keystores_run (s : PsbtSession) (cs : List PsbtSessionCommand) :
    (s.run cs).keystores = s.keystores :=
  run_induction (P := fun s' => s'.keystores = s.keystores)
    (fun h _ => (record_keystores _ _).trans h) rfl cs

theorem spend_run (s : PsbtSession) (cs : List PsbtSessionCommand) : (s.run cs).spend = s.spend :=
  run_induction (P := fun s' => s'.spend = s.spend)
    (fun h _ => (record_spend _ _).trans h) rfl cs

/-- What the one event of a proposal hydrates to. -/
theorem Loaded.eq_proposed {s : PsbtSession} {n : NewPsbtSession} (h : Loaded s)
    (hevents : s.events = .load n.id n.intoEvents.iterAll) : n.proposed = s := by
  have hb := h.hydrates
  unfold Hydrates log at hb
  rw [hevents] at hb
  obtain ⟨h1, h2, h3, h4, h5, h6, h7, h8, h9⟩ := PsbtSessionBuilder.mk.inj hb
  obtain ⟨id, walletId, proposedBy, spend, hash, threshold, keystores, signatures, finalization,
    events⟩ := s
  simp_all [NewPsbtSession.proposed, PsbtSessionBuilder.default]

/-- A proposal on a wallet that satisfies its invariant loads. -/
theorem loaded_proposed {X : Extern} {id : PsbtSessionId} {wallet : Wallet} {proposedBy : UserId}
    {spend : SpendSpec} {n : NewPsbtSession} (hw : Wallet.Inv X wallet)
    (hn : NewPsbtSession.tryNew X id wallet proposedBy spend = .ok n) : Loaded n.proposed := by
  obtain ⟨hactive, -, rfl⟩ := NewPsbtSession.tryNew_eq_ok_iff.mp hn
  obtain ⟨d, hd, -⟩ := hw.descriptor hactive
  obtain ⟨⟨hpos, hle, -⟩, -⟩ := (sortedmultiWshDescriptor_eq_ok_iff (X := X)).mp hd
  refine ⟨rfl, hpos, ?_, hw.fingerprints, List.nodup_nil, ?_, ?_⟩
  · show wallet.threshold.toNat ≤ (wallet.keystores.map (keystoreFingerprint X)).length
    rw [List.length_map]
    exact hle
  · exact fun fp hfp => absurd hfp List.not_mem_nil
  · exact fun f hf => absurd hf (by simp [NewPsbtSession.proposed])

/-- **Replay equals memory.** After any commands on a session loaded from any events, its log
hydrates, however it is split into persisted and fresh events, to the session in memory. -/
theorem replay_eq_memory {events : EntityEvents PsbtSessionId PsbtSessionEvent} {s : PsbtSession}
    (h : tryFromEvents events = .ok s) (cs : List PsbtSessionCommand) :
    tryFromEvents (s.run cs).events = .ok (s.run cs) ∧
    (∀ events', events'.iterAll = (s.run cs).log →
      ∃ s', tryFromEvents events' = .ok s' ∧ s' = { s.run cs with events := events' } ∧
        s'.status = (s.run cs).status) ∧
    WellFormed (s.run cs) := by
  have hloaded := ((tryFromEvents_eq_ok_iff.mp h).2).run cs
  refine ⟨tryFromEvents_eq_ok_iff.mpr ⟨rfl, hloaded⟩, fun events' hlog => ?_, hloaded.wellFormed⟩
  refine ⟨_, tryFromEvents_eq_ok_iff.mpr ⟨rfl, hloaded.of_log_eq hlog⟩, rfl, ?_⟩
  unfold status
  exact congrArg PsbtSessionStatus.ofLog hlog

/-- One coin to one address, without change. -/
def soloSpend : SpendSpec :=
  ⟨[⟨⟨5⟩, 0⟩], [⟨⟨"bc1", [.bitcoin], .other [1]⟩, 1000⟩], 10, none⟩

/-- A one-of-one session that spends it. -/
def soloSession : NewPsbtSession := ⟨⟨3⟩, ⟨0⟩, ⟨7⟩, soloSpend, 1, [1]⟩

theorem replay_eq_memory_solo :
    tryFromEvents (soloSession.proposed.run
        [.recordPsbtCreated ⟨Vector.replicate 32 0⟩, .addSignature 1 ⟨Vector.replicate 32 1⟩]).events =
      .ok (soloSession.proposed.run
        [.recordPsbtCreated ⟨Vector.replicate 32 0⟩, .addSignature 1 ⟨Vector.replicate 32 1⟩]) :=
  (@replay_eq_memory soloSession.proposed.events soloSession.proposed (by decide) _).1

end PsbtSession

end Kota
