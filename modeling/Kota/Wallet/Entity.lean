import Kota.Lib.EventLog
import Kota.Wallet.Descriptor

/-!
# The wallet aggregate

Model of `wallet/entity.rs`. A wallet is its policy and its event log; status, submissions and
descriptor are folds of the log.

* A command takes the entity by `&mut self`, so it returns its answer **and** the entity it
  leaves behind, on every path.
* `as u32` is `UInt32.ofNat`, which keeps the low 32 bits, and `+ 1` on `u32` wraps as it does in
  a release build.
* The readings of the log (`statusOf`, `submissionsOf`, …) are functions of the list of events, so
  that what a command appends can be followed by one simp lemma for each reading and event.

`Wallet/Lifecycle.lean` says once what a command can append and derives the invariants from that.
-/

namespace Kota

open EventLog

/-- `WalletEvent`. -/
inductive WalletEvent where
  | initialized (id : WalletId) (network : Network) (threshold : UInt32)
      (participants : List UserId)
  | keystoreAdded (keystore : DescriptorPublicKey) (submittedBy : UserId)
  | keystoreRemoved (participant : UserId) (keystore : DescriptorPublicKey) (removedBy : UserId)
  | activated (descriptor : Descriptor) (descriptorFingerprint : DescriptorFingerprint)
  | cancelled (cancelledBy : UserId) (reason : String)
  deriving DecidableEq, Repr

namespace WalletEvent

def isCancelled : WalletEvent → Bool
  | .cancelled .. => true
  | _ => false

def isActivated : WalletEvent → Bool
  | .activated .. => true
  | _ => false

/-- One step of the fold behind `Wallet::status`. -/
def foldStatus (status : WalletStatus) : WalletEvent → WalletStatus
  | .activated .. => .active
  | .cancelled .. => .cancelled
  | _ => status

/-- One step of the fold behind `Wallet::submissions`. -/
def foldSubmissions (submissions : List (UserId × DescriptorPublicKey)) :
    WalletEvent → List (UserId × DescriptorPublicKey)
  | .keystoreAdded keystore submittedBy => submissions ++ [(submittedBy, keystore)]
  | .keystoreRemoved participant _ _ => submissions.filter fun s => s.1 != participant
  | _ => submissions

def activatedDescriptor : WalletEvent → Option Descriptor
  | .activated descriptor _ => some descriptor
  | _ => none

def activatedFingerprint : WalletEvent → Option DescriptorFingerprint
  | .activated _ fingerprint => some fingerprint
  | _ => none

end WalletEvent

/-- Latest lifecycle event wins. -/
def statusOf (log : List WalletEvent) : WalletStatus :=
  log.foldl WalletEvent.foldStatus .collectingKeystores

/-- Keystores currently held, with the participant who submitted each, in submission order. -/
def submissionsOf (log : List WalletEvent) : List (UserId × DescriptorPublicKey) :=
  log.foldl WalletEvent.foldSubmissions []

@[simp] theorem statusOf_concat (log : List WalletEvent) (e : WalletEvent) :
    statusOf (log ++ [e]) = e.foldStatus (statusOf log) := by
  simp [statusOf]

@[simp] theorem submissionsOf_concat (log : List WalletEvent) (e : WalletEvent) :
    submissionsOf (log ++ [e]) = e.foldSubmissions (submissionsOf log) := by
  simp [submissionsOf]

structure Wallet where
  id : WalletId
  network : Network
  threshold : UInt32
  participants : List UserId
  events : EntityEvents WalletId WalletEvent
  deriving DecidableEq

inductive WalletCommand where
  | addKeystore (keystore : DescriptorPublicKey) (submittedBy : UserId)
  | removeKeystore (participant removedBy : UserId)
  | cancel (cancelledBy : UserId) (reason : String)
  deriving DecidableEq, Repr

namespace Wallet

variable (X : Extern)

/-! ## Readings -/

def log (w : Wallet) : List WalletEvent := w.events.iterAll

def status (w : Wallet) : WalletStatus := statusOf w.log

def totalKeystores (w : Wallet) : UInt32 := UInt32.ofNat w.participants.length

def submissions (w : Wallet) : List (UserId × DescriptorPublicKey) := submissionsOf w.log

def keystores (w : Wallet) : List DescriptorPublicKey := w.submissions.map Prod.snd

/-- The submission of a participant, if any. -/
def submissionOf (w : Wallet) (user : UserId) : Option (UserId × DescriptorPublicKey) :=
  w.submissions.find? fun s => s.1 == user

/-- The master fingerprint of the keystore a participant submitted, if any. -/
def keystoreFingerprintOf (w : Wallet) (user : UserId) : Option KeyFingerprint :=
  (w.submissionOf user).map fun s => keystoreFingerprint X s.2

/-- Participants without a submission. -/
def pendingParticipants (w : Wallet) : List UserId :=
  w.participants.filter fun p => !(w.submissions.map Prod.fst).contains p

def missingKeystores (w : Wallet) : UInt32 := UInt32.ofNat w.pendingParticipants.length

def descriptor (w : Wallet) : Option Descriptor :=
  w.log.findSome? WalletEvent.activatedDescriptor

def descriptorFingerprint (w : Wallet) : Option DescriptorFingerprint :=
  w.log.findSome? WalletEvent.activatedFingerprint

/-! ## Commands -/

/-- The activation a submission completes, computed before anything is recorded. -/
def activation (w : Wallet) (keystore : DescriptorPublicKey) :
    Except WalletError (Option (Descriptor × DescriptorFingerprint)) :=
  if UInt32.ofNat w.keystores.length + 1 = w.totalKeystores then
    match sortedmultiWshDescriptor X w.threshold.toNat (w.keystores ++ [keystore]) with
    | .error e => .error e
    | .ok descriptor => .ok (some (descriptor, Kota.descriptorFingerprint X descriptor w.network))
  else .ok none

/-- `Wallet::add_keystore`. -/
def addKeystore (w : Wallet) (keystore : DescriptorPublicKey) (submittedBy : UserId) :
    Except WalletError (Idempotent Unit) × Wallet :=
  -- idempotency first, before any lifecycle gate
  if (w.submissionOf submittedBy).any (fun s => s.2 == keystore) then (.ok .alreadyApplied, w)
  else match w.status with
    | .active => (.error .alreadyActive, w)
    | .cancelled => (.error .cancelled, w)
    | .collectingKeystores =>
      if !w.participants.contains submittedBy then (.error (.notAParticipant submittedBy), w)
      else if w.submissions.any (fun s => s.1 == submittedBy) then
        (.error (.participantAlreadySubmitted submittedBy), w)
      else if w.keystores.any (fun k => keystoreFingerprint X k == keystoreFingerprint X keystore)
      then (.error (.duplicateKeystore (keystoreFingerprint X keystore)), w)
      else match w.activation X keystore with
        | .error e => (.error e, w)
        | .ok activation =>
          let events := w.events.push (.keystoreAdded keystore submittedBy)
          let events := match activation with
            | some (descriptor, fingerprint) => events.push (.activated descriptor fingerprint)
            | none => events
          (.ok (.executed ()), { w with events })

/-- `Wallet::remove_keystore`. -/
def removeKeystore (w : Wallet) (participant removedBy : UserId) :
    Except WalletError (Idempotent Unit) × Wallet :=
  match w.status with
  | .active => (.error .alreadyActive, w)
  | .cancelled => (.error .cancelled, w)
  | .collectingKeystores =>
    match w.submissionOf participant with
    | none => (.ok .alreadyApplied, w)
    | some (_, keystore) =>
      (.ok (.executed ()),
        { w with events := w.events.push (.keystoreRemoved participant keystore removedBy) })

/-- A log without `Cancelled` does not have the status `Cancelled`. -/
theorem statusOf_ne_cancelled {log : List WalletEvent}
    (h : alreadyApplied WalletEvent.isCancelled (fun _ => false) log = false) :
    statusOf log ≠ .cancelled := by
  induction log using List.reverseRecOn with
  | nil => simp [statusOf]
  | append_singleton log e ih =>
    rw [alreadyApplied_concat] at h
    cases e <;> simp_all [WalletEvent.isCancelled, WalletEvent.foldStatus]

/-- `Wallet::cancel`. The `unreachable!` arm is discharged by `statusOf_ne_cancelled`. -/
def cancel (w : Wallet) (cancelledBy : UserId) (reason : String) :
    Except WalletError (Idempotent Unit) × Wallet :=
  match hguard : alreadyApplied WalletEvent.isCancelled (fun _ => false) w.log with
  | true => (.ok .alreadyApplied, w)
  | false =>
    match hstatus : w.status with
    | .collectingKeystores =>
      (.ok (.executed ()), { w with events := w.events.push (.cancelled cancelledBy reason) })
    | .active => (.error .cannotCancelActive, w)
    | .cancelled => absurd hstatus (statusOf_ne_cancelled hguard)

/-- A command on the entity. -/
def apply (w : Wallet) : WalletCommand → Except WalletError (Idempotent Unit) × Wallet
  | .addKeystore keystore submittedBy => w.addKeystore X keystore submittedBy
  | .removeKeystore participant removedBy => w.removeKeystore participant removedBy
  | .cancel cancelledBy reason => w.cancel cancelledBy reason

/-- The entity after a sequence of commands, failing ones included. -/
def run (w : Wallet) (commands : List WalletCommand) : Wallet :=
  commands.foldl (fun w c => (w.apply X c).2) w

end Wallet

/-! ## Hydration and registration -/

/-- `EntityHydrationError`. -/
inductive EntityHydrationError where
  | uninitializedField (field : String)
  | eventDeserialization (message : String)
  deriving DecidableEq, Repr

/-- `WalletBuilder`: the fields an `Initialized` event sets. -/
structure WalletBuilder where
  id : Option WalletId
  network : Option Network
  threshold : Option UInt32
  participants : Option (List UserId)

namespace WalletBuilder

def default : WalletBuilder := ⟨none, none, none, none⟩

def event (b : WalletBuilder) : WalletEvent → WalletBuilder
  | .initialized id network threshold participants =>
    ⟨some id, some network, some threshold, some participants⟩
  | _ => b

/-- The derived `build`: the first missing field is the error. -/
def build (b : WalletBuilder) (events : EntityEvents WalletId WalletEvent) :
    Except EntityHydrationError Wallet := do
  let some id := b.id | .error (.uninitializedField "id")
  let some network := b.network | .error (.uninitializedField "network")
  let some threshold := b.threshold | .error (.uninitializedField "threshold")
  let some participants := b.participants | .error (.uninitializedField "participants")
  .ok ⟨id, network, threshold, participants, events⟩

end WalletBuilder

/-- `Wallet::try_from_events`. -/
def Wallet.tryFromEvents (events : EntityEvents WalletId WalletEvent) :
    Except EntityHydrationError Wallet :=
  (events.iterAll.foldl WalletBuilder.event WalletBuilder.default).build events

structure NewWallet where
  id : WalletId
  network : Network
  threshold : UInt32
  participants : List UserId
  deriving DecidableEq, Repr

namespace NewWallet

/-- The loop `participants[..i].contains(participant)`: the first participant already seen. -/
def firstRepeated (seen : List UserId) : List UserId → Option UserId
  | [] => none
  | p :: rest => if seen.contains p then some p else firstRepeated (seen ++ [p]) rest

/-- `NewWallet::new`. -/
def new (id : WalletId) (network : Network) (threshold : UInt32) (participants : List UserId) :
    Except WalletError NewWallet :=
  if participants.isEmpty || threshold = 0 || participants.length < threshold.toNat then
    .error (.invalidPolicy threshold (UInt32.ofNat participants.length))
  else match firstRepeated [] participants with
    | some participant => .error (.duplicateParticipant participant)
    | none => .ok ⟨id, network, threshold, participants⟩

/-- `into_events`. -/
def intoEvents (n : NewWallet) : EntityEvents WalletId WalletEvent :=
  .init n.id [.initialized n.id n.network n.threshold n.participants]

theorem firstRepeated_eq_none_iff : ∀ (l seen : List UserId),
    firstRepeated seen l = none ↔ (∀ p ∈ l, p ∉ seen) ∧ l.Nodup
  | [], seen => by simp [firstRepeated]
  | p :: rest, seen => by
    unfold firstRepeated
    split
    · rename_i h
      have hp : p ∈ seen := List.contains_iff_mem.mp h
      simp [hp]
    · rename_i h
      have hp : p ∉ seen := fun hm => h (List.contains_iff_mem.mpr hm)
      rw [firstRepeated_eq_none_iff rest (seen ++ [p])]
      simp only [List.mem_append, List.mem_cons, List.not_mem_nil, or_false, not_or,
        forall_eq_or_imp, List.nodup_cons]
      constructor
      · rintro ⟨h1, h2⟩
        exact ⟨⟨hp, fun q hq => (h1 q hq).1⟩, fun hm => (h1 p hm).2 rfl, h2⟩
      · rintro ⟨⟨-, h1⟩, h2, h3⟩
        refine ⟨fun q hq => ⟨h1 q hq, ?_⟩, h3⟩
        rintro rfl
        exact h2 hq

/-- What `NewWallet::new` accepts: `0 < N ≤ M` over distinct participants. -/
theorem new_eq_ok_iff {id : WalletId} {network : Network} {threshold : UInt32}
    {participants : List UserId} {n : NewWallet} :
    new id network threshold participants = .ok n ↔
      (0 < threshold.toNat ∧ threshold.toNat ≤ participants.length) ∧ participants.Nodup ∧
        n = ⟨id, network, threshold, participants⟩ := by
  have hzero : threshold = 0 ↔ threshold.toNat = 0 := by
    rw [← UInt32.toNat_inj]
    rfl
  unfold new
  split
  · rename_i h
    simp only [Bool.or_eq_true, decide_eq_true_eq, List.isEmpty_iff] at h
    simp only [reduceCtorEq, false_iff, not_and]
    rintro ⟨hpos, hle⟩
    rcases h with (rfl | h) | h
    · simp only [List.length_nil] at hle
      omega
    · rw [hzero] at h
      omega
    · omega
  · rename_i h
    simp only [Bool.or_eq_true, decide_eq_true_eq, List.isEmpty_iff, not_or, hzero] at h
    have hrange : 0 < threshold.toNat ∧ threshold.toNat ≤ participants.length := by omega
    cases hrep : firstRepeated [] participants with
    | some p =>
      have hnot : ¬ participants.Nodup := fun hn => by
        have := (firstRepeated_eq_none_iff participants []).mpr
          ⟨fun _ _ => List.not_mem_nil, hn⟩
        rw [hrep] at this
        exact absurd this (by simp)
      simp [hnot]
    | none =>
      have hn := ((firstRepeated_eq_none_iff participants []).mp hrep).2
      simp only [Except.ok.injEq]
      exact ⟨fun e => ⟨hrange, hn, e.symm⟩, fun e => e.2.2.symm⟩

end NewWallet

end Kota
