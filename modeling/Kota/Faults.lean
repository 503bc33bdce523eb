import Kota.Linearization
import Kota.Untrusted

/-!
# What storage faults can do

`BlobStore` is a trait with backends of any quality behind it. Between two steps of the platform a
blob may be deleted, and a backend may come back with other contents altogether
(`Incident.replace`). What the platform relies on is `fetch_verified`, which checks what it reads
against the address.

* A unit of work on a damaged store comes to what it comes to on an intact one, or fails
  (`SessionCall.work_survives`): it reads documents of its session's log only, and what it reads of
  them is what was put, unless the digest collides.
* **`faults_only_lose_calls`**: so whatever happens to the storage and when, the wallets, the
  sessions and the calls that did not fail are those of a run without faults, in which the calls
  that failed were not carried on. Every result about runs holds of the stores it leaves.
-/

namespace Kota

open EventLog

/-! ## Deletion -/

namespace BlobStore

/-- `BlobStore::delete`: the answer is whether anything was deleted. -/
def delete (blobs : BlobStore) (hash : PsbtHash) : Bool × BlobStore :=
  ((blobs.get hash).isSome, ⟨blobs.entries.filter fun e => e.1 ≠ hash⟩)

end BlobStore

/-! ## A unit of work on a damaged store -/

/-- What is read verified from the first store is in the second one, for the documents of `s`. -/
def Trusts (X : Extern) (blobs' blobs : BlobStore) (s : PsbtSession) : Prop :=
  ∀ hash ∈ s.documentHashes, ∀ bytes, blobs'.fetchVerified X hash = .ok bytes →
    blobs.fetchVerified X hash = .ok bytes

/-- The work on the first store fails, or comes to the same as on the second. -/
def Survives {ε α : Type} (blobs' blobs : BlobStore) (r' r : Except ε α × BlobStore) : Prop :=
  (∃ e, r'.1 = .error e) ∨ Alike blobs' blobs r' r

section Survives

variable {X : Extern} {network : Network} {wallets : Wallets} {blobs blobs' : BlobStore}
variable {s : PsbtSession}

theorem Survives.error {ε α : Type} {e : ε} {blobs'' : BlobStore} {r : Except ε α × BlobStore} :
    Survives blobs' blobs (.error e, blobs'') r :=
  Or.inl ⟨e, rfl⟩

theorem Survives.same {ε α : Type} (a : Except ε α) : Survives blobs' blobs (a, blobs') (a, blobs) :=
  Or.inr (Alike.same a)

theorem Survives.put {ε α : Type} (a : Except ε α) (bytes : Bytes) :
    Survives blobs' blobs (a, (blobs'.put X bytes).2) (a, (blobs.put X bytes).2) :=
  Or.inr (Alike.put a bytes)

theorem Survives.map {ε ε' α β : Type} {r' r : Except ε α × BlobStore}
    (h : Survives blobs' blobs r' r) (f : Except ε α → Except ε' β)
    (hf : ∀ e, ∃ e', f (.error e) = .error e') :
    Survives blobs' blobs (f r'.1, r'.2) (f r.1, r.2) := by
  rcases h with ⟨e, he⟩ | h
  · obtain ⟨e', he'⟩ := hf e
    exact Or.inl ⟨e', by rw [← he', ← he]⟩
  · exact Or.inr (h.map f)

/-- A document is loaded as it was put, or not at all. -/
theorem loadPsbt_survives {hash : PsbtHash}
    (h : ∀ bytes, blobs'.fetchVerified X hash = .ok bytes →
      blobs.fetchVerified X hash = .ok bytes) :
    (∃ e, loadPsbt X blobs' hash = .error e) ∨
      loadPsbt X blobs' hash = loadPsbt X blobs hash := by
  unfold loadPsbt
  cases hfetch : blobs'.fetchVerified X hash with
  | error e => exact Or.inl ⟨_, rfl⟩
  | ok bytes =>
    rw [h bytes hfetch]
    exact Or.inr rfl

variable (wallets) in
theorem checkSubmission_survives (h : Trusts X blobs' blobs s) (user : UserId) (bytes : Bytes) :
    (∃ e, Coordination.checkSubmission X wallets blobs' s user bytes = .error e) ∨
      Coordination.checkSubmission X wallets blobs' s user bytes =
        Coordination.checkSubmission X wallets blobs s user bytes := by
  unfold Coordination.checkSubmission
  split
  · exact Or.inl ⟨_, rfl⟩
  split
  · exact Or.inl ⟨_, rfl⟩
  split
  · exact Or.inl ⟨_, rfl⟩
  rename_i hash hhash
  have hmem : hash ∈ s.documentHashes :=
    List.mem_append_left _ (by rw [hhash]; exact List.mem_singleton_self _)
  cases hfetch : blobs'.fetchVerified X hash with
  | error e => exact Or.inl ⟨_, rfl⟩
  | ok stored =>
    rw [h hash hmem stored hfetch]
    exact Or.inr rfl

variable (wallets) in
theorem submitWork_survives (h : Trusts X blobs' blobs s) (user : UserId) (bytes : Bytes) :
    Survives blobs' blobs (Coordination.submitWork X wallets blobs' s user bytes)
      (Coordination.submitWork X wallets blobs s user bytes) := by
  unfold Coordination.submitWork
  rcases checkSubmission_survives wallets h user bytes with ⟨e, he⟩ | hsame
  · rw [he]
    exact .error
  rw [hsame]
  cases Coordination.checkSubmission X wallets blobs s user bytes with
  | error e => exact .error
  | ok r =>
    obtain ⟨fingerprint, merged⟩ := r
    dsimp only [BlobStore.put]
    cases s.addSignature fingerprint (PsbtHash.digestOf X (X.serialize merged)) with
    | mk answer s' => cases answer <;> exact Survives.put _ _

theorem finalizeLoop_survives {unsigned : Psbt} {records : List SignatureRecord}
    (h : ∀ r ∈ records, ∀ bytes, blobs'.fetchVerified X r.signedPsbtHash = .ok bytes →
      blobs.fetchVerified X r.signedPsbtHash = .ok bytes)
    (combined : Psbt) (sigsUsed : List KeyFingerprint) :
    Survives blobs' blobs (finalizeLoop X blobs' s unsigned combined sigsUsed records)
      (finalizeLoop X blobs s unsigned combined sigsUsed records) := by
  induction records generalizing combined sigsUsed with
  | nil => exact .same _
  | cons record rest ih =>
    obtain ⟨hrecord, hrest⟩ := List.forall_mem_cons.mp h
    unfold finalizeLoop
    rcases loadPsbt_survives hrecord with ⟨e, he⟩ | hsame
    · rw [he]
      exact .error
    rw [hsame]
    cases loadPsbt X blobs record.signedPsbtHash with
    | error e => exact .error
    | ok signed =>
      dsimp only
      cases verifyMergedBlob X unsigned signed with
      | error e => exact .error
      | ok u =>
        dsimp only
        cases X.finalize (combine combined signed) with
        | none => exact ih hrest _ _
        | some finalPsbt =>
          dsimp only
          cases X.extractTx finalPsbt with
          | none => exact .error
          | some tx =>
            dsimp only [BlobStore.put]
            cases s.finalize (X.computeTxid tx) (PsbtHash.digestOf X (X.consensusSerialize tx))
                (sigsUsed ++ [record.fingerprint]) with
            | mk answer s' => cases answer <;> exact Survives.put _ _

theorem finalizeSession_survives (h : Trusts X blobs' blobs s) :
    Survives blobs' blobs (finalizeSession X blobs' s) (finalizeSession X blobs s) := by
  unfold finalizeSession
  split
  · exact .same _
  split
  · exact .error
  split
  · exact .error
  split
  · exact .error
  rename_i hash hhash
  rcases loadPsbt_survives (h hash
    (List.mem_append_left _ (by rw [hhash]; exact List.mem_singleton_self _))) with ⟨e, he⟩ | hsame
  · rw [he]
    exact .error
  rw [hsame]
  cases loadPsbt X blobs hash with
  | error e => exact .error
  | ok unsigned =>
    exact finalizeLoop_survives (fun r hr => h _
      (List.mem_append_right _ (List.mem_map_of_mem hr))) _ _

variable (network wallets) in
/-- **A unit of work on a damaged store** fails, or comes to what it comes to on an intact one. -/
theorem SessionCall.work_survives (h : Trusts X blobs' blobs s) (call : SessionCall) :
    Survives blobs' blobs (call.work X network wallets blobs' s)
      (call.work X network wallets blobs s) := by
  cases call with
  | submitSignedPsbt user bytes =>
    unfold work
    dsimp only
    rcases submitWork_survives wallets h user bytes with ⟨e, he⟩ | ⟨hsame, hputs⟩
    · generalize Coordination.submitWork X wallets blobs' s user bytes = r' at he
      obtain ⟨answer', stored'⟩ := r'
      obtain rfl : answer' = .error e := he
      exact .error
    · generalize Coordination.submitWork X wallets blobs' s user bytes = r' at hsame hputs
      generalize Coordination.submitWork X wallets blobs s user bytes = r at hsame hputs
      obtain ⟨answer', stored'⟩ := r'
      obtain ⟨answer, stored⟩ := r
      obtain rfl : answer' = answer := hsame
      rcases answer' with e | ⟨executed, s'⟩
      · exact .error
      · exact Or.inr ⟨rfl, hputs⟩
  | runPsbtCreation funding =>
    exact Or.inr ((createPsbt_congr rfl funding).map
      fun work => (work.map Work.toWrite).mapError Failure.job)
  | runFinalization =>
    exact (finalizeSession_survives h).map
      (fun work => (work.map Work.toWrite).mapError Failure.job) fun e => ⟨_, rfl⟩
  | applyChainObservation | cancel => exact .same _

end Survives

/-! ## Runs with faults -/

/-- What happens next: a step of the platform, or something to its storage. -/
inductive Incident where
  | act (a : Traffic.Action)
  | delete (hash : PsbtHash)
  | replace (blobs : BlobStore)

def Incident.action : Incident → Option Traffic.Action
  | .act a => some a
  | .delete _ | .replace _ => none

/-- The platform, with everything its store held at some time. -/
structure Faulty where
  traffic : Traffic
  seen : List Bytes

namespace Faulty

def empty : Faulty := ⟨.empty, []⟩

/-- The bytes in a store. -/
def contents (blobs : BlobStore) : List Bytes := blobs.entries.map Prod.snd

/-- Other contents of the store. -/
def damage (c : Traffic) (blobs : BlobStore) : Traffic :=
  { c with platform := { c.platform with blobs } }

variable (X : Extern) (network : Network)

def next (c : Traffic) : Incident → Traffic
  | .act a => c.act X network a
  | .delete hash => damage c (c.platform.blobs.delete hash).2
  | .replace blobs => damage c blobs

def happen (f : Faulty) (i : Incident) : Faulty :=
  ⟨next X network f.traffic i, contents (next X network f.traffic i).platform.blobs ++ f.seen⟩

def run (f : Faulty) (incidents : List Incident) : Faulty := incidents.foldl (happen X network) f

/-- The digest has no collision among the bytes that the store ever held. -/
def NoCollision (f : Faulty) : Prop :=
  ∀ b ∈ f.seen, ∀ b' ∈ f.seen, X.sha256 b = X.sha256 b' → b = b'

instance (f : Faulty) : Decidable (f.NoCollision X) := by
  unfold NoCollision
  infer_instance

end Faulty

namespace Traffic

/-- The call failed in the run with faults, and is not carried on in the run without. -/
structure Task.Lost (t' t : Task) : Prop where
  call : t'.call = t.call
  loaded : ∃ s, t.stage = .session s
  failed : ∃ e, t'.stage = .computed (.error e) ∨ t'.stage = .returned (.error e)

/-- A call is the same in both runs, or lost in the one with faults. -/
def Task.Mirrors (t' t : Task) : Prop := t' = t ∨ Task.Lost t' t

end Traffic

open Traffic (Task)

/-- A run with faults next to one without: the same wallets and sessions, and the same calls, but
for those that are lost. -/
structure Faulty.Mirrors (f : Faulty) (c : Traffic) : Prop where
  wallets : f.traffic.platform.wallets = c.platform.wallets
  sessions : f.traffic.platform.sessions = c.platform.sessions
  tasks : List.Forall₂ Task.Mirrors f.traffic.tasks c.tasks
  held : ∀ b ∈ contents f.traffic.platform.blobs, b ∈ f.seen
  put : ∀ b ∈ contents c.platform.blobs, b ∈ f.seen

section Mirrors

variable {X : Extern} {network : Network} {f : Faulty} {c : Traffic}

theorem Faulty.contents_happen (i : Incident) :
    ∀ b ∈ contents (f.happen X network i).traffic.platform.blobs, b ∈ (f.happen X network i).seen :=
  fun _ hb => List.mem_append_left _ hb

theorem Faulty.seen_happen (i : Incident) : ∀ b ∈ f.seen, b ∈ (f.happen X network i).seen :=
  fun _ hb => List.mem_append_right _ hb

/-- A store of either run can be trusted for the documents that the intact one holds. -/
theorem Faulty.Mirrors.trusts (h : f.Mirrors c) (hc : f.NoCollision X)
    (ha : c.platform.blobs.Addressed X) {s : PsbtSession} (hs : PsbtSession.Hydrates s)
    (hholds : c.platform.blobs.Holds s.log) :
    Trusts X f.traffic.platform.blobs c.platform.blobs s := by
  intro hash hmem bytes hfetch
  obtain ⟨hstored', hdigest'⟩ := BlobStore.fetchVerified_eq_ok hfetch
  obtain ⟨e, he, hdocument⟩ := PsbtSession.document_mem hs hmem
  obtain ⟨stored, hstored⟩ := hholds e he hash hdocument
  have hdigest : PsbtHash.digestOf X stored = hash := ha _ hstored
  -- one digest, hence the same bytes
  obtain rfl : bytes = stored := hc _ (h.held _ (List.mem_map.mpr ⟨_, hstored', rfl⟩)) _
    (h.put _ (List.mem_map.mpr ⟨_, hstored, rfl⟩))
    (congrArg PsbtHash.inner (hdigest'.trans hdigest.symm))
  refine BlobStore.fetchVerified_of_mem ha (fun a hma b hmb heq => ?_) hstored
  exact hc _ (h.put _ (List.mem_map.mpr ⟨_, hma, rfl⟩)) _
    (h.put _ (List.mem_map.mpr ⟨_, hmb, rfl⟩)) heq

/-- A run with faults after an incident that the other run has no part in. -/
theorem Faulty.Mirrors.aside (h : f.Mirrors c) {i : Incident}
    (hw : (next X network f.traffic i).platform.wallets = f.traffic.platform.wallets)
    (hs : (next X network f.traffic i).platform.sessions = f.traffic.platform.sessions)
    (ht : List.Forall₂ Task.Mirrors (next X network f.traffic i).tasks c.tasks) :
    (f.happen X network i).Mirrors c where
  wallets := hw.trans h.wallets
  sessions := hs.trans h.sessions
  tasks := ht
  held := contents_happen i
  put b hb := seen_happen i b (h.put b hb)

/-- Both runs take the step, and leave the same wallets and sessions. -/
theorem Faulty.Mirrors.both (h : f.Mirrors c) {a : Traffic.Action}
    (hw : (f.traffic.act X network a).platform.wallets = (c.act X network a).platform.wallets)
    (hs : (f.traffic.act X network a).platform.sessions = (c.act X network a).platform.sessions)
    (ht : List.Forall₂ Task.Mirrors (f.traffic.act X network a).tasks (c.act X network a).tasks)
    (hb : ∀ b ∈ contents (c.act X network a).platform.blobs, b ∈ contents c.platform.blobs ∨
      b ∈ contents (f.traffic.act X network a).platform.blobs) :
    (f.happen X network (.act a)).Mirrors (c.act X network a) where
  wallets := hw
  sessions := hs
  tasks := ht
  held := contents_happen _
  put b hmem := (hb b hmem).elim (fun hold => seen_happen _ b (h.put b hold))
    fun hnew => contents_happen _ b hnew

variable (network) in
/-- A step that does no session's work reads no blob, and puts none. -/
theorem advance_damaged (p : Platform) (blobs : BlobStore) (call : Call) (stage : Traffic.Stage)
    (hwork : ∀ id k s, call = .session id k → stage ≠ .session s) :
    Traffic.advance X network { p with blobs } call stage =
        ({ (Traffic.advance X network p call stage).1 with blobs },
          (Traffic.advance X network p call stage).2) ∧
      (Traffic.advance X network p call stage).1.blobs = p.blobs := by
  cases call with
  | wallet id command =>
    cases stage with
    | wallet w =>
      unfold Traffic.advance Traffic.walletStep
      dsimp only
      split
      · exact ⟨rfl, rfl⟩
      split
      · exact ⟨rfl, rfl⟩
      split <;> exact ⟨rfl, rfl⟩
    | session | computed | returned | panicked => exact ⟨rfl, rfl⟩
  | proposeSpend id walletId proposedBy spend =>
    cases stage with
    | wallet w =>
      unfold Traffic.advance Traffic.proposalStep
      dsimp only
      split
      · exact ⟨rfl, rfl⟩
      · exact ⟨rfl, rfl⟩
      split <;> exact ⟨rfl, rfl⟩
    | session | computed | returned | panicked => exact ⟨rfl, rfl⟩
  | session id k =>
    cases stage with
    | session s => exact absurd rfl (hwork id k s rfl)
    | wallet | computed | returned | panicked => exact ⟨rfl, rfl⟩

variable (network) in
/-- A call that is lost stays so. -/
theorem lost_advance {p : Platform} {t' t : Task} (h : t'.Lost t) :
    (Traffic.advance X network p t'.call t'.stage).1 = p ∧
      Task.Lost { t' with stage := (Traffic.advance X network p t'.call t'.stage).2 } t := by
  obtain ⟨call, stage⟩ := t'
  obtain ⟨hcall, hloaded, e, hfailed⟩ := h
  dsimp only at hfailed hcall ⊢
  rcases hfailed with rfl | rfl <;> cases call <;>
    exact ⟨rfl, hcall, hloaded, e, by first | exact Or.inl rfl | exact Or.inr rfl⟩

/-- The platform with faults is the other one, on another store. -/
theorem Faulty.Mirrors.platform_eq (h : f.Mirrors c) :
    f.traffic.platform = { c.platform with blobs := f.traffic.platform.blobs } := by
  obtain ⟨⟨⟨wallets, sessions, blobs⟩, tasks⟩, seen⟩ := f
  obtain rfl := h.wallets
  obtain rfl := h.sessions
  rfl

variable (network) in
/-- What a step of a call leaves. -/
theorem Traffic.act_step {i : Nat} {t : Task} (hi : c.tasks[i]? = some t) :
    c.act X network (.step i) =
      ⟨(Traffic.advance X network c.platform t.call t.stage).1,
        c.tasks.set i { t with stage := (Traffic.advance X network c.platform t.call t.stage).2 }⟩ := by
  unfold Traffic.act
  dsimp only
  rw [hi]

variable (network) in
/-- A step of a lost call. -/
theorem Faulty.Mirrors.lost_step (h : f.Mirrors c) {i : Nat} {t' t : Task}
    (hi' : f.traffic.tasks[i]? = some t') (hi : c.tasks[i]? = some t) (hlost : t'.Lost t) :
    (f.happen X network (.act (.step i))).Mirrors c := by
  have hstep' := Traffic.act_step (X := X) network hi'
  obtain ⟨hplatform, hlost'⟩ := lost_advance (X := X) network (p := f.traffic.platform) hlost
  rw [hplatform] at hstep'
  refine h.aside ?_ ?_ ?_
  · show (f.traffic.act X network (.step i)).platform.wallets = _
    rw [hstep']
  · show (f.traffic.act X network (.step i)).platform.sessions = _
    rw [hstep']
  · show List.Forall₂ _ (f.traffic.act X network (.step i)).tasks _
    rw [hstep', ← Traffic.set_self hi]
    exact Matched.set_both h.tasks i (Or.inr hlost')

variable (network) in
/-- A step that does no session's work, in both runs. -/
theorem Faulty.Mirrors.plain_step (h : f.Mirrors c) {i : Nat} {t : Task}
    (hi' : f.traffic.tasks[i]? = some t) (hi : c.tasks[i]? = some t)
    (hwork : ∀ id k s, t.call = .session id k → t.stage ≠ .session s) :
    (f.happen X network (.act (.step i))).Mirrors (c.act X network (.step i)) := by
  have hstep' := Traffic.act_step (X := X) network hi'
  have hstep := Traffic.act_step (X := X) network hi
  obtain ⟨hadvance, hblobs⟩ := advance_damaged (X := X) network c.platform
    f.traffic.platform.blobs t.call t.stage hwork
  rw [h.platform_eq, hadvance] at hstep'
  refine h.both ?_ ?_ ?_ fun b hb => ?_
  · rw [hstep', hstep]
  · rw [hstep', hstep]
  · rw [hstep', hstep]
    exact Matched.set_both h.tasks i (Or.inl rfl)
  · rw [hstep] at hb
    unfold contents at hb
    rw [hblobs] at hb
    exact Or.inl hb

variable (network) in
/-- The work of a session's call, on the two stores: the same, or the call is lost. -/
theorem Faulty.Mirrors.work_step (h : f.Mirrors c) {i : Nat} {id : PsbtSessionId}
    {k : SessionCall} {s : PsbtSession}
    (hi' : f.traffic.tasks[i]? = some ⟨.session id k, .session s⟩)
    (hi : c.tasks[i]? = some ⟨.session id k, .session s⟩)
    (htrusts : Trusts X f.traffic.platform.blobs c.platform.blobs s) :
    (f.happen X network (.act (.step i))).Mirrors c ∨
      (f.happen X network (.act (.step i))).Mirrors (c.act X network (.step i)) := by
  have hstep' := Traffic.act_step (X := X) network hi'
  have hstep := Traffic.act_step (X := X) network hi
  rw [h.platform_eq] at hstep'
  rcases SessionCall.work_survives network c.platform.wallets htrusts k with
    ⟨e, he⟩ | ⟨hsame, puts, hputs', hputs⟩
  · refine Or.inl (h.aside ?_ ?_ ?_)
    · show (f.traffic.act X network (.step i)).platform.wallets = _
      rw [hstep']
      exact h.wallets.symm
    · show (f.traffic.act X network (.step i)).platform.sessions = _
      rw [hstep']
      exact h.sessions.symm
    · show List.Forall₂ _ (f.traffic.act X network (.step i)).tasks _
      rw [hstep', ← Traffic.set_self hi]
      exact Matched.set_both h.tasks i (Or.inr ⟨rfl, ⟨s, rfl⟩, e,
        Or.inl (congrArg Traffic.Stage.computed he)⟩)
  · refine Or.inr (h.both ?_ ?_ ?_ fun b hb => ?_)
    · rw [hstep', hstep]
      rfl
    · rw [hstep', hstep]
      rfl
    · rw [hstep', hstep]
      refine Matched.set_both h.tasks i (Or.inl ?_)
      exact congrArg (fun work => (⟨_, .computed work⟩ : Task)) hsame
    · rw [hstep] at hb
      rw [hstep']
      unfold contents at hb ⊢
      dsimp only [Traffic.advance] at hb ⊢
      rw [hputs, List.map_append] at hb
      rw [hputs', List.map_append]
      rcases List.mem_append.mp hb with hb | hb
      · exact Or.inr (List.mem_append_left _ hb)
      · exact Or.inl hb

/-- **One step of a call**, in both runs, or of a lost call in one. -/
theorem Faulty.Mirrors.step (h : f.Mirrors c) (hinv : c.Inv X) (hbacked : c.Backed X network)
    (i : Nat) (hc : f.NoCollision X) :
    (f.happen X network (.act (.step i))).Mirrors c ∨
      (f.happen X network (.act (.step i))).Mirrors (c.act X network (.step i)) := by
  cases hi' : f.traffic.tasks[i]? with
  | none =>
    have hnext : next X network f.traffic (.act (.step i)) = f.traffic := by
      unfold next Traffic.act
      dsimp only
      rw [hi']
    exact Or.inl (h.aside (by rw [hnext]) (by rw [hnext]) (by rw [hnext]; exact h.tasks))
  | some t' =>
    obtain ⟨t, hi, rfl | hlost⟩ := Matched.exists_of_getElem?_left h.tasks hi'
    · by_cases hwork : ∃ id k s, t' = ⟨.session id k, .session s⟩
      · obtain ⟨id, k, s, rfl⟩ := hwork
        obtain ⟨id', k', -, hsnapshot⟩ := hinv.tasks _ (List.mem_of_getElem? hi)
        exact h.work_step network hi' hi (h.trusts hc hbacked.addressed
          hsnapshot.grammatical.loaded.hydrates
          (BlobStore.holds_of_backs (hbacked.snapshot hsnapshot)))
      · refine Or.inr (h.plain_step network hi' hi fun id k s hcall hstage => hwork ⟨id, k, s, ?_⟩)
        obtain ⟨call, stage⟩ := t'
        rw [← hcall, ← hstage]
    · exact Or.inl (h.lost_step network hi' hi hlost)

/-- **One incident**: at most the action itself is what the other run takes part in. -/
theorem Faulty.Mirrors.happen (h : f.Mirrors c) (hinv : c.Inv X) (hbacked : c.Backed X network)
    (i : Incident) (hc : f.NoCollision X) :
    ∃ more : List Traffic.Action, more.Sublist i.action.toList ∧
      (f.happen X network i).Mirrors (c.run X network more) := by
  cases i with
  | act a =>
    have hone : c.run X network [a] = c.act X network a := rfl
    cases a with
    | register id threshold participants =>
      refine ⟨[_], List.Sublist.refl _, ?_⟩
      rw [hone]
      refine h.both ?_ h.sessions h.tasks fun b hb => Or.inl hb
      unfold Traffic.act
      rw [h.wallets]
    | call call =>
      refine ⟨[_], List.Sublist.refl _, ?_⟩
      rw [hone]
      have hload : Traffic.load f.traffic.platform call = Traffic.load c.platform call := by
        unfold Traffic.load
        rw [h.wallets, h.sessions]
      refine h.both h.wallets h.sessions ?_ fun b hb => Or.inl hb
      unfold Traffic.act
      dsimp only
      rw [hload]
      exact List.rel_append h.tasks (.cons (Or.inl rfl) .nil)
    | step i =>
      rcases h.step hinv hbacked i hc with haside | hboth
      · exact ⟨[], List.nil_sublist _, haside⟩
      · exact ⟨[.step i], List.Sublist.refl _, hboth⟩
  | delete hash => exact ⟨[], List.nil_sublist _, h.aside rfl rfl h.tasks⟩
  | replace blobs => exact ⟨[], List.nil_sublist _, h.aside rfl rfl h.tasks⟩

theorem Faulty.NoCollision.of_happen {i : Incident} (h : (f.happen X network i).NoCollision X) :
    f.NoCollision X :=
  fun b hb b' hb' => h b (seen_happen i b hb) b' (seen_happen i b' hb')

/-- **Every run with faults** mirrors one without, that takes some of the same steps. -/
theorem Faulty.mirrors_run (incidents : List Incident)
    (hc : (Faulty.empty.run X network incidents).NoCollision X) :
    ∃ actions : List Traffic.Action, actions.Sublist (incidents.filterMap Incident.action) ∧
      (Faulty.empty.run X network incidents).Mirrors (Traffic.empty.run X network actions) := by
  induction incidents using List.reverseRecOn with
  | nil =>
    exact ⟨[], List.nil_sublist _, rfl, rfl, .nil, fun b hb => absurd hb List.not_mem_nil,
      fun b hb => absurd hb List.not_mem_nil⟩
  | append_singleton incidents i ih =>
    have hrun : Faulty.empty.run X network (incidents ++ [i]) =
        (Faulty.empty.run X network incidents).happen X network i := by
      simp [Faulty.run]
    rw [hrun] at hc ⊢
    obtain ⟨actions, hsub, hmirrors⟩ := ih hc.of_happen
    obtain ⟨more, hmore, hnext⟩ := hmirrors.happen (Traffic.inv_run X network actions)
      (Traffic.backed_run X network actions) i hc.of_happen
    refine ⟨actions ++ more, ?_, ?_⟩
    · rw [List.filterMap_append]
      refine hsub.append ?_
      cases h : i.action with
      | none => simpa [h] using hmore
      | some a => simpa [h] using hmore
    · rwa [Traffic.run_append]

end Mirrors

/-- What a run with faults leaves, next to the run without faults that `actions` make: the stores
of the platform are the same, and so is every call that has not failed. -/
structure IntactUpTo (X : Extern) (network : Network) (f : Faulty)
    (actions : List Traffic.Action) : Prop where
  wallets : f.traffic.platform.wallets =
    (Traffic.empty.run X network actions).platform.wallets
  sessions : f.traffic.platform.sessions =
    (Traffic.empty.run X network actions).platform.sessions
  calls : ∀ (i : Nat) (task : Traffic.Task), f.traffic.tasks[i]? = some task →
    (∀ e, task.stage ≠ .computed (.error e) ∧ task.stage ≠ .returned (.error e)) →
    (Traffic.empty.run X network actions).tasks[i]? = some task

/-- **Storage faults only lose calls.** Take any interleaving of calls in which, between any two
steps, blobs are deleted and the whole store is replaced by any other one, wrong bytes at right
addresses included. As long as the digest does not collide on bytes that were stored, what is left
is what some of the same steps leave when nothing happens to the storage. -/
theorem faults_only_lose_calls (X : Extern) (network : Network) (incidents : List Incident)
    (hc : (Faulty.empty.run X network incidents).NoCollision X) :
    ∃ actions : List Traffic.Action, actions.Sublist (incidents.filterMap Incident.action) ∧
      IntactUpTo X network (Faulty.empty.run X network incidents) actions := by
  obtain ⟨actions, hsub, h⟩ := Faulty.mirrors_run incidents hc
  refine ⟨actions, hsub, h.wallets, h.sessions, fun i task htask hfine => ?_⟩
  obtain ⟨t, ht, hsame | hlost⟩ := Matched.exists_of_getElem?_left h.tasks htask
  · rw [ht, hsame]
  · obtain ⟨e, hfailed | hfailed⟩ := hlost.failed
    · exact absurd hfailed (hfine e).1
    · exact absurd hfailed (hfine e).2

namespace Extern.Sample

/-- The round of a two-of-two wallet. One signed document is gone when the finalization job runs,
and back when it runs again, with an unrelated blob whose bytes are wrong. -/
def damaged : List Incident :=
  pairSigning.map Incident.act ++
    [.delete (digestOfByte 2), .act (.call (.session ⟨0⟩ .runFinalization)), .act (.step 6),
      .act (.step 6), .replace ⟨(digestOfByte 7, [8]) :: pairBlobs.entries⟩,
      .act (.call (.session ⟨0⟩ .runFinalization)), .act (.step 7), .act (.step 7)]

end Extern.Sample

open Extern.Sample in
theorem faults_only_lose_calls_damaged :
    ∃ actions : List Traffic.Action, actions.Sublist (damaged.filterMap Incident.action) ∧
      IntactUpTo (.sample (pairUnsigned :: pairDocs)) .bitcoin
        (Faulty.empty.run (.sample (pairUnsigned :: pairDocs)) .bitcoin damaged) actions :=
  faults_only_lose_calls (.sample (pairUnsigned :: pairDocs)) .bitcoin damaged
    (by decide +kernel)

end Kota
