import Kota.Backing
import Kota.Lib.Optimistic

/-!
# Session work is linearizable

Units of work on one session, any number of them under way, among calls on everything else.

* `SessionCall.work_congr`: a unit of work reads its wallet and the documents its log names, so it
  comes to the same whenever they are the same. An active wallet is frozen and blobs are only
  added; hence what a unit of work came to on a copy that has grown old is what it comes to when
  it runs alone on that copy later (`SessionCall.Effect`).
* `Linear`: the calls that succeeded on a session have an order in the sense of
  `Kota.Lib.Optimistic`, with a place for each that is under way (**`linear_run`**).
* `Sequential` runs the use cases and jobs themselves, one after another, on a platform that holds
  the session as it was proposed and no document. **`sequential_of_serial`** replays the order
  there.
* **`session_work_linearizable`** puts it together.
-/

namespace Kota

open EventLog

open PsbtSession (Executes Grammatical)
open PsbtSessions (Row Snapshot)
open Platform (Grown)

/-! ## What a unit of work depends on -/

/-- The documents a unit of work on the session may read. -/
def PsbtSession.documentHashes (s : PsbtSession) : List PsbtHash :=
  s.unsignedPsbtHash.toList ++ s.signatures.map SignatureRecord.signedPsbtHash

section Congr

variable {X : Extern} {network : Network} {wallets wallets' : Wallets} {blobs blobs' : BlobStore}
variable {s : PsbtSession}

/-- The same answer, and the same blobs put. -/
def Alike {α : Type} (blobs' blobs : BlobStore) (r' r : α × BlobStore) : Prop :=
  r'.1 = r.1 ∧ ∃ puts, r'.2.entries = puts ++ blobs'.entries ∧ r.2.entries = puts ++ blobs.entries

theorem Alike.same {α : Type} (a : α) : Alike blobs' blobs (a, blobs') (a, blobs) :=
  ⟨rfl, [], rfl, rfl⟩

theorem Alike.put {α : Type} (a : α) (bytes : Bytes) :
    Alike blobs' blobs (a, (blobs'.put X bytes).2) (a, (blobs.put X bytes).2) :=
  ⟨rfl, [(PsbtHash.digestOf X bytes, bytes)], rfl, rfl⟩

theorem Alike.map {α β : Type} {r' r : α × BlobStore} (h : Alike blobs' blobs r' r) (f : α → β) :
    Alike blobs' blobs (f r'.1, r'.2) (f r.1, r.2) := by
  obtain ⟨hsame, hputs⟩ := h
  exact ⟨congrArg f hsame, hputs⟩

theorem loadPsbt_congr {hash : PsbtHash}
    (h : blobs'.fetchVerified X hash = blobs.fetchVerified X hash) :
    loadPsbt X blobs' hash = loadPsbt X blobs hash := by
  unfold loadPsbt
  rw [h]

theorem submitWork_congr (hw : wallets'.findById s.walletId = wallets.findById s.walletId)
    (hb : ∀ hash ∈ s.documentHashes, blobs'.fetchVerified X hash = blobs.fetchVerified X hash)
    (user : UserId) (bytes : Bytes) :
    Alike blobs' blobs (Coordination.submitWork X wallets' blobs' s user bytes)
      (Coordination.submitWork X wallets blobs s user bytes) := by
  have hcheck : Coordination.checkSubmission X wallets' blobs' s user bytes =
      Coordination.checkSubmission X wallets blobs s user bytes := by
    unfold Coordination.checkSubmission
    rw [hw]
    cases hhash : s.unsignedPsbtHash with
    | none => rfl
    | some hash =>
      dsimp only
      rw [hb hash (List.mem_append_left _ (by rw [hhash]; exact List.mem_singleton_self _))]
  unfold Coordination.submitWork
  rw [hcheck]
  cases Coordination.checkSubmission X wallets blobs s user bytes with
  | error e => exact Alike.same _
  | ok r =>
    obtain ⟨fingerprint, merged⟩ := r
    dsimp only [BlobStore.put]
    cases s.addSignature fingerprint (PsbtHash.digestOf X (X.serialize merged)) with
    | mk answer s' => cases answer <;> exact Alike.put _ _

theorem createPsbt_congr (hw : wallets'.findById s.walletId = wallets.findById s.walletId)
    (funding : FundingUtxoProvider) :
    Alike blobs' blobs (createPsbt X wallets' blobs' funding network s)
      (createPsbt X wallets blobs funding network s) := by
  unfold createPsbt
  rw [hw]
  cases s.unsignedPsbtHash with
  | some hash => exact Alike.same _
  | none =>
    dsimp only
    by_cases hpending : s.status ≠ .pending
    · rw [if_pos hpending, if_pos hpending]
      exact Alike.same _
    rw [if_neg hpending, if_neg hpending]
    cases wallets.findById s.walletId with
    | error e => exact Alike.same _
    | ok w =>
      dsimp only
      cases funding w s.spend.inputs with
      | error reason => exact Alike.same _
      | ok utxos =>
        dsimp only
        cases w.descriptor with
        | none => exact Alike.same _
        | some descriptor =>
          dsimp only
          cases buildUnsignedPsbt X s.spend descriptor utxos network with
          | error e => exact Alike.same _
          | ok psbt =>
            dsimp only [BlobStore.put]
            cases s.recordPsbtCreated (PsbtHash.digestOf X (X.serialize psbt)) with
            | mk answer s' => cases answer <;> exact Alike.put _ _

theorem finalizeLoop_congr {unsigned : Psbt} {records : List SignatureRecord}
    (hb : ∀ r ∈ records, blobs'.fetchVerified X r.signedPsbtHash =
      blobs.fetchVerified X r.signedPsbtHash) (combined : Psbt) (sigsUsed : List KeyFingerprint) :
    Alike blobs' blobs (finalizeLoop X blobs' s unsigned combined sigsUsed records)
      (finalizeLoop X blobs s unsigned combined sigsUsed records) := by
  induction records generalizing combined sigsUsed with
  | nil => exact Alike.same _
  | cons record rest ih =>
    obtain ⟨hrecord, hrest⟩ := List.forall_mem_cons.mp hb
    unfold finalizeLoop
    rw [loadPsbt_congr hrecord]
    cases loadPsbt X blobs record.signedPsbtHash with
    | error e => exact Alike.same _
    | ok signed =>
      dsimp only
      cases verifyMergedBlob X unsigned signed with
      | error e => exact Alike.same _
      | ok u =>
        dsimp only
        cases X.finalize (combine combined signed) with
        | none => exact ih hrest _ _
        | some finalPsbt =>
          dsimp only
          cases X.extractTx finalPsbt with
          | none => exact Alike.same _
          | some tx =>
            dsimp only [BlobStore.put]
            cases s.finalize (X.computeTxid tx) (PsbtHash.digestOf X (X.consensusSerialize tx))
                (sigsUsed ++ [record.fingerprint]) with
            | mk answer s' => cases answer <;> exact Alike.put _ _

theorem finalizeSession_congr
    (hb : ∀ hash ∈ s.documentHashes, blobs'.fetchVerified X hash = blobs.fetchVerified X hash) :
    Alike blobs' blobs (finalizeSession X blobs' s) (finalizeSession X blobs s) := by
  unfold finalizeSession
  cases s.finalization with
  | some finalization => exact Alike.same _
  | none =>
    dsimp only
    by_cases hcollecting : s.status ≠ .collecting
    · rw [if_pos hcollecting, if_pos hcollecting]
      exact Alike.same _
    rw [if_neg hcollecting, if_neg hcollecting]
    by_cases hmet : (!s.thresholdMet) = true
    · rw [if_pos hmet, if_pos hmet]
      exact Alike.same _
    rw [if_neg hmet, if_neg hmet]
    cases hhash : s.unsignedPsbtHash with
    | none => exact Alike.same _
    | some hash =>
      dsimp only
      rw [loadPsbt_congr (hb hash
        (List.mem_append_left _ (by rw [hhash]; exact List.mem_singleton_self _)))]
      cases loadPsbt X blobs hash with
      | error e => exact Alike.same _
      | ok unsigned =>
        exact finalizeLoop_congr (fun r hr => hb _
          (List.mem_append_right _ (List.mem_map_of_mem hr))) _ _

variable (network) in
/-- **A unit of work comes to the same** where its wallet and its documents are the same. -/
theorem SessionCall.work_congr (hw : wallets'.findById s.walletId = wallets.findById s.walletId)
    (hb : ∀ hash ∈ s.documentHashes, blobs'.fetchVerified X hash = blobs.fetchVerified X hash)
    (call : SessionCall) :
    Alike blobs' blobs (call.work X network wallets' blobs' s)
      (call.work X network wallets blobs s) := by
  cases call with
  | submitSignedPsbt user bytes =>
    obtain ⟨hsame, puts, h', h⟩ := @submitWork_congr X wallets wallets' blobs blobs' s hw hb user bytes
    unfold work
    dsimp only
    cases hwork : Coordination.submitWork X wallets blobs s user bytes with
    | mk answer stored =>
      cases hwork' : Coordination.submitWork X wallets' blobs' s user bytes with
      | mk answer' stored' =>
        rw [hwork, hwork'] at hsame
        rw [hwork] at h
        rw [hwork'] at h'
        obtain rfl : answer' = answer := hsame
        rcases answer' with e | ⟨executed, s'⟩ <;> exact ⟨rfl, puts, h', h⟩
  | runPsbtCreation funding =>
    exact (createPsbt_congr hw funding).map fun work => (work.map Work.toWrite).mapError Failure.job
  | runFinalization =>
    exact (finalizeSession_congr hb).map fun work => (work.map Work.toWrite).mapError Failure.job
  | applyChainObservation | cancel => exact Alike.same _

end Congr

/-! ## The documents of a log -/

/-- The document an event names. -/
def PsbtSessionEvent.document : PsbtSessionEvent → Option PsbtHash
  | .psbtCreated unsignedPsbtHash => some unsignedPsbtHash
  | .signatureAdded _ signedPsbtHash => some signedPsbtHash
  | _ => none

/-- Every document of the log is stored. -/
def BlobStore.Holds (blobs : BlobStore) (log : List PsbtSessionEvent) : Prop :=
  ∀ e ∈ log, ∀ hash, e.document = some hash → ∃ bytes, (hash, bytes) ∈ blobs.entries

/-- All blobs of one store are in the other. -/
def BlobStore.Within (blobs blobs' : BlobStore) : Prop := ∀ e ∈ blobs.entries, e ∈ blobs'.entries

section Stored

variable {X : Extern} {blobs blobs' : BlobStore} {s : PsbtSession}

/-- The documents a session reads are those of its log. -/
theorem PsbtSession.document_mem (hs : PsbtSession.Hydrates s) {hash : PsbtHash}
    (h : hash ∈ s.documentHashes) : ∃ e ∈ s.log, e.document = some hash := by
  rcases List.mem_append.mp h with h | h
  · exact ⟨_, hs.psbtCreated_mem (Option.mem_toList.mp h), rfl⟩
  · obtain ⟨r, hr, rfl⟩ := List.mem_map.mp h
    rw [hs.signatures_eq] at hr
    obtain ⟨e, he, hread⟩ := List.mem_filterMap.mp hr
    refine ⟨e, he, ?_⟩
    cases e with
    | signatureAdded fingerprint hash =>
      obtain rfl := Option.some.inj hread
      rfl
    | _ => exact absurd hread (by simp [PsbtSessionEvent.signature])

theorem BlobStore.Within.addressed (h : blobs.Within blobs') (ha : blobs'.Addressed X) :
    blobs.Addressed X :=
  fun e he => ha e (h e he)

theorem BlobStore.Within.noCollision (h : blobs.Within blobs') (hc : blobs'.NoCollision X) :
    blobs.NoCollision X :=
  fun e he e' he' => hc e (h e he) e' (h e' he')

/-- A store that holds the documents reads them as any larger one does. -/
theorem BlobStore.Within.fetchVerified (h : blobs.Within blobs') (ha : blobs'.Addressed X)
    (hc : blobs'.NoCollision X) (hs : PsbtSession.Hydrates s) (hholds : blobs.Holds s.log) :
    ∀ hash ∈ s.documentHashes, blobs.fetchVerified X hash = blobs'.fetchVerified X hash := by
  intro hash hmem
  obtain ⟨e, he, hdocument⟩ := PsbtSession.document_mem hs hmem
  obtain ⟨bytes, hstored⟩ := hholds e he hash hdocument
  rw [BlobStore.fetchVerified_of_mem (h.addressed ha) (h.noCollision hc) hstored,
    BlobStore.fetchVerified_of_mem ha hc (h _ hstored)]

theorem BlobStore.Extends.within (h : blobs'.Extends blobs) : blobs.Within blobs' :=
  fun _ he => h.mem he

/-- Backed events have their documents. -/
theorem BlobStore.holds_of_backs {network : Network} {c : Traffic}
    (h : ∀ e ∈ s.log, Traffic.Backs X network c s e) : c.platform.blobs.Holds s.log := by
  intro e he hash hdocument
  have hbacks := h e he
  cases e with
  | psbtCreated hash' =>
    obtain rfl := Option.some.inj hdocument
    obtain ⟨-, -, -, psbt, -, hstored⟩ := hbacks
    exact ⟨_, hstored⟩
  | signatureAdded fingerprint hash' =>
    obtain rfl := Option.some.inj hdocument
    obtain ⟨signed, hstored⟩ := hbacks
    exact ⟨_, hstored⟩
  | _ => exact absurd hdocument (by simp [PsbtSessionEvent.document])

end Stored

/-! ## A unit of work as an effect on a log -/

/-- The events that are left to write. -/
def PsbtSession.leftEvents : Option PsbtSession → List PsbtSessionEvent
  | none => []
  | some s => s.events.fresh

/-- Alone on a session with this log, with these wallets and blobs, the call succeeds and appends
`es`; it puts no blob that is not there. -/
def SessionCall.Effect (X : Extern) (network : Network) (wallets : Wallets) (blobs : BlobStore)
    (id : PsbtSessionId) (call : SessionCall) (log es : List PsbtSessionEvent) : Prop :=
  ∃ s left, PsbtSession.tryFromEvents (.load id log) = .ok s ∧
    (call.work X network wallets blobs s).1 = .ok left ∧ es = PsbtSession.leftEvents left ∧
    (call.work X network wallets blobs s).2.Within blobs

section Effect

variable {X : Extern} {network : Network} {wallets : Wallets} {blobs : BlobStore}
variable {id : PsbtSessionId} {call : SessionCall}

theorem SessionCall.Effect.eq_of (k : SessionCall) (log es es' : List PsbtSessionEvent)
    (h : k.Effect X network wallets blobs id log es)
    (h' : k.Effect X network wallets blobs id log es') : es = es' := by
  obtain ⟨s, left, hs, hwork, rfl, -⟩ := h
  obtain ⟨s', left', hs', hwork', rfl, -⟩ := h'
  obtain rfl := Except.ok.inj (hs.symm.trans hs')
  obtain rfl := Except.ok.inj (hwork.symm.trans hwork')
  rfl

/-- **What a unit of work came to on a copy it comes to again**, with all that was stored since. -/
theorem SessionCall.effect_of_work {wallets₀ : Wallets} {blobs₀ : BlobStore} {s : PsbtSession}
    {left : Option PsbtSession} (hevents : s.events = .load id s.log)
    (hs : Grammatical s) (hwork : (call.work X network wallets₀ blobs₀ s).1 = .ok left)
    (hw : wallets.findById s.walletId = wallets₀.findById s.walletId)
    (hwithin : (call.work X network wallets₀ blobs₀ s).2.Within blobs)
    (ha : blobs.Addressed X) (hc : blobs.NoCollision X) (hholds : blobs₀.Holds s.log) :
    call.Effect X network wallets blobs id s.log (PsbtSession.leftEvents left) := by
  have hwithin₀ : blobs₀.Within blobs := fun e he =>
    hwithin e (SessionCall.work_blobs.1.mem he)
  obtain ⟨hsame, puts, hputs, hputs₀⟩ := SessionCall.work_congr network hw
    (fun hash hmem => (hwithin₀.fetchVerified ha hc hs.loaded.hydrates hholds hash hmem).symm) call
  refine ⟨s, left, ?_, hsame.trans hwork, rfl, fun e he => ?_⟩
  · exact PsbtSession.tryFromEvents_eq_ok_iff.mpr ⟨hevents, hs.loaded⟩
  · rw [hputs] at he
    rcases List.mem_append.mp he with he | he
    · exact hwithin e (hputs₀ ▸ List.mem_append_left _ he)
    · exact he

end Effect

/-! ## The order of the calls on a session -/

namespace Traffic

open Optimistic

/-- Call `j` on the session had returned when call `i` was made. -/
def Precedes (X : Extern) (network : Network) (id : PsbtSessionId) (actions : List Action)
    (j i : Nat) : Prop :=
  ∃ pre post, actions = pre ++ post ∧
    (∃ call answer, (empty.run X network pre).At j id call (.returned answer)) ∧
    (empty.run X network pre).tasks.length ≤ i ∧ i < (empty.run X network actions).tasks.length

/-- The call returned `Ok`. -/
def Succeeded (c : Traffic) (id : PsbtSessionId) (p : Nat × SessionCall) : Prop :=
  c.At p.1 id p.2 (.returned (.ok ()))

/-- The stage of a call that may still succeed. -/
def Stage.UnderWay : Stage → Prop
  | .session _ | .computed (.ok _) => True
  | _ => False

def Pending (c : Traffic) (id : PsbtSessionId) (p : Nat × SessionCall) : Prop :=
  ∃ stage, c.At p.1 id p.2 stage ∧ stage.UnderWay

/-- The log of the copy that a call under way works on. -/
def Stage.LoadedFrom (effect : List PsbtSessionEvent → List PsbtSessionEvent → Prop)
    (copy : List PsbtSessionEvent) : Stage → Prop
  | .session s => s.log = copy
  | .computed (.ok left) => effect copy (PsbtSession.leftEvents left) ∧
      ∀ s, left = some s → s.events.persisted = copy
  | _ => False

/-- The log that a call under way may have loaded. -/
def HasLoaded (effect : SessionCall → List PsbtSessionEvent → List PsbtSessionEvent → Prop)
    (c : Traffic) (id : PsbtSessionId) (p : Nat × SessionCall) (copy : List PsbtSessionEvent) :
    Prop :=
  ∃ stage, c.At p.1 id p.2 stage ∧ stage.LoadedFrom (effect p.2) copy

/-- A platform on which nothing happened to the session but its proposal, and no document is
stored. -/
def proposedAlone (wallets : Wallets) (id : PsbtSessionId) (e : PsbtSessionEvent) : Platform :=
  ⟨wallets, ⟨[(id, [e])]⟩, .empty⟩

/-- The calls that succeeded on the session have an order, by their effects with the wallets and
the blobs of `final`. -/
structure Linear (X : Extern) (network : Network) (final : Platform) (id : PsbtSessionId)
    (c : Traffic) (before : Nat → Nat → Prop) : Prop where
  absent : c.platform.sessions.find? id = none → ∀ p, ¬ c.Succeeded id p ∧ ¬ c.Pending id p
  present : ∀ log, c.platform.sessions.find? id = some log → ∃ e order,
    (e.document = none ∧ ∃ s, Row (proposedAlone final.wallets id e).sessions id s) ∧
    Linearization (SessionCall.Effect X network final.wallets final.blobs id) Prod.snd [e] log
      (fun j i => before j.1 i.1) (c.Succeeded id) (c.Pending id)
      (HasLoaded (SessionCall.Effect X network final.wallets final.blobs id) c id) order

variable {X : Extern} {network : Network} {final c c' : Traffic} {id : PsbtSessionId}
variable {before before' : Nat → Nat → Prop}

theorem At.lt {i : Nat} {call : SessionCall} {stage : Stage} (h : c.At i id call stage) :
    i < c.tasks.length := (List.getElem?_eq_some_iff.mp h).1

/-- A call that returned takes no step. -/
theorem Move.returned (h : Move X network c c') {i : Nat} {call : SessionCall}
    {answer : Except Failure Unit} (hi : c.At i id call (.returned answer)) :
    c'.At i id call (.returned answer) := by
  cases h with
  | aside _ _ _ tasks => exact (tasks i id call _).mpr hi
  | called call' => exact at_append.mpr (Or.inl hi)
  | worked task | wrote task =>
    rename_i j _ _ _
    refine (at_set task _).mpr ?_
    rw [if_neg]
    · exact hi
    · rintro rfl
      exact absurd (task.inj hi).2.2 (by simp)

theorem run_returned {i : Nat} {call : SessionCall} {answer : Except Failure Unit}
    (hi : c.At i id call (.returned answer)) (actions : List Action) :
    (c.run X network actions).At i id call (.returned answer) := by
  induction actions generalizing c with
  | nil => exact hi
  | cons a actions ih => exact ih ((act_move X network c a).returned hi)

/-- What returned before a call was made, returned before the last action. -/
theorem Precedes.split_concat {actions : List Action} {a : Action} {j i : Nat}
    (h : Precedes X network id (actions ++ [a]) j i) :
    ∃ pre post, actions = pre ++ post ∧
      (∃ call answer, (empty.run X network pre).At j id call (.returned answer)) ∧
      (empty.run X network pre).tasks.length ≤ i := by
  obtain ⟨pre, post, hsplit, hreturned, hle, hlt⟩ := h
  rcases List.eq_nil_or_concat post with rfl | ⟨post, b, rfl⟩
  · rw [List.append_nil] at hsplit
    rw [hsplit] at hlt
    omega
  · rw [List.concat_eq_append, ← List.append_assoc] at hsplit
    obtain ⟨hactions, -⟩ := List.append_inj' hsplit rfl
    exact ⟨pre, post, hactions, hreturned, hle⟩

/-- Of the calls already made, nothing new precedes any. -/
theorem Precedes.of_concat {actions : List Action} {a : Action} {j i : Nat}
    (h : Precedes X network id (actions ++ [a]) j i)
    (hi : i < (empty.run X network actions).tasks.length) : Precedes X network id actions j i := by
  obtain ⟨pre, post, hactions, hreturned, hle⟩ := h.split_concat
  exact ⟨pre, post, hactions, hreturned, hle, hi⟩

/-- A call that is yet to return precedes none. -/
theorem not_precedes_of_computed {actions : List Action} {a : Action} {i : Nat} {call : SessionCall}
    {work : Except Failure (Option PsbtSession)}
    (hi : (empty.run X network actions).At i id call (.computed work)) (k : Nat) :
    ¬ Precedes X network id (actions ++ [a]) i k := by
  intro h
  obtain ⟨pre, post, rfl, ⟨call', answer, hreturned⟩, -⟩ := h.split_concat
  rw [run_append] at hi
  exact absurd (hi.inj (run_returned hreturned post)).2.2 (by simp)

/-! ### One step -/

theorem succeeded_set {i : Nat} {id₀ : PsbtSessionId} {call : SessionCall} {stage stage' : Stage}
    (h : c.At i id₀ call stage) (hstage : ∀ answer, stage ≠ .returned answer) {p : Platform}
    {q : Nat × SessionCall} :
    Succeeded ⟨p, c.tasks.set i ⟨.session id₀ call, stage'⟩⟩ id q ↔
      c.Succeeded id q ∨ (id₀ = id ∧ q = (i, call)) ∧ stage' = .returned (.ok ()) := by
  obtain ⟨j, call'⟩ := q
  unfold Succeeded
  rw [at_set h]
  dsimp only
  split
  · rename_i hj
    subst hj
    constructor
    · rintro ⟨rfl, rfl, hreturned⟩
      exact Or.inr ⟨⟨rfl, rfl⟩, hreturned.symm⟩
    · rintro (hold | ⟨⟨rfl, heq⟩, hreturned⟩)
      · exact absurd (h.inj hold).2.2.symm (hstage _)
      · exact ⟨rfl, (Prod.mk.inj heq).2, hreturned.symm⟩
  · rename_i hj
    exact ⟨Or.inl, fun h => h.resolve_right fun h' => hj (Prod.mk.inj h'.1.2).1⟩

theorem pending_set {i : Nat} {id₀ : PsbtSessionId} {call : SessionCall} {stage stage' : Stage}
    (h : c.At i id₀ call stage) {p : Platform} {q : Nat × SessionCall} :
    Pending ⟨p, c.tasks.set i ⟨.session id₀ call, stage'⟩⟩ id q ↔
      q.1 ≠ i ∧ c.Pending id q ∨ (id₀ = id ∧ q = (i, call)) ∧ stage'.UnderWay := by
  obtain ⟨j, call'⟩ := q
  unfold Pending
  by_cases hj : j = i
  · subst hj
    constructor
    · rintro ⟨stage'', hat, hunder⟩
      rw [at_set h, if_pos rfl] at hat
      obtain ⟨rfl, rfl, rfl⟩ := hat
      exact Or.inr ⟨⟨rfl, rfl⟩, hunder⟩
    · rintro (⟨hne, -⟩ | ⟨⟨rfl, heq⟩, hunder⟩)
      · exact absurd rfl hne
      · obtain rfl := (Prod.mk.inj heq).2
        exact ⟨stage', (at_set h p).mpr (by rw [if_pos rfl]; exact ⟨rfl, rfl, rfl⟩), hunder⟩
  · constructor
    · rintro ⟨stage'', hat, hunder⟩
      rw [at_set h, if_neg hj] at hat
      exact Or.inl ⟨hj, stage'', hat, hunder⟩
    · rintro (⟨-, stage'', hat, hunder⟩ | ⟨⟨-, heq⟩, -⟩)
      · exact ⟨stage'', (at_set h p).mpr (by rw [if_neg hj]; exact hat), hunder⟩
      · exact absurd (Prod.mk.inj heq).1 hj

/-- What a call on a session loads. -/
theorem load_session (p : Platform) (id : PsbtSessionId) (call : SessionCall) :
    (∃ s, p.sessions.findById id = .ok s ∧ load p (.session id call) = .session s) ∨
      ∃ e, p.sessions.findById id = .error e ∧
        load p (.session id call) = .returned (.error (call.notFound e)) := by
  unfold load
  dsimp only
  cases hs : p.sessions.findById id with
  | error e => exact Or.inr ⟨e, rfl, rfl⟩
  | ok s => exact Or.inl ⟨s, rfl, rfl⟩

/-- The log of a session after any step but a write. -/
theorem Proposes.find? {sessions sessions' : PsbtSessions} (h : Proposes sessions sessions')
    (id : PsbtSessionId) :
    sessions'.find? id = sessions.find? id ∨
      sessions.find? id = none ∧ ∃ e, e.document = none ∧ sessions'.find? id = some [e] := by
  rcases h with rfl | ⟨n, s, hc⟩
  · exact Or.inl rfl
  · obtain ⟨-, hnone, hfind⟩ := PsbtSessions.create_spec hc
    by_cases hid : id = n.id
    · subst hid
      have hlog := hfind n.id
      rw [if_pos rfl] at hlog
      exact Or.inr ⟨hnone, _, rfl, hlog⟩
    · have hlog := hfind id
      rw [if_neg hid] at hlog
      exact Or.inl hlog

/-- The calls on the session stand where they stood. -/
theorem Linear.weaken (h : Linear X network final.platform id c before)
    (hb : ∀ j i, i < c.tasks.length → before' j i → before j i)
    (hfind : c'.platform.sessions.find? id = c.platform.sessions.find? id)
    (hs : ∀ p, c'.Succeeded id p ↔ c.Succeeded id p)
    (hp : ∀ p, c'.Pending id p → c.Pending id p)
    (hl : ∀ p copy stage, c'.Pending id p → c.At p.1 id p.2 stage →
      stage.LoadedFrom (SessionCall.Effect X network final.platform.wallets final.platform.blobs id
        p.2) copy →
      ∃ stage', c'.At p.1 id p.2 stage' ∧ stage'.LoadedFrom
        (SessionCall.Effect X network final.platform.wallets final.platform.blobs id p.2) copy) :
    Linear X network final.platform id c' before' where
  absent hnone p := by
    obtain ⟨hsucceeded, hpending⟩ := h.absent (hfind ▸ hnone) p
    exact ⟨fun h => hsucceeded ((hs p).mp h), fun h => hpending (hp p h)⟩
  present log hlog := by
    obtain ⟨e, order, hrow, hl'⟩ := h.present log (hfind ▸ hlog)
    refine ⟨e, order, hrow, hl'.weaken (fun j k hk => hb _ _ ?_) hs hp
      fun p copy hpending ⟨stage, hat, hcopy⟩ => hl p copy stage hpending hat hcopy⟩
    rcases hk with hk | ⟨stage, hat, -⟩
    · exact At.lt ((hl'.exact k).mp hk)
    · exact hat.lt

/-- A step aside may propose the session. -/
theorem Linear.aside (h : Linear X network final.platform id c before)
    (hb : ∀ j i, i < c.tasks.length → before' j i → before j i)
    (hsound : c'.platform.sessions.Sound)
    (hsessions : Proposes c.platform.sessions c'.platform.sessions)
    (htasks : ∀ i call stage, c'.At i id call stage ↔ c.At i id call stage) :
    Linear X network final.platform id c' before' := by
  have hs : ∀ p, c'.Succeeded id p ↔ c.Succeeded id p := fun p => htasks _ _ _
  have hp : ∀ p, c'.Pending id p ↔ c.Pending id p := fun p =>
    exists_congr fun stage => and_congr_left fun _ => htasks _ _ _
  rcases hsessions.find? id with hfind | ⟨hnone, e, hdocument, hlog⟩
  · exact h.weaken hb hfind hs (fun p => (hp p).mp)
      fun p copy stage _ hat hcopy => ⟨stage, (htasks _ _ _).mpr hat, hcopy⟩
  · refine ⟨fun hnone' => absurd (hlog.symm.trans hnone') (by simp), fun log hlog' => ?_⟩
    obtain rfl := Option.some.inj (hlog.symm.trans hlog')
    obtain ⟨s, hrow⟩ := hsound id [e] hlog
    refine ⟨e, [], ⟨hdocument, s, hrow.congr ?_⟩, .empty (fun p hp' => ?_) fun p hp' => ?_⟩
    · rw [hlog]
      simp [proposedAlone, Store.find?]
    · exact (h.absent hnone p).1 ((hs p).mp hp')
    · exact (h.absent hnone p).2 ((hp p).mp hp')

/-- A call that is made loads the log as it stands. -/
theorem Linear.called (h : Linear X network final.platform id c before)
    (hb : ∀ j i, i < c.tasks.length → before' j i → before j i) (hinv : Inv X c) (call : Call) :
    Linear X network final.platform id
      { c with tasks := c.tasks ++ [⟨call, load c.platform call⟩] } before' := by
  set c' : Traffic := { c with tasks := c.tasks ++ [⟨call, load c.platform call⟩] } with hc'
  have hold : ∀ {i id' call' stage}, c.At i id' call' stage → c'.At i id' call' stage :=
    fun hi => at_append.mpr (Or.inl hi)
  have hnew : ∀ {i call' stage}, c'.At i id call' stage → c.At i id call' stage ∨
      i = c.tasks.length ∧ call = .session id call' ∧ stage = load c.platform call := by
    intro i call' stage hi
    refine (at_append.mp hi).imp_right fun ⟨hi, htask⟩ => ?_
    obtain ⟨hcall, hstage⟩ := Task.mk.inj htask
    exact ⟨hi, hcall, hstage.symm⟩
  have hs : ∀ p, c'.Succeeded id p ↔ c.Succeeded id p := by
    refine fun p => ⟨fun hp => (hnew hp).resolve_right ?_, hold⟩
    rintro ⟨-, hcall, hstage⟩
    rw [hcall] at hstage
    rcases load_session c.platform id p.2 with ⟨s, -, hload⟩ | ⟨e, -, hload⟩ <;>
      exact absurd (hstage.trans hload) (by simp)
  by_cases hloads : ∃ call' s, call = .session id call' ∧ c.platform.sessions.findById id = .ok s
  · obtain ⟨call', s, rfl, hfound⟩ := hloads
    have hrow := hinv.sessions.row hfound
    have hload : load c.platform (.session id call') = .session s := by
      unfold load
      dsimp only
      rw [hfound]
    have hat : c'.At c.tasks.length id call' (.session s) :=
      at_append.mpr (Or.inr ⟨rfl, by rw [hload]⟩)
    refine ⟨fun hnone => absurd (hnone.symm.trans hrow.log_eq) (by simp), fun log hlog => ?_⟩
    obtain rfl := Option.some.inj (hrow.log_eq.symm.trans hlog)
    obtain ⟨e, order, hfirst, hl⟩ := h.present s.log hrow.log_eq
    have hlt : ∀ k : Nat × SessionCall, k ∈ order ∨ c.Pending id k → k.1 < c.tasks.length := by
      rintro k (hk | ⟨stage, hk, -⟩)
      · exact At.lt ((hl.exact k).mp hk)
      · exact hk.lt
    refine ⟨e, order, hfirst, hl.load (i := (c.tasks.length, call'))
      (fun j k hk => hb j.1 k.1 (hlt k hk)) hs ?_
      (fun p copy _ ⟨stage, hat, hcopy⟩ => ⟨stage, hold hat, hcopy⟩) ⟨.session s, hat, rfl⟩⟩
    rintro ⟨j, call''⟩ ⟨stage, hj, hunder⟩
    rcases hnew hj with hj | ⟨rfl, hcall, -⟩
    · exact Or.inl ⟨stage, hj, hunder⟩
    · exact Or.inr (by rw [(Call.session.inj hcall).2])
  · refine h.weaken hb rfl hs (fun p hp => ?_)
      fun p copy stage _ hat hcopy => ⟨stage, hold hat, hcopy⟩
    obtain ⟨stage, hat, hunder⟩ := hp
    rcases hnew hat with hat | ⟨-, hcall, hstage⟩
    · exact ⟨stage, hat, hunder⟩
    · rw [hcall] at hstage
      rcases load_session c.platform id p.2 with ⟨s, hfound, -⟩ | ⟨e, -, hload⟩
      · exact absurd ⟨_, s, hcall, hfound⟩ hloads
      · rw [hstage, hload] at hunder
        exact hunder.elim

/-- The wallet of a session is what it will be. -/
theorem wallet_of_snapshot (hinv : Inv X c) (hf : Follows X final c) {s : PsbtSession}
    (hs : Snapshot c.platform.sessions id s) :
    final.platform.wallets.findById s.walletId = c.platform.wallets.findById s.walletId := by
  obtain ⟨s', es, hrow, hg⟩ := hs.current
  obtain ⟨w, hw, hactive, -⟩ := (agrees_of_grown hg).mp (hinv.agrees id s' hrow)
  rw [hw.found, (hf.wallets _ _ hw hactive).found]

/-- What was computed is the effect of the call on the copy it loaded. -/
theorem Linear.worked (h : Linear X network final.platform id c before)
    (hb : ∀ j i, i < c.tasks.length → before' j i → before j i) (hinv : Inv X c)
    (hback : Backed X network c) (ha : final.platform.blobs.Addressed X)
    (hc : final.platform.blobs.NoCollision X) {i : Nat} {id₀ : PsbtSessionId} {call : SessionCall}
    {s : PsbtSession} (task : c.At i id₀ call (.session s)) (hf : Follows X final c)
    (hblobs : final.platform.blobs.Extends
      (call.work X network c.platform.wallets c.platform.blobs s).2) :
    Linear X network final.platform id
      ⟨{ c.platform with blobs := (call.work X network c.platform.wallets c.platform.blobs s).2 },
        c.tasks.set i ⟨.session id₀ call,
          .computed (call.work X network c.platform.wallets c.platform.blobs s).1⟩⟩ before' := by
  refine h.weaken hb rfl (fun p => ?_) (fun p hp => ?_) fun p copy stage hp hat hcopy => ?_
  · rw [succeeded_set task fun _ => by simp]
    simp
  · rcases (pending_set task).mp hp with ⟨-, hp⟩ | ⟨⟨rfl, rfl⟩, -⟩
    · exact hp
    · exact ⟨_, task, trivial⟩
  · obtain ⟨j, call'⟩ := p
    by_cases hj : j = i
    · subst hj
      obtain ⟨rfl, rfl, rfl⟩ := task.inj hat
      obtain rfl : s.log = copy := hcopy
      obtain ⟨id', call'', hcall, hsnapshot⟩ := hinv.tasks _ (List.mem_of_getElem? task)
      obtain ⟨rfl, rfl⟩ := Call.session.inj hcall
      rcases (pending_set task).mp hp with ⟨hne, -⟩ | ⟨-, hunder⟩
      · exact absurd rfl hne
      · cases hwork : (call'.work X network c.platform.wallets c.platform.blobs s).1 with
        | error e =>
          rw [hwork] at hunder
          exact hunder.elim
        | ok left =>
          refine ⟨.computed (.ok left), (at_set task _).mpr ?_, ?_, ?_⟩
          · rw [if_pos rfl]
            exact ⟨rfl, rfl, rfl⟩
          · exact SessionCall.effect_of_work hsnapshot.events_eq hsnapshot.grammatical
              hwork (wallet_of_snapshot hinv hf hsnapshot) hblobs.within ha hc
              (BlobStore.holds_of_backs (hback.snapshot hsnapshot))
          · rintro s' rfl
            obtain ⟨command, e, hx⟩ := SessionCall.work_eq_some hsnapshot.grammatical hwork
            rw [hx.left, PsbtSession.record_events, hsnapshot.events_eq]
            rfl
    · exact ⟨stage, (at_set task _).mpr (by rw [if_neg hj]; exact hat), hcopy⟩

/-- A write of another session, or one that fails. -/
theorem Linear.not_written (h : Linear X network final.platform id c before)
    (hb : ∀ j i, i < c.tasks.length → before' j i → before j i) {i : Nat} {id₀ : PsbtSessionId}
    {call : SessionCall} {work : Except Failure (Option PsbtSession)}
    (task : c.At i id₀ call (.computed work)) {p : Platform} {answer : Except Failure Unit}
    (hnot : id₀ ≠ id ∨ answer ≠ .ok ()) (hfind : p.sessions.find? id = c.platform.sessions.find? id) :
    Linear X network final.platform id
      ⟨p, c.tasks.set i ⟨.session id₀ call, .returned answer⟩⟩ before' := by
  refine h.weaken hb hfind (fun q => ?_) (fun q hq => ?_) fun q copy stage hq hat hcopy => ?_
  · rw [succeeded_set task fun _ => by simp]
    refine or_iff_left ?_
    rintro ⟨⟨hid, -⟩, hanswer⟩
    exact hnot.elim (fun hne => hne hid) fun hne => hne (Stage.returned.inj hanswer)
  · exact (((pending_set task).mp hq).resolve_right fun h => h.2).2
  · obtain ⟨hne, -⟩ := ((pending_set task).mp hq).resolve_right fun h => h.2
    exact ⟨stage, (at_set task _).mpr (by rw [if_neg hne]; exact hat), hcopy⟩

/-- **A successful call finds its place**: after what it loaded when it wrote nothing, at the end
when it wrote. -/
theorem Linear.returned (h : Linear X network final.platform id c before)
    (hb : ∀ j i, i < c.tasks.length → before' j i → before j i) {i : Nat} {call : SessionCall}
    {left : Option PsbtSession} (task : c.At i id call (.computed (.ok left)))
    (hlast : ∀ k, ¬ before' i k) {sessions : PsbtSessions}
    (hfind : ∀ log, c.platform.sessions.find? id = some log →
      sessions.find? id = some (log ++ PsbtSession.leftEvents left))
    (hcurrent : ∀ s, left = some s →
      c.platform.sessions.find? id = some s.events.persisted) :
    Linear X network final.platform id
      ⟨{ c.platform with sessions }, c.tasks.set i ⟨.session id call, .returned (.ok ())⟩⟩
      before' := by
  have hpending : c.Pending id (i, call) := ⟨_, task, trivial⟩
  have hnot : ¬ c.Succeeded id (i, call) := fun h => absurd (task.inj h).2.2 (by simp)
  obtain ⟨log, hlog⟩ : ∃ log, c.platform.sessions.find? id = some log := by
    cases hlog : c.platform.sessions.find? id with
    | none => exact absurd hpending (h.absent hlog _).2
    | some log => exact ⟨log, rfl⟩
  refine ⟨fun hnone => absurd (hnone.symm.trans (hfind log hlog)) (by simp), fun log' hlog' => ?_⟩
  obtain rfl := Option.some.inj ((hfind log hlog).symm.trans hlog')
  obtain ⟨e, order, hfirst, hl⟩ := h.present log hlog
  set c' : Traffic :=
    ⟨{ c.platform with sessions }, c.tasks.set i ⟨.session id call, .returned (.ok ())⟩⟩ with hc'
  have hs : ∀ q, c'.Succeeded id q ↔ c.Succeeded id q ∨ q = (i, call) := fun q => by
    rw [hc', succeeded_set task fun _ => by simp]
    simp
  have hp : ∀ q, c'.Pending id q → q.1 ≠ i ∧ c.Pending id q := fun q hq =>
    ((pending_set task).mp hq).resolve_right fun h => h.2
  have hloaded : ∀ q copy, c'.Pending id q →
      HasLoaded (SessionCall.Effect X network final.platform.wallets final.platform.blobs id) c id q
        copy →
      HasLoaded (SessionCall.Effect X network final.platform.wallets final.platform.blobs id) c' id
        q copy := by
    rintro q copy hq ⟨stage, hat, hcopy⟩
    exact ⟨stage, (at_set task _).mpr (by rw [if_neg (hp q hq).1]; exact hat), hcopy⟩
  have hl₁ : Linearization (SessionCall.Effect X network final.platform.wallets
      final.platform.blobs id) Prod.snd [e] log (fun j i => before' j.1 i.1) (c.Succeeded id)
      (c.Pending id) (HasLoaded (SessionCall.Effect X network final.platform.wallets
        final.platform.blobs id) c id) order := by
    refine hl.weaken (fun j k hk => hb _ _ ?_) (fun _ => Iff.rfl) (fun _ h => h) fun _ _ _ h => h
    rcases hk with hk | ⟨stage, hat, -⟩
    · exact At.lt ((hl.exact k).mp hk)
    · exact hat.lt
  have hcopy : ∀ copy, HasLoaded (SessionCall.Effect X network final.platform.wallets
      final.platform.blobs id) c id (i, call) copy →
      call.Effect X network final.platform.wallets final.platform.blobs id copy
        (PsbtSession.leftEvents left) ∧ ∀ s, left = some s → s.events.persisted = copy := by
    rintro copy ⟨stage, hat, hcopy⟩
    obtain ⟨-, -, rfl⟩ := task.inj hat
    exact hcopy
  cases left with
  | none =>
    obtain ⟨order', hl₂⟩ := hl₁.skip SessionCall.Effect.eq_of hnot hpending
      (fun copy h => (hcopy copy h).1) (fun k => hlast k.1) hs fun q hq => (hp q hq).2
    refine ⟨e, order', hfirst, ?_⟩
    rw [show log ++ PsbtSession.leftEvents none = log from List.append_nil log]
    exact hl₂.weaken (fun _ _ _ h => h) (fun _ => Iff.rfl) (fun _ h => h) hloaded
  | some s =>
    obtain ⟨pre, post, copy, -, -, hcopied, -⟩ := hl₁.held _ hpending
    obtain ⟨heffect, hpersisted⟩ := hcopy copy hcopied
    -- the write succeeded, so the copy is the log as it stands
    obtain rfl : copy = log := (hpersisted s rfl).symm.trans
      (Option.some.inj ((hcurrent s rfl).symm.trans hlog))
    refine ⟨e, order ++ [(i, call)], hfirst, ?_⟩
    have hl₂ := hl₁.append hnot heffect (fun k => hlast k.1) hs fun q hq => (hp q hq).2
    exact hl₂.weaken (fun _ _ _ h => h) (fun _ => Iff.rfl) (fun _ h => h) hloaded

/-- **Every step keeps the order.** -/
theorem Linear.move (h : Linear X network final.platform id c before)
    (hb : ∀ j i, i < c.tasks.length → before' j i → before j i) (hinv : Inv X c)
    (hback : Backed X network c) (ha : final.platform.blobs.Addressed X)
    (hc : final.platform.blobs.NoCollision X) (hk : Keeps X c'.platform c.platform)
    (hf : Follows X final c') (hm : Move X network c c')
    (hlast : ∀ i call work, c.At i id call (.computed work) → ∀ k, ¬ before' i k) :
    Linear X network final.platform id c' before' := by
  have hf₀ := hf.trans (hm.follows hk)
  cases hm with
  | aside blobs sessions length tasks =>
    exact h.aside hb hk.sessions sessions fun i call stage => tasks i id call stage
  | called call => exact h.called hb hinv call
  | worked task => exact h.worked hb hinv hback ha hc task hf₀ hf.blobs
  | wrote task =>
    rename_i i id₀ call work
    rcases write_cases c.platform.sessions call work with
      ⟨e, hw⟩ | ⟨rfl, hw⟩ | ⟨s', sessions', rfl, hu, hw⟩
    · rw [hw]
      exact h.not_written hb task (Or.inr (by simp)) rfl
    · rw [hw]
      by_cases hid : id₀ = id
      · subst hid
        exact h.returned hb task (hlast _ _ _ task) (fun log hlog => by
          rw [hlog]
          exact congrArg some (List.append_nil log).symm) fun s hs => absurd hs (by simp)
      · exact h.not_written hb task (Or.inl hid) rfl
    · rw [hw]
      obtain ⟨id', call', hcall, hwork, -⟩ := hinv.tasks _ (List.mem_of_getElem? task)
      obtain ⟨rfl, rfl⟩ := Call.session.inj hcall
      obtain ⟨s, command, e, hsnapshot, hx⟩ := hwork s' rfl
      have hrow := hsnapshot.row_of_update hx hu
      obtain rfl := hx.applied
      by_cases hid : id₀ = id
      · subst hid
        have hpersisted : (s.apply command).2.events.persisted = s.log := hrow.persisted command
        refine h.returned hb task (hlast _ _ _ task) (fun log hlog => ?_) fun s' hs' => ?_
        · obtain rfl := Option.some.inj (hrow.log_eq.symm.trans hlog)
          rw [hrow.find?_update command hu, if_pos rfl, ← hpersisted]
          rfl
        · obtain rfl := Option.some.inj hs'
          rw [hpersisted, hrow.log_eq]
      · refine h.not_written hb task (Or.inl hid) ?_
        exact (hrow.find?_update command hu id).trans (if_neg (Ne.symm hid))

/-- **In every run the calls that succeeded on a session have an order.** -/
theorem linear_run (X : Extern) (network : Network) (id : PsbtSessionId) {final : Traffic}
    (hc : final.platform.blobs.NoCollision X) (actions later : List Action)
    (hfinal : final = empty.run X network (actions ++ later)) :
    Linear X network final.platform id (empty.run X network actions)
      (Precedes X network id actions) := by
  induction actions using List.reverseRecOn generalizing later with
  | nil =>
    refine ⟨fun _ p => ⟨fun h => ?_, fun ⟨stage, h, _⟩ => ?_⟩, fun log hlog => ?_⟩
    · exact absurd h (by simp [Succeeded, At, run, empty])
    · exact absurd h (by simp [At, run, empty])
    · exact absurd hlog (by simp [run, empty, Platform.empty])
  | append_singleton actions a ih =>
    have hprev := ih (a :: later) (by rw [hfinal, List.append_assoc]; rfl)
    have hinv := inv_run X network actions
    have hstep : empty.run X network (actions ++ [a]) =
        (empty.run X network actions).act X network a := by
      rw [run_append]
      rfl
    have ha : final.platform.blobs.Addressed X := hfinal ▸ (backed_run X network _).addressed
    have hf : Follows X final (empty.run X network (actions ++ [a])) := by
      rw [hfinal, run_append]
      exact run_follows network (inv_run X network _) later
    refine hprev.move (fun j i hi h => h.of_concat hi) hinv (backed_run X network actions) ha hc ?_ hf
      ?_ fun i call work hi k => not_precedes_of_computed hi k
    · rw [hstep]
      exact (hinv.act network a).2
    · rw [hstep]
      exact act_move X network _ a

end Traffic

/-! ## One after another -/

/-- The calls, each from its load to its write, one after another; all of them return `Ok`. -/
inductive Sequential (X : Extern) (network : Network) (id : PsbtSessionId) :
    Platform → List SessionCall → Platform → Prop
  | nil (p : Platform) : Sequential X network id p [] p
  | cons {p p' p'' : Platform} {call : SessionCall} {calls : List SessionCall}
      (head : call.alone X network p id = (.ok (), p'))
      (tail : Sequential X network id p' calls p'') : Sequential X network id p (call :: calls) p''

/-- A platform on which the session has this log, with the wallets of another and some of its
blobs, among them the documents of the log. -/
structure Replica (X : Extern) (final : Platform) (id : PsbtSessionId) (p : Platform)
    (log : List PsbtSessionEvent) : Prop where
  wallets_eq : p.wallets = final.wallets
  row : ∃ s, Row p.sessions id s ∧ s.log = log
  within : p.blobs.Within final.blobs
  holds : p.blobs.Holds log

section Sequential

variable {X : Extern} {network : Network} {final p : Platform} {id : PsbtSessionId}
variable {log es : List PsbtSessionEvent}

/-- **A call alone has its effect.** -/
theorem Replica.alone (h : Replica X final id p log) (ha : final.blobs.Addressed X)
    (hc : final.blobs.NoCollision X) {call : SessionCall}
    (heffect : call.Effect X network final.wallets final.blobs id log es) :
    ∃ p', call.alone X network p id = (.ok (), p') ∧ Replica X final id p' (log ++ es) := by
  obtain ⟨s, hrow, rfl⟩ := h.row
  obtain ⟨s₀, left, hs₀, hwork, rfl, hwithin⟩ := heffect
  obtain rfl := Except.ok.inj ((PsbtSession.tryFromEvents_eq_ok_iff.mpr
    ⟨hrow.events_eq, hrow.grammatical.loaded⟩).symm.trans hs₀)
  obtain ⟨hsame, puts, hputs, hputs₀⟩ := SessionCall.work_congr network
    (congrArg (fun wallets : Wallets => wallets.findById s.walletId) h.wallets_eq)
    (h.within.fetchVerified ha hc hrow.grammatical.loaded.hydrates h.holds) call
  have hmore : (call.work X network p.wallets p.blobs s).2.Extends p.blobs :=
    SessionCall.work_blobs.1
  have hstill : (call.work X network p.wallets p.blobs s).2.Within final.blobs := by
    intro e he
    rw [hputs] at he
    rcases List.mem_append.mp he with he | he
    · exact hwithin e (hputs₀ ▸ List.mem_append_left _ he)
    · exact h.within e he
  have hholds : (call.work X network p.wallets p.blobs s).2.Holds s.log := by
    intro e he hash hdocument
    obtain ⟨bytes, hstored⟩ := h.holds e he hash hdocument
    exact ⟨bytes, hmore.mem hstored⟩
  unfold SessionCall.alone
  rw [hrow.found]
  dsimp only
  rw [hsame, hwork]
  cases left with
  | none =>
    refine ⟨_, rfl, h.wallets_eq, ⟨s, hrow, ?_⟩, hstill, ?_⟩
    · exact (List.append_nil _).symm
    · rw [show s.log ++ PsbtSession.leftEvents none = s.log from List.append_nil _]
      exact hholds
  | some s' =>
    obtain ⟨e, ⟨command, hx⟩, hcreated, hsigned⟩ :=
      SessionCall.work_records hrow.grammatical (Prod.ext (hsame.trans hwork) rfl)
    obtain ⟨sessions', hu⟩ := hrow.update_isOk command
    rw [hx.applied] at hu
    obtain ⟨s'', hrow'', hg⟩ := hrow.of_executes hx hu
    have hleft : PsbtSession.leftEvents (some s') = [e] := by
      show s'.events.fresh = [e]
      rw [hx.left, PsbtSession.record_events, hrow.events_eq]
      rfl
    unfold SessionCall.write
    dsimp only
    rw [hu]
    refine ⟨_, rfl, h.wallets_eq, ⟨s'', hrow'', hg.log.trans (by rw [hleft])⟩, hstill, ?_⟩
    rw [hleft]
    intro x hmem hash hdocument
    rcases List.mem_append.mp hmem with hmem | hmem
    · exact hholds x hmem hash hdocument
    · obtain rfl := List.mem_singleton.mp hmem
      cases x with
      | psbtCreated hash' =>
        obtain rfl := Option.some.inj hdocument
        obtain ⟨_, _, _, psbt, hcreates⟩ := hcreated _ rfl
        exact ⟨_, hcreates.stored⟩
      | signatureAdded fingerprint hash' =>
        obtain rfl := Option.some.inj hdocument
        obtain ⟨signed, hstored⟩ := hsigned _ _ rfl
        exact ⟨_, hstored⟩
      | _ => exact absurd hdocument (by simp [PsbtSessionEvent.document])

/-- **The effects are those of the calls themselves**, one after another. -/
theorem sequential_of_serial (ha : final.blobs.Addressed X) (hc : final.blobs.NoCollision X)
    {calls : List SessionCall} {log' : List PsbtSessionEvent}
    (h : Optimistic.Serial (SessionCall.Effect X network final.wallets final.blobs id) log calls
      log') (hp : Replica X final id p log) :
    ∃ p', Sequential X network id p calls p' ∧ Replica X final id p' log' := by
  induction h generalizing p with
  | nil log => exact ⟨p, .nil p, hp⟩
  | cons head tail ih =>
    obtain ⟨p', halone, hp'⟩ := hp.alone ha hc head
    obtain ⟨p'', hsequential, hp''⟩ := ih hp'
    exact ⟨p'', .cons halone hsequential, hp''⟩

end Sequential

/-! ## What the order says about the log -/

section Recorded

variable {X : Extern} {network : Network} {wallets : Wallets} {blobs : BlobStore}
variable {id : PsbtSessionId} {log es : List PsbtSessionEvent}

/-- A session keeps its wallet: only the first event names one. -/
theorem PsbtSession.walletId_of_append {s s' : PsbtSession} (h : PsbtSession.Hydrates s)
    (h' : Grammatical s') (hlog : s'.log = s.log ++ es) (hne : s.log ≠ []) :
    s'.walletId = s.walletId := by
  have hfold : ∀ es, Admitted (PsbtSession.Admits s'.keystores) (s.log ++ es) →
      (es.foldl PsbtSessionBuilder.event s.builder).walletId = some s.walletId := by
    intro es hadmitted
    induction es using List.reverseRecOn with
    | nil => rfl
    | append_singleton es e ih =>
      rw [← List.append_assoc] at hadmitted
      obtain ⟨hbefore, he⟩ := admitted_concat.mp hadmitted
      rw [List.foldl_append]
      cases e with
      | initialized => exact absurd (List.append_eq_nil_iff.mp he).1 hne
      | _ => exact ih hbefore
  have hhydrates := h'.loaded.hydrates
  unfold PsbtSession.Hydrates at hhydrates h
  rw [hlog, List.foldl_append, h] at hhydrates
  have hsame := hfold es (hlog ▸ h'.admitted)
  rw [hhydrates] at hsame
  exact Option.some.inj hsame

/-- What a unit of work leaves to write back is what one command left. -/
theorem SessionCall.work_left {call : SessionCall} {s s' : PsbtSession}
    (h : (call.work X network wallets blobs s).1 = .ok (some s')) : ∃ c, (s.apply c).2 = s' := by
  have hcommand : ∀ command, s.commandWork command = .ok (some s') →
      (s.apply command).2 = s' := by
    intro command hwork
    obtain ⟨e, hx⟩ := PsbtSession.commandWork_eq_some hwork
    exact hx.applied
  cases call with
  | submitSignedPsbt user bytes =>
    obtain ⟨fingerprint, merged, hx, -⟩ := SessionCall.executes_submitSignedPsbt h
    exact ⟨_, hx.applied⟩
  | runPsbtCreation funding =>
    obtain ⟨hash, hwork⟩ := eq_persist_of_toWrite h
    obtain ⟨-, applied, hr⟩ := Platform.recordPsbtCreated_of_persist hwork
    exact ⟨.recordPsbtCreated hash, congrArg Prod.snd hr⟩
  | runFinalization =>
    obtain ⟨txid, hwork⟩ := eq_persist_of_toWrite h
    obtain ⟨-, -, hpersist⟩ := @Platform.finalizeSession_spec X blobs s
    obtain ⟨hash, sigs, applied, hr⟩ := hpersist txid s' hwork
    exact ⟨.finalize txid hash sigs, congrArg Prod.snd hr⟩
  | applyChainObservation observation => exact ⟨_, hcommand _ (eq_ok_of_mapError h)⟩
  | cancel cancelledBy reason => exact ⟨_, hcommand _ (eq_ok_of_mapError h)⟩

/-- No unit of work writes two events. -/
theorem SessionCall.Effect.length_le_one (call : SessionCall) (log es : List PsbtSessionEvent)
    (h : call.Effect X network wallets blobs id log es) : es.length ≤ 1 := by
  obtain ⟨s, left, hs, hwork, rfl, -⟩ := h
  obtain ⟨hevents, -⟩ := PsbtSession.tryFromEvents_eq_ok_iff.mp hs
  cases left with
  | none => exact Nat.zero_le 1
  | some s' =>
    obtain ⟨command, rfl⟩ := SessionCall.work_left hwork
    show (s.apply command).2.events.fresh.length ≤ 1
    rcases PsbtSession.apply_spec s command with ⟨e, -, he⟩ | ⟨-, he⟩
    · rw [he, PsbtSession.record_events, hevents]
      exact Nat.le_refl 1
    · rw [he, hevents]
      exact Nat.zero_le 1

/-- **A submission that succeeds leaves the signature of its signer in the log.** -/
theorem SessionCall.Effect.submitted {user : UserId} {bytes : Bytes}
    (h : (SessionCall.submitSignedPsbt user bytes).Effect X network wallets blobs id log es) :
    ∃ s w fingerprint hash, PsbtSession.tryFromEvents (.load id log) = .ok s ∧
      wallets.findById s.walletId = .ok w ∧ w.keystoreFingerprintOf X user = some fingerprint ∧
      .signatureAdded fingerprint hash ∈ log ++ es := by
  obtain ⟨s, left, hs, hwork, rfl, -⟩ := h
  obtain ⟨hevents, -⟩ := PsbtSession.tryFromEvents_eq_ok_iff.mp hs
  have hlog : s.log = log := by
    unfold PsbtSession.log
    rw [hevents, EntityEvents.iterAll_load]
  obtain ⟨fingerprint, merged, applied, s', hcheck, hr, rfl, -⟩ :=
    SessionCall.work_submitSignedPsbt hwork
  obtain ⟨w, -, -, -, hw, hfp, -⟩ := Platform.checkSubmission_eq_ok hcheck
  cases applied with
  | executed u =>
    -- the signature is the event that is written
    obtain ⟨e, hx⟩ := PsbtSession.executes_of_apply (c := .addSignature fingerprint _) hr
    refine ⟨s, w, fingerprint, PsbtHash.digestOf X (X.serialize merged), hs, hw, hfp,
      List.mem_append_right _ ?_⟩
    show _ ∈ s'.events.fresh
    rw [hx.left, PsbtSession.record_events, hevents]
    cases hx.step
    exact List.mem_singleton_self _
  | alreadyApplied =>
    -- it was there already
    have hguard : s.guard (PsbtSessionEvent.isSignatureOf fingerprint) (fun _ => false) = true := by
      unfold PsbtSession.addSignature at hr
      by_contra hguard
      rw [if_neg hguard] at hr
      repeat' split at hr
      all_goals exact absurd (Prod.mk.inj hr).1 (by simp)
    obtain ⟨e, he, hsignature⟩ := alreadyApplied_iff_exists.mp hguard
    rw [hlog] at he
    cases e with
    | signatureAdded fp hash =>
      obtain rfl : fp = fingerprint := by simpa [PsbtSessionEvent.isSignatureOf] using hsignature
      exact ⟨s, w, fp, hash, hs, hw, hfp, List.mem_append_left _ he⟩
    | _ => exact absurd hsignature (by simp [PsbtSessionEvent.isSignatureOf])

end Recorded

open Traffic in
/-- **Session work is linearizable.** After any interleaving of calls, for every session: the calls
on it that returned `Ok` have an order that respects real time, and

* run one after another in that order, each from its load to its write, on a platform that holds
  the session as it was proposed and no document, all return `Ok` and leave the very log that the
  interleaving left;
* every event after the first is what one of them comes to on the log before it;
* the log has only grown, a submission that returned `Ok` has the signature of its signer in it,
  no signer has two, and there is at most one `PsbtCreated` and one `Finalized`. -/
theorem session_work_linearizable (X : Extern) (network : Network)
    (actions : List Traffic.Action) {id : PsbtSessionId} {s : PsbtSession}
    (hs : (empty.run X network actions).platform.sessions.findById id = .ok s)
    (hcollision : (empty.run X network actions).platform.blobs.NoCollision X) :
    ∃ (order : List (Nat × SessionCall)) (e : PsbtSessionEvent) (rest : List PsbtSessionEvent)
      (p : Platform),
      order.Nodup ∧
      (∀ i call, (i, call) ∈ order ↔
        (empty.run X network actions).At i id call (.returned (.ok ()))) ∧
      order.Pairwise (fun a b => ¬ Precedes X network id actions b.1 a.1) ∧
      s.log = e :: rest ∧
      Sequential X network id (proposedAlone (empty.run X network actions).platform.wallets id e)
        (order.map Prod.snd) p ∧
      p.sessions.find? id = some s.log ∧
      (∀ pre x post, rest = pre ++ x :: post → ∃ i call,
        (empty.run X network actions).At i id call (.returned (.ok ())) ∧
        call.Effect X network (empty.run X network actions).platform.wallets
          (empty.run X network actions).platform.blobs id (e :: pre) [x]) ∧
      (∀ before later s₀, actions = before ++ later →
        (empty.run X network before).platform.sessions.findById id = .ok s₀ → s₀.log <+: s.log) ∧
      (∀ i user bytes, (empty.run X network actions).At i id (.submitSignedPsbt user bytes)
          (.returned (.ok ())) →
        ∃ w fingerprint hash,
          (empty.run X network actions).platform.wallets.findById s.walletId = .ok w ∧
          w.keystoreFingerprintOf X user = some fingerprint ∧
          .signatureAdded fingerprint hash ∈ s.log) ∧
      ((s.log.filterMap PsbtSessionEvent.signature).map SignatureRecord.fingerprint).Nodup ∧
      s.log.countP PsbtSessionEvent.isPsbtCreated ≤ 1 ∧
      s.log.countP PsbtSessionEvent.isFinalized ≤ 1 := by
  have hrow := (inv_run X network actions).sessions.row hs
  have hback := backed_run X network actions
  have hlinear := linear_run X network id hcollision actions [] (by rw [List.append_nil])
  obtain ⟨e, order, ⟨hdocument, first, hfirst⟩, hl⟩ := hlinear.present s.log hrow.log_eq
  have hgrammar := hrow.grammatical.logGrammar
  have hstart : first.log = [e] := by
    refine Option.some.inj (hfirst.log_eq.symm.trans ?_)
    simp [proposedAlone, Store.find?]
  have hreplica : Replica X (empty.run X network actions).platform id
      (proposedAlone (empty.run X network actions).platform.wallets id e) [e] := by
    refine ⟨rfl, ⟨first, hfirst, hstart⟩, fun x hx => absurd hx List.not_mem_nil, ?_⟩
    intro x hx hash hhash
    obtain rfl := List.mem_singleton.mp hx
    rw [hdocument] at hhash
    exact absurd hhash (by simp)
  obtain ⟨p, hsequential, hp⟩ := sequential_of_serial hback.addressed hcollision hl.serial hreplica
  obtain ⟨last, hlast, hlog⟩ := hp.row
  obtain ⟨rest, hrest⟩ := hl.serial.isPrefix
  have hmem : ∀ i call, (i, call) ∈ order ↔
      (empty.run X network actions).At i id call (.returned (.ok ())) := fun i call => hl.exact _
  refine ⟨order, e, rest, p, hl.nodup, hmem, hl.ordered, hrest.symm, hsequential,
    hlast.log_eq.trans (congrArg some hlog), fun pre x post hsplit => ?_,
    fun before later s₀ hactions hs₀ => ?_, fun i user bytes hi => ?_, hgrammar.signers,
    hgrammar.created_once, hgrammar.finalized_once⟩
  · obtain ⟨call, hcall, heffect⟩ := hl.serial.computed SessionCall.Effect.length_le_one
      (show s.log = (e :: pre) ++ x :: post by rw [← hrest, hsplit]; rfl) (by simp)
    obtain ⟨⟨i, call⟩, hi, rfl⟩ := List.mem_map.mp hcall
    exact ⟨i, call, (hmem i call).mp hi, heffect⟩
  · have hinv := inv_run X network before
    obtain ⟨s', es, hrow', hg⟩ := hinv.run_grows network later id s₀ (hinv.sessions.row hs₀)
    rw [← run_append, ← hactions] at hrow'
    obtain rfl := Except.ok.inj (hrow'.found.symm.trans hs)
    exact ⟨es, hg.log.symm⟩
  · obtain ⟨mid, es, hmid, heffect, hend⟩ := hl.serial.exists_effect
      (List.mem_map_of_mem ((hmem i _).mpr hi))
    obtain ⟨s₀, w, fingerprint, hash, hs₀, hw, hfp, hsigned⟩ := heffect.submitted
    obtain ⟨hevents, hloaded⟩ := PsbtSession.tryFromEvents_eq_ok_iff.mp hs₀
    have hlog₀ : s₀.log = mid := by
      unfold PsbtSession.log
      rw [hevents, EntityEvents.iterAll_load]
    obtain ⟨es', hes'⟩ := (List.prefix_append mid es).trans hend
    have hwalletId := PsbtSession.walletId_of_append hloaded.hydrates hrow.grammatical
      (show s.log = s₀.log ++ es' by rw [hlog₀, hes']) (by
        rw [hlog₀]
        rintro rfl
        exact absurd hmid.length_le (by simp))
    rw [← hwalletId] at hw
    exact ⟨w, fingerprint, hash, hw, hfp, hend.subset hsigned⟩

/-- A one-of-one wallet, its proposal, the PSBT, and two submissions of the same document that
load before either writes. -/
def Extern.Sample.racing : List Traffic.Action :=
  [.register ⟨0⟩ 1 [⟨0⟩], .call (.wallet ⟨0⟩ (.addKeystore (key 1) ⟨0⟩)), .step 0,
    .call (.proposeSpend ⟨0⟩ ⟨0⟩ ⟨0⟩ PsbtSession.soloSpend), .step 1,
    .call (.session ⟨0⟩ (.runPsbtCreation fun _ _ => .ok [coin 1 [10]])), .step 2, .step 2,
    .call (.session ⟨0⟩ (.submitSignedPsbt ⟨0⟩ [1])),
    .call (.session ⟨0⟩ (.submitSignedPsbt ⟨0⟩ [1])), .step 3, .step 4, .step 4, .step 3]

open Extern.Sample in
theorem session_work_linearizable_racing :
    ∃ (order : List (Nat × SessionCall)) (e : PsbtSessionEvent) (p : Platform),
      Sequential (.sample [soloUnsigned, soloSigned true]) .bitcoin ⟨0⟩
        (Traffic.proposedAlone (Traffic.empty.run (.sample [soloUnsigned, soloSigned true]) .bitcoin
          racing).platform.wallets ⟨0⟩ e) (order.map Prod.snd) p ∧
      p.sessions.find? ⟨0⟩ = some soloCollected.log := by
  obtain ⟨order, e, rest, p, -, -, -, -, hsequential, hfind, -⟩ :=
    @session_work_linearizable (.sample [soloUnsigned, soloSigned true]) .bitcoin racing ⟨0⟩
      soloCollected (by decide +kernel) (by decide +kernel)
  exact ⟨order, e, p, hsequential, hfind⟩

end Kota
