import Kota.Lib.Distinct
import Kota.PsbtSession.Hydration

/-!
# The grammar of a session log

`status()` reads the log backwards for the newest lifecycle event, and every guard reads it for
events of its own. Taken together they write a log in which each event is admitted by the events
before it (`Admits`).

* `Step.admits`: what a command records is admitted, on a log that was.
* **`log_grammar`**: after any commands on a proposed session, the log is as `LogGrammar` says:
  what occurs once, what comes before what, and how chain events alternate.

Three paths are allowed: a sighting after a cancellation, a confirmation without a sighting, and a
first sighting after an invalidation. What ties the two scans together is that the newest of
`Confirmed` and `Invalidated` is `Confirmed` only in status `Confirmed`
(`status_of_tip_confirmed`).
-/

namespace Kota

open EventLog

namespace PsbtSession

variable {keystores : List KeyFingerprint} {log : List PsbtSessionEvent}

/-- The event may stand after the events `pre` in the log of a session over `keystores`. -/
def Admits (keystores : List KeyFingerprint) (pre : List PsbtSessionEvent) :
    PsbtSessionEvent → Prop
  | .initialized .. => pre = []
  | .psbtCreated _ => ∀ e ∈ pre, e.status = none
  | .signatureAdded fp _ =>
    ((∃ e ∈ pre, e.isPsbtCreated = true) ∧
      ∀ e ∈ pre, e.isFinalized = false ∧ e.isCancelled = false) ∧
    fp ∈ keystores ∧ ∀ e ∈ pre, e.isSignatureOf fp = false
  | .finalized .. =>
    (∃ e ∈ pre, e.isPsbtCreated = true) ∧ ∀ e ∈ pre, e.isFinalized = false ∧ e.isCancelled = false
  | .broadcastSeen txid =>
    (∃ hash sigsUsed, .finalized txid hash sigsUsed ∈ pre) ∧
    (∀ e ∈ pre, e.isBroadcastSeen = false) ∧ latest PsbtSessionEvent.tip pre ≠ some .confirmed
  | .confirmed txid _ _ =>
    (∃ hash sigsUsed, .finalized txid hash sigsUsed ∈ pre) ∧
    latest PsbtSessionEvent.tip pre ≠ some .confirmed
  | .invalidated _ =>
    ((∃ e ∈ pre, e.isFinalized = true) ∧
      ∃ e ∈ pre, e.isBroadcastSeen = true ∨ e.isConfirmed = true) ∧
    latest PsbtSessionEvent.tip pre ≠ some .invalidated
  | .cancelled .. =>
    ∀ e ∈ pre, e.isCancelled = false ∧ e.isBroadcastSeen = false ∧ e.tip = none

/-! ## Reading a status off an admitted log -/

theorem status_pending_iff :
    PsbtSessionStatus.ofLog log = .pending ↔ ∀ e ∈ log, e.status = none := by
  rw [← latest_eq_none_iff]
  unfold PsbtSessionStatus.ofLog
  cases h : latest PsbtSessionEvent.status log with
  | none => simp
  | some status =>
    obtain ⟨e, -, he⟩ := latest_mem h
    simp only [Option.getD_some, reduceCtorEq, iff_false]
    rintro rfl
    cases e <;> exact absurd he (by simp [PsbtSessionEvent.status])

/-- A status other than `Pending` is that of some event. -/
theorem mem_of_status {status : PsbtSessionStatus} (h : PsbtSessionStatus.ofLog log = status)
    (hne : status ≠ .pending) : ∃ e ∈ log, e.status = some status := by
  unfold PsbtSessionStatus.ofLog at h
  cases hl : latest PsbtSessionEvent.status log with
  | none =>
    rw [hl] at h
    exact absurd h.symm hne
  | some status' =>
    rw [hl] at h
    obtain rfl : status' = status := h
    exact latest_mem hl

/-- While a session collects, its log holds `PsbtCreated` and nothing later in the lifecycle. -/
theorem collecting_of_admitted (h : Admitted (Admits keystores) log)
    (hstatus : PsbtSessionStatus.ofLog log = .collecting) :
    (∃ e ∈ log, e.isPsbtCreated = true) ∧
      ∀ e ∈ log, e.isFinalized = false ∧ e.isCancelled = false := by
  induction log using List.reverseRecOn with
  | nil => exact absurd hstatus (by simp [PsbtSessionStatus.ofLog])
  | append_singleton log e ih =>
    obtain ⟨hlog, he⟩ := admitted_concat.mp h
    rw [PsbtSessionStatus.ofLog_concat] at hstatus
    simp only [List.mem_append, List.mem_singleton]
    cases e with
    | psbtCreated hash =>
      refine ⟨⟨_, Or.inr rfl, rfl⟩, ?_⟩
      rintro e (hm | rfl)
      · have hnone := he e hm
        cases e <;> simp_all [PsbtSessionEvent.status, PsbtSessionEvent.isFinalized,
          PsbtSessionEvent.isCancelled]
      · exact ⟨rfl, rfl⟩
    | initialized | signatureAdded =>
      obtain ⟨⟨x, hx, hc⟩, hno⟩ := ih hlog hstatus
      refine ⟨⟨x, Or.inl hx, hc⟩, ?_⟩
      rintro e (hm | rfl)
      · exact hno e hm
      · exact ⟨rfl, rfl⟩
    | finalized | broadcastSeen | confirmed | invalidated | cancelled =>
      exact absurd hstatus (by simp [PsbtSessionEvent.status])

/-- A chain event comes after the finalization. -/
theorem finalized_of_admitted (h : Admitted (Admits keystores) log) {e : PsbtSessionEvent}
    (he : e ∈ log) (hchain : e.isBroadcastSeen = true ∨ e.tip ≠ none) :
    ∃ x ∈ log, x.isFinalized = true := by
  obtain ⟨pre, post, rfl, ha⟩ := h.of_mem he
  cases e with
  | broadcastSeen txid =>
    obtain ⟨⟨hash, sigsUsed, hm⟩, -⟩ := ha
    exact ⟨_, List.mem_append_left _ hm, rfl⟩
  | confirmed txid height blockHash =>
    obtain ⟨⟨hash, sigsUsed, hm⟩, -⟩ := ha
    exact ⟨_, List.mem_append_left _ hm, rfl⟩
  | invalidated reason =>
    obtain ⟨⟨⟨x, hm, hx⟩, -⟩, -⟩ := ha
    exact ⟨x, List.mem_append_left _ hm, hx⟩
  | _ => exact absurd hchain (by simp [PsbtSessionEvent.isBroadcastSeen, PsbtSessionEvent.tip])

/-- **The two scans agree on confirmations**: while the newest of `Confirmed` and `Invalidated` is
`Confirmed`, no other lifecycle event comes after it. -/
theorem status_of_tip_confirmed (h : Admitted (Admits keystores) log)
    (htip : latest PsbtSessionEvent.tip log = some .confirmed) :
    PsbtSessionStatus.ofLog log = .confirmed := by
  induction log using List.reverseRecOn with
  | nil => exact absurd htip (by simp)
  | append_singleton log e ih =>
    obtain ⟨hlog, he⟩ := admitted_concat.mp h
    rw [latest_concat] at htip
    rw [PsbtSessionStatus.ofLog_concat]
    cases e with
    | confirmed => rfl
    | invalidated => exact absurd htip (by simp [PsbtSessionEvent.tip])
    | initialized | signatureAdded => exact ih hlog htip
    | broadcastSeen => exact absurd htip he.2.2
    | cancelled =>
      obtain ⟨x, hx, hs⟩ := latest_mem htip
      rw [(he x hx).2.2] at hs
      exact absurd hs (by simp)
    | psbtCreated =>
      obtain ⟨x, hx, hs⟩ := latest_mem htip
      have hnone := he x hx
      cases x <;> simp_all [PsbtSessionEvent.status, PsbtSessionEvent.tip]
    | finalized =>
      obtain ⟨x, hx, hs⟩ := latest_mem htip
      obtain ⟨y, hy, hf⟩ := finalized_of_admitted hlog hx (Or.inr (by rw [hs]; simp))
      rw [(he.2 y hy).1] at hf
      exact absurd hf (by simp)

/-- Once the chain has spoken, the status is what it said. -/
theorem status_of_chain (h : Admitted (Admits keystores) log) {x : PsbtSessionEvent}
    (hx : x ∈ log) (hchain : x.isBroadcastSeen = true ∨ x.tip ≠ none) :
    PsbtSessionStatus.ofLog log = .broadcast ∨ PsbtSessionStatus.ofLog log = .confirmed ∨
      PsbtSessionStatus.ofLog log = .invalidated := by
  induction log using List.reverseRecOn with
  | nil => exact absurd hx List.not_mem_nil
  | append_singleton log e ih =>
    obtain ⟨hlog, he⟩ := admitted_concat.mp h
    rw [PsbtSessionStatus.ofLog_concat]
    have hbefore : e.isBroadcastSeen = false ∧ e.tip = none → x ∈ log := by
      rintro ⟨h1, h2⟩
      rcases List.mem_append.mp hx with hx | hx
      · exact hx
      · obtain rfl := List.mem_singleton.mp hx
        exact absurd hchain (by simp [h1, h2])
    cases e with
    | broadcastSeen => exact Or.inl rfl
    | confirmed => exact Or.inr (Or.inl rfl)
    | invalidated => exact Or.inr (Or.inr rfl)
    | initialized | signatureAdded => exact ih hlog (hbefore ⟨rfl, rfl⟩)
    | psbtCreated =>
      have hnone := he x (hbefore ⟨rfl, rfl⟩)
      cases x <;> simp_all [PsbtSessionEvent.status, PsbtSessionEvent.isBroadcastSeen,
        PsbtSessionEvent.tip]
    | finalized =>
      obtain ⟨y, hy, hf⟩ := finalized_of_admitted hlog (hbefore ⟨rfl, rfl⟩) hchain
      rw [(he.2 y hy).1] at hf
      exact absurd hf (by simp)
    | cancelled =>
      obtain ⟨-, h1, h2⟩ := he x (hbefore ⟨rfl, rfl⟩)
      exact absurd hchain (by simp [h1, h2])

/-! ## What a command records is admitted -/

theorem Step.admits {s : PsbtSession} {c : PsbtSessionCommand} {e : PsbtSessionEvent}
    (hs : Step s c e) (hh : Hydrates s) (h : Admitted (Admits s.keystores) s.log) :
    Admits s.keystores s.log e := by
  have hfinalized : ∀ f, s.finalization = some f →
      ∃ hash sigsUsed, PsbtSessionEvent.finalized f.txid hash sigsUsed ∈ s.log := by
    intro f hf
    rw [hh.finalization_eq] at hf
    obtain ⟨x, hx, he⟩ := latest_mem hf
    cases x with
    | finalized txid hash sigsUsed =>
      obtain rfl := Option.some.inj he
      exact ⟨hash, sigsUsed, hx⟩
    | _ => exact absurd he (by simp [PsbtSessionEvent.finalization])
  have htip : ∀ status, s.status = status → status ≠ .confirmed →
      latest PsbtSessionEvent.tip s.log ≠ some .confirmed := by
    rintro _ rfl hne ht
    exact hne (status_of_tip_confirmed h ht)
  cases hs with
  | created hash _ hpending => exact status_pending_iff.mp hpending
  | signed fp hash honce hcollecting hpolicy =>
    exact ⟨collecting_of_admitted h hcollecting, hpolicy, honce⟩
  | finalized txid hash sigsUsed _ hcollecting => exact collecting_of_admitted h hcollecting
  | broadcast f hrecorded honce hne => exact ⟨hfinalized f hrecorded, honce, htip _ rfl hne⟩
  | confirmed f height blockHash hrecorded hfresh => exact ⟨hfinalized f hrecorded, hfresh⟩
  | invalidated reason hfresh hstatus =>
    have hseen : ∃ x ∈ s.log, x.isBroadcastSeen = true ∨ x.isConfirmed = true := by
      rcases hstatus with hstatus | hstatus <;>
      · obtain ⟨x, hx, he⟩ := mem_of_status hstatus (by simp)
        refine ⟨x, hx, ?_⟩
        cases x <;> simp_all [PsbtSessionEvent.status, PsbtSessionEvent.isBroadcastSeen,
          PsbtSessionEvent.isConfirmed]
    refine ⟨⟨?_, hseen⟩, hfresh⟩
    obtain ⟨x, hx, he⟩ := hseen
    refine finalized_of_admitted h hx (he.imp_right fun hc => ?_)
    cases x <;> simp_all [PsbtSessionEvent.isConfirmed, PsbtSessionEvent.tip]
  | cancelled cancelledBy reason honce hstatus =>
    refine fun x hx => ⟨honce x hx, ?_⟩
    by_contra hchain
    have hspoken : x.isBroadcastSeen = true ∨ x.tip ≠ none := by
      rwa [not_and_or, Bool.not_eq_false] at hchain
    rcases status_of_chain h hx hspoken with hs | hs | hs <;>
      rcases hstatus with hstatus | hstatus | hstatus <;>
      exact absurd (hs.symm.trans hstatus) (by simp)

/-- A loaded session whose log is admitted event by event. -/
structure Grammatical (s : PsbtSession) : Prop where
  loaded : Loaded s
  admitted : Admitted (Admits s.keystores) s.log

/-- **A step keeps the grammar.** -/
theorem Grammatical.record {s : PsbtSession} {c : PsbtSessionCommand} {e : PsbtSessionEvent}
    (h : Grammatical s) (hs : Step s c e) : Grammatical (s.record e) := by
  refine ⟨h.loaded.record hs, ?_⟩
  rw [record_log, record_keystores]
  exact admitted_concat.mpr ⟨h.admitted, hs.admits h.loaded.hydrates h.admitted⟩

theorem Grammatical.run {s : PsbtSession} (h : Grammatical s) (cs : List PsbtSessionCommand) :
    Grammatical (s.run cs) :=
  run_induction Grammatical.record h cs

theorem Grammatical.proposed {n : NewPsbtSession} (h : Loaded n.proposed) :
    Grammatical n.proposed := by
  refine ⟨h, ?_⟩
  rw [NewPsbtSession.proposed_log, ← List.nil_append [_]]
  exact admitted_concat.mpr ⟨admitted_nil, rfl⟩

/-! ## The grammar, stated over positions -/

/-- The grammar of a log over the policy `keystores`. -/
structure LogGrammar (keystores : List KeyFingerprint) (log : List PsbtSessionEvent) : Prop where
  created_once : log.countP PsbtSessionEvent.isPsbtCreated ≤ 1
  finalized_once : log.countP PsbtSessionEvent.isFinalized ≤ 1
  cancelled_once : log.countP PsbtSessionEvent.isCancelled ≤ 1
  broadcast_once : log.countP PsbtSessionEvent.isBroadcastSeen ≤ 1
  /-- A signature lies after `PsbtCreated`, before any `Finalized` or `Cancelled`. -/
  signature : ∀ pre fp hash post, log = pre ++ .signatureAdded fp hash :: post →
    (∃ e ∈ pre, e.isPsbtCreated = true) ∧
      (∀ e ∈ pre, e.isFinalized = false ∧ e.isCancelled = false) ∧ fp ∈ keystores
  signers : ((log.filterMap PsbtSessionEvent.signature).map SignatureRecord.fingerprint).Nodup
  finalized : ∀ pre txid hash sigsUsed post, log = pre ++ .finalized txid hash sigsUsed :: post →
    (∃ e ∈ pre, e.isPsbtCreated = true) ∧ ∀ e ∈ pre, e.isCancelled = false
  broadcast_txid : ∀ pre txid post, log = pre ++ .broadcastSeen txid :: post →
    ∃ hash sigsUsed, .finalized txid hash sigsUsed ∈ pre
  confirmed_txid : ∀ pre txid height blockHash post,
    log = pre ++ .confirmed txid height blockHash :: post →
    ∃ hash sigsUsed, .finalized txid hash sigsUsed ∈ pre
  invalidated : ∀ pre reason post, log = pre ++ .invalidated reason :: post →
    (∃ e ∈ pre, e.isFinalized = true) ∧
      ∃ e ∈ pre, e.isBroadcastSeen = true ∨ e.isConfirmed = true
  invalidated_between : ∀ pre c mid c' post, log = pre ++ c :: (mid ++ c' :: post) →
    c.isConfirmed = true → c'.isConfirmed = true → ∃ e ∈ mid, e.isInvalidated = true
  confirmed_between : ∀ pre c mid c' post, log = pre ++ c :: (mid ++ c' :: post) →
    c.isInvalidated = true → c'.isInvalidated = true → ∃ e ∈ mid, e.isConfirmed = true
  /-- Nothing is sighted or cancelled while the chain's last word is `Confirmed`. -/
  settled : ∀ pre e post, log = pre ++ e :: post →
    e.isBroadcastSeen = true ∨ e.isCancelled = true →
    latest PsbtSessionEvent.tip pre ≠ some .confirmed

theorem Grammatical.logGrammar {s : PsbtSession} (h : Grammatical s) :
    LogGrammar s.keystores s.log where
  created_once := h.admitted.countP_le_one fun pre e ha hp x hx => by
    cases e with
    | psbtCreated hash =>
      have hnone := ha x hx
      cases x <;> simp_all [PsbtSessionEvent.status, PsbtSessionEvent.isPsbtCreated]
    | _ => exact absurd hp (by simp [PsbtSessionEvent.isPsbtCreated])
  finalized_once := h.admitted.countP_le_one fun pre e ha hp x hx => by
    cases e with
    | finalized txid hash sigsUsed => exact (ha.2 x hx).1
    | _ => exact absurd hp (by simp [PsbtSessionEvent.isFinalized])
  cancelled_once := h.admitted.countP_le_one fun pre e ha hp x hx => by
    cases e with
    | cancelled cancelledBy reason => exact (ha x hx).1
    | _ => exact absurd hp (by simp [PsbtSessionEvent.isCancelled])
  broadcast_once := h.admitted.countP_le_one fun pre e ha hp x hx => by
    cases e with
    | broadcastSeen txid => exact ha.2.1 x hx
    | _ => exact absurd hp (by simp [PsbtSessionEvent.isBroadcastSeen])
  signature pre fp hash post hlog := by
    obtain ⟨⟨h1, h2⟩, h3, -⟩ := h.admitted pre _ post hlog
    exact ⟨h1, h2, h3⟩
  signers := by
    rw [← h.loaded.hydrates.signatures_eq]
    exact h.loaded.wellFormed.signers
  finalized pre txid hash sigsUsed post hlog := by
    obtain ⟨h1, h2⟩ := h.admitted pre _ post hlog
    exact ⟨h1, fun e he => (h2 e he).2⟩
  broadcast_txid pre txid post hlog := (h.admitted pre _ post hlog).1
  confirmed_txid pre txid height blockHash post hlog := (h.admitted pre _ post hlog).1
  invalidated pre reason post hlog := (h.admitted pre _ post hlog).1
  invalidated_between pre c mid c' post hlog hc hc' := by
    rw [← List.cons_append, ← List.append_assoc] at hlog
    have ha := h.admitted _ c' post hlog
    cases c' with
    | confirmed txid height blockHash =>
      have htip : c.tip = some .confirmed := by
        cases c <;> simp_all [PsbtSessionEvent.isConfirmed, PsbtSessionEvent.tip]
      obtain ⟨e, he, b, hne, hb⟩ := exists_between htip ha.2
      refine ⟨e, he, ?_⟩
      cases e <;> simp_all [PsbtSessionEvent.isInvalidated, PsbtSessionEvent.tip]
    | _ => exact absurd hc' (by simp [PsbtSessionEvent.isConfirmed])
  confirmed_between pre c mid c' post hlog hc hc' := by
    rw [← List.cons_append, ← List.append_assoc] at hlog
    have ha := h.admitted _ c' post hlog
    cases c' with
    | invalidated reason =>
      have htip : c.tip = some .invalidated := by
        cases c <;> simp_all [PsbtSessionEvent.isInvalidated, PsbtSessionEvent.tip]
      obtain ⟨e, he, b, hne, hb⟩ := exists_between htip ha.2
      refine ⟨e, he, ?_⟩
      cases e <;> simp_all [PsbtSessionEvent.isConfirmed, PsbtSessionEvent.tip]
    | _ => exact absurd hc' (by simp [PsbtSessionEvent.isInvalidated])
  settled pre e post hlog he := by
    have ha := h.admitted pre e post hlog
    cases e with
    | broadcastSeen txid => exact ha.2.2
    | cancelled cancelledBy reason =>
      intro htip
      obtain ⟨x, hx, hs⟩ := latest_mem htip
      rw [(ha x hx).2.2] at hs
      exact absurd hs (by simp)
    | _ =>
      exact absurd he (by simp [PsbtSessionEvent.isBroadcastSeen, PsbtSessionEvent.isCancelled])

/-- The `PsbtCreated` of the log is the recorded unsigned PSBT. -/
theorem Grammatical.unsignedPsbtHash_eq {s : PsbtSession} (h : Grammatical s) {hash : PsbtHash}
    (hm : .psbtCreated hash ∈ s.log) : s.unsignedPsbtHash = some hash := by
  rw [h.loaded.hydrates.unsignedPsbtHash_eq]
  exact latest_of_once (p := PsbtSessionEvent.isPsbtCreated) (fun e => by cases e <;> rfl)
    h.logGrammar.created_once hm rfl

/-- The `Finalized` of the log is the recorded finalization. -/
theorem Grammatical.finalization_eq {s : PsbtSession} (h : Grammatical s) {txid : Txid}
    {hash : PsbtHash} {sigsUsed : List KeyFingerprint}
    (hm : .finalized txid hash sigsUsed ∈ s.log) :
    s.finalization = some ⟨txid, hash, sigsUsed⟩ := by
  rw [h.loaded.hydrates.finalization_eq]
  exact latest_of_once (p := PsbtSessionEvent.isFinalized) (fun e => by cases e <;> rfl)
    h.logGrammar.finalized_once hm rfl

/-! ## Who is missing -/

theorem mem_missingKeystores {s : PsbtSession} {fp : KeyFingerprint} :
    fp ∈ s.missingKeystores ↔ fp ∈ s.keystores ∧ fp ∉ s.signers := by
  unfold missingKeystores
  simp only [List.mem_filter, Bool.not_eq_true', ← Bool.not_eq_true, hasSigned_iff]

/-- Who has signed and who is missing make up the policy. -/
theorem WellFormed.missing_add {s : PsbtSession} (h : WellFormed s) :
    s.missingKeystores.length + s.signatureCount = s.keystores.length := by
  have hadd := Distinct.length_filter_not_mem_add h.keystores h.signers h.policy
  have hcontains : ∀ fp, s.signers.contains fp = s.hasSigned fp := fun fp => by
    rw [Bool.eq_iff_iff, List.contains_iff_mem, hasSigned_iff]
  simp only [hcontains] at hadd
  have hlen : s.signers.length = s.signatures.length := List.length_map _
  rw [hlen] at hadd
  exact hadd

/-- **The grammar of a session log.** Whatever commands follow a proposal on an active wallet, the
log satisfies `LogGrammar` over the wallet's keystores, and the missing keystores are those
without a signature. -/
theorem log_grammar {X : Extern} {id : PsbtSessionId} {wallet : Wallet} {proposedBy : UserId}
    {spend : SpendSpec} {n : NewPsbtSession} {s : PsbtSession}
    (hn : NewPsbtSession.tryNew X id wallet proposedBy spend = .ok n)
    (hs : tryFromEvents (.load n.id n.intoEvents.iterAll) = .ok s)
    (cs : List PsbtSessionCommand) :
    LogGrammar (wallet.keystores.map (keystoreFingerprint X)) (s.run cs).log ∧
    (∀ fp, fp ∈ (s.run cs).missingKeystores ↔
      fp ∈ wallet.keystores.map (keystoreFingerprint X) ∧
        ∀ e ∈ (s.run cs).log, e.isSignatureOf fp = false) ∧
    (s.run cs).missingKeystores.length + (s.run cs).signatureCount = wallet.keystores.length := by
  obtain ⟨-, -, hpolicy⟩ := NewPsbtSession.tryNew_eq_ok_iff.mp hn
  obtain ⟨hevents, hloaded⟩ := tryFromEvents_eq_ok_iff.mp hs
  obtain rfl := hloaded.eq_proposed hevents
  have h := (Grammatical.proposed hloaded).run cs
  have hkeys : (n.proposed.run cs).keystores = wallet.keystores.map (keystoreFingerprint X) := by
    rw [keystores_run, hpolicy]
    rfl
  refine ⟨hkeys ▸ h.logGrammar, fun fp => ?_, ?_⟩
  · rw [mem_missingKeystores, hkeys, h.loaded.hydrates.mem_signers]
    simp
  · rw [h.loaded.wellFormed.missing_add, hkeys, List.length_map]

/-- A one-of-one wallet, active. -/
def soloWallet : Wallet :=
  (NewWallet.registered ⟨⟨0⟩, .bitcoin, 1, [⟨7⟩]⟩).run (.sample [])
    [.addKeystore (Extern.Sample.key 1) ⟨7⟩]

/-- A whole life: a second PSBT and a second finalization come too late, the transaction is seen,
confirmed, reorganised away and confirmed again. -/
def soloLife : List PsbtSessionCommand :=
  [.recordPsbtCreated ⟨Vector.replicate 32 0⟩, .recordPsbtCreated ⟨Vector.replicate 32 4⟩,
    .addSignature 1 ⟨Vector.replicate 32 1⟩, .finalize ⟨9⟩ ⟨Vector.replicate 32 2⟩ [1],
    .finalize ⟨8⟩ ⟨Vector.replicate 32 3⟩ [1], .markBroadcastSeen ⟨9⟩, .confirm ⟨9⟩ 100 ⟨1⟩,
    .invalidate .reorged, .confirm ⟨9⟩ 101 ⟨2⟩]

theorem log_grammar_solo :
    LogGrammar (soloWallet.keystores.map (keystoreFingerprint (.sample [])))
        (soloSession.proposed.run soloLife).log ∧
      (soloSession.proposed.run soloLife).log.length = 8 ∧
      (soloSession.proposed.run soloLife).missingKeystores.length +
        (soloSession.proposed.run soloLife).signatureCount = soloWallet.keystores.length :=
  have h := @log_grammar (.sample []) ⟨3⟩ soloWallet ⟨7⟩ soloSpend soloSession soloSession.proposed
    (by decide) (by decide) soloLife
  ⟨h.1, by decide, h.2.2⟩

end PsbtSession

end Kota
