import Kota.Documents
import Kota.Lib.Shortest

/-!
# When finalization succeeds

`run_finalization` on a session that collected enough signatures, for the documents that were
accepted for it. The loop over the recorded signatures is the search for the shortest list of
documents that covers every input (`finalizeLoop_search`); it ends in a recorded finalization when
that list is as long as the threshold, and in an error otherwise
(`Collected.runFinalization_search`).

* **`finalization_recorded_iff`**: so finalization succeeds iff the shortest covering prefix of the
  documents exists, has at least `threshold` documents, and none of them outgrew the size cap.
* **`uncompressed_signature_bricks`**: an accepted document need not provide anything. The validator
  binds a signature by the point of its key and ignores the compressed flag, the finaliser looks it
  up under the compressed key.
-/

namespace Kota

open EventLog

variable {X : Extern} {network : Network}

/-! ## The loop as a search -/

/-- What the loop does with the first combination that finalises. -/
def settle (X : Extern) (blobs : BlobStore) (s : PsbtSession) (combined : Psbt)
    (sigsUsed : List KeyFingerprint) : Except JobsError (Work Txid) × BlobStore :=
  match X.finalize combined with
  | none => (.error .cannotFinalize, blobs)
  | some finalPsbt =>
    match X.extractTx finalPsbt with
    | none => (.error .cannotFinalize, blobs)
    | some tx =>
      let txid := X.computeTxid tx
      let (finalTxHash, blobs) := blobs.put X (X.consensusSerialize tx)
      match s.finalize txid finalTxHash sigsUsed with
      | (.error e, _) => (.error (.session e), blobs)
      | (.ok _, s) => (.ok (.persist txid s), blobs)

variable {p : Platform} {s : PsbtSession} {original : Psbt}

theorem combineAll_concat (docs : List Psbt) (doc : Psbt) :
    combineAll original (docs ++ [doc]) = combine (combineAll original docs) doc := by
  simp [combineAll]

/-- One turn of the loop on a document that was accepted at upload. -/
theorem finalizeLoop_cons {combined doc : Psbt} {sigsUsed : List KeyFingerprint}
    {record : SignatureRecord} {records : List SignatureRecord}
    (h : Platform.Recorded X p original record doc) :
    (Sized X doc → X.finalize (combine combined doc) = none →
      finalizeLoop X p.blobs s original combined sigsUsed (record :: records) =
        finalizeLoop X p.blobs s original (combine combined doc)
          (sigsUsed ++ [record.fingerprint]) records) ∧
    (Sized X doc → (X.finalize (combine combined doc)).isSome →
      finalizeLoop X p.blobs s original combined sigsUsed (record :: records) =
        settle X p.blobs s (combine combined doc) (sigsUsed ++ [record.fingerprint])) ∧
    (¬ Sized X doc → ∃ e,
      finalizeLoop X p.blobs s original combined sigsUsed (record :: records) =
        (.error e, p.blobs)) := by
  have hload : Sized X doc → loadPsbt X p.blobs record.signedPsbtHash = .ok doc := by
    intro hsized
    unfold loadPsbt
    rw [h.stored]
    dsimp only
    rw [parsePsbt_eq_ok_iff.mpr ⟨hsized, h.parses⟩]
  have hverify := verifyMergedBlob_of_acceptable h.acceptable
  refine ⟨fun hsized hnone => ?_, fun hsized hsome => ?_, fun hsized => ?_⟩
  · rw [finalizeLoop, hload hsized]
    dsimp only
    rw [hverify]
    dsimp only
    rw [hnone]
  · obtain ⟨finalPsbt, hfinal⟩ := Option.isSome_iff_exists.mp hsome
    rw [finalizeLoop, hload hsized]
    dsimp only
    rw [hverify]
    unfold settle
    dsimp only
    generalize X.finalize (combine combined doc) = o at hfinal
    subst hfinal
    rfl
  · refine ⟨.psbt (.tooLarge (X.serialize doc).length MAX_PSBT_BYTES), ?_⟩
    rw [finalizeLoop, loadPsbt, h.stored]
    dsimp only
    rw [parsePsbt, if_pos (Nat.not_le.mp hsized)]

/-- **The loop is the search for the shortest list of documents that covers every input.** -/
theorem finalizeLoop_search (hX : X.ScriptFinalize)
    (hempty : ∀ input ∈ original.inputs, input.partialSigs = ∅) {records : List SignatureRecord}
    {docs : List Psbt} (h : List.Forall₂ (Platform.Recorded X p original) records docs)
    (taken : List Psbt) (sigsUsed : List KeyFingerprint) :
    (Shortest.search (Sized X) (Covers original) taken docs = none →
      ∃ e, finalizeLoop X p.blobs s original (combineAll original taken) sigsUsed records =
        (.error e, p.blobs)) ∧
    ∀ l, Shortest.search (Sized X) (Covers original) taken docs = some l →
      ∃ n, l = taken ++ docs.take n ∧
        finalizeLoop X p.blobs s original (combineAll original taken) sigsUsed records =
          settle X p.blobs s (combineAll original l)
            (sigsUsed ++ (records.take n).map SignatureRecord.fingerprint) := by
  induction h generalizing taken sigsUsed with
  | nil => exact ⟨fun _ => ⟨.cannotFinalize, rfl⟩, fun l hl => absurd hl (by simp [Shortest.search])⟩
  | @cons record doc records docs hrecord _ ih =>
    have hfinal := combineAll_finalizes_iff hX (taken ++ [doc]) hempty
    obtain ⟨hnext, hsettle, herror⟩ := @finalizeLoop_cons X p s original
      (combineAll original taken) doc sigsUsed record records hrecord
    rw [← combineAll_concat] at hnext hsettle
    unfold Shortest.search
    split
    · rename_i hsized
      exact ⟨fun _ => herror hsized, fun l hl => absurd hl (by simp)⟩
    rename_i hsized
    rw [not_not] at hsized
    split
    · rename_i hcovers
      refine ⟨fun hl => absurd hl (by simp), fun l hl => ⟨1, ?_, ?_⟩⟩
      · exact (Option.some.inj hl).symm
      · obtain rfl := Option.some.inj hl
        exact hsettle hsized (hfinal.mpr hcovers)
    · rename_i hcovers
      have hnone : X.finalize (combineAll original (taken ++ [doc])) = none := by
        rw [← Option.not_isSome_iff_eq_none, hfinal]
        exact hcovers
      rw [hnext hsized hnone]
      obtain ⟨ihnone, ihsome⟩ := ih (taken ++ [doc]) (sigsUsed ++ [record.fingerprint])
      refine ⟨ihnone, fun l hl => ?_⟩
      obtain ⟨n, hn, hloop⟩ := ihsome l hl
      refine ⟨n + 1, ?_, ?_⟩
      · rw [hn, List.append_assoc]
        rfl
      · rw [hloop, List.append_assoc]
        rfl

/-! ## The work on a session that collected enough -/

/-- `finalize` executes on enough distinct fingerprints that were collected, and fails on too
few. -/
theorem PsbtSession.finalize_collecting {s : PsbtSession}
    (honce : ∀ e ∈ s.log, e.isFinalized = false) (hcollecting : s.status = .collecting)
    (txid : Txid) (hash : PsbtHash) {sigsUsed : List KeyFingerprint} (hdistinct : sigsUsed.Nodup)
    (hcollected : ∀ fp ∈ sigsUsed, fp ∈ s.signers) :
    s.finalize txid hash sigsUsed =
      if sigsUsed.length < s.threshold.toNat then
        (.error (.thresholdNotMet sigsUsed.length s.threshold), s)
      else (.ok (.executed txid), s.record (.finalized txid hash (Sorting.sort sigsUsed))) := by
  have hguard : s.guard PsbtSessionEvent.isFinalized (fun _ => false) = false := by
    rw [Bool.eq_false_iff]
    intro h
    obtain ⟨e, he, hf⟩ := alreadyApplied_iff_exists.mp h
    rw [honce e he] at hf
    exact absurd hf (by simp)
  have hdedup : (Sorting.dedup (Sorting.sort sigsUsed)).length = sigsUsed.length :=
    Sorting.length_dedup_sort_iff.mpr hdistinct
  have hall : (Sorting.sort sigsUsed).all s.hasSigned = true :=
    List.all_eq_true.mpr fun fp hfp =>
      hasSigned_iff.mpr (hcollected fp (Sorting.mem_sort.mp hfp))
  unfold finalize
  rw [hguard, isCollecting_iff.mpr hcollecting]
  simp only [Bool.false_eq_true, if_false, Bool.not_true]
  rw [if_neg (not_not.mpr hdedup), Sorting.dedup_sort_of_nodup hdistinct, hall]
  rfl

namespace Platform

variable {cs : List Command} {id : PsbtSessionId}

/-- What a session that collected enough has behind it: the unsigned PSBT, which loads and holds no
signature, and the document of every recorded signature. -/
structure Collected (X : Extern) (p : Platform) (id : PsbtSessionId) (s : PsbtSession)
    (original : Psbt) : Prop where
  row : p.sessions.Row id s
  load : ∃ hash, s.unsignedPsbtHash = some hash ∧ loadPsbt X p.blobs hash = .ok original
  unsigned : ∀ input ∈ original.inputs, input.partialSigs = ∅
  script : ∀ input ∈ original.inputs, ∃ keys,
    input.witnessScript = some (.multi s.threshold.toNat keys)
  uncovered : ¬ Covers original []
  docs : List.Forall₂ (Recorded X p original) s.signatures (documents X p.blobs s)

theorem Inv.collected (h : Inv X network cs p) (hc : p.blobs.NoCollision X)
    (hr : p.blobs.RoundTrips X) (hs : p.sessions.findById id = .ok s)
    (hmet : s.thresholdMet = true) : ∃ original, Collected X p id s original := by
  have hrow := h.sessions.row hs
  have hpos := hrow.grammatical.loaded.wellFormed.threshold_pos
  have hsome : 0 < s.signatures.length := Nat.lt_of_lt_of_le hpos (of_decide_eq_true hmet)
  obtain ⟨r, rest, hcons⟩ := List.exists_cons_of_length_pos hsome
  -- a recorded signature was checked against a loaded PSBT
  have hr' : r ∈ s.log.filterMap PsbtSessionEvent.signature := by
    rw [← hrow.grammatical.loaded.hydrates.signatures_eq, hcons]
    exact List.mem_cons_self
  obtain ⟨e, he, hread⟩ := List.mem_filterMap.mp hr'
  cases e with
  | signatureAdded fp hash =>
    obtain ⟨user, original, signed, hsub⟩ := (h.linked id s hrow).signed fp hash he
    obtain ⟨uh, huh, hload⟩ := hsub.load hrow.grammatical h.addressed hc
    obtain ⟨w, original', hu⟩ := h.unsigned hc hr hrow huh
    obtain rfl := hsub.original_eq hu hrow.grammatical h.addressed hc
    refine ⟨original, hrow, ⟨uh, huh, hload⟩, fun input hi => (hu.input hi).1,
      fun input hi => (hu.input hi).2, fun hcovers => ?_, h.documents hc hr hrow hu⟩
    -- the empty list provides nothing, and there is an input to cover
    obtain ⟨input, more, hinputs⟩ := List.exists_cons_of_ne_nil hsub.acceptable.nonempty
    obtain ⟨-, keys, hscript⟩ := hu.input (hinputs ▸ List.mem_cons_self : input ∈ original.inputs)
    have hinput := covers_iff.mp hcovers 0 input (by rw [hinputs]; rfl)
    unfold CoversInput EnoughKeys at hinput
    rw [hscript] at hinput
    simp only [List.any_nil, List.countP_false, Function.const_apply] at hinput
    omega
  | _ => exact absurd hread (by simp [PsbtSessionEvent.signature])

/-- What `run_finalization` leaves when it recorded the transaction `tx`, which the finaliser made
of as many documents as `sigsUsed` lists keystores. -/
structure Finalizes (X : Extern) (p : Platform) (id : PsbtSessionId) (s : PsbtSession)
    (tx : Transaction) (sigsUsed : List KeyFingerprint) : Prop where
  made : ∃ hash original done, s.unsignedPsbtHash = some hash ∧
    loadPsbt X p.blobs hash = .ok original ∧
    X.finalize (combineAll original ((documents X p.blobs s).take sigsUsed.length)) = some done ∧
    X.extractTx done = some tx
  ok : (runFinalization X p.sessions p.blobs id).1 = .ok (X.computeTxid tx)
  recorded : (runFinalization X p.sessions p.blobs id).2.1.find? id = some (s.log ++
    [.finalized (X.computeTxid tx) (PsbtHash.digestOf X (X.consensusSerialize tx)) sigsUsed])
  stored : (PsbtHash.digestOf X (X.consensusSerialize tx), X.consensusSerialize tx) ∈
    (runFinalization X p.sessions p.blobs id).2.2.entries

/-- What the loop does with a combination that finalises, by distinct collected fingerprints. -/
theorem settle_collecting {blobs : BlobStore} {combined done : Psbt} {tx : Transaction}
    {sigsUsed : List KeyFingerprint} (honce : ∀ e ∈ s.log, e.isFinalized = false)
    (hcollecting : s.status = .collecting) (hdistinct : sigsUsed.Nodup)
    (hcollected : ∀ fp ∈ sigsUsed, fp ∈ s.signers) (hfinal : X.finalize combined = some done)
    (hextract : X.extractTx done = some tx) :
    settle X blobs s combined sigsUsed =
      if sigsUsed.length < s.threshold.toNat then
        (.error (.session (.thresholdNotMet sigsUsed.length s.threshold)),
          (blobs.put X (X.consensusSerialize tx)).2)
      else (.ok (.persist (X.computeTxid tx) (s.record (.finalized (X.computeTxid tx)
          (PsbtHash.digestOf X (X.consensusSerialize tx)) (Sorting.sort sigsUsed)))),
        (blobs.put X (X.consensusSerialize tx)).2) := by
  unfold settle
  rw [hfinal]
  dsimp only
  rw [hextract]
  dsimp only
  rw [PsbtSession.finalize_collecting honce hcollecting _ _ hdistinct hcollected]
  by_cases hfew : sigsUsed.length < s.threshold.toNat
  · rw [if_pos hfew, if_pos hfew]
  · rw [if_neg hfew, if_neg hfew]
    rfl

/-- The work that `run_finalization` persists, and what it leaves in the stores. -/
theorem runFinalization_persist (hrow : p.sessions.Row id s)
    (honce : ∀ e ∈ s.log, e.isFinalized = false) (hcollecting : s.status = .collecting)
    {tx : Transaction} {sigsUsed : List KeyFingerprint} (hdistinct : sigsUsed.Nodup)
    (hcollected : ∀ fp ∈ sigsUsed, fp ∈ s.signers) (henough : s.threshold.toNat ≤ sigsUsed.length)
    (hwork : finalizeSession X p.blobs s =
      (.ok (.persist (X.computeTxid tx) (s.record (.finalized (X.computeTxid tx)
          (PsbtHash.digestOf X (X.consensusSerialize tx)) (Sorting.sort sigsUsed)))),
        (p.blobs.put X (X.consensusSerialize tx)).2)) :
    ∃ sessions, runFinalization X p.sessions p.blobs id =
        (.ok (X.computeTxid tx), sessions, (p.blobs.put X (X.consensusSerialize tx)).2) ∧
      sessions.find? id = some (s.log ++ [.finalized (X.computeTxid tx)
        (PsbtHash.digestOf X (X.consensusSerialize tx)) (Sorting.sort sigsUsed)]) := by
  have happly : (s.apply (.finalize (X.computeTxid tx)
      (PsbtHash.digestOf X (X.consensusSerialize tx)) sigsUsed)).2 =
      s.record (.finalized (X.computeTxid tx)
        (PsbtHash.digestOf X (X.consensusSerialize tx)) (Sorting.sort sigsUsed)) := by
    unfold PsbtSession.apply
    dsimp only
    rw [PsbtSession.finalize_collecting honce hcollecting _ _ hdistinct hcollected,
      if_neg (Nat.not_lt.mpr henough)]
  obtain ⟨sessions, hupdate⟩ := hrow.update_isOk (.finalize (X.computeTxid tx)
    (PsbtHash.digestOf X (X.consensusSerialize tx)) sigsUsed)
  have hfind := hrow.find?_update _ hupdate id
  rw [happly] at hupdate hfind
  rw [if_pos rfl, PsbtSession.record_log] at hfind
  refine ⟨sessions, ?_, hfind⟩
  unfold runFinalization
  rw [hrow.found]
  dsimp only
  rw [hwork]
  dsimp only [PsbtSessions.persist]
  rw [hupdate]

/-- The work of `run_finalization`, on a session that collected enough, is the loop. -/
theorem Collected.finalizeSession_eq (h : Collected X p id s original)
    (hstatus : s.status = .collecting) (hmet : s.thresholdMet = true) :
    finalizeSession X p.blobs s =
      finalizeLoop X p.blobs s original (combineAll original []) [] s.signatures := by
  have hnone : s.finalization = none := by
    rw [h.row.grammatical.loaded.hydrates.finalization_eq, latest_eq_none_iff]
    intro e he
    have := ((PsbtSession.collecting_of_admitted h.row.grammatical.admitted hstatus).2 e he).1
    cases e <;> simp_all [PsbtSessionEvent.isFinalized, PsbtSessionEvent.finalization]
  obtain ⟨hash, hhash, hload⟩ := h.load
  unfold finalizeSession
  rw [hnone]
  dsimp only
  rw [if_neg (not_not.mpr hstatus), hmet, hhash]
  dsimp only
  rw [hload]
  rfl

/-- **What `run_finalization` does with the documents**: it records the finalization of the
shortest list that covers every input, if that is as long as the threshold, and fails
otherwise. -/
theorem Collected.runFinalization_search (h : Collected X p id s original)
    (hX : X.ScriptFinalize) (hstatus : s.status = .collecting) (hmet : s.thresholdMet = true) :
    (∀ l, Shortest.search (Sized X) (Covers original) [] (documents X p.blobs s) = some l →
      s.threshold.toNat ≤ l.length →
      ∃ tx, Finalizes X p id s tx (Sorting.sort (s.signers.take l.length))) ∧
    ((∀ l, Shortest.search (Sized X) (Covers original) [] (documents X p.blobs s) = some l →
      l.length < s.threshold.toNat) →
      ∃ e, (runFinalization X p.sessions p.blobs id).1 = .error e) := by
  have honce : ∀ e ∈ s.log, e.isFinalized = false := fun e he =>
    ((PsbtSession.collecting_of_admitted h.row.grammatical.admitted hstatus).2 e he).1
  have hwork := h.finalizeSession_eq hstatus hmet
  obtain ⟨hfails, hfinds⟩ := finalizeLoop_search (s := s) hX h.unsigned h.docs [] []
  have hsigners : s.signers.length = (documents X p.blobs s).length := by
    rw [PsbtSession.signers, List.length_map, h.docs.length_eq]
  -- what becomes of the shortest covering list
  have hsettle : ∀ l,
      Shortest.search (Sized X) (Covers original) [] (documents X p.blobs s) = some l →
      ∃ done tx, X.finalize (combineAll original l) = some done ∧ X.extractTx done = some tx ∧
        (s.signers.take l.length).length = l.length ∧
        l = (documents X p.blobs s).take l.length ∧
        finalizeSession X p.blobs s =
          settle X p.blobs s (combineAll original l) (s.signers.take l.length) := by
    intro l hl
    obtain ⟨n, hn, hloop⟩ := hfinds l hl
    obtain ⟨m, hfirst, -, hm⟩ := (Shortest.search_eq_some_iff h.uncovered).mp hl
    have hcovers : Covers original l := by
      rw [hm]
      exact hfirst.holds
    obtain ⟨done, hdone⟩ := Option.isSome_iff_exists.mp
      ((combineAll_finalizes_iff hX l h.unsigned).mpr hcovers)
    obtain ⟨tx, htx⟩ := Option.isSome_iff_exists.mp (hX.extract_isSome _ _ hdone)
    rw [List.nil_append] at hn
    have hlen : l.length = min n (documents X p.blobs s).length := by rw [hn, List.length_take]
    refine ⟨done, tx, hdone, htx, ?_, ?_, ?_⟩
    · rw [List.length_take, hsigners]
      omega
    · rw [hlen, ← List.take_eq_take_min, hn]
    · rw [hwork, hloop, List.nil_append, List.map_take, hlen, ← hsigners,
        ← List.take_eq_take_min]
      rfl
  have hdistinct : ∀ n, (s.signers.take n).Nodup := fun n =>
    h.row.grammatical.loaded.wellFormed.signers.sublist (List.take_sublist n _)
  have hcollected : ∀ n, ∀ fp ∈ s.signers.take n, fp ∈ s.signers := fun n fp hfp =>
    List.mem_of_mem_take hfp
  refine ⟨fun l hl henough => ?_, fun hshort => ?_⟩
  · obtain ⟨done, tx, hdone, htx, hlen, hbegins, hsession⟩ := hsettle l hl
    rw [settle_collecting honce hstatus (hdistinct _) (hcollected _) hdone htx,
      if_neg (by omega)] at hsession
    obtain ⟨sessions, hrun, hfind⟩ := runFinalization_persist h.row honce hstatus (hdistinct _)
      (hcollected _) (by omega) hsession
    obtain ⟨hash, hhash, hload⟩ := h.load
    refine ⟨tx, ⟨hash, original, done, hhash, hload, ?_, htx⟩, ?_, ?_, ?_⟩
    · rw [Sorting.length_sort, hlen, ← hbegins]
      exact hdone
    · rw [hrun]
    · rw [hrun]
      exact hfind
    · rw [hrun]
      exact List.mem_cons_self
  · have herror : ∃ e blobs, finalizeSession X p.blobs s = (.error e, blobs) := by
      cases hl : Shortest.search (Sized X) (Covers original) [] (documents X p.blobs s) with
      | none =>
        obtain ⟨e, he⟩ := hfails hl
        exact ⟨e, _, hwork.trans he⟩
      | some l =>
        obtain ⟨done, tx, hdone, htx, hlen, -, hsession⟩ := hsettle l hl
        have hlt := hshort l hl
        rw [settle_collecting honce hstatus (hdistinct _) (hcollected _) hdone htx,
          if_pos (by omega)] at hsession
        exact ⟨_, _, hsession⟩
    obtain ⟨e, blobs, he⟩ := herror
    refine ⟨e, ?_⟩
    unfold runFinalization
    rw [h.row.found]
    dsimp only
    rw [he]
    rfl

/-- An answer `Ok` is one with everything recorded. -/
theorem Collected.finalizes_of_ok (h : Collected X p id s original) (hX : X.ScriptFinalize)
    (hstatus : s.status = .collecting) (hmet : s.thresholdMet = true) {txid : Txid}
    (hok : (runFinalization X p.sessions p.blobs id).1 = .ok txid) :
    ∃ tx sigsUsed, Finalizes X p id s tx sigsUsed := by
  obtain ⟨hfinds, hfails⟩ := h.runFinalization_search hX hstatus hmet
  by_contra hnot
  obtain ⟨e, he⟩ := hfails fun l hl => by
    by_contra hlen
    obtain ⟨tx, hfinal⟩ := hfinds l hl (Nat.le_of_not_lt hlen)
    exact hnot ⟨tx, _, hfinal⟩
  rw [hok] at he
  exact absurd he (by simp)

end Platform

/-- The shortest list of recorded documents that covers every input is as long as the threshold,
and every document in it is within the size cap. -/
def Finalizable (X : Extern) (blobs : BlobStore) (s : PsbtSession) : Prop :=
  ∃ hash original n, s.unsignedPsbtHash = some hash ∧ loadPsbt X blobs hash = .ok original ∧
    Shortest.First (Covers original) (documents X blobs s) n ∧ s.threshold.toNat ≤ n ∧
    ∀ doc ∈ (documents X blobs s).take n, Sized X doc

/-- **When finalization succeeds.** After any commands and jobs from empty stores,
`run_finalization` on a collecting session with enough signatures returns `Ok` and records
`Finalized` exactly when the session is finalizable; and so it does when it returns `Ok` at all. -/
theorem finalization_recorded_iff (hX : X.ScriptFinalize) {cs : List Command}
    (hc : (Platform.empty.run X network cs).blobs.NoCollision X)
    (hr : (Platform.empty.run X network cs).blobs.RoundTrips X) {id : PsbtSessionId}
    {s : PsbtSession} (hs : (Platform.empty.run X network cs).sessions.findById id = .ok s)
    (hcollecting : s.status = .collecting) (hmet : s.thresholdMet = true) :
    ((∃ tx sigsUsed, Platform.Finalizes X (Platform.empty.run X network cs) id s tx sigsUsed) ↔
      Finalizable X (Platform.empty.run X network cs).blobs s) ∧
    ((∃ txid, (runFinalization X (Platform.empty.run X network cs).sessions
        (Platform.empty.run X network cs).blobs id).1 = .ok txid) ↔
      Finalizable X (Platform.empty.run X network cs).blobs s) := by
  have hinv := Platform.inv_run X network cs
  generalize Platform.empty.run X network cs = p at *
  obtain ⟨original, h⟩ := hinv.collected hc hr hs hmet
  obtain ⟨hash, hhash, hload⟩ := h.load
  obtain ⟨hfinds, hfails⟩ := h.runFinalization_search hX hcollecting hmet
  have hok : (∃ tx sigsUsed, Platform.Finalizes X p id s tx sigsUsed) ↔
      ∃ txid, (runFinalization X p.sessions p.blobs id).1 = .ok txid :=
    ⟨fun ⟨tx, _, hfinal⟩ => ⟨X.computeTxid tx, hfinal.ok⟩,
      fun ⟨_, hok⟩ => h.finalizes_of_ok hX hcollecting hmet hok⟩
  rw [← hok, and_self]
  constructor
  · rintro ⟨tx, sigsUsed, hfinal⟩
    by_contra hnot
    obtain ⟨e, he⟩ := hfails fun l hl => by
      obtain ⟨n, hfirst, hall, rfl⟩ := (Shortest.search_eq_some_iff h.uncovered).mp hl
      by_contra hlen
      refine hnot ⟨hash, original, n, hhash, hload, hfirst, ?_, hall⟩
      have := hfirst.le
      simp only [List.nil_append, List.length_take] at hlen
      omega
    rw [hfinal.ok] at he
    exact absurd he (by simp)
  · rintro ⟨hash', original', n, hhash', hload', hfirst, henough, hall⟩
    obtain rfl := Option.some.inj (hhash.symm.trans hhash')
    obtain rfl := Except.ok.inj (hload.symm.trans hload')
    have hle := hfirst.le
    obtain ⟨tx, hfinal⟩ := hfinds _ ((Shortest.search_eq_some_iff h.uncovered).mpr
      ⟨n, hfirst, hall, rfl⟩) (by simp only [List.nil_append, List.length_take]; omega)
    exact ⟨tx, _, hfinal⟩

open Extern.Sample in
theorem finalization_recorded_iff_pair :
    ∃ tx sigsUsed, Platform.Finalizes (.sample (pairUnsigned :: pairDocs))
      (Platform.empty.run (.sample (pairUnsigned :: pairDocs)) .bitcoin pairRound) ⟨0⟩
      pairCollected tx sigsUsed :=
  (finalization_recorded_iff (sample_scriptFinalize _) (by decide +kernel)
    (roundTrips (by decide +kernel) (by decide +kernel)) (by decide +kernel) (by decide +kernel)
    (by decide +kernel)).1.mpr ⟨digestOfByte 0, pairUnsigned, 2, by decide +kernel, by decide +kernel,
      ⟨by decide +kernel, by decide +kernel, by decide +kernel⟩, by decide +kernel,
      by decide +kernel⟩

open Extern.Sample in
/-- **An accepted signature can be useless.** The one signer of a one-of-one wallet signs with the
right key and stores the signature under the uncompressed form of that key. The document is
accepted, the threshold is met, and no run of the finalization job gets any further. -/
theorem uncompressed_signature_bricks :
    (Extern.sample [soloUnsigned, soloSigned false]).ScriptFinalize ∧
    (Platform.empty.run (.sample [soloUnsigned, soloSigned false]) .bitcoin soloRound
      ).blobs.NoCollision (.sample [soloUnsigned, soloSigned false]) ∧
    (Platform.empty.run (.sample [soloUnsigned, soloSigned false]) .bitcoin soloRound
      ).blobs.RoundTrips (.sample [soloUnsigned, soloSigned false]) ∧
    (Platform.empty.run (.sample [soloUnsigned, soloSigned false]) .bitcoin soloRound
      ).sessions.findById ⟨0⟩ = .ok soloCollected ∧
    soloCollected.status = .collecting ∧ soloCollected.thresholdMet = true ∧
    (runFinalization (.sample [soloUnsigned, soloSigned false])
      (Platform.empty.run (.sample [soloUnsigned, soloSigned false]) .bitcoin soloRound).sessions
      (Platform.empty.run (.sample [soloUnsigned, soloSigned false]) .bitcoin soloRound).blobs
      ⟨0⟩).1 = .error .cannotFinalize :=
  ⟨sample_scriptFinalize _, by decide +kernel, roundTrips (by decide +kernel) (by decide +kernel),
    by decide +kernel, by decide +kernel, by decide +kernel, by decide +kernel⟩

end Kota
