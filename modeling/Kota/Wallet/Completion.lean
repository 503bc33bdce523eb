import Kota.Wallet.Lifecycle

/-!
# Completing a policy

`NewWallet::new` validates the policy only; whether the keystores form a descriptor is checked by
`add_keystore` when the last one arrives. So a collecting wallet may be one that no choice of the
remaining keystores completes.

* `submitAll` submits one keystore after another and stops at the first error.
* `submitAll_completes`: with at most 20 participants and admissible keystores everywhere, it
  ends active, whatever the order.
* `submitAll_active`: a wallet that ends active has at most 20 participants, and every keystore
  it held before is admissible.
* **`completable_iff`** puts the two together for every reachable collecting wallet.
-/

namespace Kota

open EventLog

namespace Wallet

variable {X : Extern}

/-- Submit keystores in order, up to the first error. -/
def submitAll (X : Extern) (w : Wallet) :
    List (UserId × DescriptorPublicKey) → Except WalletError Wallet
  | [] => .ok w
  | (user, keystore) :: rest =>
    match w.addKeystore X keystore user with
    | (.ok _, w') => submitAll X w' rest
    | (.error e, _) => .error e

/-- Every submission succeeds and the wallet ends active. -/
def Completes (X : Extern) (w : Wallet) (subs : List (UserId × DescriptorPublicKey)) : Prop :=
  ∃ w', w.submitAll X subs = .ok w' ∧ w'.status = .active

/-- An assignment of keystores to the pending participants: admissible ones, with fingerprints
distinct from each other and from those held. -/
structure Assignment (X : Extern) (w : Wallet) (subs : List (UserId × DescriptorPublicKey)) :
    Prop where
  users : (subs.map Prod.fst).Perm w.pendingParticipants
  admissible : ∀ s ∈ subs, s.2.segwitAdmissible = true
  distinct : (subs.map fun s => keystoreFingerprint X s.2).Nodup
  fresh : ∀ s ∈ subs, keystoreFingerprint X s.2 ∉ w.keystores.map (keystoreFingerprint X)

/-! ## Admissible keystores complete the policy -/

theorem mem_pendingParticipants {w : Wallet} {p : UserId} :
    p ∈ w.pendingParticipants ↔ p ∈ w.participants ∧ p ∉ w.submissions.map Prod.fst := by
  simp [pendingParticipants]

/-- A pending participant's fresh keystore is accepted as far as the activation goes. -/
theorem addKeystore_of_pending {w : Wallet} {keystore : DescriptorPublicKey} {user : UserId}
    (hcollecting : w.status = .collectingKeystores) (hpending : user ∈ w.pendingParticipants)
    (hfresh : keystoreFingerprint X keystore ∉ w.keystores.map (keystoreFingerprint X)) :
    w.addKeystore X keystore user =
      match w.activation X keystore with
      | .error e => (.error e, w)
      | .ok none => (.ok (.executed ()), w.record [.keystoreAdded keystore user])
      | .ok (some (descriptor, fingerprint)) => (.ok (.executed ()),
          w.record [.keystoreAdded keystore user, .activated descriptor fingerprint]) := by
  obtain ⟨hmember, hfirst⟩ := mem_pendingParticipants.mp hpending
  have hnone : w.submissionOf user = none := Distinct.find?_eq_none_iff.mpr hfirst
  have hnew : w.submissions.any (fun s => s.1 == user) = false := by
    rw [List.any_eq_false]
    intro s hs he
    exact hfirst (List.mem_map.mpr ⟨s, hs, by simpa using he⟩)
  have hkey : w.keystores.any
      (fun k => keystoreFingerprint X k == keystoreFingerprint X keystore) = false := by
    rw [List.any_eq_false]
    intro k hk he
    exact hfresh (List.mem_map.mpr ⟨k, hk, by simpa using he⟩)
  have hcontains : w.participants.contains user = true := List.contains_iff_mem.mpr hmember
  unfold addKeystore
  simp only [hnone, Option.any_none, Bool.false_eq_true, if_false, hcollecting, hcontains,
    Bool.not_true, hnew, hkey]
  cases w.activation X keystore with
  | error e => rfl
  | ok a => cases a <;> rfl

/-- What is left of an assignment once its first keystore is held. -/
theorem Assignment.tail {w : Wallet} {user : UserId} {keystore : DescriptorPublicKey}
    {rest : List (UserId × DescriptorPublicKey)} {es : List WalletEvent}
    (hass : Assignment X w ((user, keystore) :: rest)) (h : Inv X w)
    (hs : Step X w (.addKeystore keystore user) es) : Assignment X (w.record es) rest := by
  have hsubs := submissions_record hs
  have hkeys := keystores_record hs
  simp only [nextSubmissions, List.map_append, List.map_singleton] at hsubs hkeys
  have hnodup := hass.users.nodup_iff.mpr (h.participants.filter _)
  obtain ⟨hnot, hrest⟩ := List.nodup_cons.mp hnodup
  obtain ⟨hother, hdistinct⟩ := List.nodup_cons.mp hass.distinct
  refine ⟨?_, fun s hs => hass.admissible s (List.mem_cons_of_mem _ hs), hdistinct, ?_⟩
  · refine (List.perm_ext_iff_of_nodup hrest (h.participants.filter _)).mpr fun p => ?_
    have hp := hass.users.mem_iff (a := p)
    rw [mem_pendingParticipants, List.map_cons, List.mem_cons] at hp
    show p ∈ rest.map Prod.fst ↔ p ∈ (w.record es).pendingParticipants
    rw [mem_pendingParticipants, hsubs, List.map_append, List.mem_append]
    simp only [record_participants, List.map_singleton, List.mem_singleton, not_or]
    constructor
    · intro hm
      obtain ⟨h1, h2⟩ := hp.mp (Or.inr hm)
      exact ⟨h1, h2, fun e => hnot (e ▸ hm)⟩
    · rintro ⟨h1, h2, h3⟩
      exact (hp.mpr ⟨h1, h2⟩).resolve_left h3
  · intro s hs
    rw [hkeys, List.map_append, List.mem_append, not_or]
    refine ⟨hass.fresh s (List.mem_cons_of_mem _ hs), fun hm => ?_⟩
    have he : keystoreFingerprint X s.2 = keystoreFingerprint X keystore := by
      simpa using hm
    exact hother (List.mem_map.mpr ⟨s, hs, he⟩)

/-- **Admissible keystores complete the policy**, in whatever order they come, when there are at
most 20 participants. -/
theorem submitAll_completes : ∀ (subs : List (UserId × DescriptorPublicKey)) {w : Wallet},
    Inv X w → w.status = .collectingKeystores → Assignment X w subs →
    w.participants.length ≤ MAX_PUBKEYS_PER_MULTISIG →
    (∀ k ∈ w.keystores, k.segwitAdmissible = true) → Completes X w subs
  | [], w, h, hcollecting, hass, hmax, _ => by
    have hadd := h.pending_add
    have hlen := hass.users.length_eq
    have hlt : w.participants.length < 2 ^ 32 := by
      unfold MAX_PUBKEYS_PER_MULTISIG at hmax
      omega
    simp only [List.map_nil, List.length_nil] at hlen
    have hactive := (h.active_iff hlt).mpr (by omega)
    rw [hcollecting] at hactive
    exact absurd hactive (by simp)
  | (user, keystore) :: rest, w, h, hcollecting, hass, hmax, hheld => by
    have hlt : w.participants.length < 2 ^ 32 := by
      unfold MAX_PUBKEYS_PER_MULTISIG at hmax
      omega
    have hpending : user ∈ w.pendingParticipants :=
      hass.users.mem_iff.mp (by simp)
    obtain ⟨hmember, hfirst⟩ := mem_pendingParticipants.mp hpending
    have hfresh := hass.fresh _ List.mem_cons_self
    have hadd := h.pending_add
    have hlen := hass.users.length_eq
    simp only [List.map_cons, List.length_cons, List.length_map] at hlen
    have hlast := last_iff hlt (show w.submissions.length < w.participants.length by omega)
    have hadmissible : ∀ k ∈ w.keystores ++ [keystore], k.segwitAdmissible = true := by
      intro k hk
      rcases List.mem_append.mp hk with hk | hk
      · exact hheld k hk
      · exact List.mem_singleton.mp hk ▸ hass.admissible _ List.mem_cons_self
    unfold Completes submitAll
    rw [addKeystore_of_pending hcollecting hpending hfresh]
    unfold activation
    by_cases hl : UInt32.ofNat w.keystores.length + 1 = w.totalKeystores
    · -- the last keystore: the descriptor exists, and nothing is left to submit
      have hcount := hlast.mp hl
      obtain rfl : rest = [] := List.length_eq_zero_iff.mp (by omega)
      have hrange : 0 < w.threshold.toNat ∧
          w.threshold.toNat ≤ (w.keystores ++ [keystore]).length ∧
          (w.keystores ++ [keystore]).length ≤ MAX_PUBKEYS_PER_MULTISIG := by
        have := h.policy
        simp only [List.length_append, keystores_length, List.length_singleton]
        omega
      have hd := (sortedmultiWshDescriptor_eq_ok_iff (X := X)).mpr ⟨hrange, hadmissible, rfl⟩
      rw [if_pos hl, hd]
      refine ⟨_, rfl, ?_⟩
      unfold status
      rw [record_log, append_pair, statusOf_concat]
      rfl
    · have hs : Step X w (.addKeystore keystore user) [.keystoreAdded keystore user] :=
        .added keystore user hcollecting hmember hfirst hfresh hl
      have hcoll : (w.record [.keystoreAdded keystore user]).status = .collectingKeystores := by
        unfold status at hcollecting ⊢
        rw [record_log, statusOf_concat]
        exact hcollecting
      have hkeys := keystores_record hs
      simp only [nextSubmissions, List.map_append, List.map_singleton] at hkeys
      rw [if_neg hl]
      refine submitAll_completes rest (h.record hs) hcoll (hass.tail h hs) hmax ?_
      rw [hkeys]
      exact hadmissible

/-! ## What a completed policy had -/

/-- A submission that does not fail leaves the keystore held, and drops none. -/
theorem submissions_of_ok {w w' : Wallet} {keystore : DescriptorPublicKey} {user : UserId}
    {r : Idempotent Unit} (h : w.addKeystore X keystore user = (.ok r, w')) :
    (user, keystore) ∈ w'.submissions ∧ ∀ s ∈ w.submissions, s ∈ w'.submissions := by
  rcases addKeystore_spec (X := X) w keystore user with ⟨es, hs, he⟩ | ⟨hne, heq⟩
  · obtain ⟨-, rfl⟩ := Prod.mk.inj (he.symm.trans h)
    rw [submissions_record hs]
    exact ⟨by simp [nextSubmissions], fun s hs => List.mem_append_left _ hs⟩
  · rw [h] at heq hne
    obtain rfl : w' = w := heq
    refine ⟨?_, fun s hs => hs⟩
    -- an answer other than `Executed` is the resubmission of the held key
    unfold addKeystore at h
    split at h
    · rename_i hany
      obtain ⟨s, hs, hk⟩ := (Option.any_eq_true _ _).mp hany
      obtain ⟨hu, hmem⟩ := Distinct.mem_of_find? (c := s.1) (b := s.2) hs
      rw [beq_iff_eq] at hk
      exact hk ▸ hmem
    · repeat' split at h
      all_goals first
        | exact absurd (Prod.mk.inj h).1.symm hne
        | exact absurd (Prod.mk.inj h).1 (by simp)

theorem submitAll_spec : ∀ (subs : List (UserId × DescriptorPublicKey)) {w w' : Wallet},
    Inv X w → w.submitAll X subs = .ok w' →
    Inv X w' ∧ w'.participants = w.participants ∧
      (∀ s ∈ w.submissions, s ∈ w'.submissions) ∧ ∀ s ∈ subs, s ∈ w'.submissions
  | [], w, w', h, hok => by
    obtain rfl := Except.ok.inj hok
    exact ⟨h, rfl, fun s hs => hs, fun s hs => absurd hs List.not_mem_nil⟩
  | (user, keystore) :: rest, w, w', h, hok => by
    unfold submitAll at hok
    split at hok
    · rename_i r w1 hadd
      have happly : (w.apply X (.addKeystore keystore user)).2 = w1 := by
        rw [apply, hadd]
      have h1 : Inv X w1 := happly ▸ apply_induction Inv.record h _
      have hp1 : w1.participants = w.participants := happly ▸
        apply_induction (X := X) (P := fun x => x.participants = w.participants)
          (fun h _ => h) rfl _
      obtain ⟨hmem, hkeep⟩ := submissions_of_ok hadd
      obtain ⟨h2, hp2, hkeep2, hrest⟩ := submitAll_spec rest h1 hok
      refine ⟨h2, hp2.trans hp1, fun s hs => hkeep2 s (hkeep s hs), fun s hs => ?_⟩
      rcases List.mem_cons.mp hs with rfl | hs
      · exact hkeep2 _ hmem
      · exact hrest s hs
    · exact absurd hok (by simp)

/-- **A policy that was completed** has at most 20 participants, and every keystore it held is
admissible. -/
theorem submitAll_active {w : Wallet} {subs : List (UserId × DescriptorPublicKey)}
    (h : Inv X w) (hass : Assignment X w subs) (hc : Completes X w subs) :
    w.participants.length ≤ MAX_PUBKEYS_PER_MULTISIG ∧
      ∀ k ∈ w.keystores, k.segwitAdmissible = true := by
  obtain ⟨w', hok, hactive⟩ := hc
  obtain ⟨h', hp, hkeep, hsub⟩ := submitAll_spec subs h hok
  obtain ⟨d, hd, -⟩ := h'.descriptor hactive
  obtain ⟨⟨-, -, hmax⟩, hadm, -⟩ := (sortedmultiWshDescriptor_eq_ok_iff (X := X)).mp hd
  constructor
  · have hall : ∀ p ∈ w.participants, p ∈ w'.submissions.map Prod.fst := by
      intro p hpart
      by_cases hsubmitted : p ∈ w.submissions.map Prod.fst
      · obtain ⟨s, hs, rfl⟩ := List.mem_map.mp hsubmitted
        exact List.mem_map.mpr ⟨s, hkeep s hs, rfl⟩
      · have hpend := hass.users.mem_iff.mpr (mem_pendingParticipants.mpr ⟨hpart, hsubmitted⟩)
        obtain ⟨s, hs, rfl⟩ := List.mem_map.mp hpend
        exact List.mem_map.mpr ⟨s, hsub s hs, rfl⟩
    have hle := Distinct.length_le_of_subset h.participants hall
    rw [List.length_map, ← keystores_length] at hle
    omega
  · intro k hk
    obtain ⟨s, hs, rfl⟩ := List.mem_map.mp hk
    exact hadm _ (List.mem_map.mpr ⟨s, hkeep s hs, rfl⟩)

/-- **When a policy can be completed**: submitting admissible keystores for all pending
participants never errors and ends active iff there are at most 20 participants and the keystores
already held are admissible. -/
theorem completable_iff {id : WalletId} {network : Network} {threshold : UInt32}
    {participants : List UserId} {n : NewWallet} {w : Wallet} (cs : List WalletCommand)
    {subs : List (UserId × DescriptorPublicKey)}
    (hn : NewWallet.new id network threshold participants = .ok n)
    (hw : w = n.registered.run X cs) (hcollecting : w.status = .collectingKeystores)
    (hass : Assignment X w subs) :
    Completes X w subs ↔
      participants.length ≤ 20 ∧ ∀ k ∈ w.keystores, k.segwitAdmissible = true := by
  have hinv : Inv X w := hw ▸ (NewWallet.registered_inv X hn).run cs
  have hlen : w.participants = participants := by
    obtain ⟨-, -, rfl⟩ := NewWallet.new_eq_ok_iff.mp hn
    rw [hw]
    exact ((NewWallet.registered_hasPolicy _).run cs).participants
  rw [← hlen]
  constructor
  · exact fun h => submitAll_active hinv hass h
  · rintro ⟨hmax, hheld⟩
    exact submitAll_completes subs hinv hcollecting hass hmax hheld

theorem completable_iff_pair :
    Completes (.sample []) (NewWallet.registered ⟨⟨0⟩, .bitcoin, 2, [⟨7⟩, ⟨8⟩]⟩)
      [(⟨8⟩, Extern.Sample.key 2), (⟨7⟩, Extern.Sample.key 1)] ↔
    [(⟨7⟩ : UserId), ⟨8⟩].length ≤ 20 ∧
      ∀ k ∈ (NewWallet.registered ⟨⟨0⟩, .bitcoin, 2, [⟨7⟩, ⟨8⟩]⟩).keystores,
        k.segwitAdmissible = true :=
  @completable_iff (.sample []) ⟨0⟩ .bitcoin 2 [⟨7⟩, ⟨8⟩] _ _ [] _ rfl rfl rfl
    ⟨by decide, by decide, by decide, by decide⟩

/-- 21 participants, and an admissible keystore for each of them. -/
theorem crowded_policy_stuck :
    ∃ n subs, NewWallet.new ⟨0⟩ .bitcoin 1 ((List.range 21).map UserId.mk) = .ok n ∧
      n.registered.status = .collectingKeystores ∧
      Assignment (.sample []) n.registered subs ∧ ¬ Completes (.sample []) n.registered subs := by
  have hnew : NewWallet.new ⟨0⟩ .bitcoin 1 ((List.range 21).map UserId.mk) =
      .ok ⟨⟨0⟩, .bitcoin, 1, (List.range 21).map UserId.mk⟩ := by decide
  have hass : Assignment (.sample []) (NewWallet.registered
      ⟨⟨0⟩, .bitcoin, 1, (List.range 21).map UserId.mk⟩)
      ((List.range 21).map fun i => (⟨i⟩, Extern.Sample.key i)) :=
    ⟨by decide, by decide, by decide, by decide⟩
  refine ⟨_, _, hnew, rfl, hass, fun hc => ?_⟩
  have hmax := (submitAll_active (NewWallet.registered_inv _ hnew) hass hc).1
  exact absurd hmax (by decide)

end Wallet

end Kota
