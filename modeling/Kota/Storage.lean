import Kota.Bitcoin.Extern

/-!
# Content-addressed blob storage

Model of `storage.rs`: a map from digests to bytes, newest entry first, and the fetch that checks
what it reads against its address.

Entries are only ever added by `put`, so `Addressed` holds of every store the platform builds.
What the store cannot promise is that two blobs have different addresses; results that need it
assume `NoCollision` of the blobs actually stored, since no digest is injective on all bytes.
-/

namespace Kota

variable (X : Extern)

/-- `PsbtHash::digest_of`. -/
def PsbtHash.digestOf (bytes : Bytes) : PsbtHash := ⟨X.sha256 bytes⟩

/-- The blobs, each at its content address, newest first. -/
structure BlobStore where
  entries : List (PsbtHash × Bytes)
  deriving DecidableEq, Repr

/-- `BlobFetchError`. -/
inductive BlobFetchError where
  | missing (hash : PsbtHash)
  | corrupted (hash : PsbtHash)
  deriving DecidableEq, Repr

namespace BlobStore

def empty : BlobStore := ⟨[]⟩

/-- Store bytes; the answer is their content address. -/
def put (blobs : BlobStore) (bytes : Bytes) : PsbtHash × BlobStore :=
  let hash := PsbtHash.digestOf X bytes
  (hash, ⟨(hash, bytes) :: blobs.entries⟩)

def get (blobs : BlobStore) (hash : PsbtHash) : Option Bytes := blobs.entries.lookup hash

/-- `fetch_verified`. -/
def fetchVerified (blobs : BlobStore) (hash : PsbtHash) : Except BlobFetchError Bytes :=
  match blobs.get hash with
  | none => .error (.missing hash)
  | some bytes => if PsbtHash.digestOf X bytes ≠ hash then .error (.corrupted hash) else .ok bytes

/-- Every blob stands at its content address. -/
def Addressed (blobs : BlobStore) : Prop :=
  ∀ e ∈ blobs.entries, PsbtHash.digestOf X e.2 = e.1

/-- The digest has no collision among the stored blobs. -/
def NoCollision (blobs : BlobStore) : Prop :=
  ∀ e ∈ blobs.entries, ∀ e' ∈ blobs.entries, X.sha256 e.2 = X.sha256 e'.2 → e.2 = e'.2

instance (blobs : BlobStore) : Decidable (blobs.NoCollision X) := by
  unfold NoCollision
  infer_instance

/-- `blobs'` was built from `blobs` by further puts. -/
def Extends (blobs' blobs : BlobStore) : Prop := ∃ new, blobs'.entries = new ++ blobs.entries

variable {X}

theorem Extends.refl (blobs : BlobStore) : Extends blobs blobs := ⟨[], rfl⟩

theorem Extends.trans {a b c : BlobStore} (h : Extends a b) (h' : Extends b c) : Extends a c := by
  obtain ⟨l, hl⟩ := h
  obtain ⟨l', hl'⟩ := h'
  exact ⟨l ++ l', by rw [hl, hl', List.append_assoc]⟩

theorem put_extends (blobs : BlobStore) (bytes : Bytes) :
    Extends (blobs.put X bytes).2 blobs := ⟨[_], rfl⟩

theorem addressed_empty : Addressed X empty := fun _ he => absurd he List.not_mem_nil

theorem Addressed.put {blobs : BlobStore} (h : Addressed X blobs) (bytes : Bytes) :
    Addressed X (blobs.put X bytes).2 := by
  intro e he
  rcases List.mem_cons.mp he with rfl | he
  · rfl
  · exact h e he

theorem mem_of_get {blobs : BlobStore} {hash : PsbtHash} {bytes : Bytes}
    (h : blobs.get hash = some bytes) : (hash, bytes) ∈ blobs.entries := by
  obtain ⟨entries⟩ := blobs
  unfold get at h
  dsimp only at h ⊢
  induction entries with
  | nil => exact absurd h (by simp)
  | cons e rest ih =>
    obtain ⟨k, b⟩ := e
    rw [List.lookup_cons] at h
    split at h
    · rename_i hk
      obtain rfl := Option.some.inj h
      rw [beq_iff_eq] at hk
      exact hk ▸ List.mem_cons_self
    · exact List.mem_cons_of_mem _ (ih h)

theorem get_isSome_of_mem {blobs : BlobStore} {hash : PsbtHash} {bytes : Bytes}
    (h : (hash, bytes) ∈ blobs.entries) : ∃ bytes', blobs.get hash = some bytes' := by
  obtain ⟨entries⟩ := blobs
  unfold get
  dsimp only at h ⊢
  induction entries with
  | nil => exact absurd h List.not_mem_nil
  | cons e rest ih =>
    obtain ⟨k, b⟩ := e
    rw [List.lookup_cons]
    rcases List.mem_cons.mp h with h | h
    · obtain ⟨rfl, rfl⟩ := Prod.mk.inj h
      exact ⟨bytes, by simp⟩
    · split
      · exact ⟨b, rfl⟩
      · exact ih h

/-- What a verified fetch returns was put at its address. -/
theorem fetchVerified_eq_ok {blobs : BlobStore} {hash : PsbtHash} {bytes : Bytes}
    (h : blobs.fetchVerified X hash = .ok bytes) :
    (hash, bytes) ∈ blobs.entries ∧ PsbtHash.digestOf X bytes = hash := by
  unfold fetchVerified at h
  split at h
  · exact absurd h (by simp)
  · rename_i bytes' hget
    split at h
    · exact absurd h (by simp)
    · rename_i hdigest
      obtain rfl := Except.ok.inj h
      exact ⟨mem_of_get hget, not_not.mp hdigest⟩

/-- **The store returns what was put**, when no two stored blobs share an address. -/
theorem fetchVerified_of_mem {blobs : BlobStore} (ha : Addressed X blobs)
    (hc : NoCollision X blobs) {hash : PsbtHash} {bytes : Bytes}
    (h : (hash, bytes) ∈ blobs.entries) : blobs.fetchVerified X hash = .ok bytes := by
  obtain ⟨bytes', hget⟩ := get_isSome_of_mem h
  have hmem := mem_of_get hget
  have hd := ha _ h
  have hd' := ha _ hmem
  have hsame : bytes' = bytes := hc _ hmem _ h (by
    have := hd'.trans hd.symm
    exact congrArg PsbtHash.inner this)
  subst hsame
  unfold fetchVerified
  rw [hget]
  simp [hd']

theorem Extends.mem {blobs blobs' : BlobStore} (he : Extends blobs' blobs)
    {e : PsbtHash × Bytes} (h : e ∈ blobs.entries) : e ∈ blobs'.entries := by
  obtain ⟨new, hnew⟩ := he
  rw [hnew]
  exact List.mem_append_right _ h

end BlobStore

end Kota
