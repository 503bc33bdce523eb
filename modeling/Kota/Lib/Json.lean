import Mathlib.Data.List.Basic
import Mathlib.Data.List.Nodup

/-!
# JSON documents, their binary storage, and codecs

A codec is a serialiser with the reader written for it. What it owes its users is that a value
comes back from the database, and the database does not keep the text it is given: a JSONB column
holds an object as a set of keys, sorted, each with one value. So the law of a codec is stated on
the stored form (`Codec.Reads`), and a stored record is read by looking its keys up.

* `Json.jsonb`: the stored form. Objects are sorted by key, shorter keys first, and of two entries
  with one key the later stays.
* `Json.storable`: a JSONB column takes every document but those with U+0000 in a text.
* `Codec.Reads`, of one value, and its rules, one for each way to build a codec: numbers of a
  machine width, texts, names of a finite choice, sequences, records, and enumerations whose
  variants are told apart by a tag among the fields (`Codec.tagged`). Of one value, because a
  printer of another library need not print every value of the model's type back, only those it can
  meet.
* Readers take more than writers give: a record also without its keys, as an array with one item
  for each (`Codec.positional`), a name also as the one key of an object (`Codec.choice`).
* **`Codec.decode_of_document`**: a tagged document that carries the fields of a value reads as
  that value, in whatever order and whatever other fields it has, as the stored form is
  (`Codec.document_stored`).
-/

namespace JsonFormat

inductive Json where
  | null
  | bool (b : Bool)
  | num (n : Nat)
  | str (s : String)
  | arr (items : List Json)
  | obj (fields : List (String × Json))

/-- The entries of an object. -/
abbrev Fields := List (String × Json)

namespace Json

/-! ## The stored form -/

/-- The key order of a stored object: shorter keys first, keys of one length by their bytes. -/
def keyLt (a b : String) : Bool :=
  a.utf8ByteSize < b.utf8ByteSize || a.utf8ByteSize == b.utf8ByteSize && decide (a < b)

/-- Put an entry in its place; an entry that is there already stays. -/
def insertField (key : String) (value : Json) : Fields → Fields
  | [] => [(key, value)]
  | (k, v) :: rest =>
    if key = k then (k, v) :: rest
    else if keyLt key k then (key, value) :: (k, v) :: rest
    else (k, v) :: insertField key value rest

mutual

/-- What a JSONB column holds of a document. -/
def jsonb : Json → Json
  | .null => .null
  | .bool b => .bool b
  | .num n => .num n
  | .str s => .str s
  | .arr items => .arr (jsonbItems items)
  | .obj fields => .obj (jsonbFields fields)

def jsonbItems : List Json → List Json
  | [] => []
  | item :: rest => item.jsonb :: jsonbItems rest

/-- From the last entry to the first, so that of two entries with one key the later stays. -/
def jsonbFields : List (String × Json) → List (String × Json)
  | [] => []
  | (key, value) :: rest => insertField key value.jsonb (jsonbFields rest)

end

theorem jsonbItems_eq_map (items : List Json) : jsonbItems items = items.map jsonb := by
  induction items with
  | nil => rw [jsonbItems, List.map_nil]
  | cons item rest ih => rw [jsonbItems, ih, List.map_cons]

theorem lookup_insertField_self (key : String) (value : Json) (fields : Fields)
    (h : fields.lookup key = none) : (insertField key value fields).lookup key = some value := by
  induction fields with
  | nil => simp [insertField]
  | cons entry rest ih =>
    obtain ⟨k, v⟩ := entry
    rw [List.lookup_cons] at h
    by_cases hk : key = k
    · simp [hk] at h
    · have hk' : (key == k) = false := by simpa using hk
      rw [hk'] at h
      unfold insertField
      rw [if_neg hk]
      split
      · exact List.lookup_cons_self
      · rw [List.lookup_cons, hk']
        exact ih h

theorem lookup_insertField_of_ne {key other : String} (hne : other ≠ key) (value : Json)
    (fields : Fields) : (insertField key value fields).lookup other = fields.lookup other := by
  have hne' : (other == key) = false := by simpa using hne
  induction fields with
  | nil => simp [insertField, List.lookup_cons, hne']
  | cons entry rest ih =>
    obtain ⟨k, v⟩ := entry
    unfold insertField
    split
    · rfl
    · split
      · rw [List.lookup_cons, hne']
      · rw [List.lookup_cons, List.lookup_cons, ih]

theorem lookup_jsonbFields_eq_none {fields : Fields} {key : String}
    (h : key ∉ fields.map Prod.fst) : (jsonbFields fields).lookup key = none := by
  induction fields with
  | nil => rw [jsonbFields, List.lookup_nil]
  | cons entry rest ih =>
    obtain ⟨k, v⟩ := entry
    rw [List.map_cons, List.mem_cons, not_or] at h
    rw [jsonbFields, lookup_insertField_of_ne h.1]
    exact ih h.2

/-- **A stored object has the entries it was given**, when no key is given twice. -/
theorem lookup_jsonbFields {fields : Fields} (hkeys : (fields.map Prod.fst).Nodup)
    {key : String} {value : Json} (h : (key, value) ∈ fields) :
    (jsonbFields fields).lookup key = some value.jsonb := by
  induction fields with
  | nil => exact absurd h List.not_mem_nil
  | cons entry rest ih =>
    obtain ⟨k, v⟩ := entry
    obtain ⟨hnew, hrest⟩ := List.nodup_cons.mp hkeys
    rw [jsonbFields]
    rcases List.mem_cons.mp h with hhead | htail
    · obtain ⟨rfl, rfl⟩ := Prod.mk.inj hhead
      exact lookup_insertField_self _ _ _ (lookup_jsonbFields_eq_none hnew)
    · have hne : key ≠ k := by
        rintro rfl
        exact hnew (List.mem_map.mpr ⟨_, htail, rfl⟩)
      rw [lookup_insertField_of_ne hne]
      exact ih hrest htail

/-! ## What can be stored -/

/-- A database keeps a text up to its end mark: one with U+0000 is refused. -/
def storableText (s : String) : Bool := s.toList.all fun c => c.toNat != 0

mutual

/-- No text of the document, keys included, holds U+0000. -/
def storable : Json → Bool
  | .null => true
  | .bool _ => true
  | .num _ => true
  | .str s => storableText s
  | .arr items => storableItems items
  | .obj fields => storableFields fields

def storableItems : List Json → Bool
  | [] => true
  | item :: rest => item.storable && storableItems rest

def storableFields : List (String × Json) → Bool
  | [] => true
  | (key, value) :: rest => storableText key && value.storable && storableFields rest

end

end Json

/-! ## Codecs -/

/-- A serialiser and the reader written for it. -/
structure Codec (α : Type) where
  encode : α → Json
  decode : Json → Option α

/-- A printer and the parser written for it. -/
structure TextForm (α : Type) where
  print : α → String
  parse : String → Option α

namespace TextForm

variable {α : Type}

/-- The value parses back from what is printed of it. -/
def Reads (t : TextForm α) (a : α) : Prop := t.parse (t.print a) = some a

instance [DecidableEq α] (t : TextForm α) (a : α) : Decidable (t.Reads a) :=
  inferInstanceAs (Decidable (_ = _))

/-- Each of the values parses back. -/
def ReadsAll (t : TextForm α) (items : List α) : Prop := ∀ a ∈ items, t.Reads a

-- by a scan of the items: the type may be finite and too large to search
instance [DecidableEq α] (t : TextForm α) (items : List α) : Decidable (t.ReadsAll items) :=
  List.decidableBAll _ items

/-- A finite set of values, each written as its name. -/
def named (name : α → String) (values : List α) : TextForm α where
  print := name
  parse s := values.find? fun a => name a == s

theorem named_reads {name : α → String} {values : List α}
    (hname : ∀ a ∈ values, ∀ b ∈ values, name a = name b → a = b) {a : α} (ha : a ∈ values) :
    (named name values).Reads a := by
  show values.find? (fun b => name b == name a) = some a
  cases h : values.find? (fun b => name b == name a) with
  | none =>
    have hne := List.find?_eq_none.mp h a ha
    exact absurd (beq_self_eq_true (name a)) hne
  | some b =>
    have hb := List.find?_some h
    rw [beq_iff_eq] at hb
    rw [hname b (List.mem_of_find?_eq_some h) a ha hb]

end TextForm

namespace Codec

variable {α β : Type}

/-- **The value reads back from what is stored of it.** -/
def Reads (c : Codec α) (a : α) : Prop := c.decode (c.encode a).jsonb = some a

/-! ### Numbers and texts -/

/-- An unsigned number below `bound`; a larger one is refused. -/
def unsigned (bound : Nat) (toNat : α → Nat) (ofNat : Nat → α) : Codec α where
  encode a := .num (toNat a)
  decode
    | .num n => if n < bound then some (ofNat n) else none
    | _ => none

theorem unsigned_reads {bound : Nat} {toNat : α → Nat} {ofNat : Nat → α} {a : α}
    (hbound : toNat a < bound) (hof : ofNat (toNat a) = a) :
    (unsigned bound toNat ofNat).Reads a := by
  show (if toNat a < bound then some (ofNat (toNat a)) else none) = some a
  rw [if_pos hbound, hof]

/-- A value that is written as a text. -/
def text (t : TextForm α) : Codec α where
  encode a := .str (t.print a)
  decode
    | .str s => t.parse s
    | _ => none

theorem text_reads {t : TextForm α} {a : α} (h : t.Reads a) : (text t).Reads a := h

/-- One of finitely many names. A reader also takes it as the only key of an object that holds
nothing. -/
def choice (t : TextForm α) : Codec α where
  encode a := .str (t.print a)
  decode
    | .str s => t.parse s
    | .obj [(s, .null)] => t.parse s
    | .obj [(s, .obj [])] => t.parse s
    | _ => none

theorem choice_reads {t : TextForm α} {a : α} (h : t.Reads a) : (choice t).Reads a := h

/-- A text itself. -/
def string : Codec String := text ⟨id, some⟩

theorem string_reads (s : String) : string.Reads s := rfl

/-! ### Sequences -/

/-- An array of values. -/
def list (c : Codec α) : Codec (List α) where
  encode items := .arr (items.map c.encode)
  decode
    | .arr items => items.mapM c.decode
    | _ => none

theorem list_reads {c : Codec α} {items : List α} (h : ∀ a ∈ items, c.Reads a) :
    (list c).Reads items := by
  show List.mapM c.decode (Json.jsonbItems (items.map c.encode)) = some items
  rw [Json.jsonbItems_eq_map, List.map_map]
  induction items with
  | nil => rfl
  | cons item rest ih =>
    have hitem : c.decode (c.encode item).jsonb = some item := h item List.mem_cons_self
    rw [List.map_cons, List.mapM_cons, ih fun a ha => h a (List.mem_cons_of_mem _ ha),
      Function.comp_apply, hitem]
    rfl

/-- A value written as another one, from which only some values are accepted back. -/
def via (c : Codec β) (inner : α → β) (wrap : β → Option α) : Codec α where
  encode a := c.encode (inner a)
  decode j := (c.decode j).bind wrap

theorem via_reads {c : Codec β} {inner : α → β} {wrap : β → Option α} {a : α}
    (h : c.Reads (inner a)) (hwrap : wrap (inner a) = some a) : (via c inner wrap).Reads a := by
  unfold Reads at h
  show (c.decode (c.encode (inner a)).jsonb).bind wrap = some a
  rw [h, Option.bind_some, hwrap]

/-! ### Records -/

/-- A field of a record; a record without it is refused. -/
def field (fields : Fields) (key : String) (c : Codec α) : Option α :=
  (fields.lookup key).bind c.decode

/-- The object has an entry with this key. -/
def Has (fields : Fields) (key : String) : Prop := ∃ j, fields.lookup key = some j

theorem field_has {fields : Fields} {key : String} {c : Codec α} {a : α}
    (h : field fields key c = some a) : Has fields key := by
  obtain ⟨j, hj, -⟩ := Option.bind_eq_some_iff.mp h
  exact ⟨j, hj⟩

/-- A value, or `null`. -/
def nullable (c : Codec α) : Json → Option (Option α)
  | .null => some none
  | j => (c.decode j).map some

theorem nullable_of_ne {c : Codec α} {j : Json} (h : j ≠ .null) :
    nullable c j = (c.decode j).map some := by
  cases j <;> first | rfl | exact absurd rfl h

/-- A field of a record that may be absent or `null`. -/
def optionalField (fields : Fields) (key : String) (c : Codec α) : Option (Option α) :=
  match fields.lookup key with
  | none => some none
  | some j => nullable c j

/-- How an optional value is written. -/
def encodeOption (c : Codec α) : Option α → Json
  | none => .null
  | some a => c.encode a

/-- The object has the stored form of each of the given entries, among others perhaps. -/
def Carries (fields : Fields) (entries : Fields) : Prop :=
  ∀ entry ∈ entries, fields.lookup entry.1 = some entry.2.jsonb

theorem carries_stored {entries : Fields} (hkeys : (entries.map Prod.fst).Nodup) :
    Carries (Json.jsonbFields entries) entries := fun _ h => Json.lookup_jsonbFields hkeys h

theorem Carries.mono {fields entries fewer : Fields} (h : Carries fields entries)
    (hsub : ∀ entry ∈ fewer, entry ∈ entries) : Carries fields fewer :=
  fun entry hentry => h entry (hsub entry hentry)

theorem Carries.field {fields entries : Fields} (h : Carries fields entries) {key : String}
    {c : Codec α} {a : α} (ha : c.Reads a) (hmem : (key, c.encode a) ∈ entries) :
    field fields key c = some a := by
  unfold Codec.field
  rw [h _ hmem]
  exact ha

/-- An optional field is read back when its value is not written as `null`. -/
theorem Carries.optionalField {fields entries : Fields} (h : Carries fields entries)
    {key : String} {c : Codec α} {a? : Option α}
    (hread : ∀ a ∈ a?, c.Reads a ∧ (c.encode a).jsonb ≠ .null)
    (hmem : (key, encodeOption c a?) ∈ entries) : optionalField fields key c = some a? := by
  unfold Codec.optionalField
  rw [h _ hmem]
  cases a? with
  | none => rfl
  | some a =>
    obtain ⟨ha, hnull⟩ := hread a rfl
    unfold Reads at ha
    refine (nullable_of_ne hnull).trans ?_
    rw [ha, Option.map_some]

/-- The fields of a record whose items stand without their keys: one for each, in order. -/
def positional (keys : List String) (items : List Json) : Option Fields :=
  if items.length = keys.length then some (keys.zip items) else none

theorem positional_eq_some {keys : List String} {items : List Json} {fields : Fields}
    (h : positional keys items = some fields) : items.length = keys.length :=
  (Option.ite_none_right_eq_some.mp h).1

/-- A record: its keys, its entries, and a reader that looks keys up. -/
def record (keys : List String) (entries : α → Fields) (read : Fields → Option α) : Codec α where
  encode a := .obj (entries a)
  decode
    | .obj fields => read fields
    | .arr items => (positional keys items).bind read
    | _ => none

theorem record_reads {keys : List String} {entries : α → Fields} {read : Fields → Option α} {a : α}
    (hkeys : ((entries a).map Prod.fst).Nodup)
    (hread : ∀ fields, Carries fields (entries a) → read fields = some a) :
    (record keys entries read).Reads a := hread _ (carries_stored hkeys)

theorem record_ne_null (keys : List String) (entries : α → Fields) (read : Fields → Option α)
    (a : α) : ((record keys entries read).encode a).jsonb ≠ .null := by
  show Json.obj _ ≠ .null
  simp

/-! ### Enumerations with a tag -/

/-- The text a document is. -/
def textOf : Json → Option String
  | .str s => some s
  | _ => none

/-- An enumeration: the variant's name stands under the key `tag` beside the variant's fields, or
before their values in an array. -/
def tagged (tag : String) (keys : String → List String) (name : α → String) (entries : α → Fields)
    (read : String → Fields → Option α) : Codec α where
  encode a := .obj ((tag, .str (name a)) :: entries a)
  decode
    | .obj fields =>
      ((fields.lookup tag).bind textOf).bind fun variant => read variant fields
    | .arr (.str variant :: items) => (positional (keys variant) items).bind (read variant)
    | _ => none

section Tagged

variable {tag : String} {keys : String → List String} {name : α → String} {entries : α → Fields}
  {read : String → Fields → Option α} {a : α}

/-- A document that names the variant of `a` and carries its fields. -/
def Document (tag : String) (name : α → String) (entries : α → Fields) (a : α) (j : Json) : Prop :=
  ∃ fields, j = .obj fields ∧ fields.lookup tag = some (.str (name a)) ∧ Carries fields (entries a)

theorem document_stored (hkeys : (tag :: (entries a).map Prod.fst).Nodup) :
    Document tag name entries a ((tagged tag keys name entries read).encode a).jsonb := by
  have hstored : Carries (Json.jsonbFields ((tag, .str (name a)) :: entries a))
      ((tag, .str (name a)) :: entries a) := carries_stored hkeys
  exact ⟨_, rfl, hstored _ List.mem_cons_self, hstored.mono fun _ h => List.mem_cons_of_mem _ h⟩

/-- **A document that names a value's variant and carries its fields is that value**, whatever
else it holds. -/
theorem decode_of_document
    (hread : ∀ fields, Carries fields (entries a) → read (name a) fields = some a) {j : Json}
    (h : Document tag name entries a j) : (tagged tag keys name entries read).decode j = some a := by
  obtain ⟨fields, rfl, htag, hcarries⟩ := h
  show ((fields.lookup tag).bind textOf).bind (fun variant => read variant fields) = some a
  rw [htag]
  exact hread fields hcarries

/-- A sequence of documents decodes to the values they hold. -/
theorem mapM_decode_of_documents {c : Codec α} {log : List α} {rows : List Json}
    (h : List.Forall₂ (fun a j => c.decode j = some a) log rows) :
    rows.mapM c.decode = some log := by
  induction h with
  | nil => rfl
  | cons hrow _ ih =>
    rw [List.mapM_cons, hrow, ih]
    rfl

/-- What decodes names a variant, under the tag or in front, and the reader of that variant accepted
its fields. -/
theorem tagged_decode_eq_some {j : Json}
    (h : (tagged tag keys name entries read).decode j = some a) :
    ∃ variant fields, read variant fields = some a ∧
      (j = .obj fields ∧ fields.lookup tag = some (.str variant) ∨
        ∃ items, j = .arr (.str variant :: items) ∧
          positional (keys variant) items = some fields) := by
  unfold tagged at h
  dsimp only at h
  split at h
  · rename_i fields
    obtain ⟨variant, htext, hread⟩ := Option.bind_eq_some_iff.mp h
    obtain ⟨value, hlookup, hvalue⟩ := Option.bind_eq_some_iff.mp htext
    cases value with
    | str s =>
      obtain rfl := Option.some.inj hvalue
      exact ⟨s, fields, hread, Or.inl ⟨rfl, hlookup⟩⟩
    | _ => exact absurd hvalue (by simp [textOf])
  · rename_i variant items
    obtain ⟨fields, hfields, hread⟩ := Option.bind_eq_some_iff.mp h
    exact ⟨variant, fields, hread, Or.inr ⟨items, rfl, hfields⟩⟩
  · exact absurd h (by simp)

end Tagged

end Codec

end JsonFormat
