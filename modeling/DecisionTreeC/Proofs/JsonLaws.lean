import DecisionTreeC.Json.Schema
import Mathlib.Data.List.Forall2

/-!
What a program may rely on in a JSON library, and what follows for the data it writes. A value
depicts data under a schema when the library takes it for the data and reads back the floats in it;
then its print is read as the data.
-/
namespace DecisionTreeC.Json

/-- Every float of the value is of some kind, and its integers have 64 bits. -/
inductive Value.Holds (kind : Double → Prop) : Value → Prop where
  | null : Holds kind .null
  | bool (b : Bool) : Holds kind (.bool b)
  | natural {n : Nat} (small : n < Nat.pow 2 64) : Holds kind (.number (.natural n))
  | negative {n : Nat} (positive : 0 < n) (small : n ≤ Nat.pow 2 63) :
      Holds kind (.number (.negative n))
  | float {x : Double} (known : kind x) : Holds kind (.number (.float x))
  | text (s : String) : Holds kind (.text s)
  | array {items : List Value} (known : ∀ v ∈ items, v.Holds kind) : Holds kind (.array items)
  | object {members : List (String × Value)} (known : ∀ m ∈ members, m.2.Holds kind) :
      Holds kind (.object members)

theorem Value.Holds.imp {kind other : Double → Prop} (weaker : ∀ x, kind x → other x) {v : Value}
    (holds : v.Holds kind) : v.Holds other := by
  induction holds with
  | null => exact .null
  | bool b => exact .bool b
  | natural small => exact .natural small
  | negative positive small => exact .negative positive small
  | float known => exact .float (weaker _ known)
  | text s => exact .text s
  | array _ ih => exact .array ih
  | object _ ih => exact .object ih

/-- No more than so many brackets and braces stand around any part of the value. -/
inductive Value.Within : Nat → Value → Prop where
  | null {levels : Nat} : Within levels .null
  | bool {levels : Nat} (b : Bool) : Within levels (.bool b)
  | number {levels : Nat} (n : Number) : Within levels (.number n)
  | text {levels : Nat} (s : String) : Within levels (.text s)
  | array {levels : Nat} {items : List Value} (known : ∀ v ∈ items, v.Within levels) :
      Within (levels + 1) (.array items)
  | object {levels : Nat} {members : List (String × Value)}
      (known : ∀ m ∈ members, m.2.Within levels) :
      Within (levels + 1) (.object members)

theorem Value.Within.mono {v : Value} {low high : Nat} (within : v.Within low) (le : low ≤ high) :
    v.Within high := by
  induction within generalizing high with
  | null => exact .null
  | bool b => exact .bool b
  | number n => exact .number n
  | text s => exact .text s
  | @array levels items known ih =>
    obtain ⟨high, rfl⟩ := Nat.exists_eq_add_of_le' (Nat.le_trans (Nat.le_add_left 1 levels) le)
    exact .array fun v member => ih v member (Nat.le_of_succ_le_succ le)
  | @object levels members known ih =>
    obtain ⟨high, rfl⟩ := Nat.exists_eq_add_of_le' (Nat.le_trans (Nat.le_add_left 1 levels) le)
    exact .object fun m member => ih m member (Nat.le_of_succ_le_succ le)

def Fields.Each (holds : {α : Type} → Schema α → α → Prop) :
    {names : List String} → {α : Type} → Fields names α → α → Prop
  | _, _, .nil, _ => True
  | _, _, .required _ field rest, (a, b) => holds field a ∧ rest.Each holds b
  | _, _, .optional _ field rest, (a, b) => (∀ x ∈ a, holds field x) ∧ rest.Each holds b

theorem mapM_eq_some_iff {α β : Type} {read : α → Option β} {values : List α} {results : List β} :
    values.mapM read = some results ↔ List.Forall₂ (fun a b => read a = some b) values results := by
  induction values generalizing results with
  | nil => simp [List.forall₂_nil_left_iff, eq_comm]
  | cons a more ih =>
    rw [List.mapM_cons, List.forall₂_cons_left_iff]
    constructor
    · intro known
      obtain ⟨b, first, known⟩ := Option.bind_eq_some_iff.mp known
      obtain ⟨others, read_others, known⟩ := Option.bind_eq_some_iff.mp known
      exact ⟨b, others, first, ih.mp read_others, (Option.some.inj known).symm⟩
    · rintro ⟨b, others, first, read_others, rfl⟩
      rw [first, ih.mpr read_others]
      rfl

theorem eq_array_of_items {v : Value} {items : List Value} (known : v.items? = some items) :
    v = .array items := by
  cases v with
  | array _ => exact congrArg Value.array (Option.some.inj known)
  | null | bool _ | number _ | text _ | object _ => cases known

namespace Number

theorem ofInt_holds {kind : Double → Prop} (n : Int64) :
    (Value.number (ofInt n.toInt)).Holds kind := by
  have below := n.toInt_lt
  have above := n.le_toInt
  cases int : n.toInt with
  | ofNat k =>
    rw [int] at below
    exact .natural (Nat.lt_trans (Int.ofNat_lt.mp below) (by decide))
  | negSucc k =>
    rw [int, Int.negSucc_eq] at above
    refine .negative (Nat.succ_pos k) ?_
    simp only [Nat.pow_eq]
    omega

theorem toInt64_ofInt (n : Int64) : (ofInt n.toInt).toInt64? = some n := by
  have below := n.toInt_lt
  have above := n.le_toInt
  have same := n.ofInt_toInt
  cases int : n.toInt with
  | ofNat k =>
    rw [int] at below same
    have small : k < Nat.pow 2 63 := Int.ofNat_lt.mp below
    have kept : Int64.ofNat k = n := by
      rw [← same, ← Int64.ofInt_eq_ofNat]
      rfl
    rw [ofInt, toInt64?, if_pos small, kept]
  | negSucc k =>
    rw [int] at above same
    have small : k + 1 ≤ Nat.pow 2 63 := by
      rw [Int.negSucc_eq] at above
      simp only [Nat.pow_eq]
      omega
    have kept : Int64.ofInt (-((k + 1 : Nat) : Int)) = n := same
    rw [ofInt, toInt64?, if_pos small, kept]

end Number

namespace Library

variable (library : Library)

def ReadsBack (x : Double) : Prop := library.read .real (library.print (.number (.float x))) = .ok x

def encodeFields : {names : List String} → {α : Type} → Fields names α → α → List (String × Value)
  | _, _, .nil, _ => []
  | _, _, .required name field rest, (a, b) => (name, library.encode field a) :: encodeFields rest b
  | _, _, .optional name field rest, (a, b) =>
    (a.map fun x => (name, library.encode field x)).toList ++ encodeFields rest b

/-- A record from members that come in the order of its fields, optional ones possibly left out. -/
def decodeFields :
    {names : List String} → {α : Type} → Fields names α → List (String × Value) → Option α
  | _, _, .nil, [] => some ()
  | _, _, .nil, _ :: _ => none
  | _, _, .required _ _ _, [] => none
  | _, _, .required name field rest, (key, v) :: more =>
    if key = name then do
      pure (← library.decode field v, ← decodeFields rest more)
    else none
  | _, _, .optional _ _ rest, [] => (decodeFields rest []).map (none, ·)
  | _, _, .optional name field rest, (key, v) :: more =>
    if key = name then do
      pure (some (← library.decode field v), ← decodeFields rest more)
    else (decodeFields rest ((key, v) :: more)).map (none, ·)

/-- What a JSON library is known to do. -/
structure Lawful : Prop where
  /-- A print is read as what the value stands for, if its floats are read back; 128 levels
  are too many. -/
  read_print {α : Type} {schema : Schema α} {v : Value} {data : α} :
    v.Holds library.ReadsBack → v.Within 127 → library.decode schema v = some data →
      library.read schema (library.print v) = .ok data
  /-- Whatever is read stands for some value, and no text has infinite numbers. -/
  read_decode {α : Type} {schema : Schema α} {text : String} {data : α} :
    library.read schema text = .ok data →
      ∃ v : Value, v.Holds (fun x => x.isFinite = true) ∧ library.decode schema v = some data
  encode_text (s : String) : library.encode .text s = .text s
  decode_text (s : String) : library.decode .text (.text s) = some s
  decode_text_number (n : Number) : library.decode .text (.number n) = none
  encode_signed (n : Int64) : library.encode .signed n = .number (.ofInt n.toInt)
  decode_signed (n : Number) : library.decode .signed (.number n) = n.toInt64?
  encode_unsigned (n : UInt64) : library.encode .unsigned n = .number (.natural n.toNat)
  decode_unsigned (n : Number) : library.decode .unsigned (.number n) = n.toUInt64?
  encode_real (x : Double) : library.encode .real x = .number (.float x)
  decode_real (x : Double) : library.decode .real (.number (.float x)) = some x
  decode_real_array (items : List Value) : library.decode .real (.array items) = none
  /-- Floats and integers of 64 bits are taken for floats, nothing else. -/
  decode_real_finite {v : Value} {x : Double} :
    library.decode .real v = some x → v.Holds (fun y => y.isFinite = true) → x.isFinite = true
  encode_choice {α : Type} (all : List α) (name : α → String) (a : α) :
    library.encode (.choice all name) a = .text (name a)
  decode_choice {α : Type} (all : List α) (name : α → String) (s : String) :
    library.decode (.choice all name) (.text s) = all.find? (name · == s)
  encode_list {α : Type} (item : Schema α) (values : List α) :
    library.encode (.list item) values = .array (values.map (library.encode item))
  decode_list {α : Type} (item : Schema α) (v : Value) :
    library.decode (.list item) v = v.items?.bind fun items => items.mapM (library.decode item)
  encode_one {α : Type} (item : Schema α) (a : α) :
    library.encode (.oneOrMany item) [a] = library.encode item a
  encode_many {α : Type} (item : Schema α) {values : List α} (many : values.length ≠ 1) :
    library.encode (.oneOrMany item) values = library.encode (.list item) values
  /-- A single item is tried before a list of them. -/
  decode_oneOrMany {α : Type} (item : Schema α) (v : Value) :
    library.decode (.oneOrMany item) v =
      ((library.decode item v).map fun a => [a]).or (library.decode (.list item) v)
  encode_untagged {α β : Type} (first : Schema α) (second : Schema β) (data : α ⊕ β) :
    library.encode (.untagged first second) data =
      data.elim (library.encode first) (library.encode second)
  /-- The layouts are tried in order. -/
  decode_untagged {α β : Type} (first : Schema α) (second : Schema β) (v : Value) :
    library.decode (.untagged first second) v =
      ((library.decode first v).map .inl).or ((library.decode second v).map .inr)
  encode_made {α β : Type} (make : α → β) (parts : β → α) (layout : Schema α) (data : β) :
    library.encode (.made make parts layout) data = library.encode layout (parts data)
  decode_made {α β : Type} (make : α → β) (parts : β → α) (layout : Schema α) (v : Value) :
    library.decode (.made make parts layout) v = (library.decode layout v).map make
  encode_record {names : List String} {α : Type} (fields : Fields names α) (distinct : names.Nodup)
    (data : α) :
    library.encode (.record fields distinct) data = .object (library.encodeFields fields data)
  decode_record {names : List String} {α : Type} {fields : Fields names α} {distinct : names.Nodup}
    {members : List (String × Value)} {data : α} :
    library.decodeFields fields members = some data →
      library.decode (.record fields distinct) (.object members) = some data
  /-- Each field of a record comes from a value of its own. -/
  record_parts {names : List String} {α : Type} {fields : Fields names α} {distinct : names.Nodup}
    {v : Value}
    {data : α} {kind : Double → Prop} :
    library.decode (.record fields distinct) v = some data → v.Holds kind →
      fields.Each (fun field x => ∃ part : Value, part.Holds kind ∧
        library.decode field part = some x)
        data

/-- The value stands for the data, has its floats read back, and is not nested deeper than that. -/
structure Depicts {α : Type} (schema : Schema α) (levels : Nat) (v : Value) (data : α) : Prop where
  holds : v.Holds library.ReadsBack
  within : v.Within levels
  decodes : library.decode schema v = some data

structure DepictsFields {names : List String} {α : Type} (fields : Fields names α) (levels : Nat)
    (members : List (String × Value)) (data : α) : Prop where
  holds : ∀ m ∈ members, m.2.Holds library.ReadsBack
  within : ∀ m ∈ members, m.2.Within levels
  decodes : library.decodeFields fields members = some data

variable {library}

namespace Depicts

variable {α : Type} {schema : Schema α} {levels : Nat} {v : Value} {data : α}

theorem mono (depicts : library.Depicts schema levels v data) {high : Nat} (le : levels ≤ high) :
    library.Depicts schema high v data :=
  ⟨depicts.holds, depicts.within.mono le, depicts.decodes⟩

theorem read (depicts : library.Depicts schema levels v data) (lawful : library.Lawful)
    (shallow : levels ≤ 127) : library.read schema (library.print v) = .ok data :=
  lawful.read_print depicts.holds (depicts.within.mono shallow) depicts.decodes

end Depicts

namespace DepictsFields

variable {names : List String} {α β : Type} {field : Schema α} {rest : Fields names β}
  {levels : Nat} {v : Value} {a : α} {b : β}
  {more : List (String × Value)}

theorem nil : library.DepictsFields .nil levels [] () := ⟨nofun, nofun, rfl⟩

theorem required (name : String) (first : library.Depicts field levels v a)
    (others : library.DepictsFields rest levels more b) :
    library.DepictsFields (.required name field rest) levels ((name, v) :: more) (a, b) where
  holds := List.forall_mem_cons.mpr ⟨first.holds, others.holds⟩
  within := List.forall_mem_cons.mpr ⟨first.within, others.within⟩
  decodes := by simp [decodeFields, first.decodes, others.decodes]

theorem present (name : String) (first : library.Depicts field levels v a)
    (others : library.DepictsFields rest levels more b) :
    library.DepictsFields (.optional name field rest) levels ((name, v) :: more) (some a, b) where
  holds := List.forall_mem_cons.mpr ⟨first.holds, others.holds⟩
  within := List.forall_mem_cons.mpr ⟨first.within, others.within⟩
  decodes := by simp [decodeFields, first.decodes, others.decodes]

theorem absent {name key : String} (field : Schema α) (other : key ≠ name)
    (others : library.DepictsFields rest levels ((key, v) :: more) b) :
    library.DepictsFields (.optional name field rest) levels ((key, v) :: more) (none, b) where
  holds := others.holds
  within := others.within
  decodes := by simp [decodeFields, other, others.decodes]

end DepictsFields

namespace Lawful

variable (lawful : library.Lawful)
include lawful

theorem depicts_text (s : String) : library.Depicts .text 0 (library.encode .text s) s := by
  rw [lawful.encode_text]
  exact ⟨.text s, .text s, lawful.decode_text s⟩

theorem depicts_unsigned (n : UInt64) :
    library.Depicts .unsigned 0 (library.encode .unsigned n) n := by
  have small : n.toNat < Nat.pow 2 64 := n.toNat_lt
  rw [lawful.encode_unsigned]
  refine ⟨.natural small, .number _, ?_⟩
  simp [lawful.decode_unsigned, Number.toUInt64?, small]

theorem depicts_signed (n : Int64) : library.Depicts .signed 0 (library.encode .signed n) n := by
  rw [lawful.encode_signed]
  refine ⟨Number.ofInt_holds n, .number _, ?_⟩
  rw [lawful.decode_signed, Number.toInt64_ofInt]

theorem depicts_real {x : Double} (back : library.ReadsBack x) :
    library.Depicts .real 0 (library.encode .real x) x := by
  rw [lawful.encode_real]
  exact ⟨.float back, .number _, lawful.decode_real x⟩

theorem depicts_choice {α : Type} {all : List α} {name : α → String} {a : α}
    (found : all.find? (name · == name a) = some a) :
    library.Depicts (.choice all name) 0 (library.encode (.choice all name) a) a := by
  rw [lawful.encode_choice]
  exact ⟨.text _, .text _, (lawful.decode_choice all name _).trans found⟩

theorem depicts_array {α : Type} {item : Schema α} {levels : Nat} {values : List α}
    {toValue : α → Value} (each : ∀ a ∈ values, library.Depicts item levels (toValue a) a) :
    library.Depicts (.list item) (levels + 1) (.array (values.map toValue)) values where
  holds := .array (List.forall_mem_map.mpr fun a member => (each a member).holds)
  within := .array (List.forall_mem_map.mpr fun a member => (each a member).within)
  decodes := by
    rw [lawful.decode_list]
    refine mapM_eq_some_iff.mpr (List.forall₂_map_left_iff.mpr (List.forall₂_same.mpr ?_))
    exact fun a member => (each a member).decodes

theorem depicts_list {α : Type} {item : Schema α} {levels : Nat} {values : List α}
    (each : ∀ a ∈ values, library.Depicts item levels (library.encode item a) a) :
    library.Depicts (.list item) (levels + 1) (library.encode (.list item) values) values := by
  rw [lawful.encode_list]
  exact lawful.depicts_array each

theorem depicts_first {α β : Type} {first : Schema α} (second : Schema β) {levels : Nat}
    {v : Value} {a : α} (depicts : library.Depicts first levels v a) :
    library.Depicts (.untagged first second) levels v (.inl a) where
  holds := depicts.holds
  within := depicts.within
  decodes := by rw [lawful.decode_untagged, depicts.decodes]; rfl

theorem depicts_second {α β : Type} {first : Schema α} {second : Schema β} {levels : Nat}
    {v : Value} {b : β} (refused : library.decode first v = none)
    (depicts : library.Depicts second levels v b) :
    library.Depicts (.untagged first second) levels v (.inr b) where
  holds := depicts.holds
  within := depicts.within
  decodes := by rw [lawful.decode_untagged, refused, depicts.decodes]; rfl

theorem depicts_one {α : Type} {item : Schema α} {levels : Nat} {v : Value} {a : α}
    (depicts : library.Depicts item levels v a) :
    library.Depicts (.oneOrMany item) levels v [a] where
  holds := depicts.holds
  within := depicts.within
  decodes := by rw [lawful.decode_oneOrMany, depicts.decodes]; rfl

theorem depicts_many {α : Type} {item : Schema α} {levels : Nat} {v : Value} {values : List α}
    (refused : library.decode item v = none)
    (depicts : library.Depicts (.list item) levels v values) :
    library.Depicts (.oneOrMany item) levels v values where
  holds := depicts.holds
  within := depicts.within
  decodes := by rw [lawful.decode_oneOrMany, refused, depicts.decodes]; rfl

theorem depicts_made {α β : Type} {make : α → β} {parts : β → α} {layout : Schema α} {levels : Nat}
    {v : Value} {data : β} (whole : make (parts data) = data)
    (depicts : library.Depicts layout levels v (parts data)) :
    library.Depicts (.made make parts layout) levels v data where
  holds := depicts.holds
  within := depicts.within
  decodes := by rw [lawful.decode_made, depicts.decodes, Option.map_some, whole]

theorem depicts_record {names : List String} {α : Type} {fields : Fields names α}
    (distinct : names.Nodup) {levels : Nat} {members : List (String × Value)} {a : α}
    (depicts : library.DepictsFields fields levels members a) :
    library.Depicts (.record fields distinct) (levels + 1) (.object members) a where
  holds := .object depicts.holds
  within := .object depicts.within
  decodes := lawful.decode_record depicts.decodes

theorem list_parts {α : Type} {item : Schema α} {v : Value} {values : List α} {kind : Double → Prop}
    (decodes : library.decode (.list item) v = some values) (holds : v.Holds kind) :
    ∀ a ∈ values, ∃ part : Value, part.Holds kind ∧ library.decode item part = some a := by
  rw [lawful.decode_list] at decodes
  obtain ⟨items, listed, decodes⟩ := Option.bind_eq_some_iff.mp decodes
  rw [eq_array_of_items listed] at holds
  have items_decode := mapM_eq_some_iff.mp decodes
  cases holds with
  | array known =>
    intro a member
    obtain ⟨i, inside, rfl⟩ := List.getElem_of_mem member
    have place : i < items.length := items_decode.length_eq ▸ inside
    exact ⟨items[i], known _ (List.getElem_mem place), items_decode.get place inside⟩

/-- An empty list is empty whatever its items might be. -/
theorem decode_list_nil {α β : Type} {item : Schema α} {v : Value}
    (decodes : library.decode (.list item) v = some []) (other : Schema β) :
    library.decode (.list other) v = some [] := by
  rw [lawful.decode_list] at decodes ⊢
  obtain ⟨items, listed, decodes⟩ := Option.bind_eq_some_iff.mp decodes
  rw [listed, List.forall₂_nil_right_iff.mp (mapM_eq_some_iff.mp decodes)]
  rfl

theorem made_parts {α β : Type} {make : α → β} {parts : β → α} {layout : Schema α} {v : Value}
    {data : β} (decodes : library.decode (.made make parts layout) v = some data) :
    ∃ a, library.decode layout v = some a ∧ make a = data := by
  rw [lawful.decode_made] at decodes
  exact Option.map_eq_some_iff.mp decodes

theorem untagged_parts {α β : Type} {first : Schema α} {second : Schema β} {v : Value}
    {data : α ⊕ β} (decodes : library.decode (.untagged first second) v = some data) :
    (∃ a, data = .inl a ∧ library.decode first v = some a) ∨
      ∃ b, data = .inr b ∧ library.decode second v = some b := by
  rw [lawful.decode_untagged] at decodes
  cases tried : library.decode first v with
  | some a =>
    rw [tried] at decodes
    exact .inl ⟨a, (Option.some.inj decodes).symm, rfl⟩
  | none =>
    rw [tried] at decodes
    obtain ⟨b, found, same⟩ := Option.map_eq_some_iff.mp decodes
    exact .inr ⟨b, same.symm, found⟩

theorem oneOrMany_parts {α : Type} {item : Schema α} {v : Value} {values : List α}
    (decodes : library.decode (.oneOrMany item) v = some values) :
    (∃ a, values = [a] ∧ library.decode item v = some a) ∨
      library.decode item v = none ∧ library.decode (.list item) v = some values := by
  rw [lawful.decode_oneOrMany] at decodes
  cases tried : library.decode item v with
  | some a =>
    rw [tried] at decodes
    exact .inl ⟨a, (Option.some.inj decodes).symm, rfl⟩
  | none =>
    rw [tried] at decodes
    exact .inr ⟨rfl, decodes⟩

end Lawful

end Library

end DecisionTreeC.Json
