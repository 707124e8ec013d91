import DecisionTreeC.Json.Schema

/-!
Reading and writing by schema. A record is an object, or the list of its fields in order; unknown
keys of an object are passed over. What may be laid out in two ways is read as a value first.
-/
namespace DecisionTreeC.Json

def Number.print : Number → String
  | .natural n => toString n
  | .negative n => "-" ++ toString n
  | .float x => writeNumber x

mutual

def Value.print : Value → String
  | .null => "null"
  | .bool b => if b then "true" else "false"
  | .number n => n.print
  | .text s => writeText s
  | .array items => writeList (printItems items)
  | .object members => writeObject (printMembers members)

def Value.printItems : List Value → List String
  | [] => []
  | first :: rest => first.print :: printItems rest

def Value.printMembers : List (String × Value) → List (String × String)
  | [] => []
  | first :: rest => printMember first :: printMembers rest

def Value.printMember : String × Value → String × String
  | (key, v) => (key, v.print)

end

mutual

def Schema.encode : {α : Type} → Schema α → α → Value
  | _, .text, s => .text s
  | _, .signed, n => .number (.ofInt n.toInt)
  | _, .unsigned, n => .number (.natural n.toNat)
  | _, .real, x => .number (.float x)
  | _, .choice _ name, a => .text (name a)
  | _, .list item, values => .array (values.map item.encode)
  | _, .oneOrMany item, [a] => item.encode a
  | _, .oneOrMany item, values => .array (values.map item.encode)
  | _, .untagged first _, .inl a => first.encode a
  | _, .untagged _ second, .inr b => second.encode b
  | _, .record fields _, a => .object (fields.encode a)
  | _, .made _ parts layout, b => layout.encode (parts b)

def Fields.encode : {names : List String} → {α : Type} → Fields names α → α → List (String × Value)
  | _, _, .nil, () => []
  | _, _, .required name field rest, (a, b) => (name, field.encode a) :: rest.encode b
  | _, _, .optional name field rest, (some a, b) => (name, field.encode a) :: rest.encode b
  | _, _, .optional _ _ rest, (none, b) => rest.encode b

end

namespace Value

def text? : Value → Option String
  | .text s => some s
  | _ => none

def number? : Value → Option Number
  | .number n => some n
  | _ => none

def members? : Value → Option (List (String × Value))
  | .object members => some members
  | _ => none

end Value

mutual

/-- What a value stands for. The members of a record are expected in the order of its fields. -/
def Schema.decode : {α : Type} → Schema α → Value → Option α
  | _, .text, v => v.text?
  | _, .signed, v => v.number?.bind Number.toInt64?
  | _, .unsigned, v => v.number?.bind Number.toUInt64?
  | _, .real, v => v.number?.map Number.toDouble
  | _, .choice all name, v => v.text?.bind fun s => all.find? (name · == s)
  | _, .list item, v => v.items?.bind fun items => items.mapM item.decode
  | _, .oneOrMany item, v =>
    ((item.decode v).map fun a => [a]).or (v.items?.bind fun items => items.mapM item.decode)
  | _, .untagged first second, v =>
    ((first.decode v).map .inl).or ((second.decode v).map .inr)
  | _, .record fields _, v => v.members?.bind fields.decode
  | _, .made make _ layout, v => (layout.decode v).map make

def Fields.decode :
    {names : List String} → {α : Type} → Fields names α → List (String × Value) → Option α
  | _, _, .nil, [] => some ()
  | _, _, .nil, _ :: _ => none
  | _, _, .required _ _ _, [] => none
  | _, _, .required name field rest, (key, v) :: more =>
    if key = name then do
      pure (← field.decode v, ← rest.decode more)
    else none
  | _, _, .optional _ _ rest, [] => (rest.decode []).map (none, ·)
  | _, _, .optional name field rest, (key, v) :: more =>
    if key = name then do
      pure (some (← field.decode v), ← rest.decode more)
    else (rest.decode ((key, v) :: more)).map (none, ·)

end

def Fields.Seen : {names : List String} → {α : Type} → Fields names α → Type
  | _, _, .nil => Unit
  | _, _, @Fields.required _ α _ _ _ rest => Option α × rest.Seen
  | _, _, @Fields.optional _ α _ _ _ rest => Option (Option α) × rest.Seen

def Fields.unseen : {names : List String} → {α : Type} → (fields : Fields names α) → fields.Seen
  | _, _, .nil => ()
  | _, _, .required _ _ rest => (none, rest.unseen)
  | _, _, .optional _ _ rest => (none, rest.unseen)

def Fields.close :
    {names : List String} → {α : Type} → (fields : Fields names α) → fields.Seen → Reader α
  | _, _, .nil, _ => pure ()
  | _, _, .required name _ rest, seen => do
    let first ← Json.required name seen.1
    pure (first, ← rest.close seen.2)
  | _, _, .optional _ _ rest, seen => do
    pure (Option.join seen.1, ← rest.close seen.2)

def kept {α : Type} (keep : Value → Option α) : Reader α := do
  match keep (← value) with
  | some a => pure a
  | none => throw .mismatch

def quotedNames : List String → String
  | [] => ""
  | [name] => "\x60" ++ name ++ "\x60"
  | [first, second] => "\x60" ++ first ++ "\x60 or \x60" ++ second ++ "\x60"
  | names => "one of " ++ ", ".intercalate (names.map fun name => "\x60" ++ name ++ "\x60")

def pick {α : Type} (all : List α) (name : α → String) (s : String) : Except Fault α :=
  match all.find? (name · == s) with
  | some a => .ok a
  | none => .error (.unknownVariant s (quotedNames (all.map name)))

def fieldItem {α : Type} (first : Bool) (one : Reader α) : Reader α :=
  if first then firstItem one else nextItem one

mutual

def Schema.reader : {α : Type} → Schema α → Reader α
  | _, .text => string
  | _, .signed => signed
  | _, .unsigned => unsigned
  | _, .real => real
  | _, .choice all name => variant (pick all name)
  | _, .list item => list item.reader
  | _, .oneOrMany item => kept (Schema.oneOrMany item).decode
  | _, .untagged first second => kept (Schema.untagged first second).decode
  | _, .record fields _ =>
    record (fields.listed true) (members text fields.member fields.unseen >>= fields.close)
  | _, .made make _ layout => make <$> layout.reader

def Fields.member : {names : List String} → {α : Type} → (fields : Fields names α) →
    fields.Seen → String → Reader fields.Seen
  | _, _, .nil, seen, _ => do
    colon
    skipped
    pure seen
  | _, _, .required name field rest, seen, key =>
    if key = name then do pure (← once key seen.1 field.reader, seen.2)
    else (seen.1, ·) <$> rest.member seen.2 key
  | _, _, .optional name field rest, seen, key =>
    if key = name then do pure (← once key seen.1 (optional field.reader), seen.2)
    else (seen.1, ·) <$> rest.member seen.2 key

/-- The fields as the items of a list, after an opening bracket or after other fields. -/
def Fields.listed : {names : List String} → {α : Type} → Bool → Fields names α → Reader α
  | _, _, _, .nil => pure ()
  | _, _, first, .required _ field rest => do
    let value ← fieldItem first field.reader
    pure (value, ← rest.listed false)
  | _, _, first, .optional _ field rest => do
    let value ← fieldItem first (optional field.reader)
    pure (value, ← rest.listed false)

end

def standard : Library where
  Fault := Fault
  message := Fault.message
  read schema text := whole schema.reader text
  print := Value.print
  encode := Schema.encode
  decode := Schema.decode

end DecisionTreeC.Json
