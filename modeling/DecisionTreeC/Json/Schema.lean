import DecisionTreeC.Json.Value

/-!
How data is laid out in JSON, and what a program asks of a library that reads and writes it. A
schema is built from strings, numbers, lists and records; the library takes data to values by its
schema, prints values and reads texts.
-/
namespace DecisionTreeC.Json

mutual

inductive Schema : Type → Type 1 where
  | text : Schema String
  | signed : Schema Int64
  | unsigned : Schema UInt64
  | real : Schema Double
  /-- One of several constants, by its name. -/
  | choice {α : Type} (all : List α) (name : α → String) : Schema α
  | list {α : Type} (item : Schema α) : Schema (List α)
  /-- A list whose only item may stand without brackets; it is looked for first. -/
  | oneOrMany {α : Type} (item : Schema α) : Schema (List α)
  /-- The first of two layouts that fits; nothing tells which one was written. -/
  | untagged {α β : Type} (first : Schema α) (second : Schema β) : Schema (α ⊕ β)
  | record {names : List String} {α : Type} (fields : Fields names α)
      (distinct : names.Nodup := by decide) : Schema α
  /-- Data made of other data, which are its parts. -/
  | made {α β : Type} (make : α → β) (parts : β → α) (layout : Schema α) : Schema β

/-- The fields of a record in order, by name. An optional one is left out where there is
nothing to write. -/
inductive Fields : List String → Type → Type 1 where
  | nil : Fields [] Unit
  | required {names : List String} {α β : Type} (name : String) (field : Schema α)
      (rest : Fields names β) : Fields (name :: names) (α × β)
  | optional {names : List String} {α β : Type} (name : String) (field : Schema α)
      (rest : Fields names β) : Fields (name :: names) (Option α × β)

end

def Value.items? : Value → Option (List Value)
  | .array items => some items
  | _ => none

/-- A library for JSON. Reading goes by the schema of what is asked for and may fail; `decode` is
what a value stands for under a schema. -/
structure Library where
  Fault : Type
  message : Fault → String
  read {α : Type} : Schema α → String → Except Fault α
  print : Value → String
  encode {α : Type} : Schema α → α → Value
  decode {α : Type} : Schema α → Value → Option α

def Library.write {α : Type} (library : Library) (schema : Schema α) (data : α) : String :=
  library.print (library.encode schema data)

end DecisionTreeC.Json
