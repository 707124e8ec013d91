import DecisionTreeC.Json.Number
import DecisionTreeC.Json.Text

/-!
JSON values of any kind, and values of one kind.
-/
namespace DecisionTreeC.Json

inductive Value where
  | null
  | bool (b : Bool)
  | number (n : Number)
  | text (s : String)
  | array (items : List Value)
  | object (members : List (String × Value))

def anyMember {α : Type} (one : Reader α) (seen : List (String × α)) (key : String) :
    Reader (List (String × α)) := do
  colon
  let value ← one
  pure (seen ++ [(key, value)])

def nested : Nat → Reader Value
  | 0 => throw .unfinished
  | depth + 1 => do
    match ← peek with
    | none => throw .unfinished
    | some 'n' => do
      expect "null".toList
      pure .null
    | some 't' => do
      expect "true".toList
      pure (.bool true)
    | some 'f' => do
      expect "false".toList
      pure (.bool false)
    | some '"' => do
      advance
      .text <$> text
    | some '[' => do
      advance
      .array <$> items (nested depth)
    | some '\x7b' => do
      advance
      .object <$> members text (anyMember (nested depth)) []
    | some c => if isNumberStart c then .number <$> number else throw .malformed

/-- Any value. A level takes a character, so the length of the text is depth enough. -/
def value : Reader Value := do nested ((← read) + 1)

def skippedNested : Nat → Reader Unit
  | 0 => throw .unfinished
  | depth + 1 => do
    match ← peek with
    | none => throw .unfinished
    | some 'n' => expect "null".toList
    | some 't' => expect "true".toList
    | some 'f' => expect "false".toList
    | some '"' => do
      advance
      textSkipped
    | some '[' => do
      advance
      let _ ← items (skippedNested depth)
    | some '\x7b' => do
      advance
      members textSkipped (fun _ _ => do colon; skippedNested depth) ()
    | some c => if isNumberStart c then numberSkipped else throw .malformed

def skipped : Reader Unit := do skippedNested ((← read) + 1)

/-- Another kind of value stands where one was asked for. A scalar is still read, so that a fault
inside it comes first. -/
def mismatched {α : Type} : Reader α := do
  match ← peek with
  | some '[' => throw .mismatch
  | some '\x7b' => throw .mismatch
  | _ => do
    let _ ← nested 1
    throw .mismatch

def string : Reader String := do
  match ← peek with
  | some '"' => do
    advance
    text
  | _ => mismatched

def numeral {α : Type} (keep : Number → Option α) : Reader α := do
  match ← peek with
  | some c =>
    if isNumberStart c then
      match keep (← number) with
      | some n => pure n
      | none => throw .mismatch
    else mismatched
  | none => throw .unfinished

def unsigned : Reader UInt64 := numeral Number.toUInt64?
def signed : Reader Int64 := numeral Number.toInt64?
def real : Reader Double := numeral fun n => some n.toDouble

def list {α : Type} (one : Reader α) : Reader (List α) := do
  match ← peek with
  | some '[' => do
    advance
    items one
  | _ => mismatched

def record {α : Type} (listed named : Reader α) : Reader α := do
  match ← peek with
  | some '[' => do
    advance
    let value ← listed
    lastItem
    pure value
  | some '\x7b' => do
    advance
    named
  | _ => mismatched

def optional {α : Type} (one : Reader α) : Reader (Option α) := do
  match ← peek with
  | some 'n' => do
    expect "null".toList
    pure none
  | _ => some <$> one

def nullWord : Reader Unit := do
  match ← peek with
  | some 'n' => expect "null".toList
  | _ => mismatched

def named {α : Type} (pick : String → Except Fault α) : Reader α := do
  match pick (← text) with
  | .error fault => throw fault
  | .ok choice => pure choice

/-- One of several names: as a string, or as the only key of an object whose value is null. What
cannot be a name is malformed, before it is read. -/
def variant {α : Type} (pick : String → Except Fault α) : Reader α := do
  match ← peek with
  | none => throw .unfinished
  | some '"' => do
    advance
    named pick
  | some '\x7b' => do
    advance
    mark '"'
    let choice ← named pick
    colon
    nullWord
    mark '\x7d'
    pure choice
  | some _ => throw .malformed

def writeList (items : List String) : String := "[" ++ ",".intercalate items ++ "]"

def writeObject (members : List (String × String)) : String :=
  "\x7b" ++ ",".intercalate (members.map fun (key, value) => writeText key ++ ":" ++ value) ++
    "\x7d"

end DecisionTreeC.Json
