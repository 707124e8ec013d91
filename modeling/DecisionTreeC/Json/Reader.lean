/-!
Reading JSON text from left to right. A reader takes what it needs from the front of the text; the
first fault met ends the reading.
-/
namespace DecisionTreeC.Json

/-- Why a text is not the value asked for: it ends too early, it is not JSON, or it is JSON of
another kind or shape. -/
inductive Fault where
  | unfinished
  | malformed
  | mismatch
  | missingField (name : String)
  | duplicateField (name : String)
  | unknownVariant (name : String) (known : String)
  deriving DecidableEq, Repr

def Fault.message : Fault → String
  | .unfinished => "unexpected end of text"
  | .malformed => "malformed text"
  | .mismatch => "unexpected kind of value"
  | .missingField name => "missing field \x60" ++ name ++ "\x60"
  | .duplicateField name => "duplicate field \x60" ++ name ++ "\x60"
  | .unknownVariant name known => "unknown variant \x60" ++ name ++ "\x60, expected " ++ known

/-- A reader takes its value from the front of the text and leaves the rest. It knows the length of
the whole text, which no list exceeds and no nesting. -/
abbrev Reader (α : Type) := ReaderT Nat (StateT (List Char) (Except Fault)) α

def isBlank (c : Char) : Bool := c == ' ' || c == '\n' || c == '\t' || c == '\r'

def peek : Reader (Option Char) := do
  modify (·.dropWhile isBlank)
  return (← get).head?

def advance : Reader Unit := modify List.tail

def expect : List Char → Reader Unit
  | [] => pure ()
  | c :: more => do
    match ← get with
    | [] => throw .unfinished
    | d :: rest =>
      if c = d then
        set rest
        expect more
      else throw .malformed

def mark (c : Char) : Reader Unit := do
  match ← peek with
  | none => throw .unfinished
  | some d => if d = c then advance else throw .malformed

def colon : Reader Unit := mark ':'

def item {α : Type} (one : Reader α) : Reader α := do
  match ← peek with
  | none => throw .unfinished
  | some ']' => throw .malformed
  | some _ => one

/-- The items after the first one, up to the closing bracket. Every item takes a comma, so the
length of the text is fuel enough. -/
def moreItems {α : Type} (one : Reader α) : Nat → Reader (List α)
  | 0 => throw .unfinished
  | fuel + 1 => do
    match ← peek with
    | none => throw .unfinished
    | some ']' => do
      advance
      pure []
    | some ',' => do
      advance
      let first ← item one
      let rest ← moreItems one fuel
      pure (first :: rest)
    | some _ => throw .malformed

def items {α : Type} (one : Reader α) : Reader (List α) := do
  match ← peek with
  | none => throw .unfinished
  | some ']' => do
    advance
    pure []
  | some _ => do
    let first ← one
    let rest ← moreItems one (← read)
    pure (first :: rest)

def nextItem {α : Type} (one : Reader α) : Reader α := do
  match ← peek with
  | none => throw .unfinished
  | some ']' => throw .mismatch
  | some ',' => do
    advance
    item one
  | some _ => throw .malformed

def firstItem {α : Type} (one : Reader α) : Reader α := do
  match ← peek with
  | none => throw .unfinished
  | some ']' => throw .mismatch
  | some _ => one

def lastItem : Reader Unit := mark ']'

def moreMembers {σ κ : Type} (key : Reader κ) (member : σ → κ → Reader σ) : Nat → σ → Reader σ
  | 0, _ => throw .unfinished
  | fuel + 1, state => do
    match ← peek with
    | none => throw .unfinished
    | some '\x7d' => do
      advance
      pure state
    | some ',' => do
      advance
      match ← peek with
      | none => throw .unfinished
      | some '"' => do
        advance
        moreMembers key member fuel (← member state (← key))
      | some _ => throw .malformed
    | some _ => throw .malformed

/-- The members after an opening brace. `key` reads a key behind its quote, and `member` takes it up
with what was gathered before. -/
def members {σ κ : Type} (key : Reader κ) (member : σ → κ → Reader σ) (state : σ) : Reader σ := do
  match ← peek with
  | none => throw .unfinished
  | some '\x7d' => do
    advance
    pure state
  | some '"' => do
    advance
    let state ← member state (← key)
    moreMembers key member (← read) state
  | some _ => throw .malformed

/-- A field that may come once. A second time it is refused before its value is looked at. -/
def once {α : Type} (name : String) (known : Option α) (field : Reader α) : Reader (Option α) := do
  if known.isSome then throw (.duplicateField name)
  colon
  some <$> field

def required {α : Type} (name : String) : Option α → Reader α
  | some value => pure value
  | none => throw (.missingField name)

def whole {α : Type} (one : Reader α) (text : String) : Except Fault α :=
  match (one.run text.length).run text.toList with
  | .error fault => .error fault
  | .ok (value, rest) => if rest.all isBlank then .ok value else .error .malformed

end DecisionTreeC.Json
