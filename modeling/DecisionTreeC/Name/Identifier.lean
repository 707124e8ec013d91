import DecisionTreeC.Text

/-!
C identifiers: which texts are identifiers, how any text is cleaned into one, and how whole lists of
names are cleaned so that no two become the same.
-/
namespace DecisionTreeC

namespace Identifier

def keywords : List String :=
  ["auto", "break", "case", "char", "const", "continue", "default", "do", "double", "else", "enum",
   "extern", "float", "for", "goto", "if", "inline", "int", "long", "register", "restrict",
   "return", "short", "signed", "sizeof", "static", "struct", "switch", "typedef", "union",
   "unsigned", "void", "volatile", "while", "_Alignas", "_Alignof", "_Atomic", "_Bool", "_Complex",
   "_Generic", "_Imaginary", "_Noreturn", "_Static_assert", "_Thread_local"]

def isStart (c : Char) : Bool := c.isAlpha || c == '_'
def isPart (c : Char) : Bool := c.isAlphanum || c == '_'

/-- The spelling of an identifier, keywords included. -/
def isWord : List Char → Bool
  | [] => false
  | first :: rest => isStart first && rest.all isPart

def masked (text : List Char) : List Char := text.map fun c => if isPart c then c else '_'

/-- An empty text, or one that begins with a digit, gets `lead` in front. -/
def led (lead : List Char) : List Char → List Char
  | [] => lead
  | first :: rest => if first.isDigit then lead ++ first :: rest else first :: rest

end Identifier

open Identifier

def isIdentifier (name : String) : Bool := isWord name.toList && !keywords.contains name

def cleaned (lead name : String) : String :=
  let word := String.ofList (led lead.toList (masked name.toList))
  if keywords.contains word then word ++ "_" else word

open Text (quoted)

inductive NameError where
  | invalidIdentifier (name : String)
  | duplicateName (name : String)
  | duplicateIndex (index : Nat)
  | sanitizeCollision (name first second : String)
  deriving DecidableEq, Repr

def NameError.message : NameError → String
  | .invalidIdentifier name => quoted name ++ " is not a valid C identifier"
  | .duplicateName name => "name " ++ quoted name ++ " appears more than once"
  | .duplicateIndex index => "feature index " ++ toString index ++ " is assigned more than once"
  | .sanitizeCollision name first second =>
    quoted first ++ " and " ++ quoted second ++ " both sanitize to " ++ quoted name

/-- Cleans each name after those already cleaned, `seen`, each with the name it came from. Two names
that become one are refused: as a repetition if they were the same, as a collision if not. -/
def cleanAfter (lead : String) :
    List (String × String) → List String → Except NameError (List String)
  | _, [] => .ok []
  | seen, name :: rest =>
    let clean := cleaned lead name
    match seen.lookup clean with
    | some first =>
      if first = name then .error (.duplicateName name)
      else .error (.sanitizeCollision clean first name)
    | none => (cleanAfter lead ((clean, name) :: seen) rest).map (clean :: ·)

def cleanAll (lead : String) (names : List String) : Except NameError (List String) :=
  cleanAfter lead [] names

end DecisionTreeC
