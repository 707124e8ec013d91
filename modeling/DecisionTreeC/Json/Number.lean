import DecisionTreeC.Json.Reader
import DecisionTreeC.Number.Shortest

/-!
Numbers of JSON text. A literal without fraction and exponent is an integer while it fits 64 bits;
any other literal is the nearest double.
-/
namespace DecisionTreeC.Json

inductive Number where
  | natural (n : Nat)
  | negative (n : Nat)
  | float (x : Double)
  deriving DecidableEq

namespace Number

def ofInt : Int → Number
  | .ofNat n => .natural n
  | .negSucc n => .negative (n + 1)

def toUInt64? : Number → Option UInt64
  | .natural n => if n < Nat.pow 2 64 then some (UInt64.ofNat n) else none
  | _ => none

def toInt64? : Number → Option Int64
  | .natural n => if n < Nat.pow 2 63 then some (Int64.ofNat n) else none
  | .negative n => if n ≤ Nat.pow 2 63 then some (Int64.ofInt (-(n : Int))) else none
  | .float _ => none

def toDouble : Number → Double
  | .natural n => .ofDecimal false n 0
  | .negative n => .ofDecimal true n 0
  | .float x => x

end Number

/-- A literal as it stands: `digits * 10 ^ exponent`, and whether it is plainly an integer. -/
structure Literal where
  negative : Bool
  digits : Nat
  exponent : Int
  integral : Bool
  deriving DecidableEq, Repr

def digitsValue (n : Nat) (digits : List Char) : Nat :=
  digits.foldl (fun n c => 10 * n + (c.toNat - '0'.toNat)) n

def wholePart (early : Fault) (text : List Char) : Except Fault (List Char × List Char) :=
  match text with
  | [] => .error early
  | '0' :: rest =>
    if (rest.head?.map Char.isDigit).getD false then .error .malformed else .ok (['0'], rest)
  | c :: rest =>
    if c.isDigit then .ok (c :: rest.takeWhile Char.isDigit, rest.dropWhile Char.isDigit)
    else .error .malformed

def digitRun (early : Fault) (text : List Char) : Except Fault (List Char × List Char) :=
  match text with
  | [] => .error early
  | c :: _ =>
    if c.isDigit then .ok (text.takeWhile Char.isDigit, text.dropWhile Char.isDigit)
    else .error .malformed

def fractionPart (early : Fault) : List Char → Except Fault (List Char × List Char)
  | '.' :: rest => digitRun early rest
  | text => .ok ([], text)

def exponentPart (early : Fault) (text : List Char) : Except Fault (Option Int × List Char) :=
  match text with
  | [] => .ok (none, [])
  | c :: rest =>
    if c == 'e' || c == 'E' then
      match rest with
      | '-' :: rest =>
        (digitRun early rest).map fun (d, rest) => (some (-(digitsValue 0 d : Int)), rest)
      | '+' :: rest =>
        (digitRun early rest).map fun (d, rest) => (some (digitsValue 0 d : Int), rest)
      | rest => (digitRun early rest).map fun (d, rest) => (some (digitsValue 0 d : Int), rest)
    else .ok (none, text)

/-- A literal behind its sign. `early` is the fault of a text that ends inside it. -/
def literal (early : Fault) (negative : Bool) (text : List Char) :
    Except Fault (Literal × List Char) := do
  let (whole, text) ← wholePart early text
  let (fraction, text) ← fractionPart early text
  let (exponent, text) ← exponentPart early text
  pure (⟨negative, digitsValue 0 (whole ++ fraction), exponent.getD 0 - fraction.length,
    fraction.isEmpty && exponent.isNone⟩, text)

/-- The number of a literal. One beyond every finite double is refused. -/
def Literal.number (l : Literal) : Except Fault Number :=
  if l.integral && !l.negative && l.digits < Nat.pow 2 64 then .ok (.natural l.digits)
  else if l.integral && l.negative && 0 < l.digits && l.digits ≤ Nat.pow 2 63 then
    .ok (.negative l.digits)
  else
    let x : Double := .ofDecimal l.negative l.digits l.exponent
    if x.isFinite then .ok (.float x) else .error .malformed

def numberBody (early : Fault) : List Char → Except Fault (Literal × List Char)
  | '-' :: rest => literal early true rest
  | text => literal early false text

def number : Reader Number := do
  match numberBody .unfinished (← get) with
  | .error fault => throw fault
  | .ok (l, rest) =>
    set rest
    match l.number with
    | .error fault => throw fault
    | .ok n => pure n

/-- Passes over a number of any size. Here a text that ends inside it is malformed. -/
def numberSkipped : Reader Unit := do
  match numberBody .malformed (← get) with
  | .error fault => throw fault
  | .ok (_, rest) => set rest

def isNumberStart (c : Char) : Bool := c == '-' || c.isDigit

/-- Shortest digits, an equally near decimal being even. Powers of ten from -5 to 15 are written out
with a point; the others have an exponent. -/
def writeNumber (x : Double) : String :=
  if x.isFinite then
    let s := x.shortest .even
    let magnitude := if -5 ≤ s.exponent ∧ s.exponent ≤ 15 then s.positional ".0" else s.exponential
    if x.negative then "-" ++ magnitude else magnitude
  else "null"

end DecisionTreeC.Json
