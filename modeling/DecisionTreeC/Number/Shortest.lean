import DecisionTreeC.Number.Fixed

/-!
The fewest decimal digits that read back as the same binary value.

A magnitude is a whole number of `10 ^ -scale`, because a unit is. On that grid the decimals that
round to the value form an interval around it. For one digit, two digits and so on, the two
neighbours of the value with that many digits are tried; the first count with a neighbour inside the
interval wins, and of two such neighbours the nearer.
-/
namespace DecisionTreeC

inductive Tie where
  | up
  | even
  deriving DecidableEq, Repr

/-- Significant digits without trailing zeros, and the power of ten of the first one. -/
structure Scientific where
  digits : List Char
  exponent : Int
  deriving DecidableEq, Repr

namespace Scientific

def zero : Scientific := ⟨['0'], 0⟩

def ofScaled (n scale : Nat) : Scientific :=
  let all := DecisionTreeC.digits n
  ⟨(all.reverse.dropWhile (· == '0')).reverse, (all.length : Int) - 1 - scale⟩

def positional (s : Scientific) (whole : String) : String :=
  match s.exponent with
  | .negSucc e => "0." ++ String.ofList (List.replicate e '0' ++ s.digits)
  | .ofNat e =>
    if s.digits.length ≤ e + 1 then
      String.ofList (s.digits ++ List.replicate (e + 1 - s.digits.length) '0') ++ whole
    else
      String.ofList (s.digits.take (e + 1) ++ '.' :: s.digits.drop (e + 1))

def exponential (s : Scientific) : String :=
  let significand :=
    match s.digits with
    | first :: second :: rest => first :: '.' :: second :: rest
    | short => short
  let exponent :=
    match s.exponent with
    | .negSucc e => '-' :: DecisionTreeC.digits (e + 1)
    | .ofNat e => '+' :: DecisionTreeC.digits e
  String.ofList (significand ++ 'e' :: exponent)

end Scientific

/-- The decimals that round to one value, doubled to stay whole: between `low` and `high`, the ends
included when `closed`. -/
structure Reach where
  low : Nat
  high : Nat
  closed : Bool
  deriving DecidableEq, Repr

def Reach.holds (reach : Reach) (n : Nat) : Bool :=
  if reach.closed then reach.low ≤ 2 * n && 2 * n ≤ reach.high
  else reach.low < 2 * n && 2 * n < reach.high

def Reach.round (reach : Reach) (tie : Tie) (n step : Nat) : Option Nat :=
  let below := n / step
  let lower := below * step
  let upper := (below + 1) * step
  match reach.holds lower, reach.holds upper with
  | false, false => none
  | true, false => some lower
  | false, true => some upper
  | true, true =>
    if n - lower < upper - n then some lower
    else if upper - n < n - lower then some upper
    else match tie with
      | .up => some upper
      | .even => if below % 2 = 0 then some lower else some upper

/-- Tries steps of `10 ^ k` for `k` from `power` down to zero. At step one the value
itself is hit. -/
def Reach.shortest (reach : Reach) (tie : Tie) (n : Nat) : Nat → Nat
  | 0 => n
  | power + 1 =>
    match reach.round tie n (Nat.pow 10 (power + 1)) with
    | some hit => hit
    | none => reach.shortest tie n power

namespace Binary

variable {f : Format}

def scaled (f : Format) (pattern : Nat) : Nat := f.units pattern * Nat.pow 5 f.scale

def reach (f : Format) (pattern : Nat) : Reach :=
  let middle := scaled f pattern
  ⟨scaled f (pattern - 1) + middle, middle + scaled f (pattern + 1), pattern % 2 == 0⟩

def shortest (x : Binary f) (tie : Tie) : Scientific :=
  if x.pattern = 0 then .zero
  else
    let exact := scaled f x.pattern
    .ofScaled ((reach f x.pattern).shortest tie exact ((digits exact).length - 1)) f.scale

/-- The text of a value in messages and names: shortest digits, never an exponent, equally near
decimals go up. -/
def display (x : Binary f) : String :=
  if x.isNaN then "NaN"
  else
    let magnitude := if x.isFinite then (x.shortest .up).positional "" else "inf"
    if x.negative then "-" ++ magnitude else magnitude

end Binary

end DecisionTreeC
