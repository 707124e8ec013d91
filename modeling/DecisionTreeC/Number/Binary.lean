/-!
Binary floating-point values, taken apart and put together in exact natural-number arithmetic.

A value is a sign and a magnitude pattern: the exponent field above the fraction field, read as one
number. Patterns are ordered as the magnitudes they denote, so comparison is comparison of patterns,
and each finite magnitude is a whole number of least positive values, its `units`.
-/
namespace DecisionTreeC

/-- The integer nearest to `num / den`; a tie goes to the even neighbour. -/
def roundDiv (num den : Nat) : Nat :=
  let quotient := num / den
  let twice := 2 * (num % den)
  if twice < den then quotient
  else if den < twice then quotient + 1
  else quotient + quotient % 2

/-- Widths of the two fields below the sign. -/
structure Format where
  fraction : Nat
  exponent : Nat
  deriving DecidableEq, Repr

namespace Format

def single : Format := ⟨23, 8⟩
def double : Format := ⟨52, 11⟩

/-- Binary digits after the point of the least positive value: `2 ^ scale` units make one. -/
def scale (f : Format) : Nat := f.fraction + Nat.pow 2 (f.exponent - 1) - 2

/-- The pattern of infinity; patterns above it are not numbers. -/
def infinity (f : Format) : Nat := (Nat.pow 2 f.exponent - 1) * Nat.pow 2 f.fraction

def notNumber (f : Format) : Nat := f.infinity + Nat.pow 2 f.fraction / 2

def units (f : Format) (pattern : Nat) : Nat :=
  let exponent := pattern / Nat.pow 2 f.fraction
  let fraction := pattern % Nat.pow 2 f.fraction
  if exponent = 0 then fraction else (Nat.pow 2 f.fraction + fraction) * Nat.pow 2 (exponent - 1)

/-- The pattern nearest to `num / den` units, ties to the even pattern. The significand keeps
`fraction + 1` binary digits, so `shift` of them are rounded away. -/
def nearest (f : Format) (num den : Nat) : Nat :=
  let shift := (num / den).log2 - f.fraction
  min f.infinity (shift * Nat.pow 2 f.fraction + roundDiv num (den * Nat.pow 2 shift))

theorem infinity_lt (f : Format) : f.infinity < Nat.pow 2 (f.fraction + f.exponent) := by
  have one : 0 < Nat.pow 2 f.exponent := Nat.two_pow_pos _
  have width : 0 < Nat.pow 2 f.fraction := Nat.two_pow_pos _
  have whole : Nat.pow 2 (f.exponent + f.fraction) = Nat.pow 2 f.exponent * Nat.pow 2 f.fraction :=
    Nat.pow_add ..
  rw [Nat.add_comm, whole]
  exact Nat.mul_lt_mul_of_pos_right (by omega) width

theorem notNumber_lt (f : Format) : f.notNumber < Nat.pow 2 (f.fraction + f.exponent) := by
  have one : 0 < Nat.pow 2 f.exponent := Nat.two_pow_pos _
  have width : 0 < Nat.pow 2 f.fraction := Nat.two_pow_pos _
  have whole : Nat.pow 2 (f.exponent + f.fraction) = Nat.pow 2 f.exponent * Nat.pow 2 f.fraction :=
    Nat.pow_add ..
  have top : f.infinity + Nat.pow 2 f.fraction = Nat.pow 2 (f.fraction + f.exponent) := by
    rw [infinity, ← Nat.succ_mul, Nat.add_comm f.fraction, whole]
    congr 1
    omega
  unfold notNumber
  omega

theorem nearest_le (f : Format) (num den : Nat) : f.nearest num den ≤ f.infinity :=
  Nat.min_le_left _ _

end Format

structure Binary (f : Format) where
  negative : Bool
  pattern : Nat
  pattern_lt : pattern < Nat.pow 2 (f.fraction + f.exponent)
  deriving DecidableEq

abbrev Double := Binary .double
abbrev Single := Binary .single

namespace Binary

variable {f : Format}

def zero : Binary f := ⟨false, 0, Nat.two_pow_pos _⟩
def nan (negative : Bool) : Binary f := ⟨negative, f.notNumber, f.notNumber_lt⟩
def infinite (negative : Bool) : Binary f := ⟨negative, f.infinity, f.infinity_lt⟩

def ofUnits (negative : Bool) (num den : Nat) : Binary f :=
  ⟨negative, f.nearest num den, Nat.lt_of_le_of_lt (f.nearest_le num den) f.infinity_lt⟩

instance : Inhabited (Binary f) := ⟨zero⟩

def isNaN (x : Binary f) : Bool := f.infinity < x.pattern
def isFinite (x : Binary f) : Bool := x.pattern < f.infinity
def units (x : Binary f) : Nat := f.units x.pattern

def place (x : Binary f) : Int := if x.negative then -x.pattern else x.pattern

/-- `x ≤ y` as numbers; never when one of them is not a number. -/
def le (x y : Binary f) : Bool := !x.isNaN && !y.isNaN && decide (x.place ≤ y.place)

/-- The value nearest to `digits * 10 ^ exponent`. The guards avoid huge powers of ten: a nonzero
number of more than `scale` decimal places before the point is beyond every finite value, and a
fraction below half a unit is zero. -/
def ofDecimal (negative : Bool) (digits : Nat) (exponent : Int) : Binary f :=
  match exponent with
  | .ofNat e =>
    if digits = 0 then ofUnits negative 0 1
    else if f.scale < e then infinite negative
    else ofUnits negative (digits * Nat.pow 10 e * Nat.pow 2 f.scale) 1
  | .negSucc e =>
    if digits.log2 + f.scale + 2 ≤ 3 * e then ofUnits negative 0 1
    else ofUnits negative (digits * Nat.pow 2 f.scale) (Nat.pow 10 (e + 1))

def convert {g : Format} (x : Binary f) : Binary g :=
  if x.isNaN then nan x.negative
  else ofUnits x.negative (x.units * Nat.pow 2 g.scale) (Nat.pow 2 f.scale)

end Binary

def Double.toSingle (x : Double) : Single := x.convert

def Double.singleMax : Double :=
  .ofUnits false (Format.single.units (Format.single.infinity - 1) * Nat.pow 2 Format.double.scale)
    (Nat.pow 2 Format.single.scale)

end DecisionTreeC
