import DecisionTreeC.Number.Binary

/-!
Numbers written with a fixed count of decimal places. The digits are those of the exact value,
rounded to the nearest multiple of the last place with ties to the even one; the sign is the sign of
the value, so a negative zero keeps it.
-/
namespace DecisionTreeC

def lowDigitsBefore : Nat → Nat → List Char → List Char
  | 0, _, after => after
  | count + 1, n, after => lowDigitsBefore count (n / 10) (Nat.digitChar (n % 10) :: after)

def lowDigits (count n : Nat) : List Char := lowDigitsBefore count n []

theorem lowDigitsBefore_eq (count n : Nat) (after : List Char) :
    lowDigitsBefore count n after = lowDigits count n ++ after := by
  induction count generalizing n after with
  | zero => rfl
  | succ count ih =>
    rw [lowDigits, lowDigitsBefore, lowDigitsBefore, ih, ih (n / 10) [_], List.append_assoc]
    rfl

theorem lowDigits_succ (count n : Nat) :
    lowDigits (count + 1) n = lowDigits count (n / 10) ++ [Nat.digitChar (n % 10)] :=
  lowDigitsBefore_eq count (n / 10) [Nat.digitChar (n % 10)]

def digits (n : Nat) : List Char := Nat.toDigits 10 n

def pointed (n places : Nat) : List Char :=
  if places = 0 then digits n
  else digits (n / Nat.pow 10 places) ++ '.' :: lowDigits places (n % Nat.pow 10 places)

namespace Binary

variable {f : Format}

def places (x : Binary f) (count : Nat) : Nat :=
  roundDiv (x.units * Nat.pow 10 count) (Nat.pow 2 f.scale)

def fixed (x : Binary f) (count : Nat) : String :=
  let magnitude := pointed (x.places count) count
  String.ofList (if x.negative then '-' :: magnitude else magnitude)

def maxPlaces : Nat := 65535

/-- A finite value with `count` decimal places, `none` where they are more than a number
is written with. -/
def fixed? (x : Binary f) (count : Nat) : Option String :=
  if count ≤ maxPlaces then some (x.fixed count) else none

end Binary

end DecisionTreeC
