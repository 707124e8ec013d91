import DecisionTreeC.Proofs.Shortest
import Mathlib.Algebra.Order.Field.Basic
import Mathlib.Algebra.Order.Ring.Rat
import Mathlib.Order.Monotone.Basic
import Mathlib.Tactic.FieldSimp
import Mathlib.Tactic.NormNum

/-!
Numbers written with a fixed count of decimal places, against the exact numbers they stand for. The
text of a value is taken apart into a sign, digits before the point and digits behind it. The
decimal number it spells is the multiple of the last place nearest to the value, a tie going to the
even one; so it is off by half a last place at most, exact where it can be, and in the order of the
values.
-/
namespace DecisionTreeC

structure NearestEven (q : ℚ) (n : ℤ) : Prop where
  nearest : ∀ m : ℤ, |q - n| ≤ |q - m|
  even : ∀ m : ℤ, m ≠ n → |q - n| = |q - m| → Even n

namespace NearestEven

variable {q q' : ℚ} {n n' : ℤ}

theorem of_error (near : |q - n| ≤ 1 / 2) (odd : ¬ Even n → |q - n| < 1 / 2) : NearestEven q n := by
  have apart : ∀ m : ℤ, m ≠ n → 1 / 2 ≤ |q - m| := by
    intro m other
    have step : (1 : ℚ) ≤ |(m : ℚ) - n| := by
      have := Int.one_le_abs (sub_ne_zero.mpr other)
      exact_mod_cast this
    have triangle := abs_sub_le (m : ℚ) q n
    rw [abs_sub_comm (m : ℚ) q] at triangle
    linarith
  constructor
  · intro m
    by_cases same : m = n
    · rw [same]
    · exact le_trans near (apart m same)
  · intro m other equal
    by_contra uneven
    have := apart m other
    have := odd uneven
    linarith

theorem error_le (h : NearestEven q n) : |q - n| ≤ 1 / 2 := by
  have above := h.nearest (n + 1)
  have below := h.nearest (n - 1)
  push_cast at above below
  rcases le_total q n with smaller | larger
  · rw [abs_of_nonpos (by linarith)] at below ⊢
    rcases abs_cases (q - (n - 1)) with ⟨value, _⟩ | ⟨value, _⟩ <;> linarith
  · rw [abs_of_nonneg (by linarith)] at above ⊢
    rcases abs_cases (q - (n + 1)) with ⟨value, _⟩ | ⟨value, _⟩ <;> linarith

theorem neg (h : NearestEven q n) : NearestEven (-q) (-n) := by
  have mirror : ∀ m : ℤ, |-q - m| = |q - (-m : ℤ)| := by
    intro m
    rw [← abs_neg]
    congr 1
    push_cast
    ring
  constructor
  · intro m
    rw [mirror, mirror, neg_neg]
    exact h.nearest (-m)
  · intro m other equal
    rw [mirror, mirror, neg_neg] at equal
    exact (h.even (-m) (by omega) equal).neg

/-- Larger numbers are rounded to larger integers: two integers in the wrong order would be at one
tie, next to each other and both even. -/
theorem mono (h : NearestEven q n) (h' : NearestEven q' n') (ordered : q ≤ q') : n ≤ n' := by
  by_contra swapped
  have less : n' + 1 ≤ n := by omega
  have gap : (n' : ℚ) + 1 ≤ n := by exact_mod_cast less
  have low := abs_le.mp h.error_le
  have high := abs_le.mp h'.error_le
  have next : (n : ℚ) = n' + 1 := by linarith
  have middle : q = n' + 1 / 2 := by linarith
  have middle' : q' = n' + 1 / 2 := by linarith
  obtain rfl : n = n' + 1 := by exact_mod_cast next
  have first : Even (n' + 1) := h.even n' (by omega) (by rw [middle]; push_cast; norm_num)
  have second : Even n' := h'.even (n' + 1) (by omega) (by rw [middle']; push_cast; norm_num)
  exact (Int.even_add_one.mp first) second

end NearestEven

theorem roundDiv_nearestEven (num : Nat) {den : Nat} (positive : 0 < den) :
    NearestEven ((num : ℚ) / den) (roundDiv num den) := by
  obtain ⟨low, high⟩ := roundDiv_near num positive
  have den_pos : (0 : ℚ) < den := by exact_mod_cast positive
  have low' : 2 * ((roundDiv num den : ℚ) * den) + (roundDiv num den % 2 : Nat) ≤
      2 * num + den := by
    exact_mod_cast low
  have high' : 2 * (num : ℚ) + (roundDiv num den % 2 : Nat) ≤
      2 * (roundDiv num den * den) + den := by
    exact_mod_cast high
  have distance : |(num : ℚ) / den - (roundDiv num den : ℤ)| =
      |(num : ℚ) - roundDiv num den * den| / den := by
    rw [← abs_of_pos den_pos, ← abs_div, abs_of_pos den_pos]
    congr 1
    push_cast
    field_simp
  have parity : (0 : ℚ) ≤ (roundDiv num den % 2 : Nat) := Nat.cast_nonneg _
  apply NearestEven.of_error
  · rw [distance, div_le_iff₀ den_pos, abs_le]
    constructor <;> linarith
  · intro uneven
    have odd : roundDiv num den % 2 = 1 := by
      have := Nat.not_even_iff_odd.mp fun even => uneven (by exact_mod_cast even)
      exact Nat.odd_iff.mp this
    rw [odd] at low' high'
    rw [distance, div_lt_iff₀ den_pos, abs_lt]
    push_cast at low' high'
    constructor <;> linarith

/-- Of the multiples of `10 ^ -places` the `n`-th is nearest to a number; another one may be as near
only where `n`, and with it the last digit, is even. -/
structure NearestMultiple (q : ℚ) (places : Nat) (n : ℤ) : Prop where
  nearest : ∀ m : ℤ, |q - n / 10 ^ places| ≤ |q - m / 10 ^ places|
  even : ∀ m : ℤ, m ≠ n → |q - n / 10 ^ places| = |q - m / 10 ^ places| → Even n

namespace NearestMultiple

variable {q q' : ℚ} {places : Nat} {n n' : ℤ}

theorem ten_pow_pos (places : Nat) : (0 : ℚ) < 10 ^ places := pow_pos (by norm_num) places

theorem distance_eq (q : ℚ) (places : Nat) (m : ℤ) :
    |q - m / 10 ^ places| = |q * 10 ^ places - m| / 10 ^ places := by
  have positive := ten_pow_pos places
  rw [eq_div_iff positive.ne', ← abs_of_pos positive, ← abs_mul, abs_of_pos positive]
  congr 1
  field_simp

theorem iff_nearestEven : NearestMultiple q places n ↔ NearestEven (q * 10 ^ places) n := by
  have positive := ten_pow_pos places
  have compare : ∀ m : ℤ, |q - n / 10 ^ places| ≤ |q - m / 10 ^ places| ↔
      |q * 10 ^ places - n| ≤ |q * 10 ^ places - m| := by
    intro m
    rw [distance_eq, distance_eq, div_le_div_iff_of_pos_right positive]
  have tie : ∀ m : ℤ, |q - n / 10 ^ places| = |q - m / 10 ^ places| ↔
      |q * 10 ^ places - n| = |q * 10 ^ places - m| := by
    intro m
    rw [distance_eq, distance_eq, div_left_inj' positive.ne']
  constructor
  · intro h
    exact ⟨fun m => (compare m).mp (h.nearest m), fun m other equal =>
      h.even m other ((tie m).mpr equal)⟩
  · intro h
    exact ⟨fun m => (compare m).mpr (h.nearest m), fun m other equal =>
      h.even m other ((tie m).mp equal)⟩

theorem error_le (h : NearestMultiple q places n) :
    |n / 10 ^ places - q| ≤ 1 / 2 / 10 ^ places := by
  have positive := ten_pow_pos places
  rw [abs_sub_comm, distance_eq, div_le_div_iff_of_pos_right positive]
  exact (iff_nearestEven.mp h).error_le

theorem exact (h : NearestMultiple q places n) {m : ℤ} (multiple : q = m / 10 ^ places) :
    n / 10 ^ places = q := by
  have nearest := h.nearest m
  rw [← multiple, sub_self, abs_zero, abs_nonpos_iff, sub_eq_zero] at nearest
  exact nearest.symm

theorem mono (h : NearestMultiple q places n) (h' : NearestMultiple q' places n')
    (ordered : q ≤ q') : (n : ℚ) / 10 ^ places ≤ n' / 10 ^ places := by
  have positive := ten_pow_pos places
  have scaled : q * 10 ^ places ≤ q' * 10 ^ places := mul_le_mul_of_nonneg_right ordered positive.le
  have integers := (iff_nearestEven.mp h).mono (iff_nearestEven.mp h') scaled
  rw [div_le_div_iff_of_pos_right positive]
  exact_mod_cast integers

end NearestMultiple

structure Decimal where
  negative : Bool
  whole : List Char
  fraction : List Char
  deriving DecidableEq

namespace Decimal

def text (d : Decimal) : List Char :=
  (if d.negative then ['-'] else []) ++ d.whole ++ '.' :: d.fraction

def number (d : Decimal) : ℤ :=
  let magnitude : ℤ := Nat.ofDigitChars 10 (d.whole ++ d.fraction) 0
  if d.negative then -magnitude else magnitude

def value (d : Decimal) : ℚ := d.number / 10 ^ d.fraction.length

structure Proper (d : Decimal) : Prop where
  digit : ∀ c ∈ d.whole ++ d.fraction, c.isDigit = true
  first : d.whole ≠ []
  leading : d.whole = ['0'] ∨ d.whole.head? ≠ some '0'

/-- The parts of a text, up to whatever follows the digits behind the point. -/
def ofText (text : String) : Decimal :=
  let negative := text.toList.head? == some '-'
  let magnitude := if negative then text.toList.tail else text.toList
  let whole := magnitude.takeWhile Char.isDigit
  ⟨negative, whole, (magnitude.drop (whole.length + 1)).takeWhile Char.isDigit⟩

theorem ofText_text {d : Decimal} (digit : ∀ c ∈ d.whole ++ d.fraction, c.isDigit = true)
    (first : d.whole ≠ []) {suffix : List Char}
    (ends : ∀ c, suffix.head? = some c → c.isDigit = false) :
    ofText (String.ofList (d.text ++ suffix)) = d := by
  obtain ⟨negative, whole, fraction⟩ := d
  have upto_point : (whole ++ '.' :: fraction ++ suffix).takeWhile Char.isDigit = whole := by
    rw [List.append_assoc, List.takeWhile_append_of_pos fun c member =>
      digit c (List.mem_append_left _ member)]
    simp [Char.isDigit]
  have upto_suffix : (fraction ++ suffix).takeWhile Char.isDigit = fraction := by
    rw [List.takeWhile_append_of_pos fun c member => digit c (List.mem_append_right _ member)]
    cases suffix with
    | nil => simp
    | cons c rest => simp [ends c rfl]
  have behind_point : (whole ++ '.' :: fraction ++ suffix).drop (whole.length + 1) =
      fraction ++ suffix := by
    rw [List.append_assoc, List.drop_append]
    simp
  have parts : ∀ text : String, (text.toList.head? == some '-') = negative →
      (if negative then text.toList.tail else text.toList) = whole ++ '.' :: fraction ++ suffix →
      ofText text = ⟨negative, whole, fraction⟩ := by
    intro text sign magnitude
    simp only [ofText, sign, magnitude, upto_point, behind_point, upto_suffix]
  cases negative with
  | true => exact parts _ (by simp [text]) (by simp [text])
  | false =>
    obtain ⟨c, rest, rfl⟩ := List.exists_cons_of_ne_nil first
    have unsigned : c ≠ '-' := by
      rintro rfl
      have minus := digit '-' (by simp)
      cases minus
    exact parts _ (by simp [text, unsigned]) (by simp [text])

end Decimal

theorem ofDigitChars_lowDigits (count n start : Nat) :
    Nat.ofDigitChars 10 (lowDigits count n) start = start * 10 ^ count + n % 10 ^ count := by
  induction count generalizing n with
  | zero => simp [lowDigits, lowDigitsBefore, Nat.mod_one]
  | succ count ih =>
    have digit : n % 10 < 10 := Nat.mod_lt n (by decide)
    have last := Nat.toNat_digitChar_sub_48_of_lt_ten digit
    rw [lowDigits_succ, Nat.ofDigitChars_append, ih, Nat.ofDigitChars_cons, Nat.ofDigitChars_nil,
      pow_succ', Nat.mod_mul]
    change 10 * _ + ((n % 10).digitChar.toNat - 48) = _
    rw [last]
    ring

theorem digits_value (n places : Nat) :
    Nat.ofDigitChars 10 (digits (n / 10 ^ places) ++ lowDigits places (n % 10 ^ places)) 0 = n := by
  rw [Nat.ofDigitChars_append, digits, Nat.ofDigitChars_ten_toDigits, ofDigitChars_lowDigits,
    Nat.mod_mod]
  exact Nat.div_add_mod' n _

namespace Format

def unitsAt (f : Format) : Int → Int
  | .ofNat pattern => f.units pattern
  | .negSucc pattern => -f.units (pattern + 1)

theorem unitsAt_lt_succ (f : Format) (place : Int) : f.unitsAt place < f.unitsAt (place + 1) := by
  cases place with
  | ofNat pattern => exact Int.ofNat_lt.mpr (f.units_lt_succ pattern)
  | negSucc pattern =>
    cases pattern with
    | zero =>
      have step := f.units_lt_succ 0
      have origin := f.units_zero
      change -(f.units (0 + 1) : Int) < f.units 0
      omega
    | succ pattern => exact Int.neg_lt_neg (Int.ofNat_lt.mpr (f.units_lt_succ (pattern + 1)))

theorem unitsAt_le_iff (f : Format) {a b : Int} : f.unitsAt a ≤ f.unitsAt b ↔ a ≤ b := by
  have strict : StrictMono f.unitsAt := strictMono_int_of_lt_succ f.unitsAt_lt_succ
  exact strict.le_iff_le

end Format

namespace Binary

variable {f : Format}

def value (x : Binary f) : ℚ :=
  let magnitude : ℚ := x.units / 2 ^ f.scale
  if x.negative then -magnitude else magnitude

def decimal (x : Binary f) (places : Nat) : Decimal :=
  ⟨x.negative, digits (x.places places / 10 ^ places),
    lowDigits places (x.places places % 10 ^ places)⟩

theorem abs_value (x : Binary f) : |x.value| = x.units / 2 ^ f.scale := by
  have magnitude : (0 : ℚ) ≤ x.units / 2 ^ f.scale := by positivity
  unfold value
  cases x.negative
  · exact abs_of_nonneg magnitude
  · exact (abs_neg _).trans (abs_of_nonneg magnitude)

theorem decimal_proper (x : Binary f) (places : Nat) : (x.decimal places).Proper := by
  refine ⟨?_, Nat.toDigits_ne_nil, ?_⟩
  · intro c member
    rcases List.mem_append.mp member with whole | fraction
    · exact digits_isDigit c whole
    · exact lowDigits_digits c fraction
  · rcases Nat.eq_zero_or_pos (x.places places / 10 ^ places) with zero | positive
    · left
      rw [decimal, zero]
      rfl
    · exact .inr (head_digits positive)

theorem decimal_number (x : Binary f) (places : Nat) :
    (x.decimal places).number = if x.negative then -(x.places places : ℤ) else x.places places := by
  simp only [Decimal.number, decimal, digits_value]

theorem decimal_nearest (x : Binary f) (places : Nat) :
    NearestMultiple x.value places (x.decimal places).number := by
  have magnitude : NearestEven (x.units / 2 ^ f.scale * 10 ^ places : ℚ) (x.places places) := by
    have rounded := roundDiv_nearestEven (x.units * 10 ^ places) (Nat.two_pow_pos f.scale)
    have quotient : ((x.units * 10 ^ places : Nat) : ℚ) / (2 ^ f.scale : Nat) =
        x.units / 2 ^ f.scale * 10 ^ places := by
      push_cast
      ring
    rwa [quotient] at rounded
  rw [NearestMultiple.iff_nearestEven, decimal_number]
  unfold value
  cases x.negative
  · exact magnitude
  · have mirrored := magnitude.neg
    rwa [← neg_mul] at mirrored

theorem fixed_text (x : Binary f) {places : Nat} (positive : 0 < places) :
    (x.fixed places).toList = (x.decimal places).text := fixed_parts x positive

theorem value_eq_unitsAt (x : Binary f) : x.value = f.unitsAt x.place / 2 ^ f.scale := by
  unfold value place units
  cases x.negative with
  | false => rfl
  | true =>
    cases x.pattern with
    | zero => simp [Format.unitsAt, f.units_zero]
    | succ pattern =>
      have signed : f.unitsAt (-(pattern + 1 : Nat)) = -f.units (pattern + 1) := rfl
      rw [if_pos rfl, if_pos rfl, signed]
      push_cast
      ring

theorem value_le_iff {x y : Binary f} : x.value ≤ y.value ↔ x.place ≤ y.place := by
  have scale_pos : (0 : ℚ) < 2 ^ f.scale := by positivity
  rw [value_eq_unitsAt, value_eq_unitsAt, div_le_div_iff_of_pos_right scale_pos, Int.cast_le]
  exact f.unitsAt_le_iff

theorem value_le {x y : Binary f} (ordered : x.le y = true) : x.value ≤ y.value := by
  simp only [le, Bool.and_eq_true, decide_eq_true_eq] at ordered
  exact value_le_iff.mpr ordered.2

theorem isFinite_iff {x : Binary f} :
    x.isFinite = true ↔ ¬ (x.isNaN = true ∨ x = .infinite x.negative) := by
  have infinite_iff : x = .infinite x.negative ↔ x.pattern = f.infinity := by
    constructor
    · intro same
      rw [same]
      rfl
    · intro same
      exact @eq_of_parts f x (.infinite x.negative) rfl same
  rw [infinite_iff]
  simp only [isFinite, isNaN, decide_eq_true_eq]
  omega

end Binary

/-- A text for a value: nothing but its sign, digits without a superfluous zero, a point,
as many digits as asked for and the suffix; and the number it spells is the value rounded
to these places. -/
structure Rounded (x : Double) (places : Nat) (suffix : List Char) (text : String) : Prop where
  shape : text.toList = (Decimal.ofText text).text ++ suffix
  proper : (Decimal.ofText text).Proper
  sign : (Decimal.ofText text).negative = x.negative
  count : (Decimal.ofText text).fraction.length = places
  nearest : NearestMultiple x.value places (Decimal.ofText text).number
  error : |(Decimal.ofText text).value - x.value| ≤ 1 / 2 / 10 ^ places
  exact : ∀ m : ℤ, x.value = m / 10 ^ places → (Decimal.ofText text).value = x.value

/-- What a way of writing numbers does with every value: an error for those it refuses and a rounded
text for the others, with texts in the order of the values. Beyond the most places a number is
written with there is no text. -/
structure Writes (write : Double → Nat → ExceptT SourceError Option String)
    (refused : Double → Prop) (suffix : List Char) (places : Nat) : Prop where
  refuses : ∀ x e, (write x places).run = some (.error e) ↔
    e = .formattingOverflow x places ∧ refused x
  writes : places ≤ Binary.maxPlaces → ∀ x, ¬ refused x →
    ∃ text, (write x places).run = some (.ok text) ∧ Rounded x places suffix text
  missing : Binary.maxPlaces < places → ∀ x, ¬ refused x → (write x places).run = none
  ordered : ∀ x y a b, (write x places).run = some (.ok a) → (write y places).run = some (.ok b) →
    x.le y = true → (Decimal.ofText a).value ≤ (Decimal.ofText b).value

theorem ofText_fixed (x : Double) {places : Nat} (positive : 0 < places) {suffix : String}
    (ends : ∀ c, suffix.toList.head? = some c → c.isDigit = false) :
    Decimal.ofText (x.fixed places ++ suffix) = x.decimal places := by
  have proper := x.decimal_proper places
  have text : x.fixed places ++ suffix =
      String.ofList ((x.decimal places).text ++ suffix.toList) := by
    apply String.toList_inj.mp
    rw [String.toList_append, x.fixed_text positive, String.toList_ofList]
  rw [text]
  exact Decimal.ofText_text proper.digit proper.first ends

theorem fixed_rounded (x : Double) {places : Nat} (positive : 0 < places) {suffix : String}
    (ends : ∀ c, suffix.toList.head? = some c → c.isDigit = false) :
    Rounded x places suffix.toList (x.fixed places ++ suffix) := by
  have read := ofText_fixed x positive ends
  have nearest := x.decimal_nearest places
  have count : (x.decimal places).fraction.length = places := lowDigits_length _ _
  have value : (x.decimal places).value = (x.decimal places).number / 10 ^ places := by
    rw [Decimal.value, count]
  constructor
  · rw [read, String.toList_append, x.fixed_text positive]
  · rw [read]
    exact x.decimal_proper places
  · rw [read]
    rfl
  · rw [read, count]
  · rw [read]
    exact nearest
  · rw [read, value]
    exact nearest.error_le
  · intro m multiple
    rw [read, value]
    exact nearest.exact multiple

theorem writes_fixed {write : Double → Nat → ExceptT SourceError Option String}
    {refused : Double → Prop} {suffix : String}
    (ends : ∀ c, suffix.toList.head? = some c → c.isDigit = false) {places : Nat}
    (positive : 0 < places)
    (fails : ∀ x, refused x → (write x places).run = some (.error (.formattingOverflow x places)))
    (gives : ∀ x, ¬ refused x → (write x places).run = (x.fixed? places).map fun text =>
      .ok (text ++ suffix)) :
    Writes write refused suffix.toList places := by
  have text_of : ∀ {x text}, (write x places).run = some (.ok text) →
      text = x.fixed places ++ suffix := by
    intro x text written
    by_cases refusal : refused x
    · rw [fails x refusal] at written
      cases written
    · rw [gives x refusal, Option.map_eq_some_iff] at written
      obtain ⟨body, found, made⟩ := written
      rw [Binary.fixed?] at found
      split at found
      · cases found
        cases made
        rfl
      · cases found
  constructor
  · intro x e
    constructor
    · intro stopped
      by_cases refusal : refused x
      · rw [fails x refusal] at stopped
        cases stopped
        exact ⟨rfl, refusal⟩
      · rw [gives x refusal, Option.map_eq_some_iff] at stopped
        obtain ⟨_, _, made⟩ := stopped
        cases made
    · rintro ⟨rfl, refusal⟩
      exact fails x refusal
  · intro few x accepted
    refine ⟨x.fixed places ++ suffix, ?_, fixed_rounded x positive ends⟩
    rw [gives x accepted, fixed?_eq few]
    rfl
  · intro many x accepted
    rw [gives x accepted, Binary.fixed?, if_neg (Nat.not_le_of_lt many)]
    rfl
  · intro x y a b written written' ordered
    rw [text_of written, text_of written', ofText_fixed x positive ends,
      ofText_fixed y positive ends, Decimal.value, Decimal.value]
    have count : ∀ z : Double, (z.decimal places).fraction.length = places :=
      fun _ => lowDigits_length _ _
    rw [count, count]
    exact (x.decimal_nearest places).mono (y.decimal_nearest places) (Binary.value_le ordered)

theorem fitsSingle_iff_value {x : Double} :
    x.FitsSingle ↔ x.isFinite = true ∧ |x.value| ≤ Double.singleLimit := by
  -- The scale is kept a variable: its power of two is too large to be written out.
  have natural : ∀ units limit scale : Nat,
      (units : ℚ) / 2 ^ scale ≤ limit ↔ units ≤ limit * 2 ^ scale := by
    intro units limit scale
    rw [div_le_iff₀ (by positivity)]
    exact_mod_cast Iff.rfl
  rw [Double.FitsSingle, x.abs_value, natural, Nat.pow_eq]

theorem fitsSingle_iff_accepted {x : Double} : x.FitsSingle ↔
    ¬ (x.isNaN = true ∨ x = .infinite x.negative ∨ Double.singleLimit < |x.value|) := by
  rw [fitsSingle_iff_value, Binary.isFinite_iff, ← not_lt, ← not_or, or_assoc]

/-- Thresholds and weights are written as rounded decimal numbers. A threshold is refused when it is
not a number, infinite or above the greatest single-precision value, a weight when it is not a
number or infinite. -/
theorem literals_rounded {places : Nat} (positive : 0 < places) :
    Writes thresholdLiteral (fun x => x.isNaN = true ∨ x = .infinite x.negative ∨
      Double.singleLimit < |x.value|)
      ['f'] places ∧
    Writes weightText (fun x => x.isNaN = true ∨ x = .infinite x.negative) [] places := by
  have suffixed : ∀ c, "f".toList.head? = some c → c.isDigit = false := by
    intro c first
    cases first
    rfl
  have bare : ∀ c, "".toList.head? = some c → c.isDigit = false := by
    intro c first
    cases first
  constructor
  · apply writes_fixed suffixed positive
    · intro x refusal
      exact thresholdLiteral_refused fun fits => fitsSingle_iff_accepted.mp fits refusal
    · intro x accepted
      exact thresholdLiteral_accepted (fitsSingle_iff_accepted.mpr accepted)
  · apply writes_fixed bare positive
    · intro x refusal
      exact weightText_refused fun finite => Binary.isFinite_iff.mp finite refusal
    · intro x accepted
      rw [weightText_accepted (Binary.isFinite_iff.mpr accepted)]
      simp only [String.append_empty]

namespace Double

def eighth : Double := ⟨false, 0x3FC0000000000000, by decide⟩

def negativeZero : Double := { Binary.zero with negative := true }

/-- A tie goes to the even digit, a negative zero keeps its sign, and what is
infinite is refused. -/
theorem eighth_rounded :
    0 < 2 ∧ (thresholdLiteral eighth 2).run = some (.ok "0.12f") ∧ Rounded eighth 2 ['f'] "0.12f" ∧
      (weightText negativeZero 2).run = some (.ok "-0.00") ∧
      Rounded negativeZero 2 [] "-0.00" ∧
      (weightText (.infinite true) 2).run =
        some (.error (.formattingOverflow (.infinite true) 2)) := by
  have positive : 0 < 2 := by decide
  obtain ⟨thresholds, weights⟩ := literals_rounded positive
  have fits : eighth.FitsSingle := by decide +kernel
  have finite : negativeZero.isFinite = true := by decide +kernel
  have tied : (thresholdLiteral eighth 2).run = some (.ok "0.12f") := by decide +kernel
  have signed : (weightText negativeZero 2).run = some (.ok "-0.00") := by decide +kernel
  obtain ⟨text, written, rounded⟩ :=
    thresholds.writes (by decide) eighth (fitsSingle_iff_accepted.mp fits)
  obtain ⟨other, written', rounded'⟩ := weights.writes (by decide) _ (Binary.isFinite_iff.mp finite)
  rw [tied] at written
  rw [signed] at written'
  cases written
  cases written'
  exact ⟨positive, tied, rounded, signed, rounded', (weights.refuses _ _).mpr ⟨rfl, .inr rfl⟩⟩

/-- A value well inside the range that still has no text with one place more than the most. -/
def half : Double := ⟨false, 0x3FE0000000000000, by decide⟩

theorem half_unwritten :
    0 < 65536 ∧
    ¬ (half.isNaN = true ∨ half = .infinite half.negative ∨ Double.singleLimit < |half.value|) ∧
      (¬ ∃ text, (thresholdLiteral half 65536).run = some (.ok text)) ∧
      ¬ ∃ text, (weightText half 65536).run = some (.ok text) := by
  have fits : half.FitsSingle := by decide +kernel
  have many : half.fixed? 65536 = none := if_neg (by decide)
  refine ⟨by decide, fitsSingle_iff_accepted.mp fits, ?_, ?_⟩
  · rintro ⟨text, written⟩
    rw [thresholdLiteral_accepted fits, many] at written
    cases written
  · rintro ⟨text, written⟩
    rw [weightText_accepted fits.1, many] at written
    cases written

end Double

end DecisionTreeC
