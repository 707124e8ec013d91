import DecisionTreeC.Proofs.Outcome
import DecisionTreeC.Source.Body

/-!
Numbers in the source. A threshold has a literal exactly when it is finite and its magnitude is at
most the greatest single-precision value; the literal is an optional minus sign, digits, a point,
digits and the suffix `f`. Weights are written the same way without the suffix.
-/
namespace DecisionTreeC

namespace Format

theorem units_zero (f : Format) : f.units 0 = 0 := by simp [units]

/-- The next pattern stands for a greater magnitude: the fraction grows by one, or
the exponent does. -/
theorem units_lt_succ (f : Format) (pattern : Nat) : f.units pattern < f.units (pattern + 1) := by
  have width : 0 < Nat.pow 2 f.fraction := Nat.two_pow_pos _
  generalize hw : Nat.pow 2 f.fraction = w at width
  have split_pattern := Nat.div_add_mod pattern w
  have fraction_lt := Nat.mod_lt pattern width
  simp only [units, hw]
  by_cases carry : pattern % w + 1 = w
  · have next_eq : pattern + 1 = w * (pattern / w + 1) := by rw [Nat.mul_succ]; omega
    have exponent : (pattern + 1) / w = pattern / w + 1 := by
      rw [next_eq, Nat.mul_div_cancel_left _ width]
    have fraction : (pattern + 1) % w = 0 := by rw [next_eq, Nat.mul_mod_right]
    rw [exponent, fraction, if_neg (Nat.succ_ne_zero _), Nat.add_sub_cancel, Nat.add_zero]
    by_cases first : pattern / w = 0
    · have one : Nat.pow 2 0 = 1 := rfl
      rw [if_pos first, first, one]
      omega
    · obtain ⟨e, he⟩ := Nat.exists_eq_succ_of_ne_zero first
      have doubled : Nat.pow 2 (e + 1) = Nat.pow 2 e * 2 := rfl
      rw [if_neg first, he, Nat.succ_eq_add_one, Nat.add_sub_cancel, doubled]
      have half : 0 < Nat.pow 2 e := Nat.two_pow_pos _
      calc (w + pattern % w) * Nat.pow 2 e < (w * 2) * Nat.pow 2 e :=
          Nat.mul_lt_mul_of_pos_right (by omega) half
        _ = w * (Nat.pow 2 e * 2) := by rw [Nat.mul_assoc, Nat.mul_comm 2]
  · have next_eq : pattern + 1 = (pattern % w + 1) + w * (pattern / w) := by omega
    have exponent : (pattern + 1) / w = pattern / w := by
      rw [next_eq, Nat.add_mul_div_left _ _ width, Nat.div_eq_of_lt (by omega), Nat.zero_add]
    have fraction : (pattern + 1) % w = pattern % w + 1 := by
      rw [next_eq, Nat.add_mul_mod_self_left, Nat.mod_eq_of_lt (by omega)]
    rw [exponent, fraction]
    by_cases first : pattern / w = 0
    · rw [if_pos first, if_pos first]
      omega
    · rw [if_neg first, if_neg first]
      exact Nat.mul_lt_mul_of_pos_right (by omega) (Nat.two_pow_pos _)

theorem units_lt_of_lt (f : Format) {p q : Nat} (below : p < q) : f.units p < f.units q := by
  induction below with
  | refl => exact f.units_lt_succ p
  | step _ ih => exact Nat.lt_trans ih (f.units_lt_succ _)

theorem units_le_iff (f : Format) {p q : Nat} : f.units p ≤ f.units q ↔ p ≤ q := by
  constructor
  · intro at_most
    by_cases above : q < p
    · have := f.units_lt_of_lt above
      omega
    · omega
  · intro at_most
    rcases Nat.lt_or_eq_of_le at_most with below | rfl
    · exact Nat.le_of_lt (f.units_lt_of_lt below)
    · exact Nat.le_refl _

end Format

namespace Double

/-- The greatest finite single-precision value: 24 binary ones, the lowest of weight `2 ^ 104`. -/
def singleLimit : Nat := (Nat.pow 2 24 - 1) * Nat.pow 2 104

def FitsSingle (x : Double) : Prop :=
  x.isFinite = true ∧ x.units ≤ singleLimit * Nat.pow 2 Format.double.scale

instance (x : Double) : Decidable x.FitsSingle := inferInstanceAs (Decidable (_ ∧ _))

theorem singleMax_units : Double.singleMax.units = singleLimit * Nat.pow 2 Format.double.scale := by
  decide +kernel

theorem fitsSingle_iff (x : Double) :
    (x.isFinite && decide (x.pattern ≤ Double.singleMax.pattern)) = true ↔ x.FitsSingle := by
  rw [Bool.and_eq_true, decide_eq_true_iff, FitsSingle, ← singleMax_units]
  exact and_congr_right fun _ => (Format.units_le_iff _).symm

end Double

def literalText (value : Double) (places : Nat) : String := value.fixed places ++ "f"

theorem fixed?_eq {value : Double} {places : Nat} (few : places ≤ Binary.maxPlaces) :
    value.fixed? places = some (value.fixed places) := if_pos few

theorem thresholdLiteral_accepted {value : Double} {places : Nat} (fits : value.FitsSingle) :
    (thresholdLiteral value places).run = (value.fixed? places).map fun text =>
      .ok (text ++ "f") := by
  unfold thresholdLiteral
  rw [if_pos ((Double.fitsSingle_iff value).mpr fits)]
  cases value.fixed? places <;> rfl

theorem thresholdLiteral_refused {value : Double} {places : Nat} (large : ¬ value.FitsSingle) :
    (thresholdLiteral value places).run = some (.error (.formattingOverflow value places)) := by
  unfold thresholdLiteral
  rw [if_neg (mt (Double.fitsSingle_iff value).mp large)]
  rfl

theorem weightText_accepted {value : Double} {places : Nat} (finite : value.isFinite = true) :
    (weightText value places).run = (value.fixed? places).map .ok := by
  unfold weightText
  rw [if_pos finite]
  cases value.fixed? places <;> rfl

theorem weightText_refused {value : Double} {places : Nat} (infinite : ¬ value.isFinite = true) :
    (weightText value places).run = some (.error (.formattingOverflow value places)) := by
  unfold weightText
  rw [if_neg infinite]
  rfl

theorem thresholdLiteral_run {value : Double} {places : Nat} (few : places ≤ Binary.maxPlaces) :
    (thresholdLiteral value places).run =
      some (if value.FitsSingle then .ok (literalText value places)
        else .error (.formattingOverflow value places)) := by
  by_cases fits : value.FitsSingle
  · rw [if_pos fits, thresholdLiteral_accepted fits, fixed?_eq few]
    rfl
  · rw [if_neg fits, thresholdLiteral_refused fits]

theorem weightText_run {value : Double} {places : Nat} (few : places ≤ Binary.maxPlaces)
    (finite : value.isFinite = true) :
    (weightText value places).run = some (.ok (value.fixed places)) := by
  rw [weightText_accepted finite, fixed?_eq few]
  rfl

theorem digits_isDigit {n : Nat} : ∀ c ∈ digits n, c.isDigit = true :=
  fun _ member => Nat.isDigit_of_mem_toDigits (by decide) (by decide) member

theorem lowDigits_digits {count n : Nat} : ∀ c ∈ lowDigits count n, c.isDigit = true := by
  induction count generalizing n with
  | zero => simp [lowDigits, lowDigitsBefore]
  | succ count ih =>
    intro c member
    rw [lowDigits_succ, List.mem_append, List.mem_singleton] at member
    rcases member with earlier | rfl
    · exact ih c earlier
    · rw [Nat.isDigit_digitChar, decide_eq_true_iff]
      exact Nat.mod_lt n (by decide)

theorem lowDigits_length (count n : Nat) : (lowDigits count n).length = count := by
  induction count generalizing n with
  | zero => rfl
  | succ count ih => rw [lowDigits_succ, List.length_append, ih, List.length_singleton]

theorem fixed_parts {f : Format} (x : Binary f) {places : Nat} (positive : 0 < places) :
    (x.fixed places).toList =
      (if x.negative then ['-'] else []) ++ digits (x.places places / Nat.pow 10 places) ++
        '.' :: lowDigits places (x.places places % Nat.pow 10 places) := by
  simp only [Binary.fixed, pointed, if_neg (Nat.ne_of_gt positive), String.toList_ofList]
  cases x.negative <;> simp

theorem fixed_toList (x : Double) {places : Nat} (positive : 0 < places) :
    ∃ whole fraction, (x.fixed places).toList =
        (if x.negative then ['-'] else []) ++ whole ++ '.' :: fraction ∧
      whole ≠ [] ∧ (∀ c ∈ whole, c.isDigit = true) ∧ fraction ≠ [] ∧
      ∀ c ∈ fraction, c.isDigit = true := by
  refine ⟨_, _, fixed_parts x positive, Nat.toDigits_ne_nil, digits_isDigit, ?_, lowDigits_digits⟩
  intro empty
  have length := lowDigits_length places (x.places places % Nat.pow 10 places)
  rw [empty] at length
  exact Nat.ne_of_lt positive length

end DecisionTreeC
