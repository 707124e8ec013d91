import DecisionTreeC.Proofs.Literal
import Mathlib.Tactic.Linarith
import Mathlib.Tactic.Ring

/-!
Rounding to binary values. A pattern is the rounding of a magnitude when the magnitude lies between
the midpoints to its two neighbours, a midpoint itself belonging to the even pattern. There is one
such pattern only, it is the one that the arithmetic of shifts and quotients finds, and it is the
nearest of all patterns.
-/
namespace DecisionTreeC

/-! A quotient rounded to the nearest integer. The remainder modulo two leaves room at a tie for
even integers only. -/

theorem roundDiv_near (num : Nat) {den : Nat} (positive : 0 < den) :
    2 * (roundDiv num den * den) + roundDiv num den % 2 ≤ 2 * num + den ∧
      2 * num + roundDiv num den % 2 ≤ 2 * (roundDiv num den * den) + den := by
  have split_num := Nat.div_add_mod' num den
  have small := Nat.mod_lt num positive
  have next : (num / den + 1) * den = num / den * den + den := Nat.succ_mul _ _
  unfold roundDiv
  dsimp only
  split
  · omega
  · split
    · omega
    · rcases Nat.mod_two_eq_zero_or_one (num / den) with even | odd
      · rw [even, Nat.add_zero]
        omega
      · rw [odd]
        omega

theorem roundDiv_le {num den k : Nat} (below : num < k * den) : roundDiv num den ≤ k := by
  have positive : 0 < den := Nat.pos_of_ne_zero fun zero => by simp [zero] at below
  have low := (roundDiv_near num positive).1
  by_contra more
  have larger : (k + 1) * den ≤ roundDiv num den * den := Nat.mul_le_mul_right den (by omega)
  rw [Nat.succ_mul] at larger
  omega

theorem le_roundDiv {num den k : Nat} (positive : 0 < den) (above : k * den ≤ num) :
    k ≤ roundDiv num den := by
  have high := (roundDiv_near num positive).2
  by_contra less
  have smaller : (roundDiv num den + 1) * den ≤ k * den := Nat.mul_le_mul_right den (by omega)
  rw [Nat.succ_mul] at smaller
  omega

theorem roundDiv_mul (n : Nat) {den : Nat} (positive : 0 < den) : roundDiv (n * den) den = n := by
  unfold roundDiv
  simp [Nat.mul_div_cancel n positive, positive]

namespace Format

variable {f : Format}

/-- The magnitude `num / den`, counted in units, lies between the midpoints to the neighbours of a
pattern. The last pattern has no neighbour above. -/
structure Within (f : Format) (num den pattern : Nat) : Prop where
  low : ∀ below, below + 1 = pattern →
    (f.units below + f.units pattern) * den + pattern % 2 ≤ 2 * num
  high : pattern < f.infinity →
    2 * num + pattern % 2 ≤ (f.units pattern + f.units (pattern + 1)) * den
  bounded : pattern ≤ f.infinity

theorem Within.not_lt {num den p q : Nat} (positive : 0 < den) (hp : f.Within num den p)
    (hq : f.Within num den q) : ¬ p < q := by
  intro less
  have above := hp.high (Nat.lt_of_lt_of_le less hq.bounded)
  have below := hq.low (q - 1) (by omega)
  have first : f.units p ≤ f.units (q - 1) := f.units_le_iff.mpr (by omega)
  have second : f.units (p + 1) ≤ f.units q := f.units_le_iff.mpr less
  have ordered : (f.units p + f.units (p + 1)) * den ≤ (f.units (q - 1) + f.units q) * den :=
    Nat.mul_le_mul_right den (Nat.add_le_add first second)
  have same : (f.units p + f.units (p + 1)) * den = (f.units (q - 1) + f.units q) * den := by omega
  have sums := Nat.eq_of_mul_eq_mul_right positive same
  -- The two intervals touch, so the patterns are neighbours; but both would have to be even.
  have neighbours : q - 1 ≤ p := f.units_le_iff.mp (by omega)
  omega

theorem Within.unique {num den p q : Nat} (positive : 0 < den) (hp : f.Within num den p)
    (hq : f.Within num den q) : p = q :=
  Nat.le_antisymm (Nat.not_lt.mp (hq.not_lt positive hp)) (Nat.not_lt.mp (hp.not_lt positive hq))

theorem cross_le {a num den num' den' : Nat} (positive : 0 < den) (positive' : 0 < den')
    (same : num * den' = num' * den) :
    (a * den ≤ 2 * num ↔ a * den' ≤ 2 * num') ∧ (2 * num ≤ a * den ↔ 2 * num' ≤ a * den') := by
  have left : a * den * den' = a * den' * den := Nat.mul_right_comm ..
  have right : 2 * num * den' = 2 * num' * den := by rw [Nat.mul_assoc, same, Nat.mul_assoc]
  constructor
  · calc a * den ≤ 2 * num ↔ a * den * den' ≤ 2 * num * den' :=
      (Nat.mul_le_mul_right_iff positive').symm
      _ ↔ a * den' * den ≤ 2 * num' * den := by rw [left, right]
      _ ↔ a * den' ≤ 2 * num' := Nat.mul_le_mul_right_iff positive
  · calc 2 * num ≤ a * den ↔ 2 * num * den' ≤ a * den * den' :=
      (Nat.mul_le_mul_right_iff positive').symm
      _ ↔ 2 * num' * den ≤ a * den' * den := by rw [left, right]
      _ ↔ 2 * num' ≤ a * den' := Nat.mul_le_mul_right_iff positive

theorem Within.congr {num den num' den' p : Nat} (positive : 0 < den) (positive' : 0 < den')
    (same : num * den' = num' * den) (h : f.Within num den p) : f.Within num' den' p := by
  refine ⟨?_, ?_, h.bounded⟩
  · intro below next
    have low := h.low below next
    have cross := @cross_le (f.units below + f.units p) _ _ _ _ positive positive' same
    omega
  · intro finite
    have high := h.high finite
    have cross := @cross_le (f.units p + f.units (p + 1)) _ _ _ _ positive positive' same
    omega

theorem units_row {e k : Nat} (inside : k < 2 ^ f.fraction) :
    f.units (e * 2 ^ f.fraction + k) = if e = 0 then k else (2 ^ f.fraction + k) * 2 ^ (e - 1) := by
  have width : 0 < 2 ^ f.fraction := Nat.two_pow_pos _
  simp only [units, Nat.pow_eq]
  rw [Nat.mul_comm e, Nat.mul_add_div width, Nat.mul_add_mod, Nat.div_eq_of_lt inside,
    Nat.mod_eq_of_lt inside, Nat.add_zero]

/-- A significand of the full width, or any smaller one that is not shifted, stands at its place. A
carry out of the significand goes into the exponent. -/
theorem units_shifted {shift m : Nat} (full : shift = 0 ∨ 2 ^ f.fraction ≤ m)
    (most : m ≤ 2 * 2 ^ f.fraction) :
    f.units (shift * 2 ^ f.fraction + m) = m * 2 ^ shift := by
  generalize hw : 2 ^ f.fraction = w at *
  have width : 0 < w := hw ▸ Nat.two_pow_pos _
  have row {e k : Nat} := @units_row f e k
  rw [hw] at row
  by_cases short : m < w
  · have unshifted : shift = 0 := full.resolve_right (by omega)
    subst unshifted
    rw [row short, if_pos rfl, pow_zero, Nat.mul_one]
  by_cases carry : m < 2 * w
  · have place : shift * w + m = (shift + 1) * w + (m - w) := by
      rw [Nat.succ_mul]
      omega
    rw [place, row (by omega), if_neg (Nat.succ_ne_zero _), Nat.add_sub_cancel]
    congr 1
    omega
  · have place : shift * w + m = (shift + 2) * w + 0 := by
      rw [Nat.add_mul]
      omega
    have twice : m = 2 * w := by omega
    rw [place, row width, if_neg (Nat.succ_ne_zero _), Nat.add_zero, twice,
      show shift + 2 - 1 = shift + 1 from rfl,
      pow_succ]
    ring

def unlimited (f : Format) (num den : Nat) : Nat :=
  let shift := (num / den).log2 - f.fraction
  shift * 2 ^ f.fraction + roundDiv num (den * 2 ^ shift)

theorem significand_full {num den shift : Nat} (positive : 0 < den)
    (chosen : shift = (num / den).log2 - f.fraction) :
    (shift = 0 ∨ 2 ^ f.fraction * (den * 2 ^ shift) ≤ num) ∧
      num < 2 * 2 ^ f.fraction * (den * 2 ^ shift) := by
  have above := @Nat.lt_log2_self (num / den)
  have top : num / den < 2 * 2 ^ f.fraction * 2 ^ shift := by
    refine Nat.lt_of_lt_of_le above ?_
    rw [Nat.mul_assoc, ← Nat.pow_add, ← Nat.pow_succ']
    exact Nat.pow_le_pow_right (by decide) (by omega)
  constructor
  · by_cases none : shift = 0
    · exact .inl none
    · have nonzero : num / den ≠ 0 := by
        intro zero
        rw [zero, Nat.log2_zero] at chosen
        omega
      have below := Nat.log2_self_le nonzero
      have digits : (num / den).log2 = f.fraction + shift := by omega
      rw [digits, Nat.pow_add, Nat.le_div_iff_mul_le positive] at below
      refine .inr (Nat.le_trans (Nat.le_of_eq ?_) below)
      ring
  · rw [Nat.div_lt_iff_lt_mul positive] at top
    refine Nat.lt_of_lt_of_eq top ?_
    ring

/-- The exponent and the significand of the unlimited pattern: the significand is full, up to a
carry, and nearest to the shifted quotient. -/
structure Parts (f : Format) (num den shift m : Nat) : Prop where
  pattern : f.unlimited num den = shift * 2 ^ f.fraction + m
  full : shift = 0 ∨ 2 ^ f.fraction ≤ m
  most : m ≤ 2 * 2 ^ f.fraction
  above : shift = 0 ∨ 2 ^ f.fraction * (den * 2 ^ shift) ≤ num
  low : 2 * (m * (den * 2 ^ shift)) + m % 2 ≤ 2 * num + den * 2 ^ shift
  high : 2 * num + m % 2 ≤ 2 * (m * (den * 2 ^ shift)) + den * 2 ^ shift

theorem unlimited_parts (f : Format) (num : Nat) {den : Nat} (positive : 0 < den) :
    ∃ shift m, f.Parts num den shift m := by
  obtain ⟨above, below⟩ := @significand_full f num den _ positive rfl
  have scaled : 0 < den * 2 ^ ((num / den).log2 - f.fraction) :=
    Nat.mul_pos positive (Nat.two_pow_pos _)
  obtain ⟨low, high⟩ := roundDiv_near num scaled
  exact ⟨_, _, rfl, above.imp_right (le_roundDiv scaled), roundDiv_le below, above, low, high⟩

namespace Parts

variable {num den shift m : Nat}

theorem units_eq (parts : f.Parts num den shift m) :
    f.units (f.unlimited num den) = m * 2 ^ shift := by
  rw [parts.pattern, units_shifted parts.full parts.most]

/-- The fraction field is even in width, so the parity of a pattern is that of its significand. -/
theorem parity (parts : f.Parts num den shift m) (wide : 0 < f.fraction) :
    f.unlimited num den % 2 = m % 2 := by
  obtain ⟨k, hk⟩ : 2 ∣ 2 ^ f.fraction := dvd_pow_self 2 (Nat.ne_of_gt wide)
  rw [parts.pattern, hk, Nat.mul_left_comm, Nat.mul_add_mod]

theorem units_next (parts : f.Parts num den shift m) :
    (m + 1) * 2 ^ shift ≤ f.units (f.unlimited num den + 1) := by
  have width : 0 < 2 ^ f.fraction := Nat.two_pow_pos _
  have most := parts.most
  rw [parts.pattern, Nat.add_assoc]
  by_cases carry : m < 2 * 2 ^ f.fraction
  · rw [units_shifted (parts.full.imp_right Nat.le_succ_of_le) carry]
  · have place : shift * 2 ^ f.fraction + (m + 1) =
        (shift + 1) * 2 ^ f.fraction + (2 ^ f.fraction + 1) := by
      rw [Nat.succ_mul]
      omega
    rw [place, units_shifted (.inr (Nat.le_succ _)) (by omega), pow_succ, ← Nat.mul_assoc,
      Nat.mul_right_comm]
    exact Nat.mul_le_mul_right _ (by omega)

end Parts

theorem unlimited_low (wide : 0 < f.fraction) {num den : Nat} (positive : 0 < den) {below : Nat}
    (next : below + 1 = f.unlimited num den) :
    (f.units below + f.units (f.unlimited num den)) * den + f.unlimited num den % 2 ≤ 2 * num := by
  obtain ⟨shift, m, parts⟩ := f.unlimited_parts num positive
  by_cases border : shift ≠ 0 ∧ m = 2 ^ f.fraction
  · -- The neighbour below has a smaller exponent; the magnitude itself is not below the pattern.
    have smaller : f.units below < f.units (f.unlimited num den) := f.units_lt_of_lt (by omega)
    have above := parts.above.resolve_left border.1
    rw [parts.units_eq, border.2] at smaller ⊢
    have sum : (f.units below + 2 ^ f.fraction * 2 ^ shift + 1) * den ≤
        2 * (2 ^ f.fraction * 2 ^ shift) * den := Nat.mul_le_mul_right den (by omega)
    have twice : 2 * (2 ^ f.fraction * 2 ^ shift) * den =
        2 * (2 ^ f.fraction * (den * 2 ^ shift)) := by ring
    rw [Nat.succ_mul] at sum
    omega
  · have full := parts.full
    have pattern := parts.pattern
    have low := parts.low
    obtain ⟨k, rfl⟩ : ∃ k, m = k + 1 := Nat.exists_eq_succ_of_ne_zero (by
      rintro rfl
      have width : 0 < 2 ^ f.fraction := Nat.two_pow_pos _
      have unshifted : shift = 0 := full.resolve_right (by omega)
      rw [unshifted] at pattern
      omega)
    have place : below = shift * 2 ^ f.fraction + k := by omega
    have at_below : f.units below = k * 2 ^ shift := by
      rw [place, units_shifted (by omega) (by have := parts.most; omega)]
    have sum : (k * 2 ^ shift + (k + 1) * 2 ^ shift) * den + den * 2 ^ shift =
        2 * ((k + 1) * (den * 2 ^ shift)) := by ring
    rw [parts.parity wide, parts.units_eq, at_below]
    omega

theorem unlimited_high (wide : 0 < f.fraction) {num den : Nat} (positive : 0 < den) :
    2 * num + f.unlimited num den % 2 ≤
      (f.units (f.unlimited num den) + f.units (f.unlimited num den + 1)) * den := by
  obtain ⟨shift, m, parts⟩ := f.unlimited_parts num positive
  have high := parts.high
  have next := Nat.mul_le_mul_right den parts.units_next
  rw [parts.parity wide, parts.units_eq, Nat.add_mul]
  have first : m * 2 ^ shift * den = m * (den * 2 ^ shift) := by ring
  have second : (m + 1) * 2 ^ shift * den = m * (den * 2 ^ shift) + den * 2 ^ shift := by ring
  omega

theorem within_nearest (wide : 0 < f.fraction) (num : Nat) {den : Nat} (positive : 0 < den) :
    f.Within num den (f.nearest num den) := by
  have limited : f.nearest num den = min f.infinity (f.unlimited num den) := rfl
  by_cases beyond : f.infinity < f.unlimited num den
  · rw [limited, Nat.min_eq_left (Nat.le_of_lt beyond)]
    refine ⟨?_, fun finite => absurd finite (Nat.lt_irrefl _), Nat.le_refl _⟩
    intro below next
    have low :=
      unlimited_low wide positive (Nat.sub_add_cancel (Nat.le_trans (Nat.succ_pos _) beyond))
    have first : f.units below < f.units (f.unlimited num den - 1) := f.units_lt_of_lt (by omega)
    have second : f.units f.infinity < f.units (f.unlimited num den) := f.units_lt_of_lt beyond
    have sum : (f.units below + f.units f.infinity + 1) * den ≤
        (f.units (f.unlimited num den - 1) + f.units (f.unlimited num den)) * den :=
      Nat.mul_le_mul_right den (by omega)
    rw [Nat.succ_mul] at sum
    omega
  · rw [limited, Nat.min_eq_right (Nat.not_lt.mp beyond)]
    exact ⟨fun below => unlimited_low wide positive, fun _ => unlimited_high wide positive,
      Nat.not_lt.mp beyond⟩

theorem nearest_eq_iff (wide : 0 < f.fraction) {num den p : Nat} (positive : 0 < den) :
    f.nearest num den = p ↔ f.Within num den p := by
  constructor
  · rintro rfl
    exact within_nearest wide num positive
  · intro within
    exact (within_nearest wide num positive).unique positive within

theorem nearest_congr (wide : 0 < f.fraction) {num den num' den' : Nat} (positive : 0 < den)
    (positive' : 0 < den') (same : num * den' = num' * den) :
    f.nearest num den = f.nearest num' den' := by
  rw [nearest_eq_iff wide positive]
  exact (within_nearest wide num' positive').congr positive' positive same.symm

def distance (f : Format) (num den pattern : Nat) : Nat :=
  ((num : Int) - f.units pattern * den).natAbs

/-- The pattern nearest to the magnitude `num / den` of all patterns; of two equally near ones it is
the even one. Infinity counts as the next value behind the greatest finite one. -/
structure Nearest (f : Format) (num den pattern : Nat) : Prop where
  bounded : pattern ≤ f.infinity
  least : ∀ other, other ≤ f.infinity → f.distance num den pattern ≤ f.distance num den other
  even : ∀ other, other ≤ f.infinity → other ≠ pattern →
    f.distance num den other = f.distance num den pattern → pattern % 2 = 0

theorem Nearest.within {num den p : Nat} (positive : 0 < den) (nearest : f.Nearest num den p) :
    f.Within num den p := by
  refine ⟨?_, ?_, nearest.bounded⟩
  · rintro below rfl
    have bounded := nearest.bounded
    have least := nearest.least below (by omega)
    have even := nearest.even below (by omega) (by omega)
    have smaller : f.units below * den < f.units (below + 1) * den :=
      Nat.mul_lt_mul_of_pos_right (f.units_lt_succ below) positive
    unfold distance at least even
    rw [Nat.add_mul]
    omega
  · intro finite
    have least := nearest.least (p + 1) finite
    have even := nearest.even (p + 1) finite (by omega)
    have greater : f.units p * den < f.units (p + 1) * den :=
      Nat.mul_lt_mul_of_pos_right (f.units_lt_succ p) positive
    unfold distance at least even
    rw [Nat.add_mul]
    omega

theorem Within.apart {num den p other : Nat} (positive : 0 < den) (within : f.Within num den p)
    (bounded : other ≤ f.infinity) (ne : other ≠ p) :
    (f.units other * den < f.units p * den ∧
        f.units other * den + f.units p * den + p % 2 ≤ 2 * num) ∨
      (f.units p * den < f.units other * den ∧
        2 * num + p % 2 ≤ f.units p * den + f.units other * den) := by
  rcases Nat.lt_or_gt_of_ne ne with less | greater
  · left
    obtain ⟨below, rfl⟩ : ∃ below, p = below + 1 := Nat.exists_eq_succ_of_ne_zero (by omega)
    have low := within.low below rfl
    have first : f.units other * den ≤ f.units below * den :=
      Nat.mul_le_mul_right den (f.units_le_iff.mpr (by omega))
    rw [Nat.add_mul] at low
    exact ⟨Nat.mul_lt_mul_of_pos_right (f.units_lt_of_lt less) positive, by omega⟩
  · right
    have high := within.high (Nat.lt_of_lt_of_le greater bounded)
    have second : f.units (p + 1) * den ≤ f.units other * den :=
      Nat.mul_le_mul_right den (f.units_le_iff.mpr greater)
    rw [Nat.add_mul] at high
    exact ⟨Nat.mul_lt_mul_of_pos_right (f.units_lt_of_lt greater) positive, by omega⟩

theorem Within.nearest {num den p : Nat} (positive : 0 < den) (within : f.Within num den p) :
    f.Nearest num den p := by
  refine ⟨within.bounded, ?_, ?_⟩
  · intro other bounded
    by_cases same : other = p
    · rw [same]
    · have apart := within.apart positive bounded same
      unfold distance
      omega
  · intro other bounded ne tie
    have apart := within.apart positive bounded ne
    unfold distance at tie
    omega

theorem nearest_iff (wide : 0 < f.fraction) {num den p : Nat} (positive : 0 < den) :
    f.Nearest num den p ↔ p = f.nearest num den := by
  rw [eq_comm, nearest_eq_iff wide positive]
  exact ⟨Nearest.within positive, Within.nearest positive⟩

end Format

theorem Binary.eq_of_parts {f : Format} {x y : Binary f} (sign : x.negative = y.negative)
    (pattern : x.pattern = y.pattern) : x = y := by
  cases x
  cases y
  simp_all

end DecisionTreeC
