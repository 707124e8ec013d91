import DecisionTreeC.Number.Shortest
import DecisionTreeC.Proofs.Rounding

/-!
Shortest digits. The decimal chosen for a value lies in the reach of the value, so it rounds to the
value again; dropping its trailing zeros and moving its point does not change what it is worth.
-/
namespace DecisionTreeC

namespace Reach

variable {reach : Reach} {tie : Tie} {n : Nat}

theorem round_holds {step hit : Nat} (found : reach.round tie n step = some hit) :
    reach.holds hit = true := by
  unfold round at found
  dsimp only at found
  split at found
  · cases found
  · cases found
    assumption
  · cases found
    assumption
  · rename_i lower_holds upper_holds
    have either : n / step * step = hit ∨ (n / step + 1) * step = hit := by
      split at found
      · exact .inl (Option.some.inj found)
      · split at found
        · exact .inr (Option.some.inj found)
        · cases tie with
          | up => exact .inr (Option.some.inj found)
          | even =>
            dsimp only at found
            split at found
            · exact .inl (Option.some.inj found)
            · exact .inr (Option.some.inj found)
    rcases either with rfl | rfl
    · exact lower_holds
    · exact upper_holds

theorem shortest_holds (self : reach.holds n = true) (power : Nat) :
    reach.holds (reach.shortest tie n power) = true := by
  induction power with
  | zero => exact self
  | succ power ih =>
    rw [shortest]
    split
    · exact round_holds ‹_›
    · exact ih

end Reach

namespace Binary

variable {f : Format}

theorem scaled_lt {p q : Nat} (less : p < q) : scaled f p < scaled f q :=
  Nat.mul_lt_mul_of_pos_right (f.units_lt_of_lt less) (Nat.pow_pos (by decide))

theorem reach_holds_iff {p n : Nat} :
    (reach f p).holds n = true ↔
      scaled f (p - 1) + scaled f p + p % 2 ≤ 2 * n ∧
      2 * n + p % 2 ≤ scaled f p + scaled f (p + 1) := by
  rcases Nat.mod_two_eq_zero_or_one p with even | odd
  · simp [Reach.holds, reach, even]
  · have open_ends : (reach f p).closed = false := by simp [reach, odd]
    simp only [Reach.holds, open_ends, Bool.false_eq_true, if_false, Bool.and_eq_true,
      decide_eq_true_eq]
    simp only [reach, odd]
    omega

theorem scaled_holds {p : Nat} (positive : 0 < p) : (reach f p).holds (scaled f p) = true := by
  have below : scaled f (p - 1) < scaled f p := scaled_lt (by omega)
  have above : scaled f p < scaled f (p + 1) := scaled_lt (by omega)
  rw [reach_holds_iff]
  omega

theorem within_of_holds {p n : Nat} (bounded : p ≤ f.infinity) (held : (reach f p).holds n = true) :
    f.Within n (5 ^ f.scale) p := by
  obtain ⟨low, high⟩ := reach_holds_iff.mp held
  simp only [scaled, Nat.pow_eq, ← Nat.add_mul] at low high
  refine ⟨?_, fun _ => high, bounded⟩
  rintro below rfl
  exact low

theorem shortest_within {x : Binary f} (tie : Tie) (nonzero : x.pattern ≠ 0)
    (finite : x.isFinite = true) :
    ∃ n, x.shortest tie = .ofScaled n f.scale ∧ f.Within n (5 ^ f.scale) x.pattern := by
  have bounded : x.pattern ≤ f.infinity := Nat.le_of_lt (of_decide_eq_true finite)
  refine ⟨_, if_neg nonzero, within_of_holds bounded ?_⟩
  exact Reach.shortest_holds (scaled_holds (Nat.pos_of_ne_zero nonzero)) _

end Binary

theorem head_digits {n : Nat} (positive : 0 < n) : (digits n).head? ≠ some '0' := by
  induction n using Nat.strong_induction_on with
  | _ n ih =>
    rw [digits, Nat.toDigits_eq_if (by decide)]
    split
    · rename_i small
      intro zero
      have value := Nat.toNat_digitChar_sub_48_of_lt_ten small
      rw [Option.some.inj zero] at value
      simp at value
      omega
    · rw [List.head?_append, Option.or_of_isSome (List.isSome_head?.mpr Nat.toDigits_ne_nil)]
      exact ih (n / 10) (by omega) (by omega)

namespace Scientific

structure Denotes (s : Scientific) (n scale : Nat) : Prop where
  digit : ∀ c ∈ s.digits, c.isDigit = true
  leading : s.digits.head? ≠ some '0'
  nonempty : s.digits ≠ []
  worth : ∃ zeros : Nat, Nat.ofDigitChars 10 s.digits 0 * 10 ^ zeros = n ∧
    s.exponent + 1 + scale = s.digits.length + zeros

theorem trailing_zeros (all : List Char) :
    ∃ count, all = (all.reverse.dropWhile (· == '0')).reverse ++ List.replicate count '0' := by
  refine ⟨(all.reverse.takeWhile (· == '0')).length, ?_⟩
  have zeros : (all.reverse.takeWhile (· == '0')).reverse =
      List.replicate (all.reverse.takeWhile (· == '0')).length '0' := by
    rw [List.eq_replicate_iff]
    refine ⟨List.length_reverse, ?_⟩
    intro c member
    have zero := List.all_eq_true.mp List.all_takeWhile c (List.mem_reverse.mp member)
    exact beq_iff_eq.mp zero
  rw [← zeros, ← List.reverse_append, List.takeWhile_append_dropWhile, List.reverse_reverse]

theorem ofScaled_denotes {n : Nat} (positive : 0 < n) (scale : Nat) :
    (ofScaled n scale).Denotes n scale := by
  obtain ⟨count, split_zeros⟩ := trailing_zeros (DecisionTreeC.digits n)
  change DecisionTreeC.digits n = (ofScaled n scale).digits ++ _ at split_zeros
  have value : Nat.ofDigitChars 10 (ofScaled n scale).digits 0 * 10 ^ count = n := by
    have whole := @Nat.ofDigitChars_ten_toDigits n
    change Nat.ofDigitChars 10 (DecisionTreeC.digits n) 0 = n at whole
    rw [split_zeros, Nat.ofDigitChars_append, Nat.ofDigitChars_replicate_zero, Nat.mul_comm]
      at whole
    exact whole
  have nonempty : (ofScaled n scale).digits ≠ [] := by
    intro empty
    rw [empty, Nat.ofDigitChars_nil, Nat.zero_mul] at value
    omega
  refine ⟨?_, ?_, nonempty, count, value, ?_⟩
  · intro c member
    have inside : c ∈ DecisionTreeC.digits n := by
      rw [split_zeros]
      exact List.mem_append_left _ member
    exact digits_isDigit c inside
  · have leading := head_digits positive
    rwa [split_zeros, List.head?_append, Option.or_of_isSome (List.isSome_head?.mpr nonempty)]
      at leading
  · have length := congrArg List.length split_zeros
    rw [List.length_append, List.length_replicate] at length
    have exponent : (ofScaled n scale).exponent =
        ((DecisionTreeC.digits n).length : Int) - 1 - scale := rfl
    omega

end Scientific

/-- The number `digits * 10 ^ exponent` is `n * 10 ^ -scale`. -/
def Worth (digits : Nat) (exponent : Int) (n scale : Nat) : Prop :=
  ∃ up down : Nat, exponent + down = up ∧ digits * 10 ^ (up + scale) = n * 10 ^ down

namespace Worth

variable {digits e n scale : Nat}

theorem natural (worth : Worth digits (.ofNat e) n scale) : digits * 10 ^ (e + scale) = n := by
  obtain ⟨up, down, powers, same⟩ := worth
  have split_up : up = e + down := by
    rw [Int.ofNat_eq_natCast] at powers
    omega
  rw [split_up, Nat.add_right_comm, pow_add, ← Nat.mul_assoc] at same
  exact Nat.eq_of_mul_eq_mul_right (Nat.pow_pos (by decide)) same

theorem fraction (worth : Worth digits (.negSucc e) n scale) :
    digits * 10 ^ scale = n * 10 ^ (e + 1) := by
  obtain ⟨up, down, powers, same⟩ := worth
  have split_down : down = e + 1 + up := by
    rw [Int.negSucc_eq] at powers
    omega
  rw [split_down, Nat.add_comm up, pow_add, pow_add, ← Nat.mul_assoc, ← Nat.mul_assoc] at same
  exact Nat.eq_of_mul_eq_mul_right (Nat.pow_pos (by decide)) same

end Worth

namespace Scientific.Denotes

variable {s : Scientific} {n scale : Nat}

theorem worth_digits (denotes : s.Denotes n scale) :
    Worth (Nat.ofDigitChars 10 s.digits 0) (s.exponent + 1 - s.digits.length) n scale := by
  obtain ⟨zeros, value, exponent⟩ := denotes.worth
  refine ⟨zeros, scale, by omega, ?_⟩
  rw [pow_add, ← Nat.mul_assoc, value]

theorem worth_whole (denotes : s.Denotes n scale) {e padding : Nat} (power : s.exponent = e)
    (reaches : s.digits.length + padding = e + 1) :
    Worth (Nat.ofDigitChars 10 s.digits 0 * 10 ^ padding * 10) (-1) n scale := by
  obtain ⟨zeros, value, exponent⟩ := denotes.worth
  have split_zeros : zeros = padding + scale := by omega
  refine ⟨0, 1, rfl, ?_⟩
  rw [← value, split_zeros]
  ring

end Scientific.Denotes

namespace Format

variable {f : Format}

theorem within_zero (wide : 0 < f.fraction) {num den : Nat} (tiny : 2 * num ≤ den) :
    f.Within num den 0 := by
  have inside : 1 < 2 ^ f.fraction := Nat.one_lt_two_pow (Nat.ne_of_gt wide)
  have one := @units_row f 0 1 inside
  rw [Nat.zero_mul, Nat.zero_add, if_pos rfl] at one
  refine ⟨?_, ?_, Nat.zero_le _⟩
  · intro below next
    cases next
  · intro _
    rw [Nat.zero_add, f.units_zero, one]
    omega

theorem Within.pos {num den p : Nat} (within : f.Within num den p) (positive : 0 < den)
    (nonzero : p ≠ 0) : 0 < num := by
  obtain ⟨below, rfl⟩ := Nat.exists_eq_succ_of_ne_zero nonzero
  have low := within.low below rfl
  have above : 0 < f.units (below + 1) := Nat.zero_lt_of_lt (f.units_lt_succ below)
  have amount : 0 < (f.units below + f.units (below + 1)) * den := Nat.mul_pos (by omega) positive
  rw [Nat.succ_eq_add_one] at low
  omega

theorem tiny_fraction {digits scale e : Nat} (small : digits.log2 + scale + 2 ≤ 3 * e) :
    2 * (digits * 2 ^ scale) ≤ 10 ^ (e + 1) := by
  have below : digits ≤ 2 ^ (digits.log2 + 1) := Nat.le_of_lt Nat.lt_log2_self
  calc 2 * (digits * 2 ^ scale)
      ≤ 2 * (2 ^ (digits.log2 + 1) * 2 ^ scale) :=
        Nat.mul_le_mul_left 2 (Nat.mul_le_mul_right _ below)
    _ = 2 ^ (digits.log2 + scale + 2) := by ring
    _ ≤ 2 ^ (3 * e) := Nat.pow_le_pow_right (by decide) small
    _ = (2 ^ 3) ^ e := Nat.pow_mul ..
    _ ≤ 10 ^ e := Nat.pow_le_pow_left (by decide) e
    _ ≤ 10 ^ (e + 1) := Nat.pow_le_pow_right (by decide) (Nat.le_succ e)

/-- Powers of ten that are not looked at lead beyond every finite value. -/
def Guarded (f : Format) : Prop := f.units f.infinity * 5 ^ f.scale < 10 ^ (2 * f.scale + 1)

theorem Guarded.not_within (guarded : f.Guarded) {digits e p : Nat} (nonzero : digits ≠ 0)
    (large : f.scale < e) (finite : p < f.infinity) :
    ¬ f.Within (digits * 10 ^ (e + f.scale)) (5 ^ f.scale) p := by
  intro within
  have high := within.high finite
  have first : f.units p ≤ f.units f.infinity := f.units_le_iff.mpr (Nat.le_of_lt finite)
  have second : f.units (p + 1) ≤ f.units f.infinity := f.units_le_iff.mpr finite
  have most := Nat.mul_le_mul_right (5 ^ f.scale) (Nat.add_le_add first second)
  rw [Nat.add_mul (f.units f.infinity)] at most
  have power : 10 ^ (2 * f.scale + 1) ≤ digits * 10 ^ (e + f.scale) :=
    calc 10 ^ (2 * f.scale + 1) ≤ 10 ^ (e + f.scale) := Nat.pow_le_pow_right (by decide) (by omega)
      _ ≤ digits * 10 ^ (e + f.scale) := Nat.le_mul_of_pos_left _ (Nat.pos_of_ne_zero nonzero)
  have limit : f.units f.infinity * 5 ^ f.scale < 10 ^ (2 * f.scale + 1) := guarded
  omega

theorem double_wide : 0 < double.fraction := by decide

theorem double_guarded : double.Guarded := by
  unfold Guarded
  decide +kernel

end Format

theorem Binary.ofDecimal_eq {f : Format} (wide : 0 < f.fraction) (guarded : f.Guarded)
    {x : Binary f} {digits n : Nat} {exponent : Int} (finite : x.isFinite = true)
    (worth : Worth digits exponent n f.scale) (within : f.Within n (5 ^ f.scale) x.pattern) :
    ofDecimal x.negative digits exponent = x := by
  have five : 0 < 5 ^ f.scale := Nat.pow_pos (by decide)
  have halves : 10 ^ f.scale = 2 ^ f.scale * 5 ^ f.scale := by rw [← Nat.mul_pow]
  have read : ∀ num den, 0 < den → f.Within num den x.pattern → ofUnits x.negative num den = x := by
    intro num den positive near
    exact eq_of_parts rfl ((Format.nearest_eq_iff wide positive).mpr near)
  cases exponent with
  | ofNat e =>
    have amount := worth.natural
    rw [ofDecimal]
    split
    · rename_i zero
      exact read 0 1 (by decide) (within.congr five (by decide) (by simp [← amount, zero]))
    · rename_i nonzero
      split
      · rename_i large
        rw [← amount] at within
        exact absurd within (guarded.not_within nonzero large (of_decide_eq_true finite))
      · refine read _ 1 (by decide) (within.congr five (by decide) ?_)
        simp only [← amount, pow_add, halves, Nat.pow_eq]
        ring
  | negSucc e =>
    have ten : 0 < 10 ^ (e + 1) := Nat.pow_pos (by decide)
    have quotient : n * 10 ^ (e + 1) = digits * 2 ^ f.scale * 5 ^ f.scale := by
      rw [← worth.fraction, halves, Nat.mul_assoc]
    have near := within.congr five ten quotient
    rw [ofDecimal]
    split
    · rename_i small
      have zero : x.pattern = 0 :=
        near.unique ten (Format.within_zero wide (Format.tiny_fraction small))
      refine read 0 1 (by decide) ?_
      rw [zero]
      exact Format.within_zero wide (by decide)
    · exact read _ _ ten near

end DecisionTreeC
