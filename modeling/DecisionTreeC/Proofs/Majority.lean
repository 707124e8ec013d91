import DecisionTreeC.Proofs.FixedPoint
import DecisionTreeC.Proofs.Offender
import Mathlib.Order.WithBotTop

/-!
The class of a weighted leaf. Values are compared as the numbers they stand for, with the infinities
at the ends of the line and both zeros at one place. The search for the greatest weight keeps the
first of the greatest ones met so far, so it ends at the only position whose weight is at least
every other and more than every earlier one. A leaf made from weights stores that position and
resolves to it.
-/
namespace DecisionTreeC

namespace Binary

variable {f : Format}

/-- What a value stands for, if it is not undefined: a number or one end of the line. -/
def extended (x : Binary f) : WithBotTop ℚ :=
  if x.isFinite then (x.value : WithBotTop ℚ) else if x.negative then ⊥ else ⊤

theorem extended_cases {x : Binary f} (defined : x.isNaN = false) :
    (x.extended = (x.value : WithBotTop ℚ) ∧ -(f.infinity : Int) < x.place ∧ x.place < f.infinity) ∨
      (x.extended = ⊥ ∧ x.place = -f.infinity) ∨ (x.extended = ⊤ ∧ x.place = f.infinity) := by
  have bounded : x.pattern ≤ f.infinity := by simpa [isNaN] using defined
  by_cases finite : x.pattern < f.infinity
  · left
    refine ⟨if_pos (by simpa [isFinite] using finite), ?_⟩
    unfold place
    split <;> omega
  · right
    have outermost : x.pattern = f.infinity := by omega
    have infinite : ¬ x.isFinite = true := by simpa [isFinite] using finite
    cases sign : x.negative with
    | true =>
      left
      simp [extended, infinite, place, sign, outermost]
    | false =>
      right
      simp [extended, infinite, place, sign, outermost]

end Binary

namespace Double

theorem le_iff_extended {x y : Double} (x_defined : x.isNaN = false) (y_defined : y.isNaN = false) :
    x.le y = true ↔ x.extended ≤ y.extended := by
  have compared : x.le y = true ↔ x.place ≤ y.place := by simp [Binary.le, x_defined, y_defined]
  have ends : (0 : Int) < Format.double.infinity := by decide
  rw [compared]
  -- Only two finite values are compared by their numbers; an infinite one is at an end of both
  -- orders.
  rcases Binary.extended_cases x_defined with ⟨hx, _, _⟩ | ⟨hx, px⟩ | ⟨hx, px⟩
  · rcases Binary.extended_cases y_defined with ⟨hy, _, _⟩ | ⟨hy, py⟩ | ⟨hy, py⟩
    · rw [hx, hy, WithBotTop.coe_le_coe, Binary.value_le_iff]
    · rw [hx, hy, py, le_bot_iff]
      simp only [WithBotTop.coe_ne_bot, iff_false]
      omega
    · rw [hx, hy, py]
      simp only [le_top, iff_true]
      omega
  · have least : x.place ≤ y.place := by
      rcases Binary.extended_cases y_defined with ⟨_, _, _⟩ | ⟨_, py⟩ | ⟨_, py⟩ <;> omega
    simp [hx, least]
  · rcases Binary.extended_cases y_defined with ⟨hy, _, _⟩ | ⟨hy, py⟩ | ⟨hy, py⟩
    · rw [hx, hy, px, top_le_iff]
      simp only [WithBotTop.coe_ne_top, iff_false]
      omega
    · rw [hx, hy, px, py, top_le_iff]
      simp only [bot_ne_top, iff_false]
      omega
    · simp [hx, hy, px, py]

end Double

/-- The weight at a position is at least every weight and more than the earlier ones. -/
structure Leads (weights : List Double) (position : Nat) (best : Double) : Prop where
  found : weights[position]? = some best
  greatest : ∀ weight ∈ weights, weight.extended ≤ best.extended
  first : ∀ earlier weight, earlier < position → weights[earlier]? = some weight →
    weight.extended < best.extended

def FirstGreatest (weights : List Double) (position : Nat) : Prop :=
  ∃ best, Leads weights position best

namespace Leads

variable {weights : List Double} {position : Nat} {best weight : Double}

theorem single (weight : Double) : Leads [weight] 0 weight where
  found := rfl
  greatest := by simp
  first := by simp

theorem lt_length (leads : Leads weights position best) : position < weights.length :=
  (List.getElem?_eq_some_iff.mp leads.found).1

theorem keep (leads : Leads weights position best) (less : weight.extended ≤ best.extended) :
    Leads (weights ++ [weight]) position best where
  found := by rw [List.getElem?_append_left leads.lt_length, leads.found]
  greatest := by
    intro other member
    rcases List.mem_append.mp member with before | last
    · exact leads.greatest other before
    · rw [List.mem_singleton.mp last]
      exact less
  first := by
    intro earlier other before found
    rw [List.getElem?_append_left (before.trans leads.lt_length)] at found
    exact leads.first earlier other before found

theorem replace (leads : Leads weights position best) (more : best.extended < weight.extended) :
    Leads (weights ++ [weight]) weights.length weight where
  found := by simp
  greatest := by
    intro other member
    rcases List.mem_append.mp member with before | last
    · exact (leads.greatest other before).trans more.le
    · rw [List.mem_singleton.mp last]
  first := by
    intro earlier other before found
    rw [List.getElem?_append_left before] at found
    exact (leads.greatest other (List.mem_of_getElem? found)).trans_lt more

theorem not_lt {other : Nat} {rival : Double} (leads : Leads weights position best)
    (rivals : Leads weights other rival) : ¬ position < other := by
  intro earlier
  have less := rivals.first position best earlier leads.found
  exact not_le_of_gt less (leads.greatest rival (List.mem_of_getElem? rivals.found))

theorem unique {other : Nat} {rival : Double} (leads : Leads weights position best)
    (rivals : Leads weights other rival) : position = other := by
  have := leads.not_lt rivals
  have := rivals.not_lt leads
  omega

end Leads

/-- The search over the rest of the weights, when `best` is the first greatest of those before. -/
theorem majorityAfter_leads {before rest : List Double} {best : Nat × Double}
    (leads : Leads before best.1 best.2)
    (defined : ∀ weight ∈ before ++ rest, weight.isNaN = false) :
    FirstGreatest (before ++ rest) (majorityAfter best before.length rest) := by
  -- One more weight moves from the rest to the part that has been searched, and its leader is kept
  -- or replaced.
  induction rest generalizing before best with
  | nil =>
    rw [List.append_nil]
    exact ⟨best.2, leads⟩
  | cons weight rest ih =>
    have shifted : before ++ weight :: rest = (before ++ [weight]) ++ rest := by simp
    have next : before.length + 1 = (before ++ [weight]).length := by simp
    have here := defined weight (by simp)
    have held := defined best.2 (List.mem_append_left _ (List.mem_of_getElem? leads.found))
    rw [shifted] at defined ⊢
    rw [majorityAfter, next]
    split
    · rename_i at_most
      exact ih (leads.keep ((Double.le_iff_extended here held).mp at_most)) defined
    · rename_i above
      have more := not_le.mp (mt (Double.le_iff_extended here held).mpr above)
      exact @ih _ (before.length, weight) (leads.replace more) defined

theorem majority_leads {weights : List Double} (some_weight : weights ≠ [])
    (defined : ∀ weight ∈ weights, weight.isNaN = false) :
    ∃ position, majority? weights = some position ∧ FirstGreatest weights position := by
  cases weights with
  | nil => exact absurd rfl some_weight
  | cons first rest =>
    have leads := @majorityAfter_leads [first] rest (0, first) (.single first) defined
    exact ⟨_, rfl, leads⟩

namespace Leaf

theorem resolve_ofWeights {weights : List Double} {labels : LabelSet} (some_weight : weights ≠ [])
    (labelled : weights.length ≤ labels.size) :
    ∃ position, position < weights.length ∧ (ofWeights weights).verdict = .index position ∧
      (ofWeights weights).resolve? labels = some position := by
  obtain ⟨position, greatest, inside⟩ := majority_lt some_weight
  have known : position < labels.size := Nat.lt_of_lt_of_le inside labelled
  refine ⟨position, inside, ?_, ?_⟩
  · simp [ofWeights, greatest]
  · simp [ofWeights, resolve?, greatest, known]

end Leaf

/-- Among weights that are numbers or infinite, there is one first greatest, and the search finds
it. Of any weights, defined or not, a leaf has a class exactly when there are some, and it is the
one the leaf stores, whose position fits 32 bits as long as their number does. -/
theorem majority_first_greatest (weights : List Double) :
    (weights ≠ [] → (∀ weight ∈ weights, weight.isNaN = false) →
      (∃! position, FirstGreatest weights position) ∧
        ∀ position, majority? weights = some position ↔ FirstGreatest weights position) ∧
    ∀ labels : LabelSet, weights.length < 4294967296 → weights.length ≤ labels.size →
      ((Leaf.ofWeights weights).resolve? labels = none ↔ weights = []) ∧
      (weights ≠ [] → ∃ position, position < 4294967296 ∧
        (Leaf.ofWeights weights).verdict = .index position ∧
        (Leaf.ofWeights weights).resolve? labels = some position) := by
  constructor
  · intro some_weight defined
    obtain ⟨position, found, best, leads⟩ := majority_leads some_weight defined
    refine ⟨⟨position, ⟨best, leads⟩, ?_⟩, ?_⟩
    · rintro other ⟨rival, rivals⟩
      exact rivals.unique leads
    · intro other
      rw [found, Option.some.injEq]
      constructor
      · rintro rfl
        exact ⟨best, leads⟩
      · rintro ⟨rival, rivals⟩
        exact leads.unique rivals
  · intro labels narrow labelled
    constructor
    · constructor
      · intro unresolved
        by_contra some_weight
        obtain ⟨position, _, _, resolved⟩ := Leaf.resolve_ofWeights some_weight labelled
        rw [unresolved] at resolved
        cases resolved
      · rintro rfl
        rfl
    · intro some_weight
      obtain ⟨position, inside, stored, resolved⟩ := Leaf.resolve_ofWeights some_weight labelled
      exact ⟨position, inside.trans narrow, stored, resolved⟩

/-- Both zeros above negative infinity: the first zero leads, though it is the negative one. -/
def tiedWeights : List Double := [.infinite true, Double.negativeZero, .zero]

def coinLabels : LabelSet := ⟨["heads", "tails"], by decide, by decide⟩

theorem tied_first_greatest :
    (∀ weight ∈ tiedWeights, weight.isNaN = false) ∧ majority? tiedWeights = some 1 ∧
    FirstGreatest tiedWeights 1 ∧ (∀ position, FirstGreatest tiedWeights position → position = 1) ∧
    (Leaf.ofWeights [.nan false, .infinite true]).resolve? coinLabels = some 1 ∧
    (Leaf.ofWeights [.nan false, .infinite true]).verdict = .index 1 := by
  have defined : ∀ weight ∈ tiedWeights, weight.isNaN = false := by decide +kernel
  have found : majority? tiedWeights = some 1 := by decide +kernel
  obtain ⟨only, found_iff⟩ := (majority_first_greatest tiedWeights).1 (by decide) defined
  have leads := (found_iff 1).mp found
  have undefined :=
    (majority_first_greatest [.nan false, .infinite true]).2 coinLabels (by decide) (by decide)
  obtain ⟨position, _, stored, resolved⟩ := undefined.2 (by decide)
  have second : (Leaf.ofWeights [.nan false, .infinite true]).verdict = .index 1 := by
    decide +kernel
  rw [second] at stored
  cases stored
  exact ⟨defined, found, leads, fun position other => only.unique other leads, resolved, second⟩

end DecisionTreeC
