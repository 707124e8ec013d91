import DecisionTreeC.Proofs.FixedPoint
import DecisionTreeC.Proofs.Scope

/-!
The generated code against the prediction. A threshold that is a whole number of last places is
written exactly, and a compiler that reads a literal as the nearest single-precision value gets the
value that the prediction compares with. So every test of the code goes where the route of the
sample goes, and the label assigned at the end is the predicted one.
-/
namespace DecisionTreeC

namespace Binary

variable {f : Format}

def HasPlaces (x : Binary f) (count : Nat) : Prop := ∃ n, x.units * 10 ^ count = n * 2 ^ f.scale

theorem places_of_exact {x : Binary f} {count n : Nat}
    (exact : x.units * 10 ^ count = n * 2 ^ f.scale) : x.places count = n := by
  simp only [places, Nat.pow_eq, exact]
  exact roundDiv_mul n (Nat.two_pow_pos _)

end Binary

namespace Code

def spelled (negative : Bool) (whole fraction : List Char) : String :=
  String.ofList ((if negative then ['-'] else []) ++ whole ++ '.' :: fraction ++ ['f'])

/-- How a compiler reads literals: the sign is kept, and the magnitude is the single-precision one
nearest to the decimal number, ties to even. -/
structure FloatReading (read : String → Single) : Prop where
  sign : ∀ negative whole fraction, (∀ c ∈ whole ++ fraction, c.isDigit = true) → whole ≠ [] →
    (read (spelled negative whole fraction)).negative = negative
  nearest : ∀ negative whole fraction, (∀ c ∈ whole ++ fraction, c.isDigit = true) → whole ≠ [] →
    Format.single.Nearest (Nat.ofDigitChars 10 (whole ++ fraction) 0 * 2 ^ Format.single.scale)
      (10 ^ fraction.length) (read (spelled negative whole fraction)).pattern

def readFloat (literal : String) : Single :=
  let decimal := Decimal.ofText literal
  .ofUnits decimal.negative
    (Nat.ofDigitChars 10 (decimal.whole ++ decimal.fraction) 0 * 2 ^ Format.single.scale)
    (10 ^ decimal.fraction.length)

theorem readFloat_spelled (negative : Bool) {whole fraction : List Char}
    (all_digits : ∀ c ∈ whole ++ fraction, c.isDigit = true) (first : whole ≠ []) :
    readFloat (spelled negative whole fraction) =
      .ofUnits negative (Nat.ofDigitChars 10 (whole ++ fraction) 0 * 2 ^ Format.single.scale)
        (10 ^ fraction.length) := by
  have ends : ∀ c, ['f'].head? = some c → c.isDigit = false := by
    intro c suffix
    cases suffix
    rfl
  have parts : Decimal.ofText (spelled negative whole fraction) = ⟨negative, whole, fraction⟩ :=
    @Decimal.ofText_text ⟨negative, whole, fraction⟩ all_digits first ['f'] ends
  rw [readFloat, parts]

theorem readFloat_reading : FloatReading readFloat where
  sign negative whole fraction all_digits first := by
    rw [readFloat_spelled negative all_digits first]
    rfl
  nearest negative whole fraction all_digits first := by
    rw [readFloat_spelled negative all_digits first]
    exact (Format.nearest_iff (by decide) (Nat.pow_pos (by decide))).mpr rfl

end Code

open Code

theorem literalText_spelled (x : Double) {places : Nat} (positive : 0 < places) :
    literalText x places = spelled x.negative (digits (x.places places / 10 ^ places))
      (lowDigits places (x.places places % 10 ^ places)) := by
  apply String.toList_inj.mp
  rw [literalText, String.toList_append, fixed_parts x positive, spelled, String.toList_ofList,
    String.toList_ofList, Nat.pow_eq]

theorem read_literalText {read : String → Single} (reading : FloatReading read) {x : Double}
    {places : Nat} (positive : 0 < places) (finite : x.isFinite = true)
    (exact : x.HasPlaces places) : read (literalText x places) = x.toSingle := by
  obtain ⟨n, exact⟩ := exact
  have spelt := literalText_spelled x positive
  rw [Binary.places_of_exact exact] at spelt
  have all_digits : ∀ c ∈ digits (n / 10 ^ places) ++ lowDigits places (n % 10 ^ places),
      c.isDigit = true := by
    intro c member
    rcases List.mem_append.mp member with whole | fraction
    · exact digits_isDigit c whole
    · exact lowDigits_digits c fraction
  have sign := reading.sign x.negative _ _ all_digits Nat.toDigits_ne_nil
  have nearest := reading.nearest x.negative _ _ all_digits Nat.toDigits_ne_nil
  rw [← spelt] at sign nearest
  rw [digits_value, lowDigits_length, Format.nearest_iff (by decide) (Nat.pow_pos (by decide))]
    at nearest
  have number : x.isNaN = false := by
    simp only [Binary.isNaN, Binary.isFinite, decide_eq_true_eq, decide_eq_false_iff_not]
      at finite ⊢
    omega
  have single : x.toSingle =
      .ofUnits x.negative (x.units * 2 ^ Format.single.scale) (2 ^ Format.double.scale) := by
    unfold Double.toSingle Binary.convert
    simp only [number, Bool.false_eq_true, if_false, Nat.pow_eq]
  rw [single]
  refine Binary.eq_of_parts sign (nearest.trans ?_)
  refine Format.nearest_congr (by decide) (Nat.pow_pos (by decide)) (Nat.two_pow_pos _) ?_
  calc n * 2 ^ Format.single.scale * 2 ^ Format.double.scale
      = n * 2 ^ Format.double.scale * 2 ^ Format.single.scale := Nat.mul_right_comm ..
    _ = x.units * 2 ^ Format.single.scale * 10 ^ places := by rw [← exact, Nat.mul_right_comm]

namespace FeatureSet

def index? (features : FeatureSet) (name : String) : Option Nat :=
  (features.entries.find? (·.2 == name)).map Prod.fst

theorem index_of_name {features : FeatureSet} {index : Nat} {name : String}
    (named : features.name? index = some name) : features.index? name = some index := by
  obtain ⟨before, after, entries, _⟩ := List.lookup_eq_some_iff.mp named
  have member : (index, name) ∈ features.entries := by simp [entries]
  cases found : features.entries.find? (·.2 == name) with
  | none =>
    have absent := List.find?_eq_none.mp found _ member
    simp at absent
  | some entry =>
    have same : entry.2 = name := by simpa using List.find?_some found
    rw [index?, found, entry_unique (List.mem_of_find?_eq_some found) member same]
    rfl

end FeatureSet

namespace Plan

variable {plan : Plan}

/-- The decimals suffice: every threshold of a split is a whole number of last places. -/
def Exact (plan : Plan) : Prop :=
  ∀ (node : NodeId) (threshold : Double), plan.table.isLeaf[node]? = some false →
    plan.table.threshold[node]? = some threshold → threshold.HasPlaces plan.config.decimalPlaces

def argument (plan : Plan) (sample : Array Single) (name : String) : Single :=
  ((plan.features.index? name).bind (sample[·]?)).getD .zero

def test (plan : Plan) (sample : Array Single) (read : String → Single)
    (name literal : String) : Bool :=
  (plan.argument sample name).le (read literal)

theorem test_eq {sample : Array Single} {read : String → Single} (reading : FloatReading read)
    {feature : Nat} {name : String} (named : plan.features.name? feature = some name)
    {value : Single} (found : sample[feature]? = some value) {threshold : Double}
    (positive : 0 < plan.config.decimalPlaces) (fits : threshold.FitsSingle)
    (exact : threshold.HasPlaces plan.config.decimalPlaces) :
    plan.test sample read name (literalText threshold plan.config.decimalPlaces) =
      value.le threshold.toSingle := by
  have argument : plan.argument sample name = value := by
    simp [Plan.argument, FeatureSet.index_of_name named, found]
  rw [test, argument, read_literalText reading positive fits.1 exact]

theorem route_walk (sound : plan.config.Sound) {sample : Array Single} {read : String → Single}
    (reading : FloatReading read) {node : NodeId} {tree : DecisionTree}
    (unfolds : plan.table.Unfolds node tree) {draft : Draft}
    (drafted : tree.draft? plan.features plan.labels = some draft) {depth : Nat} {printed : Body}
    (done : draft.print plan.config depth = .ok printed) (whole : printed.truncations.toList = [])
    (long : ∀ feature ∈ tree.tests, feature < sample.size) (exact : plan.Exact) :
    ∃ steps last payload, plan.walk (plan.test sample read) steps node = some last ∧
      plan.table.LeafRow last payload ∧
      ∀ fuel, tree.height ≤ fuel → plan.table.routeFrom sample fuel node = some last := by
  induction unfolds generalizing draft depth printed with
  | @leaf node payload row =>
    refine ⟨0, node, payload, rfl, row, ?_⟩
    intro fuel enough
    obtain ⟨fuel, rfl⟩ := Nat.exists_eq_succ_of_ne_zero (Nat.ne_of_gt enough)
    simp [NodeTable.routeFrom, row.children]
  | @split node l r feature threshold left right row first second ihl ihr =>
    simp only [DecisionTree.draft?, Option.bind_eq_bind, Option.bind_eq_some_iff] at drafted
    obtain ⟨name, named, left_draft, left_drafted, right_draft, right_drafted, made⟩ := drafted
    cases made
    rcases Draft.print_split done with ⟨_, rfl⟩ | ⟨_, fits, one, two, left_done, right_done, rfl⟩
    · cases whole
    rw [Draft.branch_truncations, Array.toList_append, List.append_eq_nil_iff] at whole
    simp only [DecisionTree.tests, List.forall_mem_cons, List.forall_mem_append] at long
    obtain ⟨inside, left_long, right_long⟩ := long
    have found : sample[feature]? = some sample[feature] := Array.getElem?_eq_getElem inside
    have few_places := exact node threshold row.isLeaf row.threshold
    have stepped := @next_split plan (plan.test sample read) _ _ _ _ _ _ row named sound.few fits
    rw [test_eq reading named found sound.positive fits few_places] at stepped
    have turned : plan.table.turn sample node l r =
        some (if sample[feature].le threshold.toSingle then l else r) := by
      simp [NodeTable.turn, row.feature, row.threshold, found]
    -- The test of the code and the turn of the route choose one child; the rest is said of it.
    have chosen : ∃ steps last payload, plan.walk (plan.test sample read) steps
          (if sample[feature].le threshold.toSingle then l else r) = some last ∧
        plan.table.LeafRow last payload ∧
        ∀ fuel, max left.height right.height ≤ fuel → plan.table.routeFrom sample fuel
          (if sample[feature].le threshold.toSingle then l else r) = some last := by
      split
      · obtain ⟨steps, last, payload, walked, leaf, routed⟩ :=
          ihl left_drafted left_done whole.1 left_long
        exact ⟨steps, last, payload, walked, leaf, fun fuel enough => routed fuel (by omega)⟩
      · obtain ⟨steps, last, payload, walked, leaf, routed⟩ :=
          ihr right_drafted right_done whole.2 right_long
        exact ⟨steps, last, payload, walked, leaf, fun fuel enough => routed fuel (by omega)⟩
    obtain ⟨steps, last, payload, walked, leaf, routed⟩ := chosen
    refine ⟨steps + 1, last, payload, ?_, leaf, ?_⟩
    · rw [walk, stepped]
      exact walked
    · intro fuel enough
      rw [DecisionTree.height] at enough
      obtain ⟨fuel, rfl⟩ := Nat.exists_eq_succ_of_ne_zero (show fuel ≠ 0 by omega)
      rw [NodeTable.routeFrom, row.children]
      simp only [Option.bind_eq_bind, Option.bind_some, turned]
      exact routed fuel (by omega)

/-- Where nothing is cut off and the decimals suffice, the code assigns to every sample the label
that is predicted for it. -/
theorem body_predicts {plan : Plan} {source : Source} (made : plan.source.run = some (.ok source))
    (whole : source.isTruncated = false) (exact : plan.Exact) {sample : Array Single}
    (long : ∀ tested, plan.table.referencedFeatures = some tested →
      ∀ feature ∈ tested, feature < sample.size) {read : String → Single}
    (reading : FloatReading read) :
    ∃ block label position, statements? source.body = some block ∧
      block.run (fun name literal => (plan.argument sample name).le (read literal)) 0 [] =
        [.command (.assign "ret" label)] ∧
      plan.table.predict sample plan.labels = some (some position) ∧
      plan.labels.get? position = some label := by
  obtain ⟨tree, draft, printed, made⟩ := source_made made
  have nothing_cut : printed.truncations.toList = [] := by
    have cuts : source.truncations = printed.truncations.toList := by
      rw [made.assembled]
      rfl
    rw [← cuts]
    simpa [Source.isTruncated] using whole
  have longer : ∀ feature ∈ tree.tests, feature < sample.size := by
    intro feature tested
    exact long _ made.represents.referencedFeatures_eq feature (mem_firstUses.mpr tested)
  obtain ⟨others, node, leaf, walked', row', routed⟩ := route_walk made.sound reading
    made.represents.unfolds made.drafted made.done nothing_cut longer exact
  obtain ⟨event, arrives, runs⟩ := @run_arrives plan (plan.test sample read) made.sound.few _ _
    made.represents.unfolds _ made.drafted _ (by omega) _ made.done 0
  rw [nothing_cut] at arrives
  cases arrives with
  | @cut steps k below last walked within isSplit recorded => simp at recorded
  | @leaf steps position last payload label walked within row resolved labelled =>
    have same : steps = others :=
      Nat.le_antisymm (walk_le_leaf walked' row'.leaf? walked)
        (walk_le_leaf walked row.leaf? walked')
    rw [same, walked'] at walked
    cases walked
    have routed := routed _ made.represents.height_le
    refine ⟨_, label, position, made.statements, runs [], ?_, labelled⟩
    simp [NodeTable.predict, NodeTable.route, routed, row.leaf?, resolved]

def wholeSample : Plan := { sample with config := Config.standard }

/-- Not a number where the first test looks, a negative zero where the second does. -/
def oddCall : Array Single :=
  #[.zero, .zero, ⟨true, 0, by decide⟩, .zero, .zero, .zero, .zero, ⟨false, 0x7FC00000, by decide⟩]

theorem wholeSample_exact : wholeSample.Exact := by
  intro node threshold isSplit found
  have inside : node < wholeSample.table.isLeaf.size := (Array.getElem?_eq_some_iff.mp isSplit).1
  change node < 5 at inside
  match node with
  | 0 =>
    obtain rfl := Option.some.inj found
    exact ⟨1500000, by decide +kernel⟩
  | 2 =>
    obtain rfl := Option.some.inj found
    exact ⟨0, by decide +kernel⟩
  | 1 | 3 | 4 => cases isSplit
  | k + 5 => exact absurd inside (Nat.not_lt_of_le (Nat.le_add_left 5 k))

theorem wholeSample_predicts :
    ∃ source block, wholeSample.source.run = some (.ok source) ∧ source.isTruncated = false ∧
      wholeSample.Exact ∧ FloatReading readFloat ∧ statements? source.body = some block ∧
      block.run
          (fun name literal => (wholeSample.argument oddCall name).le (readFloat literal)) 0 [] =
        [.command (.assign "ret" "low")] := by
  have succeeds :
      wholeSample.source.run.any (fun outcome => outcome.toOption.any (!·.isTruncated)) = true := by
    decide +kernel
  obtain ⟨outcome, made, ok⟩ := (Option.any_eq_true _ _).mp succeeds
  cases outcome with
  | error e => cases ok
  | ok source =>
    have whole : source.isTruncated = false := by simpa [Except.toOption] using ok
    have tested : wholeSample.table.referencedFeatures = some [7, 2] := by decide +kernel
    have long : ∀ list, wholeSample.table.referencedFeatures = some list →
        ∀ feature ∈ list, feature < oddCall.size := by
      intro list found
      rw [tested] at found
      obtain rfl := Option.some.inj found
      decide
    obtain ⟨block, label, position, parsed, runs, predicted, labelled⟩ :=
      body_predicts made whole wholeSample_exact long readFloat_reading
    have first : wholeSample.table.predict oddCall wholeSample.labels = some (some 0) := by
      decide +kernel
    rw [first] at predicted
    cases predicted
    cases labelled
    exact ⟨source, block, made, whole, wholeSample_exact, readFloat_reading, parsed, runs⟩

end Plan

end DecisionTreeC
