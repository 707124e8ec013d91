import DecisionTreeC.Proofs.References
import DecisionTreeC.Proofs.Traversal

/-!
The check of references names its first offender. A row is in order when its split tests a feature
that has a name, or when its leaf has one finite weight for each label, if it has any, and resolves
to a label. The check accepts when every row is in order; otherwise it stops at the first row in
pre-order that is not, and says what is wrong with it. Among labels, the greatest of as many weights
is always one of them.
-/
namespace DecisionTreeC

theorem majorityAfter_lt {best : Nat × Double} {position : Nat} (earlier : best.1 < position)
    (rest : List Double) : majorityAfter best position rest < position + rest.length := by
  induction rest generalizing best position with
  | nil => exact earlier
  | cons weight rest ih =>
    rw [majorityAfter, List.length_cons]
    split
    · have inside := @ih best (position + 1) (by omega)
      omega
    · have inside := @ih (position, weight) (position + 1) (Nat.lt_succ_self position)
      omega

theorem majority_lt {weights : List Double} (some_weight : weights ≠ []) :
    ∃ position, majority? weights = some position ∧ position < weights.length := by
  cases weights with
  | nil => exact absurd rfl some_weight
  | cons first rest =>
    have inside := @majorityAfter_lt (0, first) 1 Nat.one_pos rest
    refine ⟨_, rfl, ?_⟩
    rw [List.length_cons]
    omega

namespace Leaf

variable {leaf : Leaf} {labels : LabelSet} {node : NodeId}

def Weighs (leaf : Leaf) (labels : LabelSet) : Prop :=
  ∀ weights, leaf.weights = some weights → weights.length = labels.size ∧
    ∀ w ∈ weights, w.isFinite = true

def Resolves (leaf : Leaf) (labels : LabelSet) : Prop :=
  ∃ position, leaf.resolve? labels = some position ∧ position < labels.size

/-- What is wrong with a leaf: first the number of its weights, then their values,
then its class. -/
inductive Fault (leaf : Leaf) (labels : LabelSet) (node : NodeId) : TreeError → Prop where
  | count {weights : List Double} (weighted : leaf.weights = some weights)
      (differs : weights.length ≠ labels.size) :
      Fault leaf labels node (.weightCount node weights.length labels.size)
  | value {weights : List Double} (weighted : leaf.weights = some weights)
      (count : weights.length = labels.size) (infinite : ∃ w ∈ weights, w.isFinite = false) :
      Fault leaf labels node (.nonFiniteWeight node)
  | verdict (weighs : leaf.Weighs labels) (unresolved : ¬ leaf.Resolves labels) :
      Fault leaf labels node (.unknownClass node leaf.verdict)

theorem resolves_iff : leaf.Resolves labels ↔ (leaf.resolve? labels).isSome = true := by
  rw [Option.isSome_iff_exists]
  constructor
  · rintro ⟨position, resolved, _⟩
    exact ⟨position, resolved⟩
  · rintro ⟨position, resolved⟩
    exact ⟨position, resolved, resolve_lt resolved⟩

theorem fits_iff : leaf.Fits labels ↔ leaf.Weighs labels ∧ leaf.Resolves labels := by
  rw [resolves_iff]
  constructor
  · intro fits
    exact ⟨fun weights weighted => ⟨fits.count weights weighted, fits.finite weights weighted⟩,
      fits.resolves⟩
  · rintro ⟨weighs, resolves⟩
    exact ⟨fun weights weighted => (weighs weights weighted).1,
      fun weights weighted => (weighs weights weighted).2, resolves⟩

theorem Weighs.resolves {weights : List Double} (weighs : leaf.Weighs labels)
    (labelled : 0 < labels.size) (weighted : leaf.weights = some weights) :
    leaf.Resolves labels := by
  obtain ⟨count, _⟩ := weighs weights weighted
  have some_weight : weights ≠ [] := by
    rintro rfl
    rw [List.length_nil] at count
    omega
  obtain ⟨position, greatest, inside⟩ := majority_lt some_weight
  rw [count] at inside
  exact ⟨position, by simp [resolve?, weighted, greatest, inside], inside⟩

theorem fault_of_check {e : TreeError} (refused : leaf.check node labels = .error e) :
    leaf.Fault labels node e := by
  cases weighted : leaf.weights with
  | none =>
    have weighs : leaf.Weighs labels := by
      intro weights found
      rw [weighted] at found
      cases found
    rw [check_unweighted weighted] at refused
    split at refused
    · rename_i unresolved
      cases refused
      exact .verdict weighs (by simpa [resolves_iff] using unresolved)
    · cases refused
  | some weights =>
    rw [check_weighted weighted] at refused
    split at refused
    · rename_i differs
      cases refused
      exact .count weighted differs
    · rename_i same
      have count : weights.length = labels.size := not_not.mp same
      split at refused
      · rename_i some_infinite
        cases refused
        exact .value weighted count (by simpa using some_infinite)
      · rename_i all_finite
        have weighs : leaf.Weighs labels := by
          intro others found
          rw [weighted] at found
          cases found
          exact ⟨count, by simpa using all_finite⟩
        split at refused
        · rename_i unresolved
          cases refused
          exact .verdict weighs (by simpa [resolves_iff] using unresolved)
        · cases refused

theorem check_of_fault {e : TreeError} (fault : leaf.Fault labels node e) :
    leaf.check node labels = .error e := by
  cases fault with
  | count weighted differs => rw [check_weighted weighted, if_pos differs]
  | value weighted count infinite =>
    rw [check_weighted weighted, if_neg (not_not.mpr count), if_pos (by simpa using infinite)]
  | verdict weighs unresolved =>
    have missing : (leaf.resolve? labels).isNone = true := by simpa [resolves_iff] using unresolved
    cases weighted : leaf.weights with
    | none => rw [check_unweighted weighted, if_pos missing]
    | some weights =>
      obtain ⟨count, finite⟩ := weighs weights weighted
      have all_finite : ¬ weights.any (!·.isFinite) = true := by simpa using finite
      rw [check_weighted weighted, if_neg (not_not.mpr count), if_neg all_finite, if_pos missing]

theorem check_error_iff {e : TreeError} :
    leaf.check node labels = .error e ↔ leaf.Fault labels node e :=
  ⟨fault_of_check, check_of_fault⟩

end Leaf

namespace NodeTable

variable {t : NodeTable} {features : FeatureSet} {labels : LabelSet}

structure InOrder (t : NodeTable) (features : FeatureSet) (labels : LabelSet) (node : NodeId) :
    Prop where
  split : ∀ feature, t.isLeaf[node]? = some false → t.feature[node]? = some feature →
    features.contains feature = true
  leaf : ∀ payload, t.isLeaf[node]? = some true → t.leaf[node]? = some (some payload) →
    payload.Weighs labels ∧ payload.Resolves labels

inductive Offends (t : NodeTable) (features : FeatureSet) (labels : LabelSet) (node : NodeId) :
    TreeError → Prop where
  | split {feature : Nat} (isSplit : t.isLeaf[node]? = some false)
      (tests : t.feature[node]? = some feature) (unnamed : features.contains feature = false) :
      Offends t features labels node (.unknownFeature node feature)
  | leaf {payload : Leaf} {e : TreeError} (isLeaf : t.isLeaf[node]? = some true)
      (found : t.leaf[node]? = some (some payload)) (fault : payload.Fault labels node e) :
      Offends t features labels node e

theorem LeafRow.inOrder_iff {node : NodeId} {payload : Leaf} (row : t.LeafRow node payload) :
    t.InOrder features labels node ↔ payload.Fits labels := by
  rw [Leaf.fits_iff]
  constructor
  · intro order
    exact order.leaf payload row.isLeaf row.leaf
  · intro fits
    refine ⟨?_, ?_⟩
    · intro feature isSplit
      rw [row.isLeaf] at isSplit
      cases isSplit
    · intro other _ found
      rw [row.leaf] at found
      cases found
      exact fits

theorem SplitRow.inOrder_iff {node l r feature : Nat} {threshold : Double}
    (row : t.SplitRow node feature threshold l r) :
    t.InOrder features labels node ↔ features.contains feature = true := by
  constructor
  · intro order
    exact order.split feature row.isLeaf row.feature
  · intro named
    refine ⟨?_, ?_⟩
    · intro other _ tests
      rw [row.feature] at tests
      cases tests
      exact named
    · intro payload isLeaf
      rw [row.isLeaf] at isLeaf
      cases isLeaf

theorem LeafRow.offends_iff {node : NodeId} {payload : Leaf} (row : t.LeafRow node payload)
    {e : TreeError} : t.Offends features labels node e ↔ payload.Fault labels node e := by
  constructor
  · intro offends
    cases offends with
    | split isSplit =>
      rw [row.isLeaf] at isSplit
      cases isSplit
    | leaf isLeaf found fault =>
      rw [row.leaf] at found
      cases found
      exact fault
  · exact .leaf row.isLeaf row.leaf

theorem SplitRow.offends_iff {node l r feature : Nat} {threshold : Double}
    (row : t.SplitRow node feature threshold l r) {e : TreeError} :
    t.Offends features labels node e ↔
      features.contains feature = false ∧ e = .unknownFeature node feature := by
  constructor
  · intro offends
    cases offends with
    | split isSplit tests unnamed =>
      rw [row.feature] at tests
      cases tests
      exact ⟨unnamed, rfl⟩
    | leaf isLeaf =>
      rw [row.isLeaf] at isLeaf
      cases isLeaf
  · rintro ⟨unnamed, rfl⟩
    exact .split row.isLeaf row.feature unnamed

theorem Unfolds.checkReference_iff {root node : NodeId} {tree : DecisionTree}
    (h : t.Unfolds root tree) (member : node ∈ tree.nodes) :
    ((t.checkReference features labels node).run = some (.ok ()) ↔ t.InOrder features labels node) ∧
      ∀ e, (t.checkReference features labels node).run = some (.error e) ↔
        t.Offends features labels node e := by
  rcases h.row_of_mem member with ⟨payload, row⟩ | ⟨feature, threshold, l, r, row, _⟩
  · rw [row.checkReference_run, row.inOrder_iff]
    refine ⟨?_, fun e => ?_⟩
    · rw [Option.some.injEq]
      exact Leaf.check_ok_iff
    · rw [row.offends_iff, Option.some.injEq]
      exact Leaf.check_error_iff
  · rw [row.checkReference_run, row.inOrder_iff]
    refine ⟨?_, fun e => ?_⟩
    · cases features.contains feature <;> simp
    · rw [row.offends_iff]
      cases features.contains feature <;> simp [eq_comm]

/-- Rows outside the table refer to nothing. -/
theorem Represents.inOrder_iff {tree : DecisionTree} (h : t.Represents tree) :
    (∀ node ∈ tree.nodes, t.InOrder features labels node) ↔
    ∀ node, t.InOrder features labels node := by
  constructor
  · intro rows node
    by_cases inside : node < t.size
    · exact rows node (h.covers node inside)
    · have absent : t.isLeaf[node]? = none := Array.getElem?_eq_none (Nat.le_of_not_lt inside)
      refine ⟨?_, ?_⟩
      · intro feature isSplit
        rw [absent] at isSplit
        cases isSplit
      · intro payload isLeaf
        rw [absent] at isLeaf
        cases isLeaf
  · intro rows node _
    exact rows node

theorem Offends.unweighted {node other : NodeId} {verdict : ClassRef} (labelled : 0 < labels.size)
    (offends : t.Offends features labels node (.unknownClass other verdict)) :
    ∃ payload, t.leaf[other]? = some (some payload) ∧ payload.verdict = verdict ∧
      payload.weights = none := by
  cases offends with
  | @leaf payload _ isLeaf found fault =>
    cases fault with
    | verdict weighs unresolved =>
      refine ⟨payload, found, rfl, ?_⟩
      cases weighted : payload.weights with
      | none => rfl
      | some weights => exact absurd (weighs.resolves labelled weighted) unresolved

/-- The check of references comes to an outcome on every accepted table. It accepts exactly when
every row is in order. Otherwise its error belongs to the first row in pre-order that is not; and if
there are labels at all, a class is only unknown where a leaf has no weights. -/
theorem validateReferences_exact {t : NodeTable} (valid : t.validate.run = some (.ok ()))
    (features : FeatureSet) (labels : LabelSet) :
    ∃ tree outcome, t.Unfolds 0 tree ∧ (t.validateReferences features labels).run = some outcome ∧
      (outcome = .ok () ↔ ∀ node, t.InOrder features labels node) ∧
      (∀ e, outcome = .error e ↔ ∃ before node after, tree.nodes = before ++ node :: after ∧
        (∀ earlier ∈ before, t.InOrder features labels earlier) ∧ ¬ t.InOrder features labels node ∧
        t.Offends features labels node e) ∧
      (0 < labels.size → ∀ node verdict, outcome = .error (.unknownClass node verdict) →
        ∃ payload, t.leaf[node]? = some (some payload) ∧ payload.verdict = verdict ∧
          payload.weights = none) := by
  obtain ⟨tree, represents⟩ := validate_ok_iff.mp valid
  obtain ⟨outcome, checked⟩ := represents.validateReferences_isSome features labels
  have rows {node : NodeId} (member : node ∈ tree.nodes) :=
    @Unfolds.checkReference_iff t features labels 0 node tree represents.unfolds member
  have stops : ∀ e, outcome = .error e ↔ ∃ before node after, tree.nodes = before ++ node :: after ∧
      (∀ earlier ∈ before, t.InOrder features labels earlier) ∧ ¬ t.InOrder features labels node ∧
      t.Offends features labels node e := by
    intro e
    rw [← Option.some.injEq, ← checked, represents.validateReferences_run, run_forM_error_iff]
    refine exists_congr fun before => exists_congr fun node => exists_congr fun after => ?_
    refine and_congr_right fun parts => ?_
    have here : node ∈ tree.nodes := by simp [parts]
    have earlier {n : NodeId} (first : n ∈ before) : n ∈ tree.nodes := by simp [parts, first]
    rw [← (rows here).1, ← (rows here).2]
    refine and_congr (forall₂_congr fun n first => (rows (earlier first)).1) ?_
    exact ⟨fun refused => ⟨by simp [refused], refused⟩, And.right⟩
  refine ⟨tree, outcome, represents.unfolds, checked, ?_, stops, ?_⟩
  · rw [← Option.some.injEq, ← checked, represents.validateReferences_run, run_forM_ok_iff,
      ← represents.inOrder_iff]
    exact forall₂_congr fun node member => (rows member).1
  · intro labelled node verdict unknown
    obtain ⟨_, _, _, _, _, _, offends⟩ := (stops _).mp unknown
    exact offends.unweighted labelled

def widthOnly : FeatureSet := ⟨[(5, "width")], by decide, by decide⟩

def depthAndWidth : FeatureSet := ⟨[(2, "depth"), (5, "width")], by decide, by decide⟩

def soleLabel : LabelSet := ⟨["narrow"], by decide, by decide⟩

/-- Row 2 is out of order too, and its number is lower, but row 4 comes before it. -/
theorem backward_offender :
    backward.validate.run = some (.ok ()) ∧ 0 < soleLabel.size ∧
      (backward.validateReferences widthOnly soleLabel).run = some (.error (.unknownFeature 4 2)) ∧
      (∃ tree before node after, backward.Unfolds 0 tree ∧ tree.nodes = before ++ node :: after ∧
        (∀ earlier ∈ before, backward.InOrder widthOnly soleLabel earlier) ∧
        backward.Offends widthOnly soleLabel node (.unknownFeature 4 2)) ∧
      (backward.validateReferences depthAndWidth soleLabel).run =
        some (.error (.unknownClass 2 (.index 1))) ∧
      ∃ payload, backward.leaf[2]? = some (some payload) ∧ payload.weights = none := by
  have valid : backward.validate.run = some (.ok ()) := by decide +kernel
  have labelled : 0 < soleLabel.size := by decide
  have unnamed : (backward.validateReferences widthOnly soleLabel).run =
      some (.error (.unknownFeature 4 2)) := by decide +kernel
  have unknown : (backward.validateReferences depthAndWidth soleLabel).run =
      some (.error (.unknownClass 2 (.index 1))) := by decide +kernel
  obtain ⟨tree, outcome, unfolds, checked, _, stops, _⟩ :=
    validateReferences_exact valid widthOnly soleLabel
  obtain ⟨before, node, after, parts, earlier, _, offends⟩ :=
    (stops _).mp (Option.some.inj (checked.symm.trans unnamed))
  obtain ⟨_, other, _, checked', _, _, unweighted⟩ :=
    validateReferences_exact valid depthAndWidth soleLabel
  obtain ⟨payload, found, _, bare⟩ :=
    unweighted labelled 2 (.index 1) (Option.some.inj (checked'.symm.trans unknown))
  exact ⟨valid, labelled, unnamed, ⟨tree, before, node, after, unfolds, parts, earlier, offends⟩,
    unknown, payload, found, bare⟩

end NodeTable

end DecisionTreeC
