import DecisionTreeC.Proofs.Listing
import DecisionTreeC.Tree.Reference

/-!
The check of references on a table that represents a tree. It accepts exactly when every split tests
a feature that has a name and every leaf is in order with the labels.
-/
namespace DecisionTreeC

structure Leaf.Fits (leaf : Leaf) (labels : LabelSet) : Prop where
  count : ∀ weights, leaf.weights = some weights → weights.length = labels.size
  finite : ∀ weights, leaf.weights = some weights → ∀ w ∈ weights, w.isFinite = true
  resolves : (leaf.resolve? labels).isSome = true

theorem Leaf.resolve_lt {leaf : Leaf} {labels : LabelSet} {position : Nat}
    (resolved : leaf.resolve? labels = some position) : position < labels.size := by
  unfold Leaf.resolve? at resolved
  split at resolved
  · have := (Option.filter_eq_some_iff.mp resolved).2
    simpa using this
  · split at resolved
    · split at resolved
      · cases resolved
        assumption
      · cases resolved
    · obtain ⟨inside, _⟩ := List.findIdx?_eq_some_iff_getElem.mp resolved
      exact inside

theorem Leaf.check_unweighted {leaf : Leaf} {node : NodeId} {labels : LabelSet}
    (unweighted : leaf.weights = none) :
    leaf.check node labels =
      if (leaf.resolve? labels).isNone then .error (.unknownClass node leaf.verdict)
      else .ok () := by
  unfold Leaf.check
  rw [unweighted]
  rfl

theorem Leaf.check_weighted {leaf : Leaf} {node : NodeId} {labels : LabelSet}
    {weights : List Double} (weighted : leaf.weights = some weights) :
    leaf.check node labels =
      if weights.length ≠ labels.size then .error (.weightCount node weights.length labels.size)
      else if weights.any (!·.isFinite) then .error (.nonFiniteWeight node)
      else if (leaf.resolve? labels).isNone then .error (.unknownClass node leaf.verdict)
      else .ok () := by
  unfold Leaf.check
  rw [weighted]
  dsimp only
  split
  · rfl
  · split
    · rfl
    · rfl

theorem Leaf.check_ok_iff {leaf : Leaf} {node : NodeId} {labels : LabelSet} :
    leaf.check node labels = .ok () ↔ leaf.Fits labels := by
  have named : (leaf.resolve? labels).isSome = true ↔ ¬ (leaf.resolve? labels).isNone = true := by
    cases leaf.resolve? labels <;> simp
  cases weighted : leaf.weights with
  | none =>
    rw [check_unweighted weighted]
    constructor
    · intro passed
      split at passed
      · cases passed
      · rename_i resolved
        exact ⟨by simp [weighted], by simp [weighted], named.mpr resolved⟩
    · intro fits
      rw [if_neg (named.mp fits.resolves)]
  | some weights =>
    rw [check_weighted weighted]
    constructor
    · intro passed
      split at passed
      · cases passed
      · rename_i count
        split at passed
        · cases passed
        · rename_i finite
          split at passed
          · cases passed
          · rename_i resolved
            exact ⟨by simpa [weighted] using count, by simpa [weighted] using finite,
              named.mpr resolved⟩
    · intro fits
      have count := fits.count weights weighted
      have finite : ¬ weights.any (!·.isFinite) = true := by
        simpa using fits.finite weights weighted
      rw [if_neg (not_not.mpr count), if_neg finite, if_neg (named.mp fits.resolves)]

namespace DecisionTree

def Refers (features : FeatureSet) (labels : LabelSet) : DecisionTree → Prop
  | .leaf _ payload => payload.Fits labels
  | .split _ feature _ left right =>
    features.contains feature = true ∧ left.Refers features labels ∧ right.Refers features labels

end DecisionTree

namespace NodeTable

variable {t : NodeTable} {features : FeatureSet} {labels : LabelSet}

theorem LeafRow.checkReference_run {node : NodeId} {payload : Leaf} (row : t.LeafRow node payload) :
    (t.checkReference features labels node).run = some (payload.check node labels) := by
  unfold checkReference
  rw [row.splitFeature, row.leaf?]
  rfl

theorem SplitRow.checkReference_run {node l r feature : Nat} {threshold : Double}
    (row : t.SplitRow node feature threshold l r) :
    (t.checkReference features labels node).run =
      some (if features.contains feature then .ok ()
        else .error (.unknownFeature node feature)) := by
  unfold checkReference
  rw [row.splitFeature]
  change (if features.contains feature = true then _ else _ : ExceptT TreeError Option Unit).run = _
  split <;> rfl

theorem Unfolds.checkReference_isSome {node : NodeId} {tree : DecisionTree}
    (h : t.Unfolds node tree) :
    ∀ n ∈ tree.nodes, ∃ outcome, (t.checkReference features labels n).run = some outcome := by
  induction h with
  | leaf row =>
    intro n member
    rw [List.mem_singleton.mp member]
    exact ⟨_, row.checkReference_run⟩
  | split row first second ihl ihr =>
    intro n member
    simp only [DecisionTree.nodes, List.mem_cons, List.mem_append] at member
    rcases member with rfl | member | member
    · exact ⟨_, row.checkReference_run⟩
    · exact ihl n member
    · exact ihr n member

theorem Unfolds.references_ok_iff {node : NodeId} {tree : DecisionTree} (h : t.Unfolds node tree) :
    (∀ n ∈ tree.nodes, (t.checkReference features labels n).run = some (.ok ())) ↔
      tree.Refers features labels := by
  induction h with
  | leaf row =>
    simp only [DecisionTree.nodes, List.mem_singleton, forall_eq, row.checkReference_run,
      Option.some.injEq, DecisionTree.Refers]
    exact Leaf.check_ok_iff
  | @split node l r feature threshold left right row first second ihl ihr =>
    rw [DecisionTree.nodes, List.forall_mem_cons, List.forall_mem_append, ihl, ihr,
      row.checkReference_run, DecisionTree.Refers]
    cases features.contains feature <;> simp

variable (features labels) in
theorem Represents.validateReferences_run {tree : DecisionTree} (h : t.Represents tree) :
    (t.validateReferences features labels).run =
      (tree.nodes.forM (t.checkReference features labels)).run := by
  unfold validateReferences
  rw [h.preorder_eq]
  rfl

variable (features labels) in
theorem Represents.validateReferences_isSome {tree : DecisionTree} (h : t.Represents tree) :
    ∃ outcome, (t.validateReferences features labels).run = some outcome := by
  rw [h.validateReferences_run]
  exact run_forM_isSome h.unfolds.checkReference_isSome

theorem Represents.validateReferences_ok_iff {tree : DecisionTree} (h : t.Represents tree) :
    (t.validateReferences features labels).run = some (.ok ()) ↔ tree.Refers features labels := by
  rw [h.validateReferences_run, run_forM_ok_iff]
  exact h.unfolds.references_ok_iff

end NodeTable

end DecisionTreeC
