import DecisionTreeC.Proofs.Decision
import DecisionTreeC.Proofs.NameSets
import DecisionTreeC.Proofs.Offender
import Mathlib.Data.List.Forall2

/-!
How a leaf names its class. A leaf without weights may give the position of a label or the label
itself, and a leaf with weights may give anything. Leaves that differ in this way only resolve alike
and pass the same check with the same error: the one error that shows the class is left to leaves
that resolve to nothing. So tables that differ in such leaves only are accepted or refused alike,
have the same draft, and send every sample to the same class.
-/
namespace DecisionTreeC

namespace Leaf

/-- Leaves that are the same up to the name of their class. -/
inductive Alike (labels : LabelSet) : Leaf → Leaf → Prop where
  | kept (leaf : Leaf) : Alike labels leaf leaf
  | labelled {position : Nat} {name : String} (found : labels.get? position = some name) :
      Alike labels (.ofIndex position) (.ofLabel name)
  | numbered {position : Nat} {name : String} (found : labels.get? position = some name) :
      Alike labels (.ofLabel name) (.ofIndex position)
  | weighted (weights : List Double) (old new : ClassRef) :
      Alike labels ⟨old, some weights⟩ ⟨new, some weights⟩

variable {labels : LabelSet} {a b : Leaf} {node : NodeId}

theorem resolve_ofIndex {position : Nat} {name : String}
    (found : labels.get? position = some name) :
    (ofIndex position).resolve? labels = some position := by
  have inside : position < labels.size := (List.getElem?_eq_some_iff.mp found).1
  simp [ofIndex, resolve?, inside]

theorem resolve_ofLabel {position : Nat} {name : String}
    (found : labels.get? position = some name) : (ofLabel name).resolve? labels = some position :=
  LabelSet.indexOf_iff.mpr found

theorem Alike.weights (alike : Alike labels a b) : b.weights = a.weights := by
  cases alike <;> rfl

theorem Alike.resolve (alike : Alike labels a b) : b.resolve? labels = a.resolve? labels := by
  cases alike with
  | kept => rfl
  | labelled found | numbered found => rw [resolve_ofIndex found, resolve_ofLabel found]
  | weighted weights old new => rfl

theorem Alike.fits (alike : Alike labels a b) (fits : a.Fits labels) : b.Fits labels where
  count weights weighted := fits.count weights (alike.weights.symm.trans weighted)
  finite weights weighted := fits.finite weights (alike.weights.symm.trans weighted)
  resolves := by
    rw [alike.resolve]
    exact fits.resolves

/-- Among labels, the check of a weighted leaf never comes to its class. -/
theorem check_of_weights {leaf : Leaf} {weights : List Double} (labelled : 0 < labels.size)
    (weighted : leaf.weights = some weights) :
    leaf.check node labels =
      if weights.length ≠ labels.size then .error (.weightCount node weights.length labels.size)
      else if weights.any (!·.isFinite) then .error (.nonFiniteWeight node)
      else .ok () := by
  rw [check_weighted weighted]
  split
  · rfl
  · rename_i count
    split
    · rfl
    · rename_i finite
      have weighs : leaf.Weighs labels := by
        intro others found
        rw [weighted] at found
        cases found
        exact ⟨not_not.mp count, by simpa using finite⟩
      obtain ⟨position, resolved, _⟩ := weighs.resolves labelled weighted
      rw [resolved]
      rfl

theorem check_of_resolved {leaf : Leaf} {position : Nat} (unweighted : leaf.weights = none)
    (resolved : leaf.resolve? labels = some position) : leaf.check node labels = .ok () := by
  rw [check_unweighted unweighted, resolved]
  rfl

theorem Alike.check (alike : Alike labels a b) (labelled : 0 < labels.size) :
    b.check node labels = a.check node labels := by
  cases alike with
  | kept => rfl
  | labelled found | numbered found =>
    rw [check_of_resolved rfl (resolve_ofIndex found),
      check_of_resolved rfl (resolve_ofLabel found)]
  | weighted weights old new => rw [check_of_weights labelled rfl, check_of_weights labelled rfl]

end Leaf

def LeavesAlike (labels : LabelSet) (old new : Array (Option Leaf)) : Prop :=
  List.Forall₂ (Option.Rel (Leaf.Alike labels)) old.toList new.toList

inductive EntriesAlike (labels : LabelSet) :
    Option (Option Leaf) → Option (Option Leaf) → Prop where
  | outside : EntriesAlike labels none none
  | vacant : EntriesAlike labels (some none) (some none)
  | leaf {a b : Leaf} (alike : a.Alike labels b) :
      EntriesAlike labels (some (some a)) (some (some b))

theorem EntriesAlike.isNone_bind {β : Type} {labels : LabelSet} {old new : Option (Option Leaf)}
    (entries : EntriesAlike labels old new) (next : Bool → Option β) :
    (new >>= fun leaf => next leaf.isNone) = old >>= fun leaf => next leaf.isNone := by
  cases entries <;> rfl

theorem LeavesAlike.entries {labels : LabelSet} {old new : Array (Option Leaf)}
    (alike : LeavesAlike labels old new) (node : NodeId) :
    EntriesAlike labels old[node]? new[node]? := by
  rw [← Array.getElem?_toList, ← Array.getElem?_toList]
  unfold LeavesAlike at alike
  generalize old.toList = olds at alike
  generalize new.toList = news at alike
  induction alike generalizing node with
  | nil => exact .outside
  | cons first later ih =>
    cases node with
    | zero =>
      cases first with
      | none => exact .vacant
      | some alike => exact .leaf alike
    | succ node => exact ih node

theorem LeavesAlike.size_eq {labels : LabelSet} {old new : Array (Option Leaf)}
    (alike : LeavesAlike labels old new) : new.size = old.size := by
  have lengths := alike.length_eq
  rw [Array.length_toList, Array.length_toList] at lengths
  exact lengths.symm

namespace NodeTable

def withLeaves (t : NodeTable) (leaves : Array (Option Leaf)) : NodeTable :=
  { t with leaf := leaves }

variable {t : NodeTable} {labels : LabelSet} {leaves : Array (Option Leaf)} {features : FeatureSet}

/-! What does not look at the leaves. -/

theorem listing_withLeaves (listed : Array NodeId) (pending : List (NodeId × Nat)) :
    (t.withLeaves leaves).listing listed pending = t.listing listed pending := by
  have children : (t.withLeaves leaves).children? = t.children? := rfl
  fun_induction listing t listed pending with
  | case1 listed => rw [listing]
  | case2 listed node depth rest missing => rw [listing, children, missing]
  | case3 listed node depth rest found ih =>
    rw [listing, children, found]
    exact ih
  | case4 listed node depth rest left right found inside ih =>
    rw [listing, children, found]
    exact (if_pos inside).trans ih
  | case5 listed node depth rest left right found outside =>
    rw [listing, children, found]
    exact if_neg outside

theorem preorder_withLeaves : (t.withLeaves leaves).preorder = t.preorder := by
  unfold preorder
  rw [listing_withLeaves]
  rfl

theorem referencedFeatures_withLeaves :
    (t.withLeaves leaves).referencedFeatures = t.referencedFeatures := by
  unfold referencedFeatures
  rw [preorder_withLeaves]
  rfl

theorem routeFrom_withLeaves (sample : Array Single) (steps : Nat) (node : NodeId) :
    (t.withLeaves leaves).routeFrom sample steps node = t.routeFrom sample steps node := by
  induction steps generalizing node with
  | zero => rfl
  | succ steps ih =>
    unfold routeFrom
    simp only [ih]
    rfl

/-! What looks at them one by one. -/

theorem leaf_withLeaves (alike : LeavesAlike labels t.leaf leaves) (node : NodeId) :
    EntriesAlike labels (t.leaf? node) ((t.withLeaves leaves).leaf? node) := by
  change EntriesAlike labels
    (t.isLeaf[node]? >>= fun isLeaf => if isLeaf then t.leaf[node]? else pure none)
    (t.isLeaf[node]? >>= fun isLeaf => if isLeaf then leaves[node]? else pure none)
  cases t.isLeaf[node]? with
  | none => exact .outside
  | some isLeaf =>
    cases isLeaf with
    | true => exact alike.entries node
    | false => exact .vacant

theorem checkNode_withLeaves (alike : LeavesAlike labels t.leaf leaves) (node : Fin t.size) :
    (t.withLeaves leaves).checkNode node = t.checkNode node := by
  unfold checkNode
  apply bind_congr
  intro left
  apply bind_congr
  intro right
  apply bind_congr
  intro isLeaf
  cases isLeaf with
  | false => rfl
  | true =>
    cases left.isSome || right.isSome with
    | true => rfl
    | false =>
      exact (alike.entries node).isNone_bind fun missing =>
        if missing then some (Except.error (TreeError.missingLeaf node)) else some (Except.ok none)

/-- The search reads the rows only through their check. -/
theorem explore_withLeaves (alike : LeavesAlike labels t.leaf leaves) (marks : Vector Mark t.size)
    (tasks : List (Task t.size)) :
    (t.withLeaves leaves).explore marks tasks = t.explore marks tasks := by
  have checks := checkNode_withLeaves alike
  fun_induction explore t marks tasks with
  | case1 marks => exact explore_nil
  | case2 marks node rest ih => exact explore_finish.trans ih
  | case3 marks node rest mark => exact explore_opened mark
  | case4 marks node rest mark => exact explore_finished mark
  | case5 marks node rest mark missing => exact explore_missing mark ((checks node).trans missing)
  | case6 marks node rest mark fault checked =>
    exact explore_fault mark ((checks node).trans checked)
  | case7 marks node rest mark checked ih =>
    have entered :=
      @explore_leaf (t.withLeaves leaves) marks node rest mark ((checks node).trans checked)
    exact entered.trans ih
  | case8 marks node rest mark left right checked ih =>
    have entered := @explore_children (t.withLeaves leaves) marks node rest left right mark
      ((checks node).trans checked)
    exact entered.trans ih

theorem checkLengths_withLeaves (alike : LeavesAlike labels t.leaf leaves) :
    (t.withLeaves leaves).checkLengths = t.checkLengths := by
  have lengths : (t.withLeaves leaves).lengths = t.lengths := by
    unfold lengths
    rw [← alike.size_eq]
    rfl
  unfold checkLengths
  rw [lengths]
  rfl

theorem validate_withLeaves (alike : LeavesAlike labels t.leaf leaves) :
    (t.withLeaves leaves).validate = t.validate := by
  unfold validate
  rw [checkLengths_withLeaves alike]
  apply bind_congr
  intro _
  by_cases root : 0 < t.size
  · refine (dif_pos root).trans (Eq.trans ?_ (dif_pos root).symm)
    exact congrArg (fun explored : ExceptT TreeError Option (Vector Mark t.size) => explored >>= _)
      (explore_withLeaves alike _ [.enter ⟨0, root⟩])
  · rw [dif_neg root]
    exact dif_neg root

theorem checkReference_withLeaves (alike : LeavesAlike labels t.leaf leaves)
    (labelled : 0 < labels.size) (node : NodeId) :
    (t.withLeaves leaves).checkReference features labels node =
      t.checkReference features labels node := by
  have entries := leaf_withLeaves alike node
  unfold checkReference
  apply bind_congr
  intro tested
  cases tested with
  | some feature => rfl
  | none =>
    dsimp only
    generalize t.leaf? node = old at entries
    generalize (t.withLeaves leaves).leaf? node = new at entries
    cases entries with
    | outside => rfl
    | vacant => rfl
    | leaf alike =>
      exact congrArg (fun outcome => ExceptT.mk (some outcome)) (alike.check labelled)

theorem validateReferences_withLeaves (alike : LeavesAlike labels t.leaf leaves)
    (labelled : 0 < labels.size) :
    (t.withLeaves leaves).validateReferences features labels =
      t.validateReferences features labels := by
  unfold validateReferences
  rw [preorder_withLeaves, funext (checkReference_withLeaves alike labelled)]

theorem predict_withLeaves (alike : LeavesAlike labels t.leaf leaves) (sample : Array Single) :
    (t.withLeaves leaves).predict sample labels = t.predict sample labels := by
  unfold predict route
  rw [routeFrom_withLeaves]
  apply bind_congr
  intro node
  have entries := leaf_withLeaves alike node
  generalize t.leaf? node = old at entries
  generalize (t.withLeaves leaves).leaf? node = new at entries
  cases entries with
  | outside => rfl
  | vacant => rfl
  | leaf alike => exact congrArg some alike.resolve

end NodeTable

inductive DecisionTree.Alike (labels : LabelSet) : DecisionTree → DecisionTree → Prop where
  | leaf {node : NodeId} {a b : Leaf} (alike : a.Alike labels b) :
      Alike labels (.leaf node a) (.leaf node b)
  | split {node : NodeId} {feature : Nat} {threshold : Double}
      {left right left' right' : DecisionTree}
      (first : Alike labels left left') (second : Alike labels right right') :
      Alike labels (.split node feature threshold left right)
        (.split node feature threshold left' right')

namespace DecisionTree.Alike

variable {labels : LabelSet} {tree other : DecisionTree} {features : FeatureSet}

theorem nodes_eq (alike : Alike labels tree other) : other.nodes = tree.nodes := by
  induction alike with
  | leaf alike => rfl
  | split first second ihl ihr => rw [nodes, nodes, ihl, ihr]

theorem tests_eq (alike : Alike labels tree other) : other.tests = tree.tests := by
  induction alike with
  | leaf alike => rfl
  | split first second ihl ihr => rw [tests, tests, ihl, ihr]

theorem refers (alike : Alike labels tree other) (refers : tree.Refers features labels) :
    other.Refers features labels := by
  induction alike with
  | leaf alike => exact alike.fits refers
  | split first second ihl ihr => exact ⟨refers.1, ihl refers.2.1, ihr refers.2.2⟩

/-- A draft has the label that a leaf resolves to, so it does not show how the class was named. -/
theorem draft_eq (alike : Alike labels tree other) :
    other.draft? features labels = tree.draft? features labels := by
  induction alike with
  | leaf alike => rw [draft?, draft?, alike.resolve, alike.weights]
  | split first second ihl ihr => rw [draft?, draft?, ihl, ihr]

end DecisionTree.Alike

namespace NodeTable

variable {t : NodeTable} {labels : LabelSet} {leaves : Array (Option Leaf)} {tree : DecisionTree}

theorem LeafRow.withLeaves (alike : LeavesAlike labels t.leaf leaves) {node : NodeId}
    {payload : Leaf} (row : t.LeafRow node payload) :
    ∃ other, (t.withLeaves leaves).LeafRow node other ∧ payload.Alike labels other := by
  have entries := alike.entries node
  rw [row.leaf] at entries
  generalize found : leaves[node]? = new at entries
  cases entries with
  | leaf alike => exact ⟨_, ⟨row.isLeaf, row.left, row.right, found⟩, alike⟩

theorem SplitRow.withLeaves {node l r feature : Nat} {threshold : Double}
    (row : t.SplitRow node feature threshold l r) :
    (t.withLeaves leaves).SplitRow node feature threshold l r :=
  ⟨row.isLeaf, row.left, row.right, row.feature, row.threshold⟩

theorem Unfolds.withLeaves (alike : LeavesAlike labels t.leaf leaves) {node : NodeId}
    (unfolds : t.Unfolds node tree) :
    ∃ other, (t.withLeaves leaves).Unfolds node other ∧ tree.Alike labels other := by
  induction unfolds with
  | leaf row =>
    obtain ⟨other, row', alike⟩ := row.withLeaves alike
    exact ⟨_, .leaf row', .leaf alike⟩
  | split row first second ihl ihr =>
    obtain ⟨left, left_unfolds, left_alike⟩ := ihl
    obtain ⟨right, right_unfolds, right_alike⟩ := ihr
    exact ⟨_, .split row.withLeaves left_unfolds right_unfolds, .split left_alike right_alike⟩

theorem Represents.withLeaves (alike : LeavesAlike labels t.leaf leaves)
    (represents : t.Represents tree) :
    ∃ other, (t.withLeaves leaves).Represents other ∧ tree.Alike labels other := by
  obtain ⟨other, unfolds, same⟩ := represents.unfolds.withLeaves alike
  have aligned := represents.aligned
  have length : leaves.size = t.size := alike.size_eq.trans aligned.leaf
  have aligned' : (t.withLeaves leaves).Aligned :=
    ⟨aligned.feature, aligned.threshold, aligned.left, aligned.right, length⟩
  refine ⟨other, ⟨aligned', unfolds, ?_, ?_⟩, same⟩
  · rw [same.nodes_eq]
    exact represents.nodup
  · rw [same.nodes_eq]
    exact represents.covers

end NodeTable

namespace Plan

variable {plan : Plan} {leaves : Array (Option Leaf)}

def withLeaves (plan : Plan) (leaves : Array (Option Leaf)) : Plan :=
  { plan with table := plan.table.withLeaves leaves }

theorem parameters_withLeaves : (plan.withLeaves leaves).parameters = plan.parameters := by
  change (do
    let nodes ← ((plan.table.withLeaves leaves).preorder : Option _)
    (← ((plan.table.withLeaves leaves).referencedFeatures : Option _)).mapM _ :
      ExceptT SourceError Option (List String)) = _
  rw [NodeTable.preorder_withLeaves, NodeTable.referencedFeatures_withLeaves]
  rfl

theorem prepare_withLeaves (alike : LeavesAlike plan.labels plan.table.leaf leaves) :
    (plan.withLeaves leaves).prepare.run = plan.prepare.run := by
  cases config : plan.config.check with
  | error cause =>
    rw [prepare_of_config config]
    exact prepare_of_config config
  | ok done =>
    by_cases unlabelled : plan.labels.labels = []
    · rw [prepare_of_no_labels config unlabelled]
      exact @prepare_of_no_labels (plan.withLeaves leaves) config unlabelled
    · have labelled : 0 < plan.labels.size := List.length_pos_of_ne_nil unlabelled
      have valid := NodeTable.validate_withLeaves alike
      have referred := @NodeTable.validateReferences_withLeaves _ _ _ plan.features alike labelled
      rw [prepare_labelled config unlabelled,
        @prepare_labelled (plan.withLeaves leaves) config unlabelled, parameters_withLeaves]
      unfold withLeaves
      rw [valid, referred]
      rfl

theorem Ready.withLeaves (alike : LeavesAlike plan.labels plan.table.leaf leaves)
    {tree : DecisionTree} {draft : Draft} (ready : plan.Ready tree draft) :
    ∃ other, (plan.withLeaves leaves).Ready other draft ∧
      other.tests = tree.tests := by
  obtain ⟨other, represents, same⟩ := ready.represents.withLeaves alike
  refine ⟨other, ⟨ready.sound, represents, same.refers ready.refers, ?_, ?_⟩, same.tests_eq⟩
  · exact same.draft_eq.trans ready.drafted
  · rw [prepare_withLeaves alike, same.tests_eq]
    exact ready.passed

/-- Naming the classes of any leaves in another way changes neither the source, nor the error if
there is none, nor the class that a sample is given. -/
theorem class_naming_irrelevant (alike : LeavesAlike plan.labels plan.table.leaf leaves) :
    (plan.withLeaves leaves).source.run = plan.source.run ∧
      ∀ sample, (plan.table.withLeaves leaves).predict sample plan.labels =
        plan.table.predict sample plan.labels := by
  constructor
  · rcases prepare_outcome plan with ⟨e, refused⟩ | ⟨tree, draft, ready⟩
    · rw [source_of_refused refused]
      exact source_of_refused ((prepare_withLeaves alike).trans refused)
    · obtain ⟨other, ready', tests⟩ := ready.withLeaves alike
      rw [ready.source, ready'.source, tests]
      rfl
  · exact NodeTable.predict_withLeaves alike

/-- The sample with weights at row 3, which are for the first label against the
class given there. -/
def weighed : Plan :=
  { sample with
    table := sample.table.withLeaves #[none, some (.ofLabel "high"), none,
      some ((Leaf.ofIndex 1).withWeights [.zero, .zero]), some (.ofIndex 1)]
    config := { Config.standard with classWeights := true } }

def renamed : Array (Option Leaf) :=
  #[none, some (.ofIndex 1), none, some ((Leaf.ofLabel "middle").withWeights [.zero, .zero]),
    some (.ofLabel "high")]

theorem renamed_alike : LeavesAlike weighed.labels weighed.table.leaf renamed := by
  have high : weighed.labels.get? 1 = some "high" := rfl
  exact .cons .none (.cons (.some (.numbered high)) (.cons .none (.cons (.some (.weighted ..))
    (.cons (.some (.labelled high)) .nil))))

theorem weighed_renamed :
    LeavesAlike weighed.labels weighed.table.leaf renamed ∧
    (∃ source, weighed.source.run = some (.ok source) ∧
      (weighed.withLeaves renamed).source.run = some (.ok source)) ∧
    (weighed.table.withLeaves renamed).predict (.replicate 8 .zero) weighed.labels =
      some (some 0) := by
  obtain ⟨sources, predictions⟩ := class_naming_irrelevant renamed_alike
  have succeeds : weighed.source.run.any Except.isOk = true := by decide +kernel
  have predicted : weighed.table.predict (.replicate 8 .zero) weighed.labels = some (some 0) := by
    decide +kernel
  obtain ⟨outcome, found, ok⟩ := (Option.any_eq_true _ _).mp succeeds
  cases outcome with
  | error e => cases ok
  | ok source =>
    exact ⟨renamed_alike, ⟨source, found, sources.trans found⟩, (predictions _).trans predicted⟩

end Plan

end DecisionTreeC
