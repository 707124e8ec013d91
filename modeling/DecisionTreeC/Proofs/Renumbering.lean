import DecisionTreeC.Proofs.Decision
import Mathlib.Data.Set.Function
import Mathlib.Order.Interval.Set.Defs

/-!
Tables that differ only in the numbers of their nodes. A renumbering carries each row of one table
to the row that says the same in the other; entries that mean nothing for the kind of a node need
not agree. The two tables then spell out one tree up to the numbers, and everything made from it is
the same up to the numbers: the source with its truncations, or the error.
-/
namespace DecisionTreeC

namespace NodeTable

/-- A correspondence of the nodes of two tables that keeps the root and what each row says. -/
structure Renumbering (t u : NodeTable) (number : NodeId → NodeId) : Prop where
  bijective : Set.BijOn number (Set.Iio t.size) (Set.Iio u.size)
  root : number 0 = 0
  isLeaf : ∀ node, node < t.size → u.isLeaf[number node]? = t.isLeaf[node]?
  left : ∀ node, node < t.size → u.left[number node]? = t.left[node]?.map (Option.map number)
  right : ∀ node, node < t.size → u.right[number node]? = t.right[node]?.map (Option.map number)
  feature : ∀ node, node < t.size → t.isLeaf[node]? = some false →
    u.feature[number node]? = t.feature[node]?
  threshold : ∀ node, node < t.size → t.isLeaf[node]? = some false →
    u.threshold[number node]? = t.threshold[node]?
  leaf : ∀ node, node < t.size → t.isLeaf[node]? = some true → u.leaf[number node]? = t.leaf[node]?

end NodeTable

def DecisionTree.renumber (number : NodeId → NodeId) : DecisionTree → DecisionTree
  | .leaf node payload => .leaf (number node) payload
  | .split node feature threshold left right =>
    .split (number node) feature threshold (left.renumber number) (right.renumber number)

def Draft.renumber (number : NodeId → NodeId) : Draft → Draft
  | .leaf node label weights => .leaf (number node) label weights
  | .split node name threshold left right =>
    .split (number node) name threshold (left.renumber number) (right.renumber number)

def Truncation.renumber (number : NodeId → NodeId) (t : Truncation) : Truncation :=
  { t with node := number t.node }

def Body.renumber (number : NodeId → NodeId) (body : Body) : Body :=
  { body with truncations := body.truncations.map (Truncation.renumber number) }

def TreeError.renumber (number : NodeId → NodeId) : TreeError → TreeError
  | .emptyTree => .emptyTree
  | .columnLength column length size => .columnLength column length size
  | .missingChild node side => .missingChild (number node) side
  | .leafWithChildren node => .leafWithChildren (number node)
  | .missingLeaf node => .missingLeaf (number node)
  | .childOutOfBounds node side child size =>
    .childOutOfBounds (number node) side (number child) size
  | .selfLoop node => .selfLoop (number node)
  | .sharedNode node => .sharedNode (number node)
  | .cycle node => .cycle (number node)
  | .unreachable node => .unreachable (number node)
  | .unknownFeature node feature => .unknownFeature (number node) feature
  | .unknownClass node verdict => .unknownClass (number node) verdict
  | .weightCount node count classes => .weightCount (number node) count classes
  | .nonFiniteWeight node => .nonFiniteWeight (number node)

def SourceError.renumber (number : NodeId → NodeId) : SourceError → SourceError
  | .malformedTree cause => .malformedTree (cause.renumber number)
  | .invalidConfig cause => .invalidConfig cause
  | .emptyModel => .emptyModel
  | .formattingOverflow value places => .formattingOverflow value places
  | .nameCollision name => .nameCollision name

section

variable {number : NodeId → NodeId}

namespace DecisionTree

theorem nodes_renumber (tree : DecisionTree) :
    (tree.renumber number).nodes = tree.nodes.map number := by
  induction tree with
  | leaf node payload => rfl
  | split node feature threshold left right ihl ihr =>
    simp only [renumber, nodes, ihl, ihr, List.map_cons, List.map_append]

theorem tests_renumber (tree : DecisionTree) : (tree.renumber number).tests = tree.tests := by
  induction tree with
  | leaf node payload => rfl
  | split node feature threshold left right ihl ihr => simp only [renumber, tests, ihl, ihr]

theorem refers_renumber {features : FeatureSet} {labels : LabelSet} {tree : DecisionTree}
    (refers : tree.Refers features labels) : (tree.renumber number).Refers features labels := by
  induction tree with
  | leaf node payload => exact refers
  | split node feature threshold left right ihl ihr =>
    obtain ⟨known, left_refers, right_refers⟩ := refers
    exact ⟨known, ihl left_refers, ihr right_refers⟩

theorem draft_renumber {features : FeatureSet} {labels : LabelSet} {tree : DecisionTree}
    {draft : Draft} (drafted : tree.draft? features labels = some draft) :
    (tree.renumber number).draft? features labels = some (draft.renumber number) := by
  induction tree generalizing draft with
  | leaf node payload =>
    simp only [draft?, Option.bind_eq_bind, Option.bind_eq_some_iff] at drafted
    obtain ⟨position, resolved, label, labelled, made⟩ := drafted
    cases made
    simp [renumber, draft?, resolved, labelled, Draft.renumber]
  | split node feature threshold left right ihl ihr =>
    simp only [draft?, Option.bind_eq_bind, Option.bind_eq_some_iff] at drafted
    obtain ⟨name, named, first, left_drafted, second, right_drafted, made⟩ := drafted
    cases made
    simp [renumber, draft?, named, ihl left_drafted, ihr right_drafted, Draft.renumber]

end DecisionTree

namespace Body

theorem renumber_join (a b : Body) :
    (a.join b).renumber number = (a.renumber number).join (b.renumber number) := by
  simp [renumber, join]

theorem renumber_write (level : Nat) (statements : List Statement) :
    (empty.write level statements).renumber number = empty.write level statements := by
  simp [renumber, write, empty]

theorem renumber_cut (t : Truncation) :
    (empty.cut t).renumber number = empty.cut (t.renumber number) := by
  simp [renumber, cut, write, empty, Truncation.renumber]

end Body

namespace Draft

theorem height_renumber (draft : Draft) : (draft.renumber number).height = draft.height := by
  induction draft with
  | leaf node label weights => rfl
  | split node name threshold left right ihl ihr => simp only [renumber, height, ihl, ihr]

theorem print_renumber (config : Config) (draft : Draft) (depth : Nat) :
    (draft.renumber number).print config depth =
      (draft.print config depth).map (Body.renumber number) := by
  induction draft generalizing depth with
  | leaf node label weights => exact congrArg Except.ok (Body.renumber_write ..).symm
  | split node name threshold left right ihl ihr =>
    rw [renumber, print, print, height_renumber, height_renumber, ihl, ihr]
    split
    · exact congrArg Except.ok (Body.renumber_cut ⟨node, depth, _⟩).symm
    · split
      · cases left.print config (depth + 1) with
        | error e => rfl
        | ok first =>
          cases right.print config (depth + 1) with
          | error e => rfl
          | ok second =>
            refine congrArg Except.ok ?_
            simp only [branch, Body.renumber_join, Body.renumber_write]
      · rfl

/-- The one error of printing names no node. -/
theorem renumber_print_error {config : Config} {draft : Draft} {depth : Nat} {e : SourceError}
    (stopped : draft.print config depth = .error e) : e.renumber number = e := by
  induction draft generalizing depth with
  | leaf node label weights => cases stopped
  | split node name threshold left right ihl ihr =>
    rw [print] at stopped
    split at stopped
    · cases stopped
    · split at stopped
      · cases first : left.print config (depth + 1) with
        | error fault =>
          rw [first] at stopped
          cases stopped
          exact ihl first
        | ok printed =>
          cases second : right.print config (depth + 1) with
          | error fault =>
            rw [first, second] at stopped
            cases stopped
            exact ihr second
          | ok printed' =>
            rw [first, second] at stopped
            cases stopped
      · cases stopped
        rfl

end Draft

namespace NodeTable

variable {t u : NodeTable}

theorem Renumbering.leafRow (same : Renumbering t u number) {node : NodeId} {payload : Leaf}
    (row : t.LeafRow node payload) : u.LeafRow (number node) payload where
  isLeaf := (same.isLeaf node row.lt_size).trans row.isLeaf
  left := by rw [same.left node row.lt_size, row.left]; rfl
  right := by rw [same.right node row.lt_size, row.right]; rfl
  leaf := (same.leaf node row.lt_size row.isLeaf).trans row.leaf

theorem Renumbering.splitRow (same : Renumbering t u number) {node l r feature : Nat}
    {threshold : Double} (row : t.SplitRow node feature threshold l r) :
    u.SplitRow (number node) feature threshold (number l) (number r) where
  isLeaf := (same.isLeaf node row.lt_size).trans row.isLeaf
  left := by rw [same.left node row.lt_size, row.left]; rfl
  right := by rw [same.right node row.lt_size, row.right]; rfl
  feature := (same.feature node row.lt_size row.isLeaf).trans row.feature
  threshold := (same.threshold node row.lt_size row.isLeaf).trans row.threshold

theorem Renumbering.unfolds (same : Renumbering t u number) {node : NodeId} {tree : DecisionTree}
    (unfolds : t.Unfolds node tree) : u.Unfolds (number node) (tree.renumber number) := by
  induction unfolds with
  | leaf row => exact .leaf (same.leafRow row)
  | split row first second ihl ihr => exact .split (same.splitRow row) ihl ihr

theorem Renumbering.represents (same : Renumbering t u number) {tree : DecisionTree}
    (represents : t.Represents tree) (valid : u.validate.run = some (.ok ())) :
    u.Represents (tree.renumber number) := by
  obtain ⟨other, represents'⟩ := validate_ok_iff.mp valid
  have unfolds := same.unfolds represents.unfolds
  rw [same.root] at unfolds
  rwa [unfolds.unique represents'.unfolds]

theorem check_renumber (leaf : Leaf) (node : NodeId) (labels : LabelSet) :
    leaf.check (number node) labels =
      (leaf.check node labels).mapError (TreeError.renumber number) := by
  unfold Leaf.check
  cases leaf.weights with
  | none => cases leaf.resolve? labels <;> rfl
  | some weights =>
    by_cases count : weights.length = labels.size
    · simp only [count, ne_eq, not_true_eq_false, if_false]
      cases weights.any (fun w => !w.isFinite) with
      | true => rfl
      | false => cases leaf.resolve? labels <;> rfl
    · simp only [ne_eq, count, not_false_eq_true, if_true]
      rfl

theorem Renumbering.checkReference_run (same : Renumbering t u number) {features : FeatureSet}
    {labels : LabelSet} {root : NodeId} {tree : DecisionTree} (unfolds : t.Unfolds root tree) :
    ∀ node ∈ tree.nodes, (u.checkReference features labels (number node)).run =
      (t.checkReference features labels node).run.map
        (Except.mapError (TreeError.renumber number)) := by
  intro node member
  rcases unfolds.row_of_mem member with ⟨payload, row⟩ | ⟨feature, threshold, l, r, row, _⟩
  · rw [row.checkReference_run, (same.leafRow row).checkReference_run, check_renumber]
    rfl
  · rw [row.checkReference_run, (same.splitRow row).checkReference_run]
    split <;> rfl

end NodeTable

theorem run_forM_map {ε ε' α β : Type} {f : α → ExceptT ε Option Unit}
    {g : β → ExceptT ε' Option Unit} {h : α → β} {change : ε → ε'} {xs : List α}
    (each : ∀ x ∈ xs, (g (h x)).run = (f x).run.map (Except.mapError change)) :
    ((xs.map h).forM g).run = (xs.forM f).run.map (Except.mapError change) := by
  induction xs with
  | nil => rfl
  | cons x rest ih =>
    have first := each x (List.mem_cons_self ..)
    have later := ih fun y member => each y (List.mem_cons_of_mem x member)
    rw [List.map_cons]
    cases outcome : (f x).run with
    | none =>
      rw [outcome] at first
      change (g (h x) >>= fun _ => (rest.map h).forM g).run =
        ((f x) >>= fun _ => rest.forM f).run.map _
      rw [ExceptT.run_bind, ExceptT.run_bind, first, outcome]
      rfl
    | some result =>
      rw [outcome] at first
      cases result with
      | error e => rw [run_forM_cons_error rest outcome, run_forM_cons_error _ first]; rfl
      | ok done => rw [run_forM_cons_ok rest outcome, run_forM_cons_ok _ first, later]

theorem NodeTable.Renumbering.validateReferences_run {t u : NodeTable}
    (same : Renumbering t u number) {tree : DecisionTree} (represents : t.Represents tree)
    (valid : u.validate.run = some (.ok ())) (features : FeatureSet) (labels : LabelSet) :
    (u.validateReferences features labels).run =
      (t.validateReferences features labels).run.map
        (Except.mapError (TreeError.renumber number)) := by
  rw [(same.represents represents valid).validateReferences_run, represents.validateReferences_run,
    DecisionTree.nodes_renumber]
  exact run_forM_map (same.checkReference_run represents.unfolds)

end

namespace Plan

variable {plan : Plan}

theorem source_of_draft
    (below : ∀ earlier : Condition, earlier.rank < Condition.names.rank → plan.Meets earlier)
    {tree : DecisionTree} (represents : plan.table.Represents tree)
    (refers : tree.Refers plan.features plan.labels) {draft : Draft}
    (drafted : tree.draft? plan.features plan.labels = some draft) :
    plan.source.run = some (
      match plan.collision? ((firstUses tree.tests).filterMap plan.features.name?) with
      | some name => .error (.nameCollision name)
      | none => (draft.print plan.config 1).map
          (plan.assemble ((firstUses tree.tests).filterMap plan.features.name?))) := by
  have listed := prepared below (parameters_run represents refers)
  have sound := Config.sound_of_check (below .config (by decide))
  cases collided : plan.collision? ((firstUses tree.tests).filterMap plan.features.name?) with
  | some name =>
    rw [collided] at listed
    exact source_of_refused listed
  | none =>
    rw [collided] at listed
    exact Ready.source ⟨sound, represents, refers, drafted, listed⟩

theorem met_below_names (config : plan.Meets .config) (labels : plan.Meets .labels)
    (valid : plan.Meets .tree) (referred : plan.Meets .references) :
    ∀ earlier : Condition, earlier.rank < Condition.names.rank → plan.Meets earlier := by
  intro earlier less
  cases earlier with
  | config => exact config
  | labels => exact labels
  | tree => exact valid
  | references => exact referred
  | names | thresholds => exact absurd less (by decide)

/-- The source depends on the tree that the table spells out, not on the numbers of its nodes. -/
theorem source_of_renumbering {u : NodeTable} {number : NodeId → NodeId}
    (valid : plan.table.validate.run = some (.ok ())) (valid' : u.validate.run = some (.ok ()))
    (same : plan.table.Renumbering u number) :
    (∃ source, plan.source.run = some (.ok source) ∧
      ({ plan with table := u } : Plan).source.run =
        some (.ok
          { source with truncations := source.truncations.map (Truncation.renumber number) })) ∨
    (∃ e, plan.source.run = some (.error e) ∧
      ({ plan with table := u } : Plan).source.run = some (.error (e.renumber number))) := by
  obtain ⟨tree, represents⟩ := NodeTable.validate_ok_iff.mp valid
  have represents' := same.represents represents valid'
  cases config : plan.config.check with
  | error cause =>
    exact .inr ⟨_, source_of_refused (prepare_of_config config),
      source_of_refused (prepare_of_config config)⟩
  | ok done =>
    by_cases labels : plan.labels.labels = []
    · exact .inr ⟨_, source_of_refused (prepare_of_no_labels config labels),
        source_of_refused (prepare_of_no_labels config labels)⟩
    obtain ⟨outcome, referred⟩ := represents.validateReferences_isSome plan.features plan.labels
    have referred' := same.validateReferences_run represents valid' plan.features plan.labels
    rw [referred] at referred'
    cases outcome with
    | error cause =>
      exact .inr ⟨_, source_of_refused (prepare_of_references config labels valid referred),
        source_of_refused
          (@prepare_of_references { plan with table := u } config labels valid' _ referred')⟩
    | ok done =>
      have refers := represents.validateReferences_ok_iff.mp referred
      obtain ⟨draft, drafted⟩ := refers.drafted
      have made :=
        source_of_draft (met_below_names config labels valid referred) represents refers drafted
      have made' := @source_of_draft { plan with table := u }
        (met_below_names config labels valid' referred') _ represents'
        (DecisionTree.refers_renumber refers) _ (DecisionTree.draft_renumber drafted)
      rw [DecisionTree.tests_renumber, Draft.print_renumber] at made'
      cases collided : plan.collision? ((firstUses tree.tests).filterMap plan.features.name?) with
      | some name =>
        have collided' : ({ plan with table := u } : Plan).collision?
          ((firstUses tree.tests).filterMap plan.features.name?) = some name := collided
        rw [collided] at made
        rw [collided'] at made'
        exact .inr ⟨_, made, made'⟩
      | none =>
        have collided' : ({ plan with table := u } : Plan).collision?
          ((firstUses tree.tests).filterMap plan.features.name?) = none := collided
        rw [collided] at made
        rw [collided'] at made'
        cases printed : draft.print plan.config 1 with
        | error e =>
          rw [printed] at made made'
          refine .inr ⟨e, made, made'.trans ?_⟩
          rw [Draft.renumber_print_error printed]
          rfl
        | ok body =>
          rw [printed] at made made'
          refine .inl ⟨_, made, made'.trans ?_⟩
          simp [assemble, Body.renumber, Body.render, Except.map]

/-- The nodes of the sample in another order, with other entries where they mean nothing. -/
def shuffled : NodeTable :=
  { feature := #[7, 2, 9, 0, 4]
    threshold := #[sample.table.threshold.getD 0 .zero, .zero, .nan true, .infinite false, .zero]
    left := #[some 4, some 3, none, none, none]
    right := #[some 1, some 2, none, none, none]
    isLeaf := #[false, false, true, true, true]
    leaf :=
      #[some (.ofIndex 5), none, some (.ofIndex 1), some (.ofIndex 0), some (.ofLabel "high")] }

def shuffle (node : NodeId) : NodeId := [0, 4, 1, 3, 2].getD node node

theorem sample_shuffled : sample.table.Renumbering shuffled shuffle where
  bijective := by
    refine ⟨?_, ?_, ?_⟩
    · change ∀ a, a < 5 → shuffle a < 5
      decide
    · change ∀ a, a < 5 → ∀ b, b < 5 → shuffle a = shuffle b → a = b
      decide
    · change ∀ b, b < 5 → ∃ a, a < 5 ∧ shuffle a = b
      decide
  root := rfl
  isLeaf := by decide
  left := by decide
  right := by decide
  feature := by decide
  threshold := by decide
  leaf := by decide

theorem sample_source_shuffled :
    sample.table.validate.run = some (.ok ()) ∧ shuffled.validate.run = some (.ok ()) ∧
    sample.table.Renumbering shuffled shuffle ∧
    ∃ source, sample.source.run = some (.ok source) ∧
      ({ sample with table := shuffled } : Plan).source.run =
        some (.ok
          { source with truncations := source.truncations.map (Truncation.renumber shuffle) }) := by
  have valid : sample.table.validate.run = some (.ok ()) := by decide +kernel
  have valid' : shuffled.validate.run = some (.ok ()) := by decide +kernel
  refine ⟨valid, valid', sample_shuffled, ?_⟩
  rcases source_of_renumbering valid valid' sample_shuffled with made | ⟨e, stopped, _⟩
  · exact made
  · obtain ⟨source, made⟩ := sample_source
    rw [stopped] at made
    cases made

end Plan

end DecisionTreeC
