import DecisionTreeC.Proofs.Draft
import DecisionTreeC.Proofs.RootedTree
import DecisionTreeC.Source.Generate

/-!
When a source is generated, and which error there is when not. Six conditions are checked in a fixed
order; a plan that meets them all has a source, and any other is refused by the first condition it
fails. Nothing fails later: once the table and its references are in order, only a threshold without
a literal can stop the body.
-/
namespace DecisionTreeC

inductive Condition where
  | config
  | labels
  | tree
  | references
  | names
  | thresholds
  deriving DecidableEq

def Condition.rank : Condition → Nat
  | .config => 0
  | .labels => 1
  | .tree => 2
  | .references => 3
  | .names => 4
  | .thresholds => 5

theorem Condition.rank_injective {a b : Condition} : a.rank = b.rank → a = b := by
  cases a <;> cases b <;> decide

structure Config.Sound (config : Config) : Prop where
  positive : 0 < config.decimalPlaces
  few : config.decimalPlaces ≤ Binary.maxPlaces
  functionName : isIdentifier config.functionName = true
  typeName : isIdentifier config.typeName = true
  apart : config.functionName ≠ config.typeName

theorem Config.sound_of_check {config : Config} (checked : config.check = .ok ()) :
    config.Sound := by
  unfold Config.check at checked
  split at checked
  · cases checked
  · rename_i places
    simp only [Bool.not_eq_true', Bool.not_eq_false, Bool.and_eq_true, decide_eq_true_eq] at places
    split at checked
    · cases checked
    · rename_i functionName
      split at checked
      · cases checked
      · rename_i typeName
        split at checked
        · cases checked
        · rename_i apart
          simp only [Bool.not_eq_true', Bool.not_eq_false] at functionName typeName
          exact ⟨places.1, Nat.le_trans places.2 (by decide), functionName, typeName, apart⟩

namespace Plan

def surrounding (plan : Plan) : List String :=
  [resultName, plan.config.functionName, plan.config.typeName]

def Tests (plan : Plan) (name : String) : Prop :=
  ∃ (node : NodeId) (feature : Nat), plan.table.isLeaf[node]? = some false ∧
    plan.table.feature[node]? = some feature ∧ plan.features.name? feature = some name

structure NamesApart (plan : Plan) : Prop where
  labels : ∀ label ∈ plan.labels.labels, label ∉ plan.surrounding
  tested : ∀ name, plan.Tests name → name ∉ plan.surrounding ∧ name ∉ plan.labels.labels

/-- A split within the depth limit whose threshold has no literal. The root has depth one. -/
structure OverLimit (plan : Plan) (node : NodeId) (threshold : Double) : Prop where
  shallow : ∃ path, plan.table.follow 0 path = some node ∧
    path.length + 1 ≤ plan.config.maxDepth + 1
  isSplit : plan.table.isLeaf[node]? = some false
  found : plan.table.threshold[node]? = some threshold
  huge : ¬ threshold.FitsSingle

def FirstOver (plan : Plan) (nodes : List NodeId) (e : SourceError) : Prop :=
  ∃ earlier node later threshold, nodes = earlier ++ node :: later ∧
    plan.OverLimit node threshold ∧ (∀ n ∈ earlier, ∀ x, ¬ plan.OverLimit n x) ∧
    e = .formattingOverflow threshold plan.config.decimalPlaces

def Meets (plan : Plan) : Condition → Prop
  | .config => plan.config.check = .ok ()
  | .labels => plan.labels.labels ≠ []
  | .tree => plan.table.validate.run = some (.ok ())
  | .references => (plan.table.validateReferences plan.features plan.labels).run = some (.ok ())
  | .names => plan.NamesApart
  | .thresholds => ∀ node threshold, ¬ plan.OverLimit node threshold

/-- The error that reports a condition: the cause found by its check, the first name that
collides (labels before tested features, these in pre-order), or the first threshold without a
literal in pre-order. -/
def Blames (plan : Plan) : Condition → SourceError → Prop
  | .config, e => ∃ cause, plan.config.check = .error cause ∧ e = .invalidConfig cause
  | .labels, e => e = .emptyModel
  | .tree, e => ∃ cause, plan.table.validate.run = some (.error cause) ∧ e = .malformedTree cause
  | .references, e => ∃ cause,
    (plan.table.validateReferences plan.features plan.labels).run = some (.error cause) ∧
      e = .malformedTree cause
  | .names, e => ∃ tree name, plan.table.Unfolds 0 tree ∧
    (plan.labels.labels.find? (· ∈ plan.surrounding)).or
      ((tree.tests.filterMap plan.features.name?).find?
        fun name => name ∈ plan.surrounding ∨ name ∈ plan.labels.labels) = some name ∧
      e = .nameCollision name
  | .thresholds, e => ∃ tree, plan.table.Unfolds 0 tree ∧ plan.FirstOver tree.nodes e

end Plan

namespace DecisionTree

theorem Refers.tests_named {features : FeatureSet} {labels : LabelSet} {tree : DecisionTree}
    (refers : tree.Refers features labels) :
    ∀ f ∈ tree.tests, ∃ name, features.name? f = some name := by
  induction tree with
  | leaf node payload => simp [tests]
  | split node feature threshold left right ihl ihr =>
    obtain ⟨known, left_refers, right_refers⟩ := refers
    intro f member
    simp only [tests, List.mem_cons, List.mem_append] at member
    rcases member with rfl | member | member
    · exact Option.isSome_iff_exists.mp known
    · exact ihl left_refers f member
    · exact ihr right_refers f member

theorem Refers.name_eq {features : FeatureSet} {labels : LabelSet} {tree : DecisionTree}
    (refers : tree.Refers features labels) :
    ∀ f ∈ firstUses tree.tests, features.name? f = some ((features.name? f).getD "") := by
  intro f member
  obtain ⟨name, found⟩ := refers.tests_named f (mem_firstUses.mp member)
  rw [found]
  rfl

theorem Refers.names_eq {features : FeatureSet} {labels : LabelSet} {tree : DecisionTree}
    (refers : tree.Refers features labels) :
    (firstUses tree.tests).filterMap features.name? =
      (firstUses tree.tests).map fun f => (features.name? f).getD "" := by
  rw [← List.filterMap_eq_map]
  exact List.filterMap_congr refers.name_eq

end DecisionTree

namespace Plan

variable {plan : Plan} {tree : DecisionTree}

theorem tests_iff (represents : plan.table.Represents tree) {name : String} :
    plan.Tests name ↔ name ∈ tree.tests.filterMap plan.features.name? := by
  rw [List.mem_filterMap]
  constructor
  · rintro ⟨node, feature, is_split, found, named⟩
    obtain ⟨inside, _⟩ := Array.getElem?_eq_some_iff.mp is_split
    exact ⟨feature, represents.unfolds.mem_tests_iff.mpr
      ⟨node, represents.covers node inside, is_split, found⟩, named⟩
  · rintro ⟨feature, member, named⟩
    obtain ⟨node, _, is_split, found⟩ := represents.unfolds.mem_tests_iff.mp member
    exact ⟨node, feature, is_split, found, named⟩

theorem parameters_run (represents : plan.table.Represents tree)
    (refers : tree.Refers plan.features plan.labels) :
    plan.parameters.run = some (.ok ((firstUses tree.tests).filterMap plan.features.name?)) := by
  unfold parameters
  rw [represents.preorder_eq, run_lift_bind, represents.referencedFeatures_eq, run_lift_bind,
    refers.names_eq]
  refine run_mapM_ok fun f member => ?_
  rw [refers.name_eq f member]
  rfl

/-- The collision check sees every use of a name, though each feature is a parameter only once. -/
theorem collision_eq :
    plan.collision? ((firstUses tree.tests).filterMap plan.features.name?) =
      (plan.labels.labels.find? (· ∈ plan.surrounding)).or
        ((tree.tests.filterMap plan.features.name?).find?
          fun name => name ∈ plan.surrounding ∨ name ∈ plan.labels.labels) := by
  have searched : ∀ (p : String → Bool),
    ((firstUses tree.tests).filterMap plan.features.name?).find? p =
      (tree.tests.filterMap plan.features.name?).find? p := by
    intro p
    rw [List.find?_filterMap, List.find?_filterMap, find_firstUses]
  rw [← searched]
  unfold collision? surrounding
  simp only [List.contains_eq_mem]
  simp

theorem collision_none_iff (represents : plan.table.Represents tree) :
    (plan.labels.labels.find? (· ∈ plan.surrounding)).or
        ((tree.tests.filterMap plan.features.name?).find?
          fun name => name ∈ plan.surrounding ∨ name ∈ plan.labels.labels) = none ↔
            plan.NamesApart := by
  rw [Option.or_eq_none_iff, List.find?_eq_none, List.find?_eq_none]
  simp only [decide_eq_true_eq, not_or]
  constructor
  · rintro ⟨labels, tested⟩
    exact ⟨labels, fun name tests => tested name ((tests_iff represents).mp tests)⟩
  · rintro ⟨labels, tested⟩
    exact ⟨labels, fun name member => tested name ((tests_iff represents).mpr member)⟩

theorem FirstOver.behind {nodes : List NodeId} {e : SourceError} (beyond : plan.FirstOver nodes e)
    {before : List NodeId} (clear : ∀ n ∈ before, ∀ x, ¬ plan.OverLimit n x) (after : List NodeId) :
    plan.FirstOver (before ++ (nodes ++ after)) e := by
  obtain ⟨earlier, node, later, x, rfl, beyond, first, same⟩ := beyond
  refine ⟨before ++ earlier, node, later ++ after, x, by simp, beyond, ?_, same⟩
  intro n member
  rcases List.mem_append.mp member with member | member
  · exact clear n member
  · exact first n member

theorem OverLimit.path_le (apart : plan.table.PathsApart 0) {path : List Side} {node n : NodeId}
    {x : Double} (reached : plan.table.follow 0 path = some node)
    (unfolds : plan.table.Unfolds node tree) (member : n ∈ tree.nodes)
    (beyond : plan.OverLimit n x) : path.length ≤ plan.config.maxDepth := by
  obtain ⟨further, ends⟩ := unfolds.mem_nodes_iff.mp member
  obtain ⟨other, reached', short⟩ := beyond.shallow
  have whole : plan.table.follow 0 (path ++ further) = some n := by
    rw [NodeTable.follow_append, reached, Option.bind_some, ends]
  have same := congrArg List.length (apart _ _ n whole reached')
  rw [List.length_append] at same
  omega

theorem print_settled (apart : plan.table.PathsApart 0) {node : NodeId}
    (unfolds : plan.table.Unfolds node tree) {path : List Side}
    (reached : plan.table.follow 0 path = some node) {draft : Draft}
    (drafted : tree.draft? plan.features plan.labels = some draft) :
    match draft.print plan.config (path.length + 1) with
    | .ok _ => ∀ n ∈ tree.nodes, ∀ x, ¬ plan.OverLimit n x
    | .error e => plan.FirstOver tree.nodes e := by
  induction unfolds generalizing path draft with
  | @leaf node payload row =>
    simp only [DecisionTree.draft?, Option.bind_eq_bind, Option.bind_eq_some_iff] at drafted
    obtain ⟨_, _, _, _, made⟩ := drafted
    cases made
    intro n member x beyond
    have is_split := beyond.isSplit
    rw [List.mem_singleton.mp member, row.isLeaf] at is_split
    cases is_split
  | @split node l r feature threshold left right row first second ihl ihr =>
    simp only [DecisionTree.draft?, Option.bind_eq_bind, Option.bind_eq_some_iff] at drafted
    obtain ⟨name, _, left_draft, left_drafted, right_draft, right_drafted, made⟩ := drafted
    cases made
    by_cases deep : plan.config.maxDepth + 1 < path.length + 1
    · rw [Draft.print, if_pos deep]
      intro n member x beyond
      have := beyond.path_le apart reached (.split row first second) member
      omega
    by_cases fits : threshold.FitsSingle
    · have here : ∀ n ∈ [node], ∀ x, ¬ plan.OverLimit n x := by
        intro n member x beyond
        have found := beyond.found
        rw [List.mem_singleton.mp member, row.threshold] at found
        exact beyond.huge (Option.some.inj found ▸ fits)
      have left_settled :=
        ihl (NodeTable.follow_snoc.mpr ⟨node, reached, row.child_left⟩) left_drafted
      have right_settled :=
        ihr (NodeTable.follow_snoc.mpr ⟨node, reached, row.child_right⟩) right_drafted
      rw [List.length_append, List.length_singleton] at left_settled right_settled
      rw [Draft.print, if_neg deep, if_pos fits]
      cases left_print : left_draft.print plan.config (path.length + 1 + 1) with
      | error e =>
        rw [left_print] at left_settled
        exact left_settled.behind here right.nodes
      | ok left_out =>
        rw [left_print] at left_settled
        cases right_print : right_draft.print plan.config (path.length + 1 + 1) with
        | error e =>
          rw [right_print] at right_settled
          have clear : ∀ n ∈ node :: left.nodes, ∀ x, ¬ plan.OverLimit n x :=
            List.forall_mem_cons.mpr ⟨here node (List.mem_singleton_self _), left_settled⟩
          have beyond := right_settled.behind clear []
          rw [List.append_nil] at beyond
          exact beyond
        | ok right_out =>
          rw [right_print] at right_settled
          exact List.forall_mem_cons.mpr ⟨here node (List.mem_singleton_self _),
            List.forall_mem_append.mpr ⟨left_settled, right_settled⟩⟩
    · rw [Draft.print, if_neg deep, if_neg fits]
      exact ⟨[], node, _, threshold, rfl,
        ⟨⟨path, reached, by omega⟩, row.isLeaf, row.threshold, fits⟩, by simp, rfl⟩

theorem body_settled (few : plan.config.decimalPlaces ≤ Binary.maxPlaces)
    (represents : plan.table.Represents tree) (refers : tree.Refers plan.features plan.labels) :
    ∃ body fault, plan.body = some (body, fault) ∧
      match fault with
      | none => ∀ node x, ¬ plan.OverLimit node x
      | some e => plan.FirstOver tree.nodes e := by
  obtain ⟨draft, drafted⟩ := refers.drafted
  have paths := represents.unfolds.paths_apart_of_nodup represents.nodup
  have settled := print_settled paths represents.unfolds
    (show plan.table.follow 0 [] = some 0 from rfl) drafted
  have written := body_draft few represents refers drafted
  rw [List.length_nil, Nat.zero_add] at settled
  cases printed : draft.print plan.config 1 with
  | ok out =>
    rw [printed] at settled written
    refine ⟨out, none, written, ?_⟩
    intro node x beyond
    obtain ⟨inside, _⟩ := Array.getElem?_eq_some_iff.mp beyond.isSplit
    exact settled node (represents.covers node inside) x beyond
  | error e =>
    rw [printed] at settled written
    obtain ⟨partly, stopped⟩ := written
    exact ⟨partly, some e, stopped, settled⟩

inductive Settled (plan : Plan) : Prop where
  | made (source : Source) (done : plan.source.run = some (.ok source))
      (met : ∀ condition, plan.Meets condition)
  | refused (condition : Condition) (e : SourceError) (stopped : plan.source.run = some (.error e))
      (blamed : plan.Blames condition e) (failed : ¬ plan.Meets condition)
      (met : ∀ earlier : Condition, earlier.rank < condition.rank → plan.Meets earlier)

theorem source_of_refused {e : SourceError} (refused : plan.prepare.run = some (.error e)) :
    plan.source.run = some (.error e) := by
  simp [source, report, refused]

theorem source_of_prepared {parameters : List String} {body : Body} {fault : Option SourceError}
    (prepared : plan.prepare.run = some (.ok parameters))
    (written : plan.body = some (body, fault)) :
    plan.source.run = some (match fault with
      | none => .ok (plan.assemble parameters body)
      | some e => .error e) := by
  cases fault <;> simp [source, report, prepared, written]

theorem prepare_of_config {cause : ConfigError} (refused : plan.config.check = .error cause) :
    plan.prepare.run = some (.error (.invalidConfig cause)) := by
  unfold prepare
  rw [refused]
  rfl

theorem prepare_of_no_labels (config : plan.Meets .config) (unlabelled : plan.labels.labels = []) :
    plan.prepare.run = some (.error .emptyModel) := by
  have none_left : plan.labels.isEmpty = true := List.isEmpty_iff.mpr unlabelled
  unfold prepare
  rw [show plan.config.check = .ok () from config, if_pos none_left]
  rfl

theorem prepare_labelled (config : plan.Meets .config) (labels : plan.Meets .labels) :
    plan.prepare.run = (do
      plan.table.validate.adapt .malformedTree
      (plan.table.validateReferences plan.features plan.labels).adapt .malformedTree
      let parameters ← plan.parameters
      match plan.collision? parameters with
      | some name => throw (.nameCollision name)
      | none => pure parameters : ExceptT SourceError Option (List String)).run := by
  have some_label : plan.labels.isEmpty = false := List.isEmpty_eq_false_iff.mpr labels
  have passed : (plan.config.check.mapError SourceError.invalidConfig) = .ok () := by
    rw [show plan.config.check = .ok () from config]
    rfl
  unfold prepare
  refine (run_mk_bind_ok (congrArg some passed) _).trans ?_
  exact congrArg ExceptT.run (if_neg (by simp [some_label]))

theorem prepare_checked (config : plan.Meets .config) (labels : plan.Meets .labels)
    (valid : plan.Meets .tree) :
    plan.prepare.run = (do
      (plan.table.validateReferences plan.features plan.labels).adapt .malformedTree
      let parameters ← plan.parameters
      match plan.collision? parameters with
      | some name => throw (.nameCollision name)
      | none => pure parameters : ExceptT SourceError Option (List String)).run := by
  rw [prepare_labelled config labels]
  exact run_bind_ok (run_adapt_ok.mpr valid) _

theorem prepare_of_table (config : plan.Meets .config) (labels : plan.Meets .labels)
    {cause : TreeError} (refused : plan.table.validate.run = some (.error cause)) :
    plan.prepare.run = some (.error (.malformedTree cause)) := by
  rw [prepare_labelled config labels]
  exact run_bind_error (run_adapt_error _ refused) _

theorem prepare_of_references (config : plan.Meets .config) (labels : plan.Meets .labels)
    (valid : plan.Meets .tree) {cause : TreeError}
    (refused : (plan.table.validateReferences plan.features plan.labels).run =
      some (.error cause)) :
    plan.prepare.run = some (.error (.malformedTree cause)) := by
  rw [prepare_checked config labels valid]
  exact run_bind_error (run_adapt_error _ refused) _

theorem prepared {parameters : List String}
    (below : ∀ earlier : Condition, earlier.rank < Condition.names.rank → plan.Meets earlier)
    (listed : plan.parameters.run = some (.ok parameters)) :
    plan.prepare.run = some (match plan.collision? parameters with
      | some name => .error (.nameCollision name)
      | none => .ok parameters) := by
  have references : plan.Meets .references := below .references (by decide)
  rw [prepare_checked (below .config (by decide)) (below .labels (by decide))
    (below .tree (by decide)), run_bind_ok (run_adapt_ok.mpr references), run_bind_ok listed]
  cases plan.collision? parameters <;> rfl

theorem met_first :
    ∀ earlier : Condition, earlier.rank < Condition.config.rank → plan.Meets earlier := by
  intro earlier less
  exact absurd less (Nat.not_lt_zero _)

theorem met_next {condition next : Condition} (follows : next.rank = condition.rank + 1)
    (below : ∀ earlier : Condition, earlier.rank < condition.rank → plan.Meets earlier)
    (met : plan.Meets condition) :
    ∀ earlier : Condition, earlier.rank < next.rank → plan.Meets earlier := by
  intro earlier less
  rw [follows] at less
  rcases Nat.lt_or_eq_of_le (Nat.le_of_lt_succ less) with lower | same
  · exact below earlier lower
  · rw [Condition.rank_injective same]
    exact met

theorem met_all
    (below : ∀ earlier : Condition, earlier.rank < Condition.thresholds.rank → plan.Meets earlier)
    (met : plan.Meets .thresholds) : ∀ condition, plan.Meets condition := by
  intro condition
  cases condition with
  | thresholds => exact met
  | config | labels | tree | references | names => exact below _ (by decide)

theorem settled_of_referred
    (below : ∀ earlier : Condition, earlier.rank < Condition.names.rank → plan.Meets earlier)
    (represents : plan.table.Represents tree) (refers : tree.Refers plan.features plan.labels) :
    plan.Settled := by
  have few := (Config.sound_of_check (below .config (by decide))).few
  have listed := prepared below (parameters_run represents refers)
  have names_iff := collision_none_iff represents
  rw [← collision_eq] at names_iff
  cases collided : plan.collision? ((firstUses tree.tests).filterMap plan.features.name?) with
  | some name =>
    rw [collided] at listed names_iff
    refine .refused .names _ (source_of_refused listed)
      ⟨tree, name, represents.unfolds, ?_, rfl⟩ ?_ below
    · rw [← collision_eq, collided]
    · intro apart
      exact absurd (names_iff.mpr apart) (by simp)
  | none =>
    rw [collided] at listed names_iff
    have below' := @met_next plan .names .thresholds rfl below (names_iff.mp rfl)
    obtain ⟨body, fault, written, settled⟩ := body_settled few represents refers
    cases fault with
    | none => exact .made _ (source_of_prepared listed written) (met_all below' settled)
    | some e =>
      refine .refused .thresholds e (source_of_prepared listed written)
        ⟨tree, represents.unfolds, settled⟩ ?_ below'
      intro clear
      obtain ⟨_, node, _, x, _, beyond, _⟩ := settled
      exact clear node x beyond

theorem settled_of_labelled
    (below : ∀ earlier : Condition, earlier.rank < Condition.tree.rank → plan.Meets earlier) :
    plan.Settled := by
  have config : plan.Meets .config := below .config (by decide)
  have labels : plan.Meets .labels := below .labels (by decide)
  obtain ⟨outcome, validated⟩ := NodeTable.validate_isSome plan.table
  cases outcome with
  | error cause =>
    refine .refused .tree (.malformedTree cause)
      (source_of_refused (prepare_of_table config labels validated))
        ⟨cause, validated, rfl⟩ ?_ below
    intro met
    rw [Meets, validated] at met
    cases met
  | ok done =>
    have below' := @met_next plan .tree .references rfl below validated
    obtain ⟨tree, represents⟩ := NodeTable.validate_ok_iff.mp validated
    obtain ⟨outcome, referred⟩ := represents.validateReferences_isSome plan.features plan.labels
    cases outcome with
    | error cause =>
      refine .refused .references (.malformedTree cause)
        (source_of_refused (prepare_of_references config labels validated referred))
        ⟨cause, referred, rfl⟩ ?_ below'
      intro met
      rw [Meets, referred] at met
      cases met
    | ok done =>
      exact settled_of_referred (@met_next plan .references .names rfl below' referred) represents
        (represents.validateReferences_ok_iff.mp referred)

theorem source_settled (plan : Plan) : plan.Settled := by
  cases config : plan.config.check with
  | error cause =>
    refine .refused .config (.invalidConfig cause) (source_of_refused (prepare_of_config config))
      ⟨cause, config, rfl⟩ ?_ met_first
    intro met
    rw [Meets, config] at met
    cases met
  | ok done =>
    have below := @met_next plan .config .labels rfl met_first config
    by_cases labels : plan.labels.labels = []
    · exact .refused .labels .emptyModel
        (source_of_refused (prepare_of_no_labels config labels)) rfl
        (fun met => met labels) below
    · exact settled_of_labelled (@met_next plan .labels .tree rfl below labels)

/-- A plan that passed every check: only printing its draft is left. -/
structure Ready (plan : Plan) (tree : DecisionTree) (draft : Draft) : Prop where
  sound : plan.config.Sound
  represents : plan.table.Represents tree
  refers : tree.Refers plan.features plan.labels
  drafted : tree.draft? plan.features plan.labels = some draft
  passed : plan.prepare.run = some (.ok ((firstUses tree.tests).filterMap plan.features.name?))

/-- Only the number of places and the two names of the configuration are checked. -/
theorem Ready.reconfigured {draft : Draft} (ready : plan.Ready tree draft) {config : Config}
    (places : config.decimalPlaces = plan.config.decimalPlaces)
    (functionName : config.functionName = plan.config.functionName)
    (typeName : config.typeName = plan.config.typeName) :
    ({ plan with config := config } : Plan).Ready tree draft := by
  obtain ⟨indentWidth, _, maxDepth, classWeights, provenance, _, _⟩ := config
  subst places functionName typeName
  exact
    { sound := ⟨ready.sound.positive, ready.sound.few, ready.sound.functionName,
      ready.sound.typeName,
        ready.sound.apart⟩
      represents := ready.represents
      refers := ready.refers
      drafted := ready.drafted
      passed := ready.passed }

theorem Ready.source {draft : Draft} (ready : plan.Ready tree draft) :
    plan.source.run = some ((draft.print plan.config 1).map
      (plan.assemble ((firstUses tree.tests).filterMap plan.features.name?))) := by
  have written := body_draft ready.sound.few ready.represents ready.refers ready.drafted
  cases printed : draft.print plan.config 1 with
  | ok body =>
    rw [printed] at written
    exact source_of_prepared ready.passed written
  | error e =>
    rw [printed] at written
    obtain ⟨partly, stopped⟩ := written
    exact source_of_prepared ready.passed stopped

theorem ready_of_referred
    (below : ∀ earlier : Condition, earlier.rank < Condition.names.rank → plan.Meets earlier) :
    (∃ e, plan.prepare.run = some (.error e)) ∨ ∃ tree draft, plan.Ready tree draft := by
  obtain ⟨tree, represents⟩ := NodeTable.validate_ok_iff.mp (below .tree (by decide))
  have refers := represents.validateReferences_ok_iff.mp (below .references (by decide))
  obtain ⟨draft, drafted⟩ := refers.drafted
  have sound := Config.sound_of_check (below .config (by decide))
  have listed := prepared below (parameters_run represents refers)
  cases collided : plan.collision? ((firstUses tree.tests).filterMap plan.features.name?) with
  | some name =>
    rw [collided] at listed
    exact .inl ⟨_, listed⟩
  | none =>
    rw [collided] at listed
    exact .inr ⟨tree, draft, sound, represents, refers, drafted, listed⟩

theorem prepare_outcome (plan : Plan) :
    (∃ e, plan.prepare.run = some (.error e)) ∨ ∃ tree draft, plan.Ready tree draft := by
  cases source_settled plan with
  | made source done met => exact ready_of_referred fun earlier _ => met earlier
  | refused condition e stopped blamed failed met =>
    cases condition with
    | config =>
      obtain ⟨cause, refused, _⟩ := blamed
      exact .inl ⟨_, prepare_of_config refused⟩
    | labels =>
      have unlabelled : plan.labels.labels = [] := Decidable.not_not.mp failed
      exact .inl ⟨_, prepare_of_no_labels (met .config (by decide)) unlabelled⟩
    | tree =>
      obtain ⟨cause, refused, _⟩ := blamed
      exact .inl ⟨_, prepare_of_table (met .config (by decide)) (met .labels (by decide)) refused⟩
    | references =>
      obtain ⟨cause, refused, _⟩ := blamed
      exact .inl ⟨_, prepare_of_references (met .config (by decide)) (met .labels (by decide))
        (met .tree (by decide)) refused⟩
    | names => exact ready_of_referred met
    | thresholds =>
      apply ready_of_referred
      intro earlier less
      exact met earlier (Nat.lt_trans less (by decide))

structure Made (plan : Plan) (source : Source) (tree : DecisionTree) (draft : Draft)
    (printed : Body) : Prop where
  met : ∀ condition, plan.Meets condition
  represents : plan.table.Represents tree
  refers : tree.Refers plan.features plan.labels
  drafted : tree.draft? plan.features plan.labels = some draft
  done : draft.print plan.config 1 = .ok printed
  assembled : source = plan.assemble ((firstUses tree.tests).filterMap plan.features.name?) printed

theorem source_made {source : Source} (made : plan.source.run = some (.ok source)) :
    ∃ tree draft printed, plan.Made source tree draft printed := by
  have met : ∀ condition, plan.Meets condition := by
    cases source_settled plan with
    | made _ _ met => exact met
    | refused _ e stopped _ _ _ =>
      rw [stopped] at made
      cases made
  rcases ready_of_referred fun earlier _ => met earlier with ⟨e, refused⟩ | ⟨tree, draft, ready⟩
  · rw [source_of_refused refused] at made
    cases made
  · rw [ready.source] at made
    cases done : draft.print plan.config 1 with
    | ok printed =>
      rw [done] at made
      cases made
      exact ⟨tree, draft, printed, met, ready.represents, ready.refers, ready.drafted, done, rfl⟩
    | error e =>
      rw [done] at made
      cases made

/-- Nothing is missing any more while the source is written. The parameters have their names,
a leaf has its statements and a split its parts; only a threshold within the depth limit can
stop the body. -/
structure NoLateFailure (plan : Plan) : Prop where
  parameters : ∃ names, plan.parameters.run = some (.ok names)
  leaves : ∀ node, plan.table.isLeaf[node]? = some true →
    ∃ statements, (plan.leafStatements node).run = some (.ok statements)
  splits : ∀ node, plan.table.isLeaf[node]? = some false →
    ∃ threshold parts, plan.table.threshold[node]? = some threshold ∧
      (plan.split node).run = some (if threshold.FitsSingle then .ok parts
        else .error (.formattingOverflow threshold plan.config.decimalPlaces))
  body : ∃ body fault, plan.body = some (body, fault) ∧ ∀ e, fault = some e →
    ∃ node threshold, plan.OverLimit node threshold ∧
      e = .formattingOverflow threshold plan.config.decimalPlaces

theorem no_late_failure (config : plan.Meets .config) (represents : plan.table.Represents tree)
    (refers : tree.Refers plan.features plan.labels) : plan.NoLateFailure := by
  have few := (Config.sound_of_check config).few
  have checked := represents.unfolds.references_ok_iff.mpr refers
  have rows : ∀ node kind, plan.table.isLeaf[node]? = some kind →
      (∃ payload, plan.table.LeafRow node payload ∧ payload.Fits plan.labels) ∨
        ∃ feature threshold l r, plan.table.SplitRow node feature threshold l r ∧
          plan.features.contains feature = true := by
    intro node kind found
    obtain ⟨inside, _⟩ := Array.getElem?_eq_some_iff.mp found
    have member := represents.covers node inside
    have passed := checked node member
    rcases represents.unfolds.row_of_mem member with
      ⟨payload, row⟩ | ⟨feature, threshold, l, r, row, _⟩
    · rw [row.checkReference_run] at passed
      exact .inl ⟨payload, row, Leaf.check_ok_iff.mp (Option.some.inj passed)⟩
    · rw [row.checkReference_run] at passed
      refine .inr ⟨feature, threshold, l, r, row, ?_⟩
      by_cases known : plan.features.contains feature = true
      · exact known
      · rw [if_neg known] at passed
        cases passed
  refine ⟨⟨_, parameters_run represents refers⟩, ?_, ?_, ?_⟩
  · intro node is_leaf
    rcases rows node true is_leaf with ⟨payload, row, fits⟩ | ⟨_, _, _, _, row, _⟩
    · obtain ⟨position, resolved⟩ := Option.isSome_iff_exists.mp fits.resolves
      have inside : position < plan.labels.labels.length := Leaf.resolve_lt resolved
      exact ⟨_, leafStatements_run row fits resolved (List.getElem?_eq_getElem inside) few⟩
    · rw [row.isLeaf] at is_leaf
      cases is_leaf
  · intro node is_split
    rcases rows node false is_split with ⟨payload, row, _⟩ | ⟨_, threshold, _, _, row, known⟩
    · rw [row.isLeaf] at is_split
      cases is_split
    · obtain ⟨name, named⟩ := Option.isSome_iff_exists.mp known
      exact ⟨threshold, _, row.threshold, split_run row named few⟩
  · obtain ⟨body, fault, written, settled⟩ := body_settled few represents refers
    refine ⟨body, fault, written, ?_⟩
    rintro e rfl
    obtain ⟨_, node, _, x, _, beyond, _, same⟩ := settled
    exact ⟨node, x, beyond, same⟩

/-- Generation always comes to an outcome. There is a source exactly when all six conditions are
met; otherwise the error is that of the first one that is not. Once the first four are met, the only
failure left while writing is a threshold without a literal. -/
theorem source_verdict (plan : Plan) :
    (∃ outcome, plan.source.run = some outcome) ∧
    ((∃ source, plan.source.run = some (.ok source)) ↔ ∀ condition, plan.Meets condition) ∧
    (∀ condition, ¬ plan.Meets condition →
      (∀ earlier : Condition, earlier.rank < condition.rank → plan.Meets earlier) →
      ∃ e, plan.Blames condition e ∧ plan.source.run = some (.error e)) ∧
    ((∀ earlier : Condition, earlier.rank < Condition.names.rank → plan.Meets earlier) →
      plan.NoLateFailure) := by
  refine ⟨?_, ?_, ?_, ?_⟩
  · cases source_settled plan with
    | made source done _ => exact ⟨_, done⟩
    | refused _ e stopped _ _ _ => exact ⟨_, stopped⟩
  · cases source_settled plan with
    | made source done met => exact ⟨fun _ => met, fun _ => ⟨source, done⟩⟩
    | refused condition e stopped _ failed _ =>
      refine ⟨?_, fun all => absurd (all condition) failed⟩
      rintro ⟨source, done⟩
      rw [stopped] at done
      cases done
  · intro condition failed first
    cases source_settled plan with
    | made source done met => exact absurd (met condition) failed
    | refused other e stopped blamed missed met =>
      have same : other = condition := by
        apply Condition.rank_injective
        rcases Nat.lt_trichotomy other.rank condition.rank with less | same | more
        · exact absurd (first other less) missed
        · exact same
        · exact absurd (met condition more) failed
      exact ⟨e, same ▸ blamed, stopped⟩
  · intro met
    obtain ⟨tree, represents⟩ := NodeTable.validate_ok_iff.mp (met .tree (by decide))
    exact no_late_failure (met .config (by decide)) represents
      (represents.validateReferences_ok_iff.mp (met .references (by decide)))

end Plan

end DecisionTreeC
