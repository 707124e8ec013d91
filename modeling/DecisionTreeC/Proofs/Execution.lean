import DecisionTreeC.Proofs.Verdict
import DecisionTreeC.Proofs.Written

/-!
The body as it is executed. A run of statements yields the commands performed and the directives
met, each directive with its place among all directives of the text. The printed draft of a tree
reads back as nested choices, one directive for each branch that was cut off.
-/
namespace DecisionTreeC

namespace Code

inductive Event where
  | command (c : Command)
  | directive (place : Nat) (text : String)
  deriving DecidableEq, Repr

namespace Block

def directives : Block → List String
  | .done => []
  | .command _ rest => rest.directives
  | .directive text rest => text :: rest.directives
  | .choice _ _ yes no rest => yes.directives ++ no.directives ++ rest.directives

/-- The events of a block with `place` directives before it, followed by those of the code behind
it. A return leaves everything behind it out. -/
def run (decide : String → String → Bool) : Block → Nat → List Event → List Event
  | .done, _, after => after
  | .command (.give name) _, _, _ => [.command (.give name)]
  | .command c rest, place, after => .command c :: rest.run decide place after
  | .directive text rest, place, after => .directive place text :: rest.run decide (place + 1) after
  | .choice name literal yes no rest, place, after =>
    let middle := place + yes.directives.length
    let behind := rest.run decide (middle + no.directives.length) after
    if decide name literal then yes.run decide place behind else no.run decide middle behind

/-- The event sequences of all control paths, whatever each condition turns out to be. -/
def paths : Block → Nat → List (List Event) → List (List Event)
  | .done, _, after => after
  | .command (.give name) _, _, _ => [[.command (.give name)]]
  | .command c rest, place, after => (rest.paths place after).map (.command c :: ·)
  | .directive text rest, place, after =>
    (rest.paths (place + 1) after).map (.directive place text :: ·)
  | .choice _ _ yes no rest, place, after =>
    let middle := place + yes.directives.length
    let behind := rest.paths (middle + no.directives.length) after
    yes.paths place behind ++ no.paths middle behind

end Block

end Code

open Code

theorem FeatureSet.name_identifier {features : FeatureSet} {index : Nat} {name : String}
    (found : features.name? index = some name) : isIdentifier name = true := by
  obtain ⟨before, after, entries, _⟩ := List.lookup_eq_some_iff.mp found
  exact features.identifiers (index, name) (by simp [entries])

theorem LabelSet.get_identifier {labels : LabelSet} {index : Nat} {label : String}
    (found : labels.get? index = some label) : isIdentifier label = true :=
  labels.identifiers label (List.mem_of_getElem? found)

namespace Draft

def Named : Draft → Prop
  | .leaf _ label _ => isIdentifier label = true
  | .split _ name _ left right => isIdentifier name = true ∧ left.Named ∧ right.Named

def block (config : Config) : Draft → Nat → Block
  | .leaf _ label _, _ => .command (.assign resultName label) .done
  | .split _ name threshold left right, depth =>
    if config.maxDepth + 1 < depth then
      .directive (Statement.warning (1 + max left.height right.height)).text .done
    else
      .choice name (literalText threshold config.decimalPlaces) (left.block config (depth + 1))
        (right.block config (depth + 1)) .done

theorem print_split {config : Config} {node : NodeId} {name : String} {threshold : Double}
    {left right : Draft} {depth : Nat} {printed : Body}
    (done : (Draft.split node name threshold left right).print config depth = .ok printed) :
    (config.maxDepth + 1 < depth ∧
      printed = Body.empty.cut ⟨node, depth, 1 + max left.height right.height⟩) ∨
    (¬ config.maxDepth + 1 < depth ∧ threshold.FitsSingle ∧ ∃ first second,
      left.print config (depth + 1) = .ok first ∧ right.print config (depth + 1) = .ok second ∧
      printed = branch depth name (literalText threshold config.decimalPlaces) first second) := by
  rw [print] at done
  by_cases deep : config.maxDepth + 1 < depth
  · rw [if_pos deep] at done
    exact .inl ⟨deep, (Except.ok.inj done).symm⟩
  · rw [if_neg deep] at done
    by_cases fits : threshold.FitsSingle
    · rw [if_pos fits] at done
      cases first : left.print config (depth + 1) with
      | error e => rw [first] at done; cases done
      | ok out =>
        cases second : right.print config (depth + 1) with
        | error e => rw [first, second] at done; cases done
        | ok out' =>
          rw [first, second] at done
          exact .inr ⟨deep, fits, out, out', rfl, rfl, (Except.ok.inj done).symm⟩
    · rw [if_neg fits] at done
      cases done

end Draft

theorem DecisionTree.draft_named {features : FeatureSet} {labels : LabelSet} {tree : DecisionTree}
    {draft : Draft} (drafted : tree.draft? features labels = some draft) : draft.Named := by
  induction tree generalizing draft with
  | leaf node payload =>
    simp only [draft?, Option.bind_eq_bind, Option.bind_eq_some_iff] at drafted
    obtain ⟨_, _, _, found, made⟩ := drafted
    cases made
    exact LabelSet.get_identifier found
  | split node feature threshold left right ihl ihr =>
    simp only [draft?, Option.bind_eq_bind, Option.bind_eq_some_iff] at drafted
    obtain ⟨_, named, _, left_drafted, _, right_drafted, made⟩ := drafted
    cases made
    exact ⟨FeatureSet.name_identifier named, ihl left_drafted, ihr right_drafted⟩

namespace Body

def written (body : Body) : List Line := body.lines.toList.map fun (level, s) => ⟨level, s.text⟩

theorem written_join (a b : Body) : (a.join b).written = a.written ++ b.written := by
  simp [written, join]

theorem written_write (level : Nat) (statements : List Statement) :
    (empty.write level statements).written = statements.map fun s => ⟨level, s.text⟩ := by
  simp [written, write, empty]

theorem written_cut (t : Truncation) :
    (empty.cut t).written = [⟨t.depth, (Statement.warning t.subtreeDepth).text⟩] := by
  simp [written, cut, write, empty]

end Body

namespace Draft

theorem leaf_reads {config : Config} (positive : 0 < config.decimalPlaces) {label : String}
    (valid : isIdentifier label = true) (weights : Option (List Double)) (depth : Nat) :
    ∃ ts, Lists ((leafStatements config label weights).map fun s => ⟨depth, s.text⟩) ts ∧
      Reads ts (.command (.assign resultName label) .done) := by
  have command : command? [.word resultName, .mark '=', .word label] =
      some (.assign resultName label) := by
    have result : isIdentifier resultName = true := by decide
    simp [command?, valid, result]
  have assigned := Lists.cons depth (scan_assign valid) lists_nil
  have reads := Reads.command command (by simp [Token.isPlain])
  rw [List.append_nil] at assigned
  unfold leafStatements
  split
  · rename_i values _
    obtain ⟨remark, weighted⟩ := scan_weights (unbroken_weights positive values)
    exact ⟨_, .cons depth weighted assigned, (Reads.comment remark).append reads⟩
  · exact ⟨_, assigned, reads⟩

theorem print_reads {config : Config} (positive : 0 < config.decimalPlaces) {draft : Draft}
    (named : draft.Named) {depth : Nat} {printed : Body}
    (done : draft.print config depth = .ok printed) :
    ∃ ts, Lists printed.written ts ∧ Reads ts (draft.block config depth) := by
  induction draft generalizing depth printed with
  | leaf node label weights =>
    cases done
    rw [Body.written_write]
    exact leaf_reads positive named weights depth
  | split node name threshold left right ihl ihr =>
    obtain ⟨valid, left_named, right_named⟩ := named
    rcases print_split done with
      ⟨deep, rfl⟩ | ⟨shallow, _, first, second, left_done, right_done, rfl⟩
    · rw [Body.written_cut, block, if_pos deep]
      have warned := Lists.cons depth (scan_warning (1 + max left.height right.height)) lists_nil
      exact ⟨_, warned, Reads.directive _⟩
    · obtain ⟨s, left_lists, left_reads⟩ := ihl left_named left_done
      obtain ⟨t, right_lists, right_reads⟩ := ihr right_named right_done
      obtain ⟨head, tested, condition, plain⟩ := scan_test valid threshold positive
      obtain ⟨remark, turned⟩ := scan_otherwise valid threshold positive
      have opened : scan .lineStart (Statement.opening.text ++ "\n").toList =
        some (.lineStart, [.opening]) := rfl
      have closed : scan .lineStart (Statement.closing.text ++ "\n").toList =
        some (.lineStart, [.closing]) := rfl
      have lists :=
        ((Lists.cons depth tested (.cons depth opened lists_nil)).append left_lists).append
        (((Lists.cons depth closed (.cons depth turned (.cons depth opened lists_nil))).append
          right_lists).append (.cons depth closed lists_nil))
      have reads := @Reads.choice _ _ _ _ _ remark _ _ condition plain left_reads right_reads
      rw [block, if_neg shallow, branch]
      simp only [Body.written_join, Body.written_write, List.map_cons, List.map_nil]
      simp only [List.append_assoc, List.cons_append, List.nil_append] at lists reads ⊢
      exact ⟨_, lists, reads⟩

theorem branch_truncations (depth : Nat) (name literal : String) (first second : Body) :
    (branch depth name literal first second).truncations =
      first.truncations ++ second.truncations := by
  simp [branch, Body.join, Body.write, Body.empty]

theorem print_directives {config : Config} {draft : Draft} {depth : Nat} {printed : Body}
    (done : draft.print config depth = .ok printed) :
    (draft.block config depth).directives =
      printed.truncations.toList.map fun t => (Statement.warning t.subtreeDepth).text := by
  induction draft generalizing depth printed with
  | leaf node label weights =>
    cases done
    rfl
  | split node name threshold left right ihl ihr =>
    rcases print_split done with
      ⟨deep, rfl⟩ | ⟨shallow, _, first, second, left_done, right_done, rfl⟩
    · rw [block, if_pos deep]
      rfl
    · rw [block, if_neg shallow, branch_truncations, Array.toList_append, List.map_append,
        ← ihl left_done, ← ihr right_done]
      simp [Block.directives]

end Draft

theorem DecisionTree.truncations_sublist {features : FeatureSet} {labels : LabelSet}
    {config : Config} {tree : DecisionTree} {draft : Draft}
    (drafted : tree.draft? features labels = some draft) {depth : Nat} {printed : Body}
    (done : draft.print config depth = .ok printed) :
    (printed.truncations.toList.map (·.node)).Sublist tree.nodes := by
  induction tree generalizing draft depth printed with
  | leaf node payload =>
    simp only [draft?, Option.bind_eq_bind, Option.bind_eq_some_iff] at drafted
    obtain ⟨_, _, _, _, made⟩ := drafted
    cases made
    cases done
    exact List.nil_sublist _
  | split node feature threshold left right ihl ihr =>
    simp only [draft?, Option.bind_eq_bind, Option.bind_eq_some_iff] at drafted
    obtain ⟨_, _, _, left_drafted, _, right_drafted, made⟩ := drafted
    cases made
    rcases Draft.print_split done with ⟨_, rfl⟩ | ⟨_, _, first, second, left_done, right_done, rfl⟩
    · exact List.Sublist.cons_cons node (List.nil_sublist _)
    · rw [Draft.branch_truncations, Array.toList_append, List.map_append, nodes]
      exact .cons node ((ihl left_drafted left_done).append (ihr right_drafted right_done))

namespace Plan.Made

variable {plan : Plan} {source : Source} {tree : DecisionTree} {draft : Draft} {printed : Body}

theorem sound (made : plan.Made source tree draft printed) : plan.config.Sound :=
  Config.sound_of_check (made.met .config)

theorem statements (made : plan.Made source tree draft printed) :
    statements? source.body = some (draft.block plan.config 1) := by
  obtain ⟨ts, lists, reads⟩ := Draft.print_reads made.sound.positive
    (DecisionTree.draft_named made.drafted) made.done
  rw [made.assembled]
  exact statements_of_reads (tokens_of_lists lists plan.config.indentWidth) reads

theorem definition (made : plan.Made source tree draft printed) :
    definition? source.typeDeclaration =
      some (plan.config.typeName, plan.labels.labels.zipIdx) := by
  rw [made.assembled]
  simp only [assemble]
  exact definition_typeDeclaration (made.met .labels) made.sound.typeName _

end Plan.Made

end DecisionTreeC
