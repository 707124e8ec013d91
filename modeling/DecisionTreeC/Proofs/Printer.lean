import DecisionTreeC.Proofs.Scope

/-!
The body as a text, written by recursion over the tree. Each node gives its lines at its depth, a
split around those of its two branches; nothing is pending and no depths are looked up. The emitter
with its frames gives the same text and the same records, or stops at the same error.
-/
namespace DecisionTreeC

open Code

structure Printout where
  text : String
  cuts : List Truncation
  deriving DecidableEq

def indented (config : Config) (depth : Nat) (text : String) : String :=
  String.ofList (List.replicate (depth * config.indentWidth) ' ') ++ text ++ "\n"

def weightsLine (config : Config) (depth : Nat) :
    Option (List Double) → ExceptT SourceError Option String
  | none => pure ""
  | some weights =>
    if config.classWeights then do
      let texts ← weights.mapM (weightText · config.decimalPlaces)
      pure (indented config depth ("/* weights: [" ++ ", ".intercalate texts ++ "] */"))
    else pure ""

def DecisionTree.printout (features : FeatureSet) (labels : LabelSet) (config : Config) :
    DecisionTree → Nat → ExceptT SourceError Option Printout
  | .leaf node payload, depth =>
    match (payload.resolve? labels).bind labels.get? with
    | none => throw (.malformedTree (.unknownClass node payload.verdict))
    | some label => do
      let weights ← weightsLine config depth payload.weights
      pure ⟨weights ++ indented config depth ("ret = " ++ label ++ ";"), []⟩
  | .split node feature threshold left right, depth =>
    if config.maxDepth + 1 < depth then
      let height := (DecisionTree.split node feature threshold left right).height
      pure ⟨indented config depth ("#warning truncated branch of depth " ++ toString height),
        [⟨node, depth, height⟩]⟩
    else
      match features.name? feature with
      | none => throw (.malformedTree (.unknownFeature node feature))
      | some name => do
        let literal ← thresholdLiteral threshold config.decimalPlaces
        let first ← left.printout features labels config (depth + 1)
        let second ← right.printout features labels config (depth + 1)
        pure
          { text :=
              indented config depth ("if (" ++ name ++ " <= " ++ literal ++ ")") ++
              indented config depth "\x7b" ++ first.text ++ indented config depth "\x7d" ++
              indented config depth ("else /* " ++ name ++ " > " ++ literal ++ " */") ++
              indented config depth "\x7b" ++ second.text ++ indented config depth "\x7d"
            cuts := first.cuts ++ second.cuts }

namespace Body

variable {config : Config}

def printout (config : Config) (body : Body) : Printout :=
  ⟨body.render config.indentWidth, body.truncations.toList⟩

theorem render_join (a b : Body) (width : Nat) :
    (a.join b).render width = a.render width ++ b.render width := by
  change Line.renderAll width (a.join b).written = _
  rw [written_join, renderAll_append]
  rfl

theorem render_nil (depth : Nat) : (empty.write depth []).render config.indentWidth = "" := rfl

theorem render_cons (depth : Nat) (s : Statement) (rest : List Statement) :
    (empty.write depth (s :: rest)).render config.indentWidth =
      indented config depth s.text ++ (empty.write depth rest).render config.indentWidth := by
  change Line.renderAll config.indentWidth (empty.write depth (s :: rest)).written =
    _ ++ Line.renderAll config.indentWidth (empty.write depth rest).written
  rw [written_write, written_write, List.map_cons, Line.renderAll, List.map_cons, String.join_cons]
  rfl

theorem printout_cut (t : Truncation) :
    (empty.cut t).printout config =
      ⟨indented config t.depth ("#warning truncated branch of depth " ++ toString t.subtreeDepth),
        [t]⟩ := by
  have text : (empty.cut t).render config.indentWidth =
      indented config t.depth (Statement.warning t.subtreeDepth).text ++ "" :=
    render_cons t.depth (.warning t.subtreeDepth) []
  rw [printout, text, String.append_empty]
  rfl

theorem printout_branch (depth : Nat) (name literal : String) (first second : Body) :
    (Draft.branch depth name literal first second).printout config =
      { text :=
          indented config depth ("if (" ++ name ++ " <= " ++ literal ++ ")") ++
          indented config depth "\x7b" ++ (first.printout config).text ++
            indented config depth "\x7d" ++
          indented config depth ("else /* " ++ name ++ " > " ++ literal ++ " */") ++
          indented config depth "\x7b" ++ (second.printout config).text ++
            indented config depth "\x7d"
        cuts := (first.printout config).cuts ++ (second.printout config).cuts } := by
  have head : (empty.write depth [.test name literal, .opening]).render config.indentWidth =
      indented config depth ("if (" ++ name ++ " <= " ++ literal ++ ")") ++
        indented config depth "\x7b" := by
    rw [render_cons, render_cons, render_nil, String.append_empty]
    rfl
  have turn :
      (empty.write depth [.closing, .otherwise name literal, .opening]).render config.indentWidth =
      indented config depth "\x7d" ++
        (indented config depth ("else /* " ++ name ++ " > " ++ literal ++ " */") ++
          indented config depth "\x7b") := by
    rw [render_cons, render_cons, render_cons, render_nil, String.append_empty]
    rfl
  have last : (empty.write depth [.closing]).render config.indentWidth =
      indented config depth "\x7d" := by
    rw [render_cons, render_nil, String.append_empty]
    rfl
  rw [printout, Draft.branch_truncations, Array.toList_append, Draft.branch, render_join,
    render_join, render_join, render_join, head, turn, last]
  simp only [printout, String.append_assoc]

end Body

theorem leaf_printout {config : Config} (few : config.decimalPlaces ≤ Binary.maxPlaces)
    (label : String) {weights : Option (List Double)}
    (finite : ∀ values, weights = some values → ∀ w ∈ values, w.isFinite = true) (depth : Nat) :
    ∃ text, (weightsLine config depth weights).run = some (.ok text) ∧
      (Body.empty.write depth (Draft.leafStatements config label weights)).printout config =
        ⟨text ++ indented config depth ("ret = " ++ label ++ ";"), []⟩ := by
  have assigned : (Body.empty.write depth [.assign label]).render config.indentWidth =
      indented config depth ("ret = " ++ label ++ ";") := by
    rw [Body.render_cons, Body.render_nil, String.append_empty]
    rfl
  have alone : (Body.empty.write depth [.assign label]).printout config =
      ⟨"" ++ indented config depth ("ret = " ++ label ++ ";"), []⟩ := by
    rw [Body.printout, assigned, String.empty_append]
    rfl
  unfold weightsLine Draft.leafStatements
  cases weights with
  | none =>
    refine ⟨"", rfl, ?_⟩
    cases config.classWeights <;> exact alone
  | some values =>
    cases config.classWeights with
    | false => exact ⟨"", rfl, alone⟩
    | true =>
      have texts : (values.mapM (weightText · config.decimalPlaces)).run =
          some (.ok (values.map (·.fixed config.decimalPlaces))) :=
        run_mapM_ok fun w member => weightText_run few (finite values rfl w member)
      refine ⟨_, run_bind_ok texts _, ?_⟩
      dsimp only
      rw [Body.printout, Body.render_cons, assigned]
      rfl

namespace DecisionTree

theorem printout_draft {features : FeatureSet} {labels : LabelSet} {config : Config}
    (few : config.decimalPlaces ≤ Binary.maxPlaces) {tree : DecisionTree}
    (refers : tree.Refers features labels) {draft : Draft}
    (drafted : tree.draft? features labels = some draft) (depth : Nat) :
    (tree.printout features labels config depth).run =
      some ((draft.print config depth).map (Body.printout config)) := by
  induction tree generalizing draft depth with
  | leaf node payload =>
    simp only [draft?, Option.bind_eq_bind, Option.bind_eq_some_iff] at drafted
    obtain ⟨position, resolved, label, labelled, made⟩ := drafted
    cases made
    obtain ⟨text, remark, printed⟩ := leaf_printout few label refers.finite depth
    rw [printout, resolved, Option.bind_some, labelled, Draft.print, Except.map, printed]
    exact run_bind_ok remark _
  | split node feature threshold left right ihl ihr =>
    obtain ⟨known, left_refers, right_refers⟩ := refers
    simp only [draft?, Option.bind_eq_bind, Option.bind_eq_some_iff] at drafted
    obtain ⟨name, named, left_draft, left_drafted, right_draft, right_drafted, made⟩ := drafted
    cases made
    rw [printout, Draft.print]
    by_cases deep : config.maxDepth + 1 < depth
    · rw [if_pos deep, if_pos deep, draft_height left_drafted, draft_height right_drafted,
        Except.map, Body.printout_cut]
      rfl
    rw [if_neg deep, if_neg deep, named]
    have literal := @thresholdLiteral_run threshold _ few
    by_cases fits : threshold.FitsSingle
    · rw [if_pos fits] at literal ⊢
      rw [run_bind_ok literal]
      have first := ihl left_refers left_drafted (depth + 1)
      have second := ihr right_refers right_drafted (depth + 1)
      cases left_print : left_draft.print config (depth + 1) with
      | error e =>
        rw [left_print] at first
        exact run_bind_error first _
      | ok one =>
        rw [left_print] at first
        rw [run_bind_ok first]
        cases right_print : right_draft.print config (depth + 1) with
        | error e =>
          rw [right_print] at second
          exact run_bind_error second _
        | ok two =>
          rw [right_print] at second
          rw [run_bind_ok second]
          exact congrArg (some ∘ Except.ok) (Body.printout_branch depth name _ one two).symm
    · rw [if_neg fits] at literal ⊢
      exact run_bind_error literal _

end DecisionTree

namespace Plan

def emitted (plan : Plan) : Option (Except SourceError Printout) :=
  plan.body.map fun (body, fault) =>
    match fault with
    | none => .ok (body.printout plan.config)
    | some e => .error e

theorem emitted_draft {plan : Plan} {tree : DecisionTree} {draft : Draft}
    (ready : plan.Ready tree draft) :
    plan.emitted = some ((draft.print plan.config 1).map (Body.printout plan.config)) := by
  have written := body_draft ready.sound.few ready.represents ready.refers ready.drafted
  cases printed : draft.print plan.config 1 with
  | ok body =>
    rw [printed] at written
    rw [emitted, show plan.body = some (body, none) from written]
    rfl
  | error e =>
    rw [printed] at written
    obtain ⟨partly, stopped⟩ := written
    rw [emitted, stopped]
    rfl

theorem assemble_printout (plan : Plan) (parameters : List String) (body : Body) :
    plan.assemble parameters body = { plan.assemble parameters .empty with
      body := (body.printout plan.config).text
      truncations := (body.printout plan.config).cuts } := by
  simp only [assemble, Body.printout]

/-- A plan that passed the checks before the body. The emitter comes to an end with what the
recursive printer gives at the root, a text with its records or an error, and the source is made
with it. -/
theorem emit_recursive {plan : Plan} {parameters : List String}
    (passed : plan.prepare.run = some (.ok parameters)) :
    ∃ tree outcome, plan.table.Represents tree ∧
      (tree.printout plan.features plan.labels plan.config 1).run = some outcome ∧
      plan.emitted = some outcome ∧
      plan.source.run = some (outcome.map fun printed =>
        { plan.assemble parameters .empty with
          body := printed.text, truncations := printed.cuts }) := by
  rcases plan.prepare_outcome with ⟨e, refused⟩ | ⟨tree, draft, ready⟩
  · rw [refused] at passed
    cases passed
  have same := passed.symm.trans ready.passed
  cases same
  refine ⟨tree, _, ready.represents,
    DecisionTree.printout_draft ready.sound.few ready.refers ready.drafted 1,
    emitted_draft ready, ?_⟩
  rw [ready.source]
  cases draft.print plan.config 1 with
  | error e => rfl
  | ok body => exact congrArg (fun made => some (Except.ok made)) (assemble_printout plan _ body)

def sampleTree : DecisionTree :=
  .split 0 7 (sample.table.threshold[0]?.getD .zero) (.leaf 1 (.ofLabel "high"))
    (.split 2 2 .zero (.leaf 3 (.ofIndex 0)) (.leaf 4 (.ofIndex 1)))

theorem sample_unfolds : sample.table.Unfolds 0 sampleTree :=
  .split ⟨rfl, rfl, rfl, rfl, rfl⟩ (.leaf ⟨rfl, rfl, rfl, rfl⟩)
    (.split ⟨rfl, rfl, rfl, rfl, rfl⟩ (.leaf ⟨rfl, rfl, rfl, rfl⟩) (.leaf ⟨rfl, rfl, rfl, rfl⟩))

theorem sample_emitted :
    sample.prepare.run = some (.ok ["x", "y"]) ∧
    sample.emitted = some (.ok
      { text := "    if (x <= -1.500000f)\n    \x7b\n        ret = high;\n    \x7d\n" ++
          "    else /* x > -1.500000f */\n    \x7b\n" ++
          "        #warning truncated branch of depth 2\n    \x7d\n"
        cuts := [⟨2, 2, 2⟩] }) := by
  have passed : sample.prepare.run = some (.ok ["x", "y"]) := by decide +kernel
  obtain ⟨tree, outcome, represents, printed, emitted, _⟩ := emit_recursive passed
  rw [represents.unfolds.unique sample_unfolds] at printed
  refine ⟨passed, emitted.trans (printed.symm.trans ?_)⟩
  decide +kernel

end Plan

end DecisionTreeC
