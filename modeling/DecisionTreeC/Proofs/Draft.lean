import DecisionTreeC.Proofs.Literal
import DecisionTreeC.Proofs.References
import DecisionTreeC.Source.Body

/-!
The body by plain recursion. A draft is a decision tree with its names filled in; it is printed
branch by branch, with no pending frames. The frames of the emitter produce the same body, or stop
at the same error.
-/
namespace DecisionTreeC

/-- A tree ready to be written: splits by the name of their feature, leaves by their label. -/
inductive Draft where
  | leaf (node : NodeId) (label : String) (weights : Option (List Double))
  | split (node : NodeId) (name : String) (threshold : Double) (left right : Draft)

def DecisionTree.draft? (features : FeatureSet) (labels : LabelSet) : DecisionTree → Option Draft
  | .leaf node payload => do
    let position ← payload.resolve? labels
    let label ← labels.get? position
    pure (.leaf node label payload.weights)
  | .split node feature threshold left right => do
    let name ← features.name? feature
    let first ← left.draft? features labels
    let second ← right.draft? features labels
    pure (.split node name threshold first second)

namespace Body

def join (a b : Body) : Body := ⟨a.lines ++ b.lines, a.truncations ++ b.truncations⟩

theorem join_assoc (a b c : Body) : (a.join b).join c = a.join (b.join c) := by
  simp [join, Array.append_assoc]

theorem empty_join (a : Body) : empty.join a = a := by
  simp [join, empty]

theorem write_eq_join (body : Body) (level : Nat) (statements : List Statement) :
    body.write level statements = body.join (empty.write level statements) := by
  rw [write, join, write]
  congr 1
  · apply Array.toList_inj.mp
    simp only [empty, Array.toList_append, Array.toList_appendList, List.nil_append]

theorem cut_eq_join (body : Body) (t : Truncation) : body.cut t = body.join (empty.cut t) := by
  rw [cut, write_eq_join, cut]
  simp [join, empty]

end Body

namespace Draft

def height : Draft → Nat
  | .leaf .. => 1
  | .split _ _ _ left right => 1 + max left.height right.height

def leafStatements (config : Config) (label : String) (weights : Option (List Double)) :
    List Statement :=
  match config.classWeights, weights with
  | true, some weights => [.weights (weights.map (·.fixed config.decimalPlaces)), .assign label]
  | _, _ => [.assign label]

def branch (depth : Nat) (name literal : String) (first second : Body) : Body :=
  (Body.empty.write depth [.test name literal, .opening]).join
    (first.join
      ((Body.empty.write depth [.closing, .otherwise name literal, .opening]).join
        (second.join (Body.empty.write depth [.closing]))))

def print (config : Config) : Draft → Nat → Except SourceError Body
  | .leaf _ label weights, depth =>
    .ok (Body.empty.write depth (leafStatements config label weights))
  | .split node name threshold left right, depth =>
    if config.maxDepth + 1 < depth then
      .ok (Body.empty.cut ⟨node, depth, 1 + max left.height right.height⟩)
    else if threshold.FitsSingle then do
      let first ← left.print config (depth + 1)
      let second ← right.print config (depth + 1)
      pure (branch depth name (literalText threshold config.decimalPlaces) first second)
    else .error (.formattingOverflow threshold config.decimalPlaces)

end Draft

namespace DecisionTree

theorem draft_height {features : FeatureSet} {labels : LabelSet} {tree : DecisionTree}
    {draft : Draft} (drafted : tree.draft? features labels = some draft) :
    draft.height = tree.height := by
  induction tree generalizing draft with
  | leaf node payload =>
    simp only [draft?, Option.bind_eq_bind, Option.bind_eq_some_iff] at drafted
    obtain ⟨_, _, _, _, made⟩ := drafted
    cases made
    rfl
  | split node feature threshold left right ihl ihr =>
    simp only [draft?, Option.bind_eq_bind, Option.bind_eq_some_iff] at drafted
    obtain ⟨_, _, first, left_drafted, second, right_drafted, made⟩ := drafted
    cases made
    rw [Draft.height, height, ihl left_drafted, ihr right_drafted]

end DecisionTree

theorem DecisionTree.Refers.drafted {features : FeatureSet} {labels : LabelSet}
    {tree : DecisionTree} (refers : tree.Refers features labels) :
    ∃ draft, tree.draft? features labels = some draft := by
  induction tree with
  | leaf node payload =>
    obtain ⟨position, resolved⟩ := Option.isSome_iff_exists.mp refers.resolves
    have inside : position < labels.labels.length := Leaf.resolve_lt resolved
    exact ⟨.leaf node labels.labels[position] payload.weights, by
      simp [draft?, resolved, LabelSet.get?, List.getElem?_eq_getElem inside]⟩
  | split node feature threshold left right ihl ihr =>
    obtain ⟨known, left_refers, right_refers⟩ := refers
    obtain ⟨name, named⟩ := Option.isSome_iff_exists.mp known
    obtain ⟨first, left_drafted⟩ := ihl left_refers
    obtain ⟨second, right_drafted⟩ := ihr right_refers
    exact ⟨.split node name threshold first second, by
      simp [draft?, named, left_drafted, right_drafted]⟩

namespace Plan

variable {plan : Plan}

theorem leafStatements_run {node : NodeId} {payload : Leaf} {position : Nat} {label : String}
    (row : plan.table.LeafRow node payload) (fits : payload.Fits plan.labels)
    (resolved : payload.resolve? plan.labels = some position)
    (labelled : plan.labels.get? position = some label)
    (few : plan.config.decimalPlaces ≤ Binary.maxPlaces) :
    (plan.leafStatements node).run =
      some (.ok (Draft.leafStatements plan.config label payload.weights)) := by
  have found : (payload.resolve? plan.labels).bind plan.labels.get? = some label := by
    rw [resolved, Option.bind_some, labelled]
  unfold leafStatements Draft.leafStatements
  rw [row.leaf?, run_lift_bind]
  dsimp only
  rw [found]
  dsimp only
  cases plan.config.classWeights with
  | false => rfl
  | true =>
    cases weighted : payload.weights with
    | none => rfl
    | some weights =>
      have texts : (weights.mapM (weightText · plan.config.decimalPlaces)).run =
          some (.ok (weights.map (·.fixed plan.config.decimalPlaces))) :=
        run_mapM_ok fun w member => weightText_run few (fits.finite weights weighted w member)
      exact run_bind_ok texts _

theorem split_run {node l r feature : Nat} {threshold : Double} {name : String}
    (row : plan.table.SplitRow node feature threshold l r)
    (named : plan.features.name? feature = some name)
    (few : plan.config.decimalPlaces ≤ Binary.maxPlaces) :
    (plan.split node).run =
      some (if threshold.FitsSingle then
          .ok ⟨name, literalText threshold plan.config.decimalPlaces, l, r⟩
        else .error (.formattingOverflow threshold plan.config.decimalPlaces)) := by
  unfold split
  rw [row.left, row.right, row.feature, row.threshold, run_lift_bind, run_lift_bind]
  dsimp only
  rw [run_lift_bind, named]
  change (thresholdLiteral threshold plan.config.decimalPlaces >>= fun literal =>
    pure ⟨name, literal, l, r⟩ : ExceptT SourceError Option Split).run = _
  have literal := @thresholdLiteral_run threshold _ few
  by_cases fits : threshold.FitsSingle
  · rw [if_pos fits] at literal ⊢
    exact run_bind_ok literal _
  · rw [if_neg fits] at literal ⊢
    exact run_bind_error literal _

/-- A leaf is written whether it stands above the depth limit or below it. -/
theorem action_leaf {depths : Array Nat} {node depth : Nat} {payload : Leaf}
    {statements : List Statement} (row : plan.table.LeafRow node payload)
    (low : depths[node]? = some 1)
    (written : (plan.leafStatements node).run = some (.ok statements)) :
    (plan.action depths node depth).run = some (.ok (.write statements)) := by
  have mapped : (Action.write <$> plan.leafStatements node).run = some (.ok (.write statements)) :=
    run_map_eq_ok.mpr ⟨statements, written, rfl⟩
  unfold action
  split
  · rw [low, run_lift_bind, if_pos rfl]
    exact mapped
  · rw [row.isLeaf, run_lift_bind, if_pos rfl]
    exact mapped

theorem action_cut {depths : Array Nat} {node depth below : Nat}
    (deep : plan.config.maxDepth + 1 < depth) (high : depths[node]? = some below)
    (tall : below ≠ 1) : (plan.action depths node depth).run = some (.ok (.cut below)) := by
  unfold action
  rw [if_pos deep, high, run_lift_bind, if_neg tall]
  rfl

theorem action_branch {depths : Array Nat} {node l r feature depth : Nat} {threshold : Double}
    {name : String} (shallow : ¬ plan.config.maxDepth + 1 < depth)
    (row : plan.table.SplitRow node feature threshold l r)
    (named : plan.features.name? feature = some name)
    (few : plan.config.decimalPlaces ≤ Binary.maxPlaces) (fits : threshold.FitsSingle) :
    (plan.action depths node depth).run =
      some (.ok (.branch ⟨name, literalText threshold plan.config.decimalPlaces, l, r⟩)) := by
  have parts := split_run row named few
  rw [if_pos fits] at parts
  unfold action
  rw [if_neg shallow, row.isLeaf, run_lift_bind]
  exact run_map_eq_ok.mpr ⟨_, parts, rfl⟩

theorem action_overflow {depths : Array Nat} {node l r feature depth : Nat} {threshold : Double}
    {name : String} (shallow : ¬ plan.config.maxDepth + 1 < depth)
    (row : plan.table.SplitRow node feature threshold l r)
    (named : plan.features.name? feature = some name)
    (few : plan.config.decimalPlaces ≤ Binary.maxPlaces) (huge : ¬ threshold.FitsSingle) :
    (plan.action depths node depth).run =
      some (.error (.formattingOverflow threshold plan.config.decimalPlaces)) := by
  have parts := split_run row named few
  rw [if_neg huge] at parts
  unfold action
  rw [if_neg shallow, row.isLeaf, run_lift_bind]
  exact run_map_error _ parts

/-- What working off a node's frame comes to, given the body of its draft: the body is appended and
the remaining frames follow, or the error stops everything. -/
def Continues (plan : Plan) (depths : Array Nat) (body : Body) (rest : List Frame) (frame : Frame) :
    Except SourceError Body → Prop
  | .ok printed => plan.emit depths body (frame :: rest) = plan.emit depths (body.join printed) rest
  | .error fault => ∃ partly, plan.emit depths body (frame :: rest) = some (partly, some fault)

/-- A split whose branches are continued: the pending frames put the two bodies in their places. -/
theorem emit_branch {depths : Array Nat} {body : Body} {rest : List Frame} {node depth l r : Nat}
    {name literal : String} {left right : Except SourceError Body}
    (acted : (plan.action depths node depth).run = some (.ok (.branch ⟨name, literal, l, r⟩)))
    (inside : depth < plan.table.size)
    (first : ∀ body rest, plan.Continues depths body rest (.node l (depth + 1)) left)
    (second : ∀ body rest, plan.Continues depths body rest (.node r (depth + 1)) right) :
    plan.Continues depths body rest (.node node depth) (do
      let first ← left
      let second ← right
      pure (Draft.branch depth name literal first second)) := by
  have step : plan.emit depths body (.node node depth :: rest) =
      plan.emit depths (body.write depth [.test name literal, .opening])
        (.node l (depth + 1) :: .otherwise depth name literal ::
          .node r (depth + 1) :: .close depth :: rest) := by
    rw [emit, acted]
    exact if_pos inside
  cases left with
  | error fault =>
    obtain ⟨partly, stopped⟩ := first (body.write depth [.test name literal, .opening])
      (.otherwise depth name literal :: .node r (depth + 1) :: .close depth :: rest)
    exact ⟨partly, step.trans stopped⟩
  | ok printed =>
    have left_done := first (body.write depth [.test name literal, .opening])
      (.otherwise depth name literal :: .node r (depth + 1) :: .close depth :: rest)
    have turned := step.trans left_done
    rw [emit] at turned
    cases right with
    | error fault =>
      obtain ⟨partly, stopped⟩ := second _ (.close depth :: rest)
      exact ⟨partly, turned.trans stopped⟩
    | ok printed' =>
      have right_done := turned.trans (second _ (.close depth :: rest))
      rw [emit] at right_done
      refine right_done.trans (congrArg (plan.emit depths · rest) ?_)
      rw [Draft.branch, Body.write_eq_join _ depth [.closing],
        Body.write_eq_join _ depth [.closing, _, _], Body.write_eq_join body]
      simp only [Body.join_assoc]

theorem emit_draft (few : plan.config.decimalPlaces ≤ Binary.maxPlaces) {depths : Array Nat}
    {node : NodeId} {tree : DecisionTree} (unfolds : plan.table.Unfolds node tree)
    (refers : tree.Refers plan.features plan.labels) {draft : Draft}
    (drafted : tree.draft? plan.features plan.labels = some draft)
    (heights : plan.table.Heights depths tree.nodes) {depth : Nat}
    (room : depth + tree.height ≤ plan.table.size + 1) (body : Body) (rest : List Frame) :
    plan.Continues depths body rest (.node node depth) (draft.print plan.config depth) := by
  induction unfolds generalizing draft depth body rest with
  | @leaf node payload row =>
    simp only [DecisionTree.draft?, Option.bind_eq_bind, Option.bind_eq_some_iff] at drafted
    obtain ⟨position, resolved, label, labelled, made⟩ := drafted
    cases made
    have low := heights node (List.mem_singleton_self _) _ (.leaf row)
    have written := leafStatements_run row refers resolved labelled few
    change plan.emit depths body (.node node depth :: rest) = _
    rw [emit, action_leaf row low written]
    exact congrArg (plan.emit depths · rest) (Body.write_eq_join ..)
  | @split node l r feature threshold left right row first second ihl ihr =>
    obtain ⟨known, left_refers, right_refers⟩ := refers
    simp only [DecisionTree.draft?, Option.bind_eq_bind, Option.bind_eq_some_iff] at drafted
    obtain ⟨name, named, left_draft, left_drafted, right_draft, right_drafted, made⟩ := drafted
    cases made
    have left_heights : plan.table.Heights depths left.nodes := fun n member =>
      heights n (List.mem_cons_of_mem _ (List.mem_append_left _ member))
    have right_heights : plan.table.Heights depths right.nodes := fun n member =>
      heights n (List.mem_cons_of_mem _ (List.mem_append_right _ member))
    have left_pos := left.height_pos
    simp only [DecisionTree.height] at room
    by_cases deep : plan.config.maxDepth + 1 < depth
    · have high := heights node (List.mem_cons_self ..) _ (.split row first second)
      have tall : 1 + max left.height right.height ≠ 1 := by omega
      rw [Draft.print, if_pos deep, DecisionTree.draft_height left_drafted,
        DecisionTree.draft_height right_drafted]
      change plan.emit depths body (.node node depth :: rest) = _
      rw [emit, action_cut deep high tall]
      exact congrArg (plan.emit depths · rest) (Body.cut_eq_join ..)
    · rw [Draft.print, if_neg deep]
      by_cases fits : threshold.FitsSingle
      · rw [if_pos fits]
        have acted := @action_branch plan depths _ _ _ _ _ _ _ deep row named few fits
        have inside : depth < plan.table.size := by omega
        have left_room : depth + 1 + left.height ≤ plan.table.size + 1 := by omega
        have right_room : depth + 1 + right.height ≤ plan.table.size + 1 := by omega
        exact emit_branch acted inside (ihl left_refers left_drafted left_heights left_room)
          (ihr right_refers right_drafted right_heights right_room)
      · rw [if_neg fits]
        refine ⟨body, ?_⟩
        rw [emit, action_overflow deep row named few fits]

theorem body_draft (few : plan.config.decimalPlaces ≤ Binary.maxPlaces) {tree : DecisionTree}
    (represents : plan.table.Represents tree) (refers : tree.Refers plan.features plan.labels)
    {draft : Draft} (drafted : tree.draft? plan.features plan.labels = some draft) :
    match draft.print plan.config 1 with
    | .ok printed => plan.body = some (printed, none)
    | .error fault => ∃ partly, plan.body = some (partly, some fault) := by
  obtain ⟨depths, found, _, heights⟩ := represents.subtreeDepths_eq
  have room : 1 + tree.height ≤ plan.table.size + 1 := by
    have := represents.height_le
    omega
  have continued := emit_draft few represents.unfolds refers drafted heights room Body.empty []
  have started : plan.body = plan.emit depths .empty [.node 0 1] := by
    rw [body, found]
    rfl
  rw [started]
  cases printed : draft.print plan.config 1 with
  | ok out =>
    rw [printed] at continued
    exact continued.trans (by rw [emit, Body.empty_join])
  | error fault =>
    rw [printed] at continued
    exact continued

end Plan

end DecisionTreeC
