import DecisionTreeC.Proofs.Execution

/-!
The generated code decides as the tree does. A walk goes down the table and takes at each split the
side that the test of its feature against its literal asks for. The body, read as C and run with the
same tests, assigns the class of the leaf where the walk ends; where the walk goes below the depth
limit, it meets the warning recorded for the node there instead.
-/
namespace DecisionTreeC

open Code

namespace Plan

/-- The child of a split on the side that its test asks for: left where the test holds. -/
def next (plan : Plan) (decide : String → String → Bool) (node : NodeId) : Option NodeId := do
  let (left, right) ← (← plan.table.children? node)
  let name ← plan.features.name? (← plan.table.feature[node]?)
  match (thresholdLiteral (← plan.table.threshold[node]?) plan.config.decimalPlaces).run with
  | some (.ok literal) => pure (if decide name literal then left else right)
  | _ => none

def walk (plan : Plan) (decide : String → String → Bool) : Nat → NodeId → Option NodeId
  | 0, node => some node
  | steps + 1, node => plan.next decide node >>= plan.walk decide steps

/-- The walk from the root ends in this leaf within the depth limit. The root has depth one, and
leaves are written one level deeper than splits. -/
def EndsIn (plan : Plan) (decide : String → String → Bool) (node : NodeId) (leaf : Leaf) : Prop :=
  ∃ steps, 1 + steps ≤ plan.config.maxDepth + 2 ∧ plan.walk decide steps 0 = some node ∧
    plan.table.leaf? node = some (some leaf)

variable {plan : Plan} {decide : String → String → Bool}

theorem isLeaf_of_leaf {node : NodeId} {leaf : Leaf}
    (found : plan.table.leaf? node = some (some leaf)) : plan.table.isLeaf[node]? = some true := by
  unfold NodeTable.leaf? at found
  cases kind : plan.table.isLeaf[node]? with
  | none => rw [kind] at found; cases found
  | some isLeaf =>
    rw [kind] at found
    cases isLeaf with
    | true => rfl
    | false => cases found

theorem next_leaf {node : NodeId} {leaf : Leaf} (found : plan.table.leaf? node = some (some leaf)) :
    plan.next decide node = none := by
  have childless : plan.table.children? node = none ∨ plan.table.children? node = some none := by
    rw [NodeTable.children?, isLeaf_of_leaf found]
    cases plan.table.left[node]? <;> cases plan.table.right[node]? <;> simp
  rw [next]
  rcases childless with missing | empty
  · rw [missing]
    rfl
  · rw [empty]
    rfl

theorem next_split {node l r feature : Nat} {threshold : Double} {name : String}
    (row : plan.table.SplitRow node feature threshold l r)
    (named : plan.features.name? feature = some name)
    (few : plan.config.decimalPlaces ≤ Binary.maxPlaces) (fits : threshold.FitsSingle) :
    plan.next decide node =
      some (if decide name (literalText threshold plan.config.decimalPlaces) then l else r) := by
  have literal := @thresholdLiteral_run threshold _ few
  rw [if_pos fits] at literal
  simp [next, row.children, row.feature, row.threshold, named, literal]

theorem walk_add (first second : Nat) (node : NodeId) :
    plan.walk decide (first + second) node =
      plan.walk decide first node >>= plan.walk decide second := by
  induction first generalizing node with
  | zero => rw [Nat.zero_add]; rfl
  | succ first ih =>
    rw [Nat.succ_add, walk, walk]
    cases plan.next decide node with
    | none => rfl
    | some child => exact ih child

theorem walk_le_leaf {steps others : Nat} {start node last : NodeId} {leaf : Leaf}
    (walked : plan.walk decide steps start = some node)
    (found : plan.table.leaf? node = some (some leaf))
    (walked' : plan.walk decide others start = some last) : others ≤ steps := by
  rcases Nat.lt_or_ge steps others with further | enough
  · obtain ⟨more, rfl⟩ := Nat.exists_eq_add_of_lt further
    rw [Nat.add_assoc, walk_add, walked] at walked'
    change plan.walk decide (more + 1) node = some last at walked'
    rw [walk, next_leaf found] at walked'
    cases walked'
  · exact enough

inductive Arrives (plan : Plan) (decide : String → String → Bool) (cuts : List Truncation)
    (place : Nat) (node : NodeId) (depth : Nat) : Event → Prop where
  | leaf {steps position : Nat} {last : NodeId} {payload : Leaf} {label : String}
      (walked : plan.walk decide steps node = some last)
      (within : depth + steps ≤ plan.config.maxDepth + 2)
      (row : plan.table.LeafRow last payload)
      (resolved : payload.resolve? plan.labels = some position)
      (labelled : plan.labels.get? position = some label) :
      Arrives plan decide cuts place node depth (.command (.assign resultName label))
  | cut {steps k below : Nat} {last : NodeId}
      (walked : plan.walk decide steps node = some last)
      (within : depth + steps = plan.config.maxDepth + 2)
      (isSplit : plan.table.isLeaf[last]? = some false)
      (recorded : cuts[k]? = some ⟨last, depth + steps, below⟩) :
      Arrives plan decide cuts place node depth
        (.directive (place + k) (Statement.warning below).text)

theorem Arrives.above {before cuts after : List Truncation} {place depth : Nat}
    {node child : NodeId} {event : Event} (stepped : plan.next decide node = some child)
    (arrives : plan.Arrives decide cuts (place + before.length) child (depth + 1) event) :
    plan.Arrives decide (before ++ cuts ++ after) place node depth event := by
  have onward : ∀ steps, plan.walk decide (steps + 1) node = plan.walk decide steps child := by
    intro steps
    rw [walk, stepped]
    rfl
  cases arrives with
  | @leaf steps _ _ _ _ walked within row resolved labelled =>
    exact .leaf ((onward steps).trans walked) (by omega) row resolved labelled
  | @cut steps k below last walked within isSplit recorded =>
    have inside : k < cuts.length := (List.getElem?_eq_some_iff.mp recorded).1
    have deeper : depth + 1 + steps = depth + (steps + 1) := by omega
    have found : (before ++ cuts ++ after)[before.length + k]? =
        some ⟨last, depth + (steps + 1), below⟩ := by
      rw [List.append_assoc, List.getElem?_append_right (by omega), Nat.add_sub_cancel_left,
        List.getElem?_append_left inside, recorded, deeper]
    rw [Nat.add_assoc]
    exact .cut ((onward steps).trans walked) (by omega) isSplit found

theorem Arrives.assigns {cuts : List Truncation} {event : Event}
    (arrives : plan.Arrives decide cuts 0 0 1 event) {node : NodeId} {leaf : Leaf}
    (ends : plan.EndsIn decide node leaf) :
    ∃ label position, event = .command (.assign resultName label) ∧
      plan.labels.get? position = some label ∧ leaf.resolve? plan.labels = some position := by
  obtain ⟨others, within', walked', found⟩ := ends
  cases arrives with
  | @leaf steps position last payload label walked within row resolved labelled =>
    have same : steps = others :=
      Nat.le_antisymm (walk_le_leaf walked' found walked) (walk_le_leaf walked row.leaf? walked')
    rw [← same, walked] at walked'
    cases walked'
    rw [row.leaf?] at found
    cases found
    exact ⟨label, position, rfl, labelled, resolved⟩
  | @cut steps k below last walked within isSplit recorded =>
    have same : steps = others := by
      have := walk_le_leaf walked' found walked
      omega
    rw [← same, walked] at walked'
    cases walked'
    rw [isLeaf_of_leaf found] at isSplit
    cases isSplit

theorem Arrives.warns {cuts : List Truncation} {event : Event}
    (arrives : plan.Arrives decide cuts 0 0 1 event)
    (nowhere : ∀ node leaf, ¬ plan.EndsIn decide node leaf) :
    ∃ node below k, plan.walk decide (plan.config.maxDepth + 1) 0 = some node ∧
      cuts[k]? = some ⟨node, plan.config.maxDepth + 2, below⟩ ∧
      event = .directive k (Statement.warning below).text := by
  cases arrives with
  | @leaf steps _ last payload _ walked within row _ _ =>
    exact absurd ⟨steps, within, walked, row.leaf?⟩ (nowhere last payload)
  | @cut steps k below last walked within isSplit recorded =>
    have same : steps = plan.config.maxDepth + 1 := by omega
    subst same
    rw [within] at recorded
    rw [Nat.zero_add]
    exact ⟨last, below, k, walked, recorded, rfl⟩

theorem run_arrives (few : plan.config.decimalPlaces ≤ Binary.maxPlaces) {node : NodeId}
    {tree : DecisionTree} (unfolds : plan.table.Unfolds node tree) {draft : Draft}
    (drafted : tree.draft? plan.features plan.labels = some draft) {depth : Nat}
    (shallow : depth ≤ plan.config.maxDepth + 2) {printed : Body}
    (done : draft.print plan.config depth = .ok printed) (place : Nat) :
    ∃ event, plan.Arrives decide printed.truncations.toList place node depth event ∧
      ∀ after, (draft.block plan.config depth).run decide place after = event :: after := by
  induction unfolds generalizing draft depth printed place with
  | @leaf node payload row =>
    simp only [DecisionTree.draft?, Option.bind_eq_bind, Option.bind_eq_some_iff] at drafted
    obtain ⟨position, resolved, label, labelled, made⟩ := drafted
    cases made
    have here : plan.walk decide 0 node = some node := rfl
    exact ⟨_, .leaf here shallow row resolved labelled, fun _ => rfl⟩
  | @split node l r feature threshold left right row first second ihl ihr =>
    simp only [DecisionTree.draft?, Option.bind_eq_bind, Option.bind_eq_some_iff] at drafted
    obtain ⟨name, named, left_draft, left_drafted, right_draft, right_drafted, made⟩ := drafted
    cases made
    rcases Draft.print_split done with
      ⟨deep, rfl⟩ | ⟨above, fits, one, two, left_done, right_done, rfl⟩
    · have here : plan.walk decide 0 node = some node := rfl
      have recorded :
          [(⟨node, depth, 1 + max left_draft.height right_draft.height⟩ : Truncation)][0]? =
        some ⟨node, depth + 0, 1 + max left_draft.height right_draft.height⟩ := rfl
      refine ⟨_, .cut here (by omega) row.isLeaf recorded, ?_⟩
      intro after
      rw [Draft.block, if_pos deep]
      rfl
    · have stepped := @next_split plan decide _ _ _ _ _ _ row named few fits
      have left_count := congrArg List.length (Draft.print_directives left_done)
      rw [List.length_map] at left_count
      rw [Draft.branch_truncations, Array.toList_append, Draft.block, if_neg above]
      cases side : decide name (literalText threshold plan.config.decimalPlaces) with
      | true =>
        rw [side] at stepped
        obtain ⟨event, arrives, runs⟩ := ihl left_drafted (by omega) left_done place
        have lifted :=
          @Arrives.above plan decide [] _ two.truncations.toList _ _ _ _ _ stepped arrives
        refine ⟨event, lifted, ?_⟩
        intro after
        rw [Block.run, if_pos side]
        exact runs _
      | false =>
        rw [side] at stepped
        obtain ⟨event, arrives, runs⟩ := ihr right_drafted (by omega) right_done
          (place + one.truncations.toList.length)
        have lifted :=
          @Arrives.above plan decide one.truncations.toList _ [] _ _ _ _ _ stepped arrives
        rw [List.append_nil] at lifted
        refine ⟨event, lifted, ?_⟩
        intro after
        rw [Block.run, if_neg (by simp [side]), left_count]
        exact runs _

end Plan

theorem lookup_zipIdx {labels : List String} (distinct : labels.Nodup) {position : Nat}
    {label : String} (found : labels[position]? = some label) (offset : Nat) :
    (labels.zipIdx offset).lookup label = some (offset + position) := by
  induction labels generalizing position offset with
  | nil => simp at found
  | cons head rest ih =>
    obtain ⟨fresh, distinct_rest⟩ := List.nodup_cons.mp distinct
    rw [List.zipIdx_cons]
    cases position with
    | zero =>
      obtain rfl := Option.some.inj found
      simp
    | succ position =>
      rw [List.getElem?_cons_succ] at found
      have other : label ≠ head := fun same => fresh (same ▸ List.mem_of_getElem? found)
      have later := ih distinct_rest found (offset + 1)
      rw [List.lookup_cons, beq_false_of_ne other]
      exact later.trans (congrArg some (by omega))

theorem Draft.paths_assign {config : Config} {draft : Draft} {depth : Nat} {printed : Body}
    (done : draft.print config depth = .ok printed) (whole : printed.truncations.toList = [])
    (place : Nat) (after : List (List Event)) :
    ∀ events ∈ (draft.block config depth).paths place after,
      ∃ label, ∃ later ∈ after, events = .command (.assign resultName label) :: later := by
  induction draft generalizing depth printed place with
  | leaf node label weights =>
    intro events member
    obtain ⟨later, behind, rfl⟩ := List.mem_map.mp member
    exact ⟨label, later, behind, rfl⟩
  | split node name threshold left right ihl ihr =>
    rcases print_split done with ⟨deep, rfl⟩ | ⟨above, _, one, two, left_done, right_done, rfl⟩
    · cases whole
    · rw [branch_truncations, Array.toList_append, List.append_eq_nil_iff] at whole
      rw [block, if_neg above]
      intro events member
      rcases List.mem_append.mp member with first | second
      · exact ihl left_done whole.1 place events first
      · exact ihr right_done whole.2 _ events second

namespace Plan

/-- The body text decides as the tree does, for every outcome of its tests. -/
theorem body_decides {plan : Plan} {source : Source} (made : plan.source.run = some (.ok source)) :
    ∃ block enumerators,
      statements? source.body = some block ∧
      definition? source.typeDeclaration = some (plan.config.typeName, enumerators) ∧
      block.directives = source.truncations.map
        (fun t => "#warning truncated branch of depth " ++ toString t.subtreeDepth) ∧
      (source.truncations.map (·.node)).Nodup ∧
      (∀ decide : String → String → Bool,
        (∀ node leaf, plan.EndsIn decide node leaf → ∃ label value,
          block.run decide 0 [] = [.command (.assign "ret" label)] ∧
          enumerators.lookup label = some value ∧ leaf.resolve? plan.labels = some value) ∧
        ((∀ node leaf, ¬ plan.EndsIn decide node leaf) → ∃ node below k,
          plan.walk decide (plan.config.maxDepth + 1) 0 = some node ∧
          source.truncations[k]? = some ⟨node, plan.config.maxDepth + 2, below⟩ ∧
          block.run decide 0 [] =
            [.directive k ("#warning truncated branch of depth " ++ toString below)])) ∧
      (source.truncations = [] → ∀ events ∈ block.paths 0 [[]],
        ∃ label, events = [.command (.assign "ret" label)]) := by
  obtain ⟨tree, draft, printed, made⟩ := source_made made
  have cuts : source.truncations = printed.truncations.toList := by
    rw [made.assembled]
    rfl
  refine ⟨_, _, made.statements, made.definition, ?_, ?_, ?_, ?_⟩
  · rw [cuts]
    exact Draft.print_directives made.done
  · rw [cuts]
    exact (DecisionTree.truncations_sublist made.drafted made.done).nodup made.represents.nodup
  · intro decide
    obtain ⟨event, arrives, runs⟩ := @run_arrives plan decide made.sound.few _ _
      made.represents.unfolds _ made.drafted _ (by omega) _ made.done 0
    rw [← cuts] at arrives
    constructor
    · intro node leaf ends
      obtain ⟨label, position, rfl, labelled, resolved⟩ := arrives.assigns ends
      have declared := lookup_zipIdx plan.labels.distinct labelled 0
      rw [Nat.zero_add] at declared
      exact ⟨label, position, runs [], declared, resolved⟩
    · intro nowhere
      obtain ⟨node, below, k, walked, recorded, rfl⟩ := arrives.warns nowhere
      exact ⟨node, below, k, walked, recorded, runs []⟩
  · intro none_cut events member
    rw [cuts] at none_cut
    obtain ⟨label, later, behind, rfl⟩ := Draft.paths_assign made.done none_cut 0 [[]] events member
    rw [List.mem_singleton.mp behind]
    exact ⟨label, rfl⟩

/-- Two tests and three leaves, with no depth allowed below the root: the left leaf is written, the
second test is cut off. -/
def sample : Plan :=
  { table :=
      { feature := #[7, 0, 2, 0, 0]
        threshold := #[⟨true, 0x3FF8000000000000, by decide⟩, .zero, .zero, .zero, .zero]
        left := #[some 1, none, some 3, none, none]
        right := #[some 2, none, some 4, none, none]
        isLeaf := #[false, true, false, true, true]
        leaf := #[none, some (.ofLabel "high"), none, some (.ofIndex 0), some (.ofIndex 1)] }
    features := ⟨[(2, "y"), (7, "x")], by decide, by decide⟩
    labels := ⟨["low", "high"], by decide, by decide⟩
    config := { Config.standard with maxDepth := 0 } }

theorem sample_source : ∃ source, sample.source.run = some (.ok source) := by
  have succeeds : sample.source.run.any Except.isOk = true := by decide +kernel
  obtain ⟨outcome, found, ok⟩ := (Option.any_eq_true _ _).mp succeeds
  cases outcome with
  | error e => cases ok
  | ok source => exact ⟨source, found⟩

theorem sample_decides :
    ∃ source, sample.source.run = some (.ok source) ∧
      sample.EndsIn (fun _ _ => true) 1 (.ofLabel "high") ∧
      (∀ node leaf, ¬ sample.EndsIn (fun _ _ => false) node leaf) ∧
      ∃ block, statements? source.body = some block ∧
        (∃ label, block.run (fun _ _ => true) 0 [] = [.command (.assign "ret" label)]) ∧
        ∃ k text, block.run (fun _ _ => false) 0 [] = [.directive k text] := by
  obtain ⟨source, made⟩ := sample_source
  have ends : sample.EndsIn (fun _ _ => true) 1 (.ofLabel "high") :=
    ⟨1, by decide, by decide +kernel, by decide⟩
  have nowhere : ∀ node leaf, ¬ sample.EndsIn (fun _ _ => false) node leaf := by
    rintro node leaf ⟨steps, within, walked, found⟩
    change 1 + steps ≤ 2 at within
    have root : sample.table.leaf? 0 = some none := by decide
    have right : sample.table.leaf? 2 = some none := by decide
    have turned : sample.walk (fun _ _ => false) 1 0 = some 2 := by decide +kernel
    have few : steps = 0 ∨ steps = 1 := by omega
    rcases few with rfl | rfl
    · cases walked
      rw [root] at found
      cases found
    · rw [turned] at walked
      cases walked
      rw [right] at found
      cases found
  obtain ⟨block, _, read, _, _, _, runs, _⟩ := body_decides made
  obtain ⟨label, _, assigned, _⟩ := (runs fun _ _ => true).1 1 _ ends
  obtain ⟨_, below, k, _, _, warned⟩ := (runs fun _ _ => false).2 nowhere
  exact ⟨source, made, ends, nowhere, block, read, ⟨label, assigned⟩, k, _, warned⟩

end Plan

end DecisionTreeC
