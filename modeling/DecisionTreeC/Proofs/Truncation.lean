import DecisionTreeC.Proofs.DepthLimit
import DecisionTreeC.Proofs.Layout
import DecisionTreeC.Proofs.Traversal

/-!
What a depth limit leaves out, exactly. A branch is a subtree with the depth at which it stands. The
splits one level below the deepest test are cut off, in pre-order; those above are the tests of the
body, and the leaves down to that level its assignments. So the lines of the text are counted by the
tree alone.
-/
namespace DecisionTreeC

open Text Line

structure Branch where
  depth : Nat
  tree : DecisionTree

namespace DecisionTree

def isSplit : DecisionTree → Bool
  | .leaf .. => false
  | .split .. => true

@[simp] theorem isSplit_leaf (node : NodeId) (payload : Leaf) :
    (leaf node payload).isSplit = false := rfl

@[simp] theorem isSplit_split (node : NodeId) (feature : Nat) (threshold : Double)
    (left right : DecisionTree) :
    (split node feature threshold left right).isSplit = true := rfl

theorem two_le_height {tree : DecisionTree} (is_split : tree.isSplit = true) : 2 ≤ tree.height := by
  cases tree with
  | leaf node payload => cases is_split
  | split node feature threshold left right =>
    have left_pos := left.height_pos
    rw [height]
    omega

def branches : DecisionTree → Nat → List Branch
  | .leaf node payload, depth => [⟨depth, .leaf node payload⟩]
  | .split node feature threshold left right, depth =>
    ⟨depth, .split node feature threshold left right⟩ ::
      (left.branches (depth + 1) ++ right.branches (depth + 1))

theorem branches_roots (tree : DecisionTree) (depth : Nat) :
    (tree.branches depth).map (·.tree.root) = tree.nodes := by
  induction tree generalizing depth with
  | leaf node payload => rfl
  | split node feature threshold left right ihl ihr =>
    rw [branches, List.map_cons, List.map_append, ihl, ihr]
    rfl

theorem depth_le_branches {tree : DecisionTree} {depth : Nat} :
    ∀ branch ∈ tree.branches depth, depth ≤ branch.depth := by
  induction tree generalizing depth with
  | leaf node payload =>
    intro branch member
    cases List.mem_singleton.mp member
    exact Nat.le_refl _
  | split node feature threshold left right ihl ihr =>
    intro branch member
    rcases List.mem_cons.mp member with rfl | lower
    · exact Nat.le_refl _
    · rcases List.mem_append.mp lower with in_left | in_right
      · have := ihl branch in_left
        omega
      · have := ihr branch in_right
        omega

theorem split_at_iff {tree : DecisionTree} {depth level : Nat} :
    (∃ branch ∈ tree.branches depth, branch.tree.isSplit = true ∧ branch.depth = level) ↔
      depth ≤ level ∧ level + 1 < depth + tree.height := by
  induction tree generalizing depth with
  | leaf node payload =>
    simp [branches, height]
  | split node feature threshold left right ihl ihr =>
    -- The node meets its own level, for it is two levels high at least; the subtrees meet the
    -- others.
    have left_pos := left.height_pos
    simp only [branches, List.mem_cons, List.mem_append, or_and_right, exists_or, exists_eq_left,
      ihl, ihr, isSplit_split, true_and, height]
    omega

end DecisionTree

inductive LineKind where
  | test
  | assignment
  | warning
  deriving DecidableEq, Repr

def LineKind.start : LineKind → String
  | .test => "if ("
  | .assignment => "ret = "
  | .warning => "#warning"

namespace LineKind

/-- One line more assigns or warns than tests. -/
def Balanced (kinds : List LineKind) : Prop :=
  kinds.count .assignment + kinds.count .warning = kinds.count .test + 1

theorem Balanced.assignment : Balanced [.assignment] := rfl

theorem Balanced.warning : Balanced [.warning] := rfl

theorem Balanced.test {first second : List LineKind} (h : Balanced first) (h' : Balanced second) :
    Balanced (.test :: (first ++ second)) := by
  unfold Balanced at h h' ⊢
  rw [List.count_cons_of_ne (by decide), List.count_cons_of_ne (by decide), List.count_cons_self,
    List.count_append, List.count_append, List.count_append]
  omega

end LineKind

namespace Branch

/-- The line of a subtree under a depth limit. Below the limit there is one more level of leaves and
warnings, and then nothing. -/
def kind (limit : Nat) (branch : Branch) : Option LineKind :=
  if branch.tree.isSplit then
    if branch.depth ≤ limit + 1 then some .test
    else if branch.depth = limit + 2 then some .warning
    else none
  else if branch.depth ≤ limit + 2 then some .assignment
  else none

def isCut (limit : Nat) (branch : Branch) : Bool := branch.tree.isSplit && branch.depth == limit + 2

def cut (branch : Branch) : Truncation := ⟨branch.tree.root, branch.depth, branch.tree.height⟩

theorem isCut_iff {limit : Nat} {branch : Branch} :
    branch.isCut limit = true ↔ branch.tree.isSplit = true ∧ branch.depth = limit + 2 := by
  rw [isCut, Bool.and_eq_true, beq_iff_eq]

theorem kind_test_iff {limit : Nat} {branch : Branch} :
    branch.kind limit = some .test ↔ branch.tree.isSplit = true ∧ branch.depth ≤ limit + 1 := by
  unfold kind
  split <;> split <;> simp_all

theorem kind_assignment_iff {limit : Nat} {branch : Branch} :
    branch.kind limit = some .assignment ↔ branch.tree.isSplit = false ∧
    branch.depth ≤ limit + 2 := by
  unfold kind
  split <;> split <;> simp_all

theorem kind_warning_iff {limit : Nat} {branch : Branch} :
    branch.kind limit = some .warning ↔ branch.isCut limit = true := by
  unfold kind isCut
  split <;> split <;> simp_all
  omega

end Branch

namespace DecisionTree

variable {limit : Nat}

theorem kinds_deep {tree : DecisionTree} {depth : Nat} (deep : limit + 2 < depth) :
    (tree.branches depth).filterMap (Branch.kind limit) = [] := by
  rw [List.filterMap_eq_nil_iff]
  intro branch member
  have below := depth_le_branches branch member
  have shallow : ¬ branch.depth ≤ limit + 1 := by omega
  have near : ¬ branch.depth = limit + 2 := by omega
  have within : ¬ branch.depth ≤ limit + 2 := by omega
  rw [Branch.kind, if_neg shallow, if_neg near, if_neg within, ite_self]

theorem cuts_deep {tree : DecisionTree} {depth : Nat} (deep : limit + 2 < depth) :
    (tree.branches depth).filter (Branch.isCut limit) = [] := by
  rw [List.filter_eq_nil_iff]
  intro branch member is_cut
  have below := depth_le_branches branch member
  have level := (Branch.isCut_iff.mp is_cut).2
  omega

/-- A binary tree has one leaf more than splits, also where branches are cut off. -/
theorem kinds_balanced {tree : DecisionTree} {depth : Nat} (within : depth ≤ limit + 2) :
    LineKind.Balanced ((tree.branches depth).filterMap (Branch.kind limit)) := by
  induction tree generalizing depth with
  | leaf node payload =>
    have written : (⟨depth, .leaf node payload⟩ : Branch).kind limit = some .assignment :=
      Branch.kind_assignment_iff.mpr ⟨rfl, within⟩
    rw [branches, List.filterMap_cons_some written, List.filterMap_nil]
    exact .assignment
  | split node feature threshold left right ihl ihr =>
    rw [branches]
    by_cases shallow : depth ≤ limit + 1
    · have written : (⟨depth, .split node feature threshold left right⟩ : Branch).kind limit =
          some .test :=
        Branch.kind_test_iff.mpr ⟨rfl, shallow⟩
      rw [List.filterMap_cons_some written, List.filterMap_append]
      exact .test (ihl (by omega)) (ihr (by omega))
    · have level : depth = limit + 2 := by omega
      have cut : (⟨depth, .split node feature threshold left right⟩ : Branch).kind limit =
          some .warning :=
        Branch.kind_warning_iff.mpr (Branch.isCut_iff.mpr ⟨rfl, level⟩)
      rw [List.filterMap_cons_some cut, List.filterMap_append, kinds_deep (by omega),
        kinds_deep (by omega)]
      exact .warning

end DecisionTree

namespace Statement

/-- The kind of a line that stands for a node; braces, alternatives and remarks stand for none. -/
def kind : Statement → Option LineKind
  | .test .. => some .test
  | .assign _ => some .assignment
  | .warning _ => some .warning
  | _ => none

def opener : Statement → String
  | .test .. => "if ("
  | .opening => "\x7b"
  | .closing => "\x7d"
  | .otherwise .. => "else /* "
  | .weights _ => "/* weights: ["
  | .assign _ => "ret = "
  | .warning _ => "#warning truncated branch of depth "

theorem text_opener (s : Statement) : ∃ rest, s.text.toList = s.opener.toList ++ rest := by
  cases s with
  | test name literal =>
    change ∃ rest, ("if (" ++ name ++ " <= " ++ literal ++ ")").toList = "if (".toList ++ rest
    simp only [String.toList_append, List.append_assoc, List.append_cancel_left_eq, exists_eq']
  | opening => exact ⟨[], rfl⟩
  | closing => exact ⟨[], rfl⟩
  | otherwise name literal =>
    change ∃ rest, ("else /* " ++ name ++ " > " ++ literal ++ " */").toList =
      "else /* ".toList ++ rest
    simp only [String.toList_append, List.append_assoc, List.append_cancel_left_eq, exists_eq']
  | weights texts =>
    change ∃ rest, ("/* weights: [" ++ ", ".intercalate texts ++ "] */").toList =
      "/* weights: [".toList ++ rest
    simp only [String.toList_append, List.append_assoc, List.append_cancel_left_eq, exists_eq']
  | assign label =>
    change ∃ rest, ("ret = " ++ label ++ ";").toList = "ret = ".toList ++ rest
    simp only [String.toList_append, List.append_assoc, List.append_cancel_left_eq, exists_eq']
  | warning depth =>
    change ∃ rest, ("#warning truncated branch of depth " ++ toString depth).toList =
      "#warning truncated branch of depth ".toList ++ rest
    simp only [String.toList_append, List.append_cancel_left_eq, exists_eq']

theorem start_isPrefixOf (s : Statement) (kind : LineKind) :
    kind.start.toList.isPrefixOf (unindented s.text.toList) = (s.kind == some kind) := by
  obtain ⟨rest, text⟩ := s.text_opener
  rw [text]
  cases s <;> cases kind <;> simp only [opener, Statement.kind, LineKind.start] <;> rfl

end Statement

namespace Body

def kinds (body : Body) : List LineKind := body.lines.toList.filterMap (·.2.kind)

theorem kinds_join (a b : Body) : (a.join b).kinds = a.kinds ++ b.kinds := by
  simp [kinds, join]

theorem kinds_write (level : Nat) (statements : List Statement) :
    (empty.write level statements).kinds = statements.filterMap Statement.kind := by
  simp [kinds, write, empty, List.filterMap_map]

theorem kinds_cut (t : Truncation) : (empty.cut t).kinds = [.warning] := by
  simp [kinds, cut, write, empty, Statement.kind]

end Body

namespace Draft

theorem leafStatements_kinds (config : Config) (label : String) (weights : Option (List Double)) :
    (leafStatements config label weights).filterMap Statement.kind = [.assignment] := by
  unfold leafStatements
  split <;> rfl

theorem branch_kinds (depth : Nat) (name literal : String) (first second : Body) :
    (branch depth name literal first second).kinds = .test :: (first.kinds ++ second.kinds) := by
  simp [branch, Body.kinds_join, Body.kinds_write, List.filterMap_cons, Statement.kind]

end Draft

namespace DecisionTree

variable {features : FeatureSet} {labels : LabelSet} {config : Config} {tree : DecisionTree}
  {draft : Draft}

/-- The lines for nodes and the branches cut off, branch by branch. -/
theorem print_branches (drafted : tree.draft? features labels = some draft) {depth : Nat}
    {printed : Body} (within : depth ≤ config.maxDepth + 2)
    (done : draft.print config depth = .ok printed) :
    printed.kinds = (tree.branches depth).filterMap (Branch.kind config.maxDepth) ∧
      printed.truncations.toList =
        ((tree.branches depth).filter (Branch.isCut config.maxDepth)).map Branch.cut := by
  induction tree generalizing draft depth printed with
  | leaf node payload =>
    simp only [draft?, Option.bind_eq_bind, Option.bind_eq_some_iff] at drafted
    obtain ⟨_, _, label, _, made⟩ := drafted
    cases made
    cases done
    have written : (⟨depth, .leaf node payload⟩ : Branch).kind config.maxDepth = some .assignment :=
      Branch.kind_assignment_iff.mpr ⟨rfl, within⟩
    constructor
    · rw [Body.kinds_write, Draft.leafStatements_kinds, branches, List.filterMap_cons_some written,
        List.filterMap_nil]
    · rfl
  | split node feature threshold left right ihl ihr =>
    simp only [draft?, Option.bind_eq_bind, Option.bind_eq_some_iff] at drafted
    obtain ⟨name, _, left_draft, left_drafted, right_draft, right_drafted, made⟩ := drafted
    cases made
    rw [branches]
    rcases Draft.print_split done with
      ⟨deep, rfl⟩ | ⟨shallow, _, first, second, left_done, right_done, rfl⟩
    · -- Both subtrees stand below the last level, so the warning is all that is written of them.
      have level : depth = config.maxDepth + 2 := by omega
      have is_cut : (⟨depth, .split node feature threshold left right⟩ : Branch).isCut
          config.maxDepth :=
        Branch.isCut_iff.mpr ⟨rfl, level⟩
      have tall : (split node feature threshold left right).height =
          1 + max left_draft.height right_draft.height := by
        rw [draft_height left_drafted, draft_height right_drafted]
        rfl
      constructor
      · rw [Body.kinds_cut, List.filterMap_cons_some (Branch.kind_warning_iff.mpr is_cut),
          List.filterMap_append, kinds_deep (by omega), kinds_deep (by omega)]
        rfl
      · rw [List.filter_cons_of_pos is_cut, List.filter_append, cuts_deep (by omega),
          cuts_deep (by omega), List.nil_append, List.map_singleton, Branch.cut, tall]
        rfl
    · obtain ⟨left_kinds, left_cuts⟩ := ihl left_drafted (by omega) left_done
      obtain ⟨right_kinds, right_cuts⟩ := ihr right_drafted (by omega) right_done
      have written : (⟨depth, .split node feature threshold left right⟩ : Branch).kind
        config.maxDepth =
          some .test := Branch.kind_test_iff.mpr ⟨rfl, Nat.le_of_not_lt shallow⟩
      have kept : ¬ (⟨depth, .split node feature threshold left right⟩ : Branch).isCut
          config.maxDepth := by
        intro is_cut
        have level : depth = config.maxDepth + 2 := (Branch.isCut_iff.mp is_cut).2
        omega
      constructor
      · rw [Draft.branch_kinds, List.filterMap_cons_some written, List.filterMap_append, left_kinds,
          right_kinds]
      · rw [Draft.branch_truncations, Array.toList_append, List.filter_cons_of_neg kept,
          List.filter_append, List.map_append, left_cuts, right_cuts]

end DecisionTree

namespace NodeTable

/-- The branches of a tree in its table: the depth counts the steps of the path, and the rows below
spell the subtree. -/
theorem Unfolds.branch {t : NodeTable} {node : NodeId} {tree : DecisionTree}
    (h : t.Unfolds node tree) {depth : Nat} :
    ∀ branch ∈ tree.branches depth, ∃ path, t.follow node path = some branch.tree.root ∧
      branch.depth = depth + path.length ∧ t.Unfolds branch.tree.root branch.tree := by
  induction h generalizing depth with
  | leaf row =>
    intro branch member
    cases List.mem_singleton.mp member
    exact ⟨[], rfl, rfl, .leaf row⟩
  | split row first second ihl ihr =>
    intro branch member
    rcases List.mem_cons.mp member with rfl | lower
    · exact ⟨[], rfl, rfl, .split row first second⟩
    · rcases List.mem_append.mp lower with in_left | in_right
      · obtain ⟨path, ends, deep, unfolds⟩ := ihl branch in_left
        refine ⟨.left :: path, row.follow_left ends, ?_, unfolds⟩
        rw [List.length_cons]
        omega
      · obtain ⟨path, ends, deep, unfolds⟩ := ihr branch in_right
        refine ⟨.right :: path, row.follow_right ends, ?_, unfolds⟩
        rw [List.length_cons]
        omega

end NodeTable

def Text.linesStarting (start text : String) : Nat :=
  ((text.toList.splitOn '\n').map unindented).countP (start.toList.isPrefixOf ·)

theorem Body.linesStarting_render {body : Body} (tidy : ∀ line ∈ body.lines.toList, line.2.Tidy)
    (width : Nat) (kind : LineKind) :
    linesStarting kind.start (body.render width) = body.kinds.count kind := by
  have inline : ∀ line ∈ body.written, '\n' ∉ line.text.toList := by
    intro line member
    obtain ⟨entry, inside, rfl⟩ := List.mem_map.mp member
    exact (tidy entry inside).newline_not_mem
  have ended : [[]].countP (kind.start.toList.isPrefixOf ·) = 0 := by
    cases kind <;> rfl
  change linesStarting kind.start (renderAll width body.written) = _
  rw [linesStarting, unindented_renderAll width inline, List.countP_append, ended, Nat.add_zero,
    kinds, List.count_filterMap, written, List.map_map, List.countP_map]
  apply List.countP_congr
  intro line _
  rw [Function.comp_apply, Function.comp_apply, Statement.start_isPrefixOf]

namespace Plan

variable {plan : Plan} {source : Source} {tree : DecisionTree} {draft : Draft} {printed : Body}

theorem Made.truncations_eq (made : plan.Made source tree draft printed) :
    source.truncations =
      ((tree.branches 1).filter (Branch.isCut plan.config.maxDepth)).map Branch.cut := by
  rw [made.assembled, assemble]
  exact (DecisionTree.print_branches made.drafted (by omega) made.done).2

theorem Made.linesStarting_body (made : plan.Made source tree draft printed) (kind : LineKind) :
    linesStarting kind.start source.body =
      ((tree.branches 1).filterMap (Branch.kind plan.config.maxDepth)).count kind := by
  have tidy :=
    Draft.print_tidy made.sound.positive (DecisionTree.draft_named made.drafted) made.done
  rw [made.assembled, assemble, Body.linesStarting_render tidy,
    (DecisionTree.print_branches made.drafted (by omega) made.done).1]

theorem Made.linesStarting_countP (made : plan.Made source tree draft printed) (kind : LineKind)
    {holds : Branch → Bool}
    (agrees : ∀ branch : Branch, branch.kind plan.config.maxDepth = some kind ↔ holds branch) :
    linesStarting kind.start source.body = (tree.branches 1).countP holds := by
  rw [made.linesStarting_body, List.count_filterMap]
  apply List.countP_congr
  intro branch _
  rw [beq_iff_eq, agrees]

theorem Made.isTruncated_iff (made : plan.Made source tree draft printed) :
    source.isTruncated = true ↔ plan.config.maxDepth + 2 < tree.height := by
  have some_cut : source.isTruncated = true ↔
      ∃ branch ∈ tree.branches 1, branch.tree.isSplit = true ∧
        branch.depth = plan.config.maxDepth + 2 := by
    simp [Source.isTruncated, made.truncations_eq, Branch.isCut]
  rw [some_cut, DecisionTree.split_at_iff]
  omega

theorem Made.truncations_deep (made : plan.Made source tree draft printed) :
    ∀ cut ∈ source.truncations, cut.depth = plan.config.maxDepth + 2 ∧ 2 ≤ cut.subtreeDepth := by
  rw [made.truncations_eq]
  intro cut member
  obtain ⟨branch, kept, rfl⟩ := List.mem_map.mp member
  obtain ⟨is_split, deep⟩ := Branch.isCut_iff.mp (List.mem_filter.mp kept).2
  exact ⟨deep, DecisionTree.two_le_height is_split⟩

/-- The report of a depth limit is exact. Its entries are the splits one level below the deepest
test allowed, in pre-order, each with its depth and the height of what it leaves out, and there
are some just when the tree reaches further. The body tests each split above that level once,
assigns each leaf down to it once and warns of each entry once, and so it assigns or warns once
more than it tests. -/
theorem truncation_report (made : plan.source.run = some (.ok source)) :
    ∃ tree depth, plan.table.Unfolds 0 tree ∧
      plan.table.preorder = some ((tree.branches 1).map (·.tree.root)) ∧
      (∀ branch ∈ tree.branches 1, ∃ path, plan.table.follow 0 path = some branch.tree.root ∧
        branch.depth = 1 + path.length ∧ plan.table.Unfolds branch.tree.root branch.tree) ∧
      source.truncations =
        ((tree.branches 1).filter fun branch =>
          branch.tree.isSplit && branch.depth == plan.config.maxDepth + 2).map
          (fun branch => ⟨branch.tree.root, branch.depth, branch.tree.height⟩) ∧
      (∀ cut ∈ source.truncations, cut.depth = plan.config.maxDepth + 2 ∧ 2 ≤ cut.subtreeDepth) ∧
      plan.table.depth = some depth ∧
      (source.isTruncated = true ↔ plan.config.maxDepth + 2 < depth) ∧
      linesStarting "if (" source.body =
        (tree.branches 1).countP (fun branch =>
          branch.tree.isSplit && branch.depth ≤ plan.config.maxDepth + 1) ∧
      linesStarting "ret = " source.body =
        (tree.branches 1).countP (fun branch =>
          !branch.tree.isSplit && branch.depth ≤ plan.config.maxDepth + 2) ∧
      linesStarting "#warning" source.body = source.truncations.length ∧
      linesStarting "ret = " source.body + linesStarting "#warning" source.body =
        linesStarting "if (" source.body + 1 := by
  obtain ⟨tree, draft, printed, made⟩ := source_made made
  have unfolds := made.represents.unfolds
  have tests : linesStarting "if (" source.body = _ := made.linesStarting_body .test
  have assignments : linesStarting "ret = " source.body = _ := made.linesStarting_body .assignment
  have warnings : linesStarting "#warning" source.body = _ := made.linesStarting_body .warning
  refine ⟨tree, tree.height, unfolds, ?_, unfolds.branch, made.truncations_eq,
    made.truncations_deep, made.represents.depth_eq, made.isTruncated_iff,
    made.linesStarting_countP .test ?_,
    made.linesStarting_countP .assignment ?_, ?_, ?_⟩
  · rw [DecisionTree.branches_roots]
    exact made.represents.preorder_eq
  · intro branch
    simp [Branch.kind_test_iff]
  · intro branch
    simp [Branch.kind_assignment_iff]
  · rw [made.truncations_eq, List.length_map, ← List.countP_eq_length_filter]
    exact made.linesStarting_countP .warning fun _ => Branch.kind_warning_iff
  · rw [tests, assignments, warnings]
    exact DecisionTree.kinds_balanced (by omega)

theorem sample_report :
    ∃ source, sample.source.run = some (.ok source) ∧ source.truncations = [⟨2, 2, 2⟩] ∧
      source.isTruncated = true ∧ linesStarting "if (" source.body = 1 ∧
      linesStarting "ret = " source.body = 1 ∧ linesStarting "#warning" source.body = 1 := by
  have evaluated : sample.source.run.any (fun outcome => outcome.toOption.any fun source =>
      source.truncations == [⟨2, 2, 2⟩] && linesStarting "if (" source.body == 1) =
        true := by decide +kernel
  obtain ⟨source, made, facts⟩ := source_of_any evaluated
  rw [Bool.and_eq_true, beq_iff_eq, beq_iff_eq] at facts
  obtain ⟨cuts, tests⟩ := facts
  obtain ⟨_, _, _, _, _, _, _, _, _, _, _, warnings, balance⟩ := truncation_report made
  rw [cuts] at warnings
  rw [tests, warnings] at balance
  have truncated : source.isTruncated = true := by
    rw [Source.isTruncated, cuts]
    rfl
  exact ⟨source, made, cuts, truncated, tests, Nat.add_right_cancel balance, warnings⟩

end Plan

end DecisionTreeC
