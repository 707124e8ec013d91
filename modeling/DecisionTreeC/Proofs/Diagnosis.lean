import DecisionTreeC.Proofs.RootedTree

/-!
What the diagnoses of the check mean. A search that stops has gone down one way from the root: the
nodes on it are open, and what it left behind on the left spells out finished trees. So an open node
met again closes a cycle, a finished one has a second parent and lies on no cycle, and a faulty row
is the row of a node that is reached. Where nothing is met but a row is left over, the reached rows
are a tree by themselves.
-/
namespace DecisionTreeC
namespace NodeTable

structure Edge (t : NodeTable) (parent : NodeId) (side : Side) (node : NodeId) : Prop where
  isSplit : t.isLeaf[parent]? = some false
  child : t.child parent side = some node

inductive Descends (t : NodeTable) : NodeId → List Side → NodeId → Prop where
  | here {node : NodeId} : Descends t node [] node
  | down {node next last : NodeId} {side : Side} {rest : List Side} (edge : t.Edge node side next)
      (below : Descends t next rest last) : Descends t node (side :: rest) last

def Reached (t : NodeTable) (node : NodeId) : Prop := ∃ path, t.Descends 0 path node

/-- A cycle through a node that is no self loop: the first return takes at least two steps. -/
structure Returns (t : NodeTable) (node : NodeId) (path : List Side) : Prop where
  descends : t.Descends node path node
  long : 2 ≤ path.length
  first : ∀ k, 0 < k → k < path.length → t.follow node (path.take k) ≠ some node

/-- No path leads from a node back to it, not even through the row of a leaf. -/
def Acyclic (t : NodeTable) (node : NodeId) : Prop :=
  ∀ path, t.follow node path = some node → path = []

inductive Defect (t : NodeTable) (node : NodeId) : TreeError → Prop where
  | leafWithChildren {side : Side} {child : NodeId} (isLeaf : t.isLeaf[node]? = some true)
      (present : t.child node side = some child) : Defect t node (.leafWithChildren node)
  | missingLeaf (isLeaf : t.isLeaf[node]? = some true) (absent : t.leaf[node]? = some none) :
      Defect t node (.missingLeaf node)
  | missingChild {side : Side} (isSplit : t.isLeaf[node]? = some false)
      (absent : t.child node side = none) :
      Defect t node (.missingChild node side)
  | selfLoop {side : Side} (edge : t.Edge node side node) : Defect t node (.selfLoop node)
  | childOutOfBounds {side : Side} {child : NodeId} (edge : t.Edge node side child)
      (outside : t.size ≤ child) : Defect t node (.childOutOfBounds node side child t.size)

inductive Diagnosis (t : NodeTable) : TreeError → Prop where
  | lengths {column : Column} {length : Nat} (listed : (column, length) ∈ t.lengths)
      (wrong : length ≠ t.size) : Diagnosis t (.columnLength column length t.size)
  | empty (none : t.size = 0) : Diagnosis t .emptyTree
  | row {node : NodeId} {e : TreeError} (reached : t.Reached node) (defect : t.Defect node e) :
      Diagnosis t e
  | cycle {node : NodeId} {path : List Side} (reached : t.Reached node)
      (returns : t.Returns node path) :
      Diagnosis t (.cycle node)
  | shared {node parent other : NodeId} {side side' : Side}
      (apart : (parent, side) ≠ (other, side'))
      (reached : t.Reached parent) (edge : t.Edge parent side node) (reached' : t.Reached other)
      (edge' : t.Edge other side' node) (acyclic : t.Acyclic node) : Diagnosis t (.sharedNode node)
  | unreachable {node : NodeId} {tree : DecisionTree} (inside : node < t.size)
      (nowhere : ∀ path, t.follow 0 path ≠ some node) (least : ∀ n, n < node → t.Reached n)
      (unfolds : t.Unfolds 0 tree) (nodup : tree.nodes.Nodup)
      (all : ∀ n, n ∈ tree.nodes ↔ t.Reached n) :
      Diagnosis t (.unreachable node)

variable {t : NodeTable}

theorem Descends.follow {node last : NodeId} {path : List Side}
    (descends : t.Descends node path last) : t.follow node path = some last := by
  induction descends with
  | here => rfl
  | down edge below ih => rw [NodeTable.follow, edge.child, Option.bind_some, ih]

theorem Descends.snoc {node last next : NodeId} {path : List Side} {side : Side}
    (descends : t.Descends node path last) (edge : t.Edge last side next) :
    t.Descends node (path ++ [side]) next := by
  induction descends with
  | here => exact .down edge .here
  | down first below ih => exact .down first (ih edge)

theorem Descends.take {node last middle : NodeId} {path : List Side}
    (descends : t.Descends node path last) {k : Nat}
    (met : t.follow node (path.take k) = some middle) : t.Descends node (path.take k) middle := by
  induction descends generalizing k with
  | here =>
    rw [List.take_nil] at met ⊢
    cases met
    exact .here
  | down edge below ih =>
    cases k with
    | zero =>
      cases met
      exact .here
    | succ k =>
      rw [List.take_succ_cons, NodeTable.follow, edge.child, Option.bind_some] at met
      exact .down edge (ih met)

theorem Reached.next {parent node : NodeId} {side : Side} (reached : t.Reached parent)
    (edge : t.Edge parent side node) : t.Reached node := by
  obtain ⟨path, descends⟩ := reached
  exact ⟨path ++ [side], descends.snoc edge⟩

theorem root_reached (t : NodeTable) : t.Reached 0 := ⟨[], .here⟩

/-- Of the ways back to a node without a self loop, the shortest is a first return. The induction is
on the length of the way. -/
theorem Descends.returns {node : NodeId} {path : List Side} (descends : t.Descends node path node)
    (moved : path ≠ []) (loopless : ∀ side, ¬ t.Edge node side node) :
    ∃ first, t.Returns node first := by
  induction size : path.length using Nat.strongRecOn generalizing path with
  | ind n ih =>
    by_cases early : ∃ k, 0 < k ∧ k < path.length ∧ t.follow node (path.take k) = some node
    · obtain ⟨k, positive, less, met⟩ := early
      have shorter : (path.take k).length = k := List.length_take_of_le (Nat.le_of_lt less)
      refine ih k (size ▸ less) (descends.take met) ?_ shorter
      intro none_left
      rw [none_left] at shorter
      exact Nat.ne_of_lt positive shorter
    · refine ⟨path, descends, ?_, fun k positive less met => early ⟨k, positive, less, met⟩⟩
      cases descends with
      | here => exact absurd rfl moved
      | @down _ next _ side rest edge below =>
        cases below with
        | here => exact absurd edge (loopless side)
        | down edge' below' =>
          simp only [List.length_cons]
          omega

theorem SplitRow.edge_left {node l r feature : Nat} {threshold : Double}
    (row : t.SplitRow node feature threshold l r) :
    t.Edge node .left l := ⟨row.isLeaf, row.child_left⟩

theorem SplitRow.edge_right {node l r feature : Nat} {threshold : Double}
    (row : t.SplitRow node feature threshold l r) :
    t.Edge node .right r := ⟨row.isLeaf, row.child_right⟩

theorem Unfolds.descends {node n : NodeId} {tree : DecisionTree} (h : t.Unfolds node tree)
    {path : List Side} (ends : t.follow node path = some n) : t.Descends node path n := by
  induction h generalizing path with
  | leaf row =>
    obtain ⟨rfl, rfl⟩ := row.follow_inv ends
    exact .here
  | split row first second ihl ihr =>
    rcases row.follow_inv ends with ⟨rfl, rfl⟩ | ⟨rest, rfl, further⟩ | ⟨rest, rfl, further⟩
    · exact .here
    · exact .down row.edge_left (ihl further)
    · exact .down row.edge_right (ihr further)

theorem Unfolds.reached {node n : NodeId} {tree : DecisionTree} (h : t.Unfolds node tree)
    (reached : t.Reached node) (member : n ∈ tree.nodes) : t.Reached n := by
  obtain ⟨path, ends⟩ := h.mem_nodes_iff.mp member
  have descends := h.descends ends
  clear ends member h
  induction descends with
  | here => exact reached
  | down edge below ih => exact ih (reached.next edge)

theorem Unfolds.acyclic {node n : NodeId} {tree : DecisionTree} (h : t.Unfolds node tree)
    (nodup : tree.nodes.Nodup) (member : n ∈ tree.nodes) : t.Acyclic n := by
  intro path back
  obtain ⟨before, ends⟩ := h.mem_nodes_iff.mp member
  have whole : t.follow node (before ++ path) = some n := by
    rw [follow_append, ends, Option.bind_some, back]
  have same := h.paths_apart_of_nodup nodup _ _ n whole ends
  exact List.append_right_eq_self.mp same

theorem checkChild_defect {node : Fin t.size} {side : Side} {child : NodeId} {e : TreeError}
    (edge : t.Edge node side child) (refused : t.checkChild node side child = .error e) :
    t.Defect node e := by
  unfold checkChild at refused
  split at refused
  · rename_i same
    cases refused
    exact .selfLoop (same ▸ edge)
  · split at refused
    · cases refused
    · rename_i outside
      cases refused
      exact .childOutOfBounds edge (Nat.le_of_not_lt outside)

theorem leaf_defect (aligned : t.Aligned) {node : Fin t.size} {e : TreeError}
    {left right : Option NodeId} (isLeaf : t.isLeaf[node.val]? = some true)
    (has_left : t.left[node.val]? = some left) (has_right : t.right[node.val]? = some right)
    (refused : t.checkNode node = some (.error e)) : t.Defect node e := by
  have inside : node.val < t.leaf.size := by rw [aligned.leaf]; exact node.isLt
  have has_leaf := Array.getElem?_eq_getElem inside
  generalize t.leaf[node.val] = payload at has_leaf
  simp only [checkNode, isLeaf, has_left, has_right, has_leaf, Option.bind_eq_bind,
    Option.bind_some, if_true, Option.pure_def] at refused
  cases left with
  | some l =>
    cases refused
    have present : t.child node .left = some l := by simp [child, has_left]
    exact .leafWithChildren isLeaf present
  | none =>
    cases right with
    | some r =>
      cases refused
      have present : t.child node .right = some r := by simp [child, has_right]
      exact .leafWithChildren isLeaf present
    | none =>
      cases payload with
      | none =>
        cases refused
        exact .missingLeaf isLeaf has_leaf
      | some payload => cases refused

theorem split_defect (aligned : t.Aligned) {node : Fin t.size} {e : TreeError}
    {left right : Option NodeId} (isSplit : t.isLeaf[node.val]? = some false)
    (has_left : t.left[node.val]? = some left) (has_right : t.right[node.val]? = some right)
    (refused : t.checkNode node = some (.error e)) : t.Defect node e := by
  have unfolded := refused
  simp only [checkNode, isSplit, has_left, has_right, Option.bind_eq_bind, Option.bind_some,
    Bool.false_eq_true, if_false, Option.pure_def, Option.some.injEq] at unfolded
  cases left with
  | none =>
    cases unfolded
    have absent : t.child node .left = none := by simp [child, has_left]
    exact .missingChild isSplit absent
  | some l =>
    cases right with
    | none =>
      cases unfolded
      have absent : t.child node .right = none := by simp [child, has_right]
      exact .missingChild isSplit absent
    | some r =>
      obtain ⟨_, feature, threshold, _, _, _, has_feature, has_threshold, _⟩ :=
        aligned.entries node.isLt
      have row : t.SplitRow node feature threshold l r :=
        ⟨isSplit, has_left, has_right, has_feature, has_threshold⟩
      rcases row.checkNode_error refused with at_fault | at_fault
      · exact checkChild_defect row.edge_left at_fault
      · exact checkChild_defect row.edge_right at_fault

theorem checkNode_defect (aligned : t.Aligned) {node : Fin t.size} {e : TreeError}
    (refused : t.checkNode node = some (.error e)) : t.Defect node e := by
  obtain ⟨kind, _, _, left, right, is_kind, _, _, has_left, has_right⟩ := aligned.entries node.isLt
  cases kind with
  | true => exact leaf_defect aligned is_kind has_left has_right refused
  | false => exact split_defect aligned is_kind has_left has_right refused

/-- Where entering a node comes to a stop: at the node, below it on the left, or below it on the
right once the left branch is finished. -/
inductive Stops (t : NodeTable) : Vector Mark t.size → Fin t.size → TreeError → Prop where
  | cycle {marks node} (again : marks.get node = .opened) : Stops t marks node (.cycle node)
  | shared {marks node} (again : marks.get node = .finished) : Stops t marks node (.sharedNode node)
  | row {marks node e} (refused : t.checkNode node = some (.error e)) : Stops t marks node e
  | left {marks node l r e} (fresh : marks.get node = .fresh)
      (checked : t.checkNode node = some (.ok (some (l, r))))
      (below : Stops t (setMark marks node .opened) l e) : Stops t marks node e
  | right {marks node l r e} {tree : DecisionTree} (fresh : marks.get node = .fresh)
      (checked : t.checkNode node = some (.ok (some (l, r)))) (unfolds : t.Unfolds l.val tree)
      (nodup : tree.nodes.Nodup) (untouched : AllFresh (setMark marks node .opened) tree.nodes)
      (below : Stops t (settle (setMark marks node .opened) tree.nodes) r e) : Stops t marks node e

inductive Fails (t : NodeTable) : Vector Mark t.size → List (Task t.size) → TreeError → Prop where
  | finish {marks node rest e} (later : Fails t (setMark marks node .finished) rest e) :
      Fails t marks (.finish node :: rest) e
  | here {marks node rest e} (stops : t.Stops marks node e) : Fails t marks (.enter node :: rest) e
  | later {marks node rest e} {tree : DecisionTree} (unfolds : t.Unfolds node.val tree)
      (nodup : tree.nodes.Nodup) (fresh : AllFresh marks tree.nodes)
      (later : Fails t (settle marks tree.nodes) rest e) : Fails t marks (.enter node :: rest) e

theorem fails_of_explore (aligned : t.Aligned) {marks : Vector Mark t.size}
    {tasks : List (Task t.size)} {e : TreeError}
    (refused : t.explore marks tasks = some (.error e)) : t.Fails marks tasks e := by
  fun_induction explore t marks tasks with
  | case1 marks => cases refused
  | case2 marks node rest ih => exact .finish (ih refused)
  | case3 marks node rest mark =>
    cases refused
    exact .here (.cycle mark)
  | case4 marks node rest mark =>
    cases refused
    exact .here (.shared mark)
  | case5 marks node rest mark checked => cases refused
  | case6 marks node rest mark fault checked =>
    cases refused
    exact .here (.row checked)
  | case7 marks node rest mark checked ih =>
    obtain ⟨payload, row⟩ := checkNode_leaf_iff.mp checked
    cases ih refused with
    | finish later =>
      rw [settle_leaf] at later
      refine .later (.leaf row) (by simp [DecisionTree.nodes]) ?_ later
      intro i member
      rw [Fin.ext (List.mem_singleton.mp member)]
      exact mark
  | case8 marks node rest mark left right checked ih =>
    obtain ⟨⟨feature, threshold, row⟩, _⟩ := (checkNode_split_iff aligned).mp checked
    cases ih refused with
    | here stops => exact .here (.left mark checked stops)
    | later first left_nodup left_fresh later =>
      cases later with
      | here stops => exact .here (.right mark checked first left_nodup left_fresh stops)
      | later second right_nodup right_fresh later =>
        cases later with
        | finish later =>
          rw [settle_split] at later
          obtain ⟨nodup, fresh⟩ := split_fresh mark first.nodes_lt left_nodup right_nodup
            left_fresh right_fresh
          exact .later (.split row first second) nodup fresh later

/-- A finished node: it is on no cycle, and another edge than the one taken now led to it from a
node that is not fresh any more. -/
structure Visited (t : NodeTable) (marks : Vector Mark t.size) (taken : Option (NodeId × Side))
    (node : NodeId) : Prop where
  acyclic : t.Acyclic node
  entered : ∃ (parent : Fin t.size) (side : Side), marks.get parent ≠ .fresh ∧
    taken ≠ some (parent.val, side) ∧ t.Reached parent ∧ t.Edge parent side node

/-- What the marks mean when a node is entered, through an edge unless it is the root. -/
structure Around (t : NodeTable) (marks : Vector Mark t.size) (taken : Option (NodeId × Side))
    (node : NodeId) : Prop where
  reached : t.Reached node
  start : taken = none → ∀ i, marks.get i = .fresh
  edge : ∀ parent side, taken = some (parent, side) → t.Reached parent ∧ t.Edge parent side node
  opened : ∀ i, marks.get i = .opened →
    (∃ path, path ≠ [] ∧ t.Descends i path node) ∧ ∀ side, ¬ t.Edge i side i
  finished : ∀ i, marks.get i = .finished → t.Visited marks taken i

theorem around_root (t : NodeTable) : t.Around (Vector.replicate t.size .fresh) none 0 := by
  refine ⟨t.root_reached, ?_, ?_, ?_, ?_⟩
  · intro _ i
    exact replicate_get .fresh i
  · intro parent side taken
    cases taken
  · intro i open_mark
    rw [replicate_get] at open_mark
    cases open_mark
  · intro i finished_mark
    rw [replicate_get] at finished_mark
    cases finished_mark

theorem settle_nil {size : Nat} (marks : Vector Mark size) : settle marks [] = marks := by
  apply marks_ext
  intro i
  rw [settle_get, if_neg List.not_mem_nil]

theorem below_get {size : Nat} (marks : Vector Mark size) (node : Fin size) (branch : List NodeId)
    (i : Fin size) :
    (settle (setMark marks node .opened) branch).get i =
      if i.val ∈ branch then .finished else if node = i then .opened else marks.get i := by
  rw [settle_get]
  by_cases same : node = i
  · subst same
    rw [setMark_get_self, if_pos rfl]
  · rw [setMark_get_other _ _ same, if_neg same]

/-- One step down from a fresh node, which is open from now on, past a branch of it
that was visited. -/
theorem Around.step {marks : Vector Mark t.size} {taken : Option (NodeId × Side)}
    {node : Fin t.size} {next : NodeId} {side : Side} {branch : List NodeId}
    (around : t.Around marks taken node) (fresh : marks.get node = .fresh)
    (edge : t.Edge node side next) (loopless : ∀ side, ¬ t.Edge node side node)
    (visited : ∀ n ∈ branch,
      t.Visited (settle (setMark marks node .opened) branch) (some (node.val, side)) n) :
    t.Around (settle (setMark marks node .opened) branch) (some (node.val, side)) next := by
  refine ⟨around.reached.next edge, ?_, ?_, ?_, ?_⟩
  · intro none_taken
    cases none_taken
  · intro parent side' same
    cases same
    exact ⟨around.reached, edge⟩
  · intro i mark
    rw [below_get] at mark
    split at mark
    · cases mark
    · split at mark
      · rename_i same
        subst same
        exact ⟨⟨[side], by simp, .down edge .here⟩, loopless⟩
      · obtain ⟨⟨path, _, descends⟩, loopless'⟩ := around.opened i mark
        exact ⟨⟨path ++ [side], by simp, descends.snoc edge⟩, loopless'⟩
  · intro i mark
    rw [below_get] at mark
    split at mark
    · rename_i inner
      exact visited i inner
    · split at mark
      · cases mark
      · obtain ⟨acyclic, parent, side', stale, _, reached, edge'⟩ := around.finished i mark
        -- the parent was not fresh before, while the node left behind was
        have other : node ≠ parent := by
          rintro rfl
          exact stale fresh
        refine ⟨acyclic, parent, side', ?_, ?_, reached, edge'⟩
        · rw [below_get, if_neg other]
          split
          · simp
          · exact stale
        · intro same
          exact other (Fin.ext (Prod.mk.inj (Option.some.inj same)).1)

/-- The rows of a finished left branch were entered from the branch or from the node above it. -/
theorem visited_left {marks : Vector Mark t.size} {node l r : Fin t.size} {feature : Nat}
    {threshold : Double} {tree : DecisionTree} (row : t.SplitRow node feature threshold l r)
    (reached : t.Reached node) (unfolds : t.Unfolds l.val tree) (nodup : tree.nodes.Nodup)
    (untouched : AllFresh (setMark marks node .opened) tree.nodes) :
    ∀ n ∈ tree.nodes,
      t.Visited (settle (setMark marks node .opened) tree.nodes) (some (node.val, .right)) n := by
  intro n member
  refine ⟨unfolds.acyclic nodup member, ?_⟩
  obtain ⟨path, ends⟩ := unfolds.mem_nodes_iff.mp member
  rcases List.eq_nil_or_concat' path with rfl | ⟨before, side, rfl⟩
  · cases ends
    refine ⟨node, .left, ?_, by simp, reached, row.edge_left⟩
    rw [below_get]
    split <;> simp
  · obtain ⟨parent, met, child⟩ := follow_snoc.mp ends
    have inner : parent ∈ tree.nodes := unfolds.mem_nodes_iff.mpr ⟨before, met⟩
    have inside := unfolds.nodes_lt parent inner
    have reached' := unfolds.reached (reached.next row.edge_left) inner
    refine ⟨⟨parent, inside⟩, side, ?_, ?_, reached', ?_⟩
    · rw [below_get, if_pos inner]
      simp
    · -- the node above the branch is open and so none of its rows
      intro same
      have here : node.val = parent := (Prod.mk.inj (Option.some.inj same)).1
      have found := untouched node (here ▸ inner)
      rw [setMark_get_self] at found
      cases found
    · rcases unfolds.row_of_mem inner with ⟨payload, leaf_row⟩ | ⟨_, _, _, _, split_row, _⟩
      · rw [leaf_row.child_none] at child
        cases child
      · exact ⟨split_row.isLeaf, child⟩

theorem checked_row (aligned : t.Aligned) {node l r : Fin t.size}
    (checked : t.checkNode node = some (.ok (some (l, r)))) :
    (∃ feature threshold, t.SplitRow node feature threshold l r) ∧
    ∀ side, ¬ t.Edge node side node := by
  obtain ⟨⟨feature, threshold, row⟩, left_other, right_other⟩ :=
    (checkNode_split_iff aligned).mp checked
  refine ⟨⟨feature, threshold, row⟩, ?_⟩
  intro side edge
  have back := edge.child
  cases side with
  | left =>
    rw [row.child_left] at back
    exact left_other (Fin.ext (Option.some.inj back))
  | right =>
    rw [row.child_right] at back
    exact right_other (Fin.ext (Option.some.inj back))

theorem Stops.diagnosis (aligned : t.Aligned) {marks : Vector Mark t.size} {node : Fin t.size}
    {e : TreeError} (stops : t.Stops marks node e) {taken : Option (NodeId × Side)}
    (around : t.Around marks taken node) : t.Diagnosis e := by
  induction stops generalizing taken with
  | @cycle marks node again =>
    obtain ⟨⟨path, moved, descends⟩, loopless⟩ := around.opened node again
    obtain ⟨first, returns⟩ := descends.returns moved loopless
    exact .cycle around.reached returns
  | @shared marks node again =>
    obtain ⟨acyclic, parent, side, _, apart, reached, edge⟩ := around.finished node again
    cases taken with
    | none =>
      rw [around.start rfl node] at again
      cases again
    | some last =>
      obtain ⟨reached', edge'⟩ := around.edge last.1 last.2 rfl
      exact .shared (fun same => apart (congrArg some same)) reached' edge' reached edge acyclic
  | row refused => exact .row around.reached (checkNode_defect aligned refused)
  | @left marks node l r e fresh checked below ih =>
    obtain ⟨⟨feature, threshold, row⟩, loopless⟩ := checked_row aligned checked
    have around' := @Around.step t _ _ _ _ _ [] around fresh row.edge_left loopless (by simp)
    rw [settle_nil] at around'
    exact ih around'
  | @right marks node l r e tree fresh checked unfolds nodup untouched below ih =>
    obtain ⟨⟨feature, threshold, row⟩, loopless⟩ := checked_row aligned checked
    apply ih
    apply around.step fresh row.edge_right loopless
    exact visited_left row around.reached unfolds nodup untouched

theorem checkLengths_diagnosis {e : TreeError} (refused : t.checkLengths = .error e) :
    t.Diagnosis e := by
  unfold checkLengths at refused
  split at refused
  · rename_i column length found
    cases refused
    have wrong := List.find?_some found
    exact .lengths (List.mem_of_find?_eq_some found) (by simpa using wrong)
  · cases refused

theorem first_fresh {size : Nat} {marks : Vector Mark size} {node : NodeId}
    (first : marks.toList.findIdx? (· == .fresh) = some node) :
    ∃ inside : node < size, marks.get ⟨node, inside⟩ = .fresh ∧
      ∀ i : Fin size, i.val < node → marks.get i ≠ .fresh := by
  obtain ⟨inside, fresh, earlier⟩ := List.findIdx?_eq_some_iff_getElem.mp first
  rw [Vector.length_toList] at inside
  refine ⟨inside, ?_, ?_⟩
  · have found : marks[node] = .fresh := by simpa using fresh
    exact found
  · intro i less mark
    have stale := earlier i.val less
    rw [Vector.getElem_toList] at stale
    exact stale (beq_iff_eq.mpr mark)

/-- A row left over after a search without fault: the rows before it were reached, and all that were
make up one tree. -/
theorem orphan_diagnosis (aligned : t.Aligned) {root : 0 < t.size} {marks : Vector Mark t.size}
    {node : NodeId}
    (explored : t.explore (Vector.replicate t.size .fresh) [.enter ⟨0, root⟩] = some (.ok marks))
    (first : marks.toList.findIdx? (· == .fresh) = some node) :
    t.Diagnosis (.unreachable node) := by
  obtain ⟨tree, unfolds, nodup, marked⟩ := explored_tree aligned explored
  obtain ⟨inside, fresh, earlier⟩ := first_fresh first
  have reached : ∀ n ∈ tree.nodes, t.Reached n :=
    fun n member => unfolds.reached t.root_reached member
  refine .unreachable inside ?_ ?_ unfolds nodup ?_
  · intro path ends
    rw [marked, if_pos (unfolds.mem_nodes_iff.mpr ⟨path, ends⟩)] at fresh
    cases fresh
  · intro n less
    have stale := earlier ⟨n, Nat.lt_trans less inside⟩ less
    rw [marked] at stale
    by_cases member : n ∈ tree.nodes
    · exact reached n member
    · exact absurd (if_neg member) stale
  · intro n
    refine ⟨reached n, ?_⟩
    rintro ⟨path, descends⟩
    exact unfolds.mem_nodes_iff.mpr ⟨path, descends.follow⟩

/-- An error of the check is true of the table. -/
theorem validate_diagnosis {t : NodeTable} {e : TreeError}
    (refused : t.validate.run = some (.error e)) : t.Diagnosis e := by
  cases validate_rejects refused with
  | lengths found => exact checkLengths_diagnosis found
  | empty none_left => exact .empty none_left
  | search aligned root found =>
    cases fails_of_explore aligned found with
    | here stops => exact stops.diagnosis aligned t.around_root
    | later _ _ _ later => cases later
  | orphan aligned root explored first => exact orphan_diagnosis aligned explored first

def ofChildren (rows : List (Option (NodeId × NodeId))) : NodeTable :=
  { feature := (rows.map fun _ => 0).toArray
    threshold := (rows.map fun _ => .zero).toArray
    left := (rows.map (Option.map Prod.fst)).toArray
    right := (rows.map (Option.map Prod.snd)).toArray
    isLeaf := (rows.map Option.isNone).toArray
    leaf := (rows.map fun children => if children.isNone then some (.ofIndex 0) else none).toArray }

/-- A way back to the root, a leaf with two parents, and a leaf with none. -/
theorem ofChildren_diagnosed :
    ((ofChildren [some (1, 2), some (2, 0), none]).validate.run = some (.error (.cycle 0)) ∧
      ∃ path, (ofChildren [some (1, 2), some (2, 0), none]).Returns 0 path) ∧
    ((ofChildren [some (2, 1), none, some (3, 1), none]).validate.run =
      some (.error (.sharedNode 1)) ∧
      (ofChildren [some (2, 1), none, some (3, 1), none]).Acyclic 1) ∧
    ((ofChildren [some (3, 1), none, none, none]).validate.run = some (.error (.unreachable 2)) ∧
      (ofChildren [some (3, 1), none, none, none]).Reached 1) := by
  have cyclic : (ofChildren [some (1, 2), some (2, 0), none]).validate.run =
      some (.error (.cycle 0)) := by
    decide +kernel
  have shared : (ofChildren [some (2, 1), none, some (3, 1), none]).validate.run =
      some (.error (.sharedNode 1)) := by decide +kernel
  have orphaned : (ofChildren [some (3, 1), none, none, none]).validate.run =
      some (.error (.unreachable 2)) := by decide +kernel
  refine ⟨⟨cyclic, ?_⟩, ⟨shared, ?_⟩, ⟨orphaned, ?_⟩⟩
  · cases validate_diagnosis cyclic with
    | row _ defect => cases defect
    | cycle _ returns => exact ⟨_, returns⟩
  · cases validate_diagnosis shared with
    | row _ defect => cases defect
    | shared _ _ _ _ _ acyclic => exact acyclic
  · cases validate_diagnosis orphaned with
    | row _ defect => cases defect
    | unreachable _ _ least _ _ _ => exact least 1 (by decide)

end NodeTable

end DecisionTreeC
