import DecisionTreeC.Proofs.Assembly
import DecisionTreeC.Proofs.Listing
import Mathlib.Data.List.Nodup

/-!
Tables grown from the root. Each call assigns an open node: one that was allocated and not assigned
yet. At every moment the rows outline one tree, whose open nodes are its vacant rows; assigning one
of them grafts a leaf, or a split above two open nodes, in its place. So the check accepts a table
without open nodes, and otherwise stops at the first open one in pre-order.
-/
namespace DecisionTreeC

namespace DecisionTree

/-- The tree with another one in place of the leaf of row `target`. -/
def graft : DecisionTree → NodeId → DecisionTree → DecisionTree
  | .leaf node payload, target, scion => if node = target then scion else .leaf node payload
  | .split node feature threshold left right, target, scion =>
    .split node feature threshold (left.graft target scion) (right.graft target scion)

end DecisionTree

def spliced (target : NodeId) (added nodes : List NodeId) : List NodeId :=
  nodes.flatMap fun n => if n = target then target :: added else [n]

theorem mem_splice {target n m : NodeId} {added : List NodeId} :
    n ∈ (if m = target then target :: added else [m]) ↔ n = m ∨ m = target ∧ n ∈ added := by
  by_cases here : m = target
  · simp [here]
  · simp [here]

theorem mem_spliced {target n : NodeId} {added nodes : List NodeId} :
    n ∈ spliced target added nodes ↔ n ∈ nodes ∨ target ∈ nodes ∧ n ∈ added := by
  simp only [spliced, List.mem_flatMap, mem_splice]
  constructor
  · rintro ⟨m, member, rfl | ⟨rfl, new⟩⟩
    · exact .inl member
    · exact .inr ⟨member, new⟩
  · rintro (old | ⟨member, new⟩)
    · exact ⟨n, old, .inl rfl⟩
    · exact ⟨target, member, .inr ⟨rfl, new⟩⟩

theorem nodup_spliced (target : NodeId) {added nodes : List NodeId} (nodup : nodes.Nodup)
    (added_nodup : added.Nodup) (new : ∀ n ∈ added, n ∉ nodes) :
    (spliced target added nodes).Nodup := by
  rw [spliced, List.nodup_flatMap]
  constructor
  · intro n member
    split
    · rename_i here
      exact List.nodup_cons.mpr ⟨fun again => new target again (here ▸ member), added_nodup⟩
    · exact List.nodup_singleton n
  · refine nodup.imp_of_mem ?_
    intro a b a_mem b_mem apart x in_a in_b
    rcases mem_splice.mp in_a with rfl | ⟨rfl, a_new⟩
    · rcases mem_splice.mp in_b with same | ⟨_, b_new⟩
      · exact apart same
      · exact new x b_new a_mem
    · rcases mem_splice.mp in_b with rfl | ⟨rfl, _⟩
      · exact new x a_new b_mem
      · exact apart rfl

namespace NodeTable

variable {t u : NodeTable} {target : NodeId} {scion : DecisionTree}

theorem VacantRow.ne_occupied {node : NodeId} (vacant : t.VacantRow target)
    (occupied : ¬ t.VacantRow node) : node ≠ target := by
  rintro rfl
  exact occupied vacant

theorem VacantRow.same {node : NodeId} (row : t.VacantRow node) (same : t.SameRow u node) :
    u.VacantRow node :=
  ⟨same.isLeaf.trans row.isLeaf, same.left.trans row.left, same.right.trans row.right,
    same.leaf.trans row.leaf⟩

theorem LeafRow.same {node : NodeId} {payload : Leaf} (row : t.LeafRow node payload)
    (same : t.SameRow u node) : u.LeafRow node payload :=
  ⟨same.isLeaf.trans row.isLeaf, same.left.trans row.left, same.right.trans row.right,
    same.leaf.trans row.leaf⟩

theorem SplitRow.same {node l r feature : Nat} {threshold : Double}
    (row : t.SplitRow node feature threshold l r) (same : t.SameRow u node) :
    u.SplitRow node feature threshold l r :=
  ⟨same.isLeaf.trans row.isLeaf, same.left.trans row.left, same.right.trans row.right,
    same.feature.trans row.feature, same.threshold.trans row.threshold⟩

/-- A change of one vacant row changes the outline in its place only. -/
theorem Outlines.graft {node : NodeId} {tree : DecisionTree} (outlines : t.Outlines node tree)
    (vacant : t.VacantRow target) (kept : ∀ n, n < t.size → n ≠ target → t.SameRow u n)
    (grafted : u.Outlines target scion) :
    u.Outlines node (tree.graft target scion) := by
  induction outlines with
  | @vacant node row payload =>
    rw [DecisionTree.graft]
    split
    · rename_i here
      rw [here]
      exact grafted
    · rename_i other
      exact .vacant (row.same (kept node row.lt_size other)) payload
  | @leaf node payload row =>
    have other := vacant.ne_occupied row.not_vacant
    rw [DecisionTree.graft, if_neg other]
    exact .leaf (row.same (kept node row.lt_size other))
  | @split node l r feature threshold left right row first second ihl ihr =>
    have other := vacant.ne_occupied row.not_vacant
    exact .split (row.same (kept node row.lt_size other)) ihl ihr

theorem Outlines.nodes_graft (vacant : t.VacantRow target) {added : List NodeId}
    (rows : scion.nodes = target :: added) {node : NodeId} {tree : DecisionTree}
    (outlines : t.Outlines node tree) :
    (tree.graft target scion).nodes = spliced target added tree.nodes := by
  induction outlines with
  | @vacant node row payload =>
    by_cases here : node = target
    · simp [DecisionTree.graft, DecisionTree.nodes, spliced, here, rows]
    · simp [DecisionTree.graft, DecisionTree.nodes, spliced, here]
  | @leaf node payload row =>
    have other := vacant.ne_occupied row.not_vacant
    simp [DecisionTree.graft, DecisionTree.nodes, spliced, other]
  | @split node l r feature threshold left right row first second ihl ihr =>
    have other := vacant.ne_occupied row.not_vacant
    simp [DecisionTree.graft, DecisionTree.nodes, other, ihl, ihr, spliced]

structure Outlined (t : NodeTable) (tree : DecisionTree) : Prop where
  outlines : t.Outlines 0 tree
  nodup : tree.nodes.Nodup
  covers : ∀ node, node < t.size → node ∈ tree.nodes

theorem Outlined.graft {tree : DecisionTree} (outlined : t.Outlined tree)
    (vacant : t.VacantRow target) (kept : ∀ n, n < t.size → n ≠ target → t.SameRow u n)
    (grafted : u.Outlines target scion) {added : List NodeId}
    (rows : scion.nodes = target :: added) (added_nodup : added.Nodup)
    (behind : ∀ n ∈ added, t.size ≤ n) (full : ∀ n, n < u.size → n < t.size ∨ n ∈ added) :
    u.Outlined (tree.graft target scion) := by
  have nodes := Outlines.nodes_graft vacant rows outlined.outlines
  refine ⟨outlined.outlines.graft vacant kept grafted, ?_, ?_⟩
  · rw [nodes]
    apply nodup_spliced target outlined.nodup added_nodup
    intro n new old
    exact Nat.not_lt_of_le (behind n new) (outlined.outlines.nodes_lt n old)
  · intro n below
    rw [nodes, mem_spliced]
    rcases full n below with old | new
    · exact .inl (outlined.covers n old)
    · exact .inr ⟨outlined.covers target vacant.lt_size, new⟩

/-- The check of an outlined table stops at its first vacant row in pre-order, if there is one. -/
theorem Outlined.validate_run {tree : DecisionTree} (aligned : t.Aligned)
    (outlined : t.Outlined tree) :
    t.validate.run =
      match tree.nodes.find? (t.VacantRow ·) with
      | none => some (.ok ())
      | some first => some (.error (.missingChild first .left)) := by
  cases stop : tree.nodes.find? (t.VacantRow ·) with
  | none =>
    have occupied : ∀ n ∈ tree.nodes, ¬ t.VacantRow n := by simpa using stop
    have unfolds := outlined.outlines.unfolds occupied
    exact validate_ok_iff.mpr ⟨tree, aligned, unfolds, outlined.nodup, outlined.covers⟩
  | some first =>
    have root := outlined.outlines.nodes_lt 0 outlined.outlines.node_mem
    have fresh : AllFresh (Vector.replicate t.size .fresh) tree.nodes := by
      intro i member
      simp
    have explored := explore_outlines aligned outlined.outlines root outlined.nodup _ fresh []
    rw [stop] at explored
    unfold validate
    rw [run_mk_bind_ok (congrArg some (checkLengths_ok_iff.mpr aligned)), dif_pos root]
    exact run_bind_error explored _

end NodeTable

def Open (calls : List Call) (node : NodeId) : Prop :=
  node < (assembled calls).size ∧ ∀ c ∈ calls, c.target? ≠ some node

instance (calls : List Call) (node : NodeId) : Decidable (Open calls node) :=
  inferInstanceAs (Decidable (_ ∧ _))

/-- The runs that start at the root and assign open nodes only, in any order. -/
inductive Growth : List Call → Prop where
  | root : Growth [.initRoot]
  | split {calls : List Call} {node : NodeId} (grown : Growth calls) (fresh : Open calls node)
      (feature : Nat) (threshold : Double) : Growth (calls ++ [.applySplit node feature threshold])
  | leaf {calls : List Call} {node : NodeId} (grown : Growth calls) (fresh : Open calls node)
      (leaf : Leaf) : Growth (calls ++ [.setLeaf node leaf])

def Call.isSplit : Call → Bool
  | .applySplit .. => true
  | _ => false

theorem open_iff {calls : List Call} {node : NodeId} :
    Open calls node ↔ (assembled calls).VacantRow node := by
  constructor
  · rintro ⟨inside, untouched⟩
    exact (assembled_tracked calls).unassigned node inside untouched
  · intro row
    have holds := assembled_holds row.lt_size
    have vacant := holds.unique (show (assembled calls).Holds node .vacant from row)
    exact ⟨row.lt_size, (TableBuilder.vacant_iff calls node).mp vacant⟩

theorem open_added {calls : List Call} {c : Call} {target node : NodeId}
    (assigns : c.target? = some target) (inside : target < (assembled calls).size)
    (behind : (assembled calls).size ≤ node) (allocated : node < (assembled (calls ++ [c])).size) :
    Open (calls ++ [c]) node := by
  refine ⟨allocated, ?_⟩
  intro other member same
  rcases List.mem_append.mp member with before | last
  · have used := TableBuilder.target_lt_run .empty before same
    rw [← assembled_size] at used
    exact Nat.not_lt_of_le behind used
  · rw [List.mem_singleton.mp last, assigns, Option.some.injEq] at same
    exact Nat.not_lt_of_le behind (same ▸ inside)

theorem kept_rows (calls : List Call) {c : Call} {target : NodeId}
    (assigns : c.target? = some target) :
    ∀ n, n < (assembled calls).size → n ≠ target →
      (assembled calls).SameRow (assembled (calls ++ [c])) n := by
  intro n inside other
  apply (assembled_tracked calls).others c n inside
  rw [assigns, Ne, Option.some.injEq]
  exact Ne.symm other

theorem size_after_split {calls : List Call} {node : NodeId} (fresh : Open calls node)
    (feature : Nat) (threshold : Double) :
    (assembled (calls ++ [.applySplit node feature threshold])).size =
      (assembled calls).size + 2 := by
  rw [(assembled_tracked calls).grows]
  exact Nat.max_eq_left (Nat.le_add_right_of_le fresh.1)

theorem size_after_leaf {calls : List Call} {node : NodeId} (fresh : Open calls node)
    (leaf : Leaf) : (assembled (calls ++ [.setLeaf node leaf])).size = (assembled calls).size := by
  rw [(assembled_tracked calls).grows]
  exact Nat.max_eq_left fresh.1

theorem outlined_split {calls : List Call} {tree : DecisionTree} {node : NodeId}
    (outlined : (assembled calls).Outlined tree) (fresh : Open calls node) (feature : Nat)
    (threshold : Double) :
    ∃ bigger, (assembled (calls ++ [.applySplit node feature threshold])).Outlined bigger := by
  have size := size_after_split fresh feature threshold
  have below : ∀ n, (assembled calls).size ≤ n → n < (assembled calls).size + 2 →
      (assembled (calls ++ [.applySplit node feature threshold])).VacantRow n := by
    intro n behind allocated
    rw [← size] at allocated
    exact open_iff.mp (open_added rfl fresh.1 behind allocated)
  obtain ⟨_, row, _⟩ := @leaves_of_last calls [] (.applySplit node feature threshold) node rfl nofun
  have grafted : (assembled (calls ++ [.applySplit node feature threshold])).Outlines node _ :=
    .split row (.vacant (below _ (by omega) (by omega)) (.ofIndex 0))
      (.vacant (below _ (by omega) (by omega)) (.ofIndex 0))
  refine ⟨_, outlined.graft (open_iff.mp fresh) (kept_rows calls rfl) grafted rfl ?_ ?_ ?_⟩
  · simp [DecisionTree.nodes]
  · intro n member
    rcases List.mem_pair.mp member with rfl | rfl
    · exact Nat.le_refl _
    · exact Nat.le_succ _
  · intro n allocated
    rw [size] at allocated
    have split_range : n < (assembled calls).size ∨ n = (assembled calls).size ∨
        n = (assembled calls).size + 1 := by omega
    exact split_range.imp_right List.mem_pair.mpr

theorem outlined_leaf {calls : List Call} {tree : DecisionTree} {node : NodeId}
    (outlined : (assembled calls).Outlined tree) (fresh : Open calls node) (leaf : Leaf) :
    ∃ other, (assembled (calls ++ [.setLeaf node leaf])).Outlined other := by
  obtain ⟨_, row⟩ := @leaves_of_last calls [] (.setLeaf node leaf) node rfl nofun
  refine ⟨_,
    outlined.graft (open_iff.mp fresh) (kept_rows calls rfl) (.leaf row) rfl List.nodup_nil ?_ ?_⟩
  · simp
  · intro n allocated
    rw [size_after_leaf fresh leaf] at allocated
    exact .inl allocated

theorem size_root : (assembled [.initRoot]).size = 1 := by
  have grown := (assembled_tracked []).grows .initRoot
  rw [assembled_size []] at grown
  exact grown

theorem outlined_root : ∃ tree, (assembled [.initRoot]).Outlined tree := by
  have fresh : Open [.initRoot] 0 := by
    refine ⟨?_, by decide⟩
    rw [size_root]
    exact Nat.one_pos
  refine ⟨.leaf 0 (.ofIndex 0), .vacant (open_iff.mp fresh) _, List.nodup_singleton 0, ?_⟩
  intro node inside
  rw [size_root, Nat.lt_one_iff] at inside
  exact List.mem_singleton.mpr inside

/-- Every moment of a growth: the rows outline a tree, and each split has added two of them. -/
theorem growth_outlined {calls : List Call} (grown : Growth calls) :
    (∃ tree, (assembled calls).Outlined tree) ∧
      (assembled calls).size = 2 * calls.countP Call.isSplit + 1 := by
  induction grown with
  | root => exact ⟨outlined_root, size_root⟩
  | split grown fresh feature threshold ih =>
    obtain ⟨⟨tree, outlined⟩, size⟩ := ih
    refine ⟨outlined_split outlined fresh feature threshold, ?_⟩
    rw [size_after_split fresh, size, List.countP_append]
    simp only [List.countP_singleton, Call.isSplit, if_true]
    omega
  | leaf grown fresh leaf ih =>
    obtain ⟨⟨tree, outlined⟩, size⟩ := ih
    refine ⟨outlined_leaf outlined fresh leaf, ?_⟩
    rw [size_after_leaf fresh, size, List.countP_append]
    simp [Call.isSplit]

/-- A grown table without open nodes passes the check and has one row for the root and two for each
split. While there are open nodes, the check misses the left child of the first of them in the
pre-order of the allocated rows. -/
theorem growth_checked {calls : List Call} (grown : Growth calls) :
    ((∀ node, ¬ Open calls node) →
      (assembled calls).validate.run = some (.ok ()) ∧
        (assembled calls).size = 2 * calls.countP Call.isSplit + 1) ∧
    ((∃ node, Open calls node) →
      ∃ tree before first after, (assembled calls).Outlined tree ∧
        (assembled calls).preorder = some tree.nodes ∧ tree.nodes = before ++ first :: after ∧
        Open calls first ∧ (∀ node ∈ before, ¬ Open calls node) ∧
        (assembled calls).validate.run = some (.error (.missingChild first .left))) := by
  obtain ⟨⟨tree, outlined⟩, size⟩ := growth_outlined grown
  have checked := outlined.validate_run (assembled_tracked calls).aligned
  constructor
  · intro none_open
    have occupied : tree.nodes.find? ((assembled calls).VacantRow ·) = none := by
      rw [List.find?_eq_none]
      intro n _
      simpa using mt open_iff.mpr (none_open n)
    rw [occupied] at checked
    exact ⟨checked, size⟩
  · rintro ⟨node, node_open⟩
    cases stop : tree.nodes.find? ((assembled calls).VacantRow ·) with
    | none =>
      have vacant := open_iff.mp node_open
      have occupied := List.find?_eq_none.mp stop node (outlined.covers node vacant.lt_size)
      simp [vacant] at occupied
    | some first =>
      rw [stop] at checked
      obtain ⟨vacant, before, after, parts, earlier⟩ := List.find?_eq_some_iff_append.mp stop
      refine ⟨tree, before, first, after, outlined, outlined.outlines.preorder_eq outlined.nodup,
        parts, open_iff.mpr (by simpa using vacant), ?_, checked⟩
      intro n member
      have occupied := earlier n member
      exact mt open_iff.mp (by simpa using occupied)

def halfGrown : List Call :=
  [.initRoot, .applySplit 0 1 .zero, .applySplit 1 0 .zero, .setLeaf 3 (.ofIndex 0)]

def fullGrown : List Call :=
  halfGrown ++ [.setLeaf 2 (.ofIndex 1)] ++ [.setLeaf 4 (.ofWeights [.zero])]

theorem halfGrown_growth : Growth halfGrown := by
  have first : Growth [.initRoot, .applySplit 0 1 .zero] := .split .root (by decide +kernel) 1 .zero
  have second : Growth [.initRoot, .applySplit 0 1 .zero, .applySplit 1 0 .zero] :=
    .split first (by decide +kernel) 0 .zero
  exact .leaf second (by decide +kernel) (.ofIndex 0)

theorem fullGrown_growth : Growth fullGrown :=
  .leaf (.leaf halfGrown_growth (by decide +kernel) (.ofIndex 1)) (by decide +kernel)
    (.ofWeights [.zero])

theorem fullGrown_closed : ∀ node, ¬ Open fullGrown node := by
  rintro node ⟨inside, untouched⟩
  have five : (assembled fullGrown).size = 5 := by decide +kernel
  have assigned : ∀ n < 5, ∃ c ∈ fullGrown, c.target? = some n := by decide
  rw [five] at inside
  obtain ⟨c, member, target⟩ := assigned node inside
  exact untouched c member target

theorem grown_checked :
    (Growth halfGrown ∧ Open halfGrown 2 ∧
      ∃ tree before after, (assembled halfGrown).Outlined tree ∧
        (assembled halfGrown).preorder = some tree.nodes ∧ tree.nodes = before ++ 4 :: after ∧
        Open halfGrown 4 ∧ (∀ node ∈ before, ¬ Open halfGrown node) ∧
        (assembled halfGrown).validate.run = some (.error (.missingChild 4 .left))) ∧
    Growth fullGrown ∧ (∀ node, ¬ Open fullGrown node) ∧
      (assembled fullGrown).validate.run = some (.ok ()) ∧ (assembled fullGrown).size = 5 := by
  have second_open : Open halfGrown 2 := by decide +kernel
  have stop : (assembled halfGrown).validate.run = some (.error (.missingChild 4 .left)) := by
    decide +kernel
  have stopped := (growth_checked halfGrown_growth).2 ⟨2, second_open⟩
  obtain ⟨tree, before, first, after, outlined, listed, parts, first_open, earlier, checked⟩ :=
    stopped
  rw [stop] at checked
  cases checked
  have accepted := (growth_checked fullGrown_growth).1 fullGrown_closed
  exact ⟨⟨halfGrown_growth, second_open, tree, before, after, outlined, listed, parts, first_open,
    earlier, stop⟩, fullGrown_growth, fullGrown_closed, accepted⟩

end DecisionTreeC
