import DecisionTreeC.Tree.Error

/-!
Tables read as trees. A decision tree proper is an inductive value; a table unfolds at a node to
such a tree when the rows below the node spell it out. A table represents a tree when it unfolds to
it at node 0 and every row stands for exactly one node of it. Where rows are vacant, a table still
outlines a tree: any leaf may come in the place of such a row.
-/
namespace DecisionTreeC

/-- A decision tree whose nodes remember their rows. -/
inductive DecisionTree where
  | leaf (node : NodeId) (payload : Leaf)
  | split (node : NodeId) (feature : Nat) (threshold : Double) (left right : DecisionTree)

namespace DecisionTree

def root : DecisionTree → NodeId
  | .leaf node _ => node
  | .split node .. => node

def nodes : DecisionTree → List NodeId
  | .leaf node _ => [node]
  | .split node _ _ left right => node :: (left.nodes ++ right.nodes)

def height : DecisionTree → Nat
  | .leaf .. => 1
  | .split _ _ _ left right => 1 + max left.height right.height

theorem root_mem_nodes (tree : DecisionTree) : tree.root ∈ tree.nodes := by
  cases tree <;> simp [root, nodes]

theorem height_pos (tree : DecisionTree) : 0 < tree.height := by
  cases tree with
  | leaf node payload => exact Nat.one_pos
  | split node feature threshold left right =>
    rw [height]
    omega

theorem height_le_length (tree : DecisionTree) : tree.height ≤ tree.nodes.length := by
  induction tree with
  | leaf node payload => simp [height, nodes]
  | split node feature threshold left right ihl ihr =>
    simp only [height, nodes, List.length_cons, List.length_append]
    omega

end DecisionTree

namespace NodeTable

structure Aligned (t : NodeTable) : Prop where
  feature : t.feature.size = t.size
  threshold : t.threshold.size = t.size
  left : t.left.size = t.size
  right : t.right.size = t.size
  leaf : t.leaf.size = t.size

structure LeafRow (t : NodeTable) (node : NodeId) (payload : Leaf) : Prop where
  isLeaf : t.isLeaf[node]? = some true
  left : t.left[node]? = some none
  right : t.right[node]? = some none
  leaf : t.leaf[node]? = some (some payload)

structure SplitRow (t : NodeTable) (node : NodeId) (feature : Nat) (threshold : Double)
    (left right : NodeId) : Prop where
  isLeaf : t.isLeaf[node]? = some false
  left : t.left[node]? = some (some left)
  right : t.right[node]? = some (some right)
  feature : t.feature[node]? = some feature
  threshold : t.threshold[node]? = some threshold

structure VacantRow (t : NodeTable) (node : NodeId) : Prop where
  isLeaf : t.isLeaf[node]? = some false
  left : t.left[node]? = some none
  right : t.right[node]? = some none
  leaf : t.leaf[node]? = some none

instance (t : NodeTable) (node : NodeId) : Decidable (t.VacantRow node) :=
  decidable_of_iff (t.isLeaf[node]? = some false ∧ t.left[node]? = some none ∧
      t.right[node]? = some none ∧ t.leaf[node]? = some none)
    ⟨fun ⟨isLeaf, left, right, leaf⟩ => ⟨isLeaf, left, right, leaf⟩,
      fun row => ⟨row.isLeaf, row.left, row.right, row.leaf⟩⟩

inductive Unfolds (t : NodeTable) : NodeId → DecisionTree → Prop where
  | leaf {node : NodeId} {payload : Leaf} (row : t.LeafRow node payload) :
      Unfolds t node (.leaf node payload)
  | split {node l r feature : Nat} {threshold : Double} {left right : DecisionTree}
      (row : t.SplitRow node feature threshold l r) (first : Unfolds t l left)
      (second : Unfolds t r right) : Unfolds t node (.split node feature threshold left right)

/-- An unfolding in which a vacant row may stand for any leaf. -/
inductive Outlines (t : NodeTable) : NodeId → DecisionTree → Prop where
  | vacant {node : NodeId} (row : t.VacantRow node) (payload : Leaf) :
      Outlines t node (.leaf node payload)
  | leaf {node : NodeId} {payload : Leaf} (row : t.LeafRow node payload) :
      Outlines t node (.leaf node payload)
  | split {node l r feature : Nat} {threshold : Double} {left right : DecisionTree}
      (row : t.SplitRow node feature threshold l r) (first : Outlines t l left)
      (second : Outlines t r right) : Outlines t node (.split node feature threshold left right)

structure Represents (t : NodeTable) (tree : DecisionTree) : Prop where
  aligned : t.Aligned
  unfolds : t.Unfolds 0 tree
  nodup : tree.nodes.Nodup
  covers : ∀ node, node < t.size → node ∈ tree.nodes

variable {t : NodeTable}

theorem LeafRow.lt_size {node : NodeId} {payload : Leaf} (row : t.LeafRow node payload) :
    node < t.size := by
  obtain ⟨inside, _⟩ := Array.getElem?_eq_some_iff.mp row.isLeaf
  exact inside

theorem SplitRow.lt_size {node l r feature : Nat} {threshold : Double}
    (row : t.SplitRow node feature threshold l r) : node < t.size := by
  obtain ⟨inside, _⟩ := Array.getElem?_eq_some_iff.mp row.isLeaf
  exact inside

theorem VacantRow.lt_size {node : NodeId} (row : t.VacantRow node) : node < t.size := by
  obtain ⟨inside, _⟩ := Array.getElem?_eq_some_iff.mp row.isLeaf
  exact inside

theorem LeafRow.not_vacant {node : NodeId} {payload : Leaf} (row : t.LeafRow node payload) :
    ¬ t.VacantRow node := by
  intro vacant
  have same := row.isLeaf.symm.trans vacant.isLeaf
  simp at same

theorem SplitRow.not_vacant {node l r feature : Nat} {threshold : Double}
    (row : t.SplitRow node feature threshold l r) : ¬ t.VacantRow node := by
  intro vacant
  have same := row.left.symm.trans vacant.left
  simp at same

theorem Unfolds.outlines {node : NodeId} {tree : DecisionTree} (h : t.Unfolds node tree) :
    t.Outlines node tree := by
  induction h with
  | leaf row => exact .leaf row
  | split row first second ihl ihr => exact .split row ihl ihr

theorem Unfolds.not_vacant {node : NodeId} {tree : DecisionTree} (h : t.Unfolds node tree) :
    ∀ n ∈ tree.nodes, ¬ t.VacantRow n := by
  induction h with
  | leaf row =>
    intro n member
    rw [List.mem_singleton.mp member]
    exact row.not_vacant
  | split row first second ihl ihr =>
    intro n member
    simp only [DecisionTree.nodes, List.mem_cons, List.mem_append] at member
    rcases member with rfl | member | member
    · exact row.not_vacant
    · exact ihl n member
    · exact ihr n member

theorem Outlines.unfolds {node : NodeId} {tree : DecisionTree} (h : t.Outlines node tree)
    (occupied : ∀ n ∈ tree.nodes, ¬ t.VacantRow n) : t.Unfolds node tree := by
  induction h with
  | vacant row payload => exact absurd row (occupied _ (List.mem_singleton_self _))
  | leaf row => exact .leaf row
  | split row first second ihl ihr =>
    simp only [DecisionTree.nodes, List.mem_cons, List.mem_append] at occupied
    exact .split row (ihl fun n member => occupied n (.inr (.inl member)))
      (ihr fun n member => occupied n (.inr (.inr member)))

theorem Outlines.root_eq {node : NodeId} {tree : DecisionTree} (h : t.Outlines node tree) :
    tree.root = node := by
  cases h <;> rfl

theorem Outlines.node_mem {node : NodeId} {tree : DecisionTree} (h : t.Outlines node tree) :
    node ∈ tree.nodes := by
  rw [← h.root_eq]
  exact tree.root_mem_nodes

theorem Outlines.nodes_lt {node : NodeId} {tree : DecisionTree} (h : t.Outlines node tree) :
    ∀ n ∈ tree.nodes, n < t.size := by
  induction h with
  | vacant row payload =>
    intro n member
    rw [List.mem_singleton.mp member]
    exact row.lt_size
  | leaf row =>
    intro n member
    rw [List.mem_singleton.mp member]
    exact row.lt_size
  | split row first second ihl ihr =>
    intro n member
    simp only [DecisionTree.nodes, List.mem_cons, List.mem_append] at member
    rcases member with rfl | member | member
    · exact row.lt_size
    · exact ihl n member
    · exact ihr n member

theorem Unfolds.node_mem {node : NodeId} {tree : DecisionTree} (h : t.Unfolds node tree) :
    node ∈ tree.nodes := h.outlines.node_mem

theorem Unfolds.nodes_lt {node : NodeId} {tree : DecisionTree} (h : t.Unfolds node tree) :
    ∀ n ∈ tree.nodes, n < t.size := h.outlines.nodes_lt

theorem Unfolds.unique {node : NodeId} {a b : DecisionTree} (ha : t.Unfolds node a)
    (hb : t.Unfolds node b) : a = b := by
  induction ha generalizing b with
  | leaf row =>
    cases hb with
    | leaf row' =>
      have same := row.leaf.symm.trans row'.leaf
      simp_all
    | split row' =>
      have same := row.isLeaf.symm.trans row'.isLeaf
      simp at same
  | split row first second ihl ihr =>
    cases hb with
    | leaf row' =>
      have same := row.isLeaf.symm.trans row'.isLeaf
      simp at same
    | split row' first' second' =>
      have left := row.left.symm.trans row'.left
      have right := row.right.symm.trans row'.right
      have feature := row.feature.symm.trans row'.feature
      have threshold := row.threshold.symm.trans row'.threshold
      simp only [Option.some.injEq] at left right feature threshold
      subst left right feature threshold
      rw [ihl first', ihr second']

theorem Outlines.length_le {node : NodeId} {tree : DecisionTree} (h : t.Outlines node tree)
    (nodup : tree.nodes.Nodup) : tree.nodes.length ≤ t.size := by
  have inside : tree.nodes ⊆ List.range t.size :=
    fun n member => List.mem_range.mpr (h.nodes_lt n member)
  simpa using nodup.length_le_of_subset inside

theorem Represents.height_le {tree : DecisionTree} (h : t.Represents tree) : tree.height ≤ t.size :=
  Nat.le_trans tree.height_le_length (h.unfolds.outlines.length_le h.nodup)

theorem Represents.size_pos {tree : DecisionTree} (h : t.Represents tree) : 0 < t.size :=
  h.unfolds.nodes_lt 0 h.unfolds.node_mem

end NodeTable

end DecisionTreeC
