import DecisionTreeC.Proofs.Outcome
import DecisionTreeC.Proofs.Unfold
import DecisionTreeC.Tree.Walk
import Mathlib.Data.List.Basic
import Mathlib.Data.List.Induction
import Mathlib.Data.List.ReduceOption

/-!
The walks over a table that represents a tree: the listing is the pre-order of the tree, the tested
features are those of its splits by first use, and the depths below the nodes are the heights of
their subtrees. Nothing here is partial: each walk has a result.
-/
namespace DecisionTreeC

namespace DecisionTree

def tests : DecisionTree → List Nat
  | .leaf .. => []
  | .split _ feature _ left right => feature :: (left.tests ++ right.tests)

end DecisionTree

def firstUses (features : List Nat) : List Nat :=
  features.foldl (fun met f => if f ∈ met then met else met ++ [f]) []

theorem firstUses_snoc (features : List Nat) (f : Nat) :
    firstUses (features ++ [f]) =
      if f ∈ firstUses features then firstUses features else firstUses features ++ [f] := by
  rw [firstUses, List.foldl_append]
  rfl

theorem mem_firstUses {features : List Nat} {f : Nat} : f ∈ firstUses features ↔ f ∈ features := by
  induction features using List.reverseRecOn with
  | nil => simp [firstUses]
  | append_singleton before last ih =>
    rw [firstUses_snoc, List.mem_append, List.mem_singleton, ← ih]
    split
    · rename_i known
      constructor
      · exact Or.inl
      · rintro (member | rfl)
        · exact member
        · exact known
    · rw [List.mem_append, List.mem_singleton]

theorem firstUses_ordered (features : List Nat) :
    (firstUses features).Pairwise fun a b => features.idxOf a < features.idxOf b := by
  induction features using List.reverseRecOn with
  | nil => simp [firstUses]
  | append_singleton before last ih =>
    have earlier : (firstUses before).Pairwise
        fun a b => (before ++ [last]).idxOf a < (before ++ [last]).idxOf b := by
      refine ih.imp_of_mem ?_
      intro a b ha hb less
      rwa [List.idxOf_append_of_mem (mem_firstUses.mp ha),
        List.idxOf_append_of_mem (mem_firstUses.mp hb)]
    rw [firstUses_snoc]
    split
    · exact earlier
    · rename_i fresh
      refine List.pairwise_append.mpr ⟨earlier, by simp, ?_⟩
      intro a ha b hb
      rw [List.mem_singleton.mp hb, List.idxOf_append_of_mem (mem_firstUses.mp ha),
        List.idxOf_append_of_notMem (mt mem_firstUses.mpr fresh)]
      have := List.idxOf_lt_length_of_mem (mem_firstUses.mp ha)
      omega

theorem find_firstUses (hit : Nat → Bool) (features : List Nat) :
    (firstUses features).find? hit = features.find? hit := by
  induction features using List.reverseRecOn with
  | nil => rfl
  | append_singleton before last ih =>
    rw [firstUses_snoc, List.find?_append]
    split
    · rename_i known
      rw [ih]
      cases found : before.find? hit with
      | some f => rfl
      | none => simp [List.find?_eq_none.mp found last (mem_firstUses.mp known)]
    · rw [List.find?_append, ih]

namespace NodeTable

variable {t : NodeTable}

theorem LeafRow.children {node : NodeId} {payload : Leaf} (row : t.LeafRow node payload) :
    t.children? node = some none := by
  simp [children?, row.isLeaf, row.left, row.right]

theorem SplitRow.children {node l r feature : Nat} {threshold : Double}
    (row : t.SplitRow node feature threshold l r) : t.children? node = some (some (l, r)) := by
  simp [children?, row.isLeaf, row.left, row.right]

theorem LeafRow.leaf? {node : NodeId} {payload : Leaf} (row : t.LeafRow node payload) :
    t.leaf? node = some (some payload) := by
  simp [NodeTable.leaf?, row.isLeaf, row.leaf]

theorem LeafRow.splitFeature {node : NodeId} {payload : Leaf} (row : t.LeafRow node payload) :
    t.splitFeature? node = some none := by
  simp [splitFeature?, row.isLeaf]

theorem SplitRow.splitFeature {node l r feature : Nat} {threshold : Double}
    (row : t.SplitRow node feature threshold l r) : t.splitFeature? node = some (some feature) := by
  simp [splitFeature?, row.isLeaf, row.feature]

theorem VacantRow.children {node : NodeId} (row : t.VacantRow node) :
    t.children? node = some none := by
  simp [children?, row.isLeaf, row.left, row.right]

/-- A node is replaced by the pre-order of its tree. The room is what the table leaves
below its depth. -/
theorem listing_outlines {node : NodeId} {tree : DecisionTree} (outlines : t.Outlines node tree)
    {depth : Nat} (room : depth + tree.height ≤ t.size + 1) (listed : Array NodeId)
    (rest : List (NodeId × Nat)) :
    t.listing listed ((node, depth) :: rest) = t.listing (listed ++ tree.nodes) rest := by
  induction outlines generalizing depth listed rest with
  | vacant row payload =>
    rw [listing, row.children]
    simp [DecisionTree.nodes]
  | leaf row =>
    rw [listing, row.children]
    simp [DecisionTree.nodes]
  | @split node l r feature threshold left right row first second ihl ihr =>
    have left_pos := left.height_pos
    simp only [DecisionTree.height] at room
    rw [listing, row.children]
    dsimp only
    rw [if_pos (by omega), ihl (by omega), ihr (by omega)]
    have gathered : listed.push node ++ left.nodes ++ right.nodes =
        listed ++ (node :: (left.nodes ++ right.nodes)) := Array.toList_inj.mp (by simp)
    rw [gathered, DecisionTree.nodes]

theorem Outlines.preorder_eq {tree : DecisionTree} (h : t.Outlines 0 tree)
    (nodup : tree.nodes.Nodup) : t.preorder = some tree.nodes := by
  have present : 0 < t.size := h.nodes_lt 0 h.node_mem
  have room : 1 + tree.height ≤ t.size + 1 := by
    have := Nat.le_trans tree.height_le_length (h.length_le nodup)
    omega
  rw [preorder, if_neg (Nat.ne_of_gt present), listing_outlines h room, listing]
  simp

theorem Represents.preorder_eq {tree : DecisionTree} (h : t.Represents tree) :
    t.preorder = some tree.nodes := h.unfolds.outlines.preorder_eq h.nodup

theorem Unfolds.tests_eq {node : NodeId} {tree : DecisionTree} (h : t.Unfolds node tree) :
    ∃ tested, tree.nodes.mapM t.splitFeature? = some tested ∧ tested.reduceOption = tree.tests := by
  induction h with
  | leaf row => exact ⟨[none], by simp [DecisionTree.nodes, row.splitFeature], rfl⟩
  | @split node l r feature threshold left right row first second ihl ihr =>
    obtain ⟨from_left, left_eq, left_tests⟩ := ihl
    obtain ⟨from_right, right_eq, right_tests⟩ := ihr
    refine ⟨some feature :: (from_left ++ from_right), ?_, ?_⟩
    · simp [DecisionTree.nodes, row.splitFeature, left_eq, right_eq]
    · rw [DecisionTree.tests, ← left_tests, ← right_tests, List.reduceOption_cons_of_some,
        List.reduceOption_append]

theorem Unfolds.mem_tests_iff {node : NodeId} {tree : DecisionTree} (h : t.Unfolds node tree)
    {f : Nat} :
    f ∈ tree.tests ↔
      ∃ n ∈ tree.nodes, t.isLeaf[n]? = some false ∧ t.feature[n]? = some f := by
  induction h with
  | leaf row => simp [DecisionTree.tests, DecisionTree.nodes, row.isLeaf]
  | split row first second ihl ihr =>
    simp only [DecisionTree.tests, DecisionTree.nodes, List.mem_cons, List.mem_append, ihl, ihr,
      or_and_right, exists_or, exists_eq_left, row.isLeaf, row.feature, Option.some.injEq, true_and]
    rw [eq_comm]

theorem Represents.referencedFeatures_eq {tree : DecisionTree} (h : t.Represents tree) :
    t.referencedFeatures = some (firstUses tree.tests) := by
  obtain ⟨tested, found, reduced⟩ := h.unfolds.tests_eq
  simp only [referencedFeatures, h.preorder_eq, Option.bind_eq_bind, Option.bind_some, found,
    reduced]
  rfl

/-- The depths of a set of nodes are the heights of the trees below them. -/
def Heights (t : NodeTable) (depths : Array Nat) (nodes : List NodeId) : Prop :=
  ∀ node ∈ nodes, ∀ tree, t.Unfolds node tree → depths[node]? = some tree.height

/-- The depths of a tree, gathered from its last node to its first. Entries elsewhere stay
as they are. -/
theorem depths_unfolds {node : NodeId} {tree : DecisionTree} (unfolds : t.Unfolds node tree)
    (nodup : tree.nodes.Nodup) (before : Array Nat) (full : before.size = t.size) :
    ∃ after, tree.nodes.reverse.foldlM t.depthAt before = some after ∧ after.size = t.size ∧
      t.Heights after tree.nodes ∧ ∀ n, n ∉ tree.nodes → after[n]? = before[n]? := by
  induction unfolds generalizing before with
  | @leaf node payload row =>
    refine ⟨before.setIfInBounds node 1, ?_, by simpa using full, ?_, ?_⟩
    · simp [DecisionTree.nodes, depthAt, row.children]
    · intro n member tree unfolds
      rw [List.mem_singleton.mp member] at unfolds ⊢
      rw [unfolds.unique (.leaf row)]
      have inside : node < before.size := full ▸ row.lt_size
      simp [DecisionTree.height, inside]
    · intro n other
      have ne : node ≠ n := fun same => other (same ▸ List.mem_singleton_self _)
      simp [ne]
  | @split node l r feature threshold left right row first second ihl ihr =>
    obtain ⟨fresh, below⟩ := List.nodup_cons.mp nodup
    obtain ⟨left_nodup, right_nodup, disjoint⟩ := List.nodup_append.mp below
    obtain ⟨middle, right_run, middle_full, right_heights, right_frame⟩ :=
      ihr right_nodup before full
    obtain ⟨after, left_run, after_full, left_heights, left_frame⟩ :=
      ihl left_nodup middle middle_full
    have at_left : after[l]? = some left.height := left_heights l first.node_mem left first
    have at_right : after[r]? = some right.height := by
      rw [left_frame r fun both => disjoint r both r second.node_mem rfl]
      exact right_heights r second.node_mem right second
    refine ⟨after.setIfInBounds node (1 + max left.height right.height), ?_,
      by simpa using after_full, ?_, ?_⟩
    · have at_node : t.depthAt after node =
          some (after.setIfInBounds node (1 + max left.height right.height)) := by
        simp [depthAt, row.children, at_left, at_right]
      rw [DecisionTree.nodes, List.reverse_cons, List.reverse_append, List.foldlM_append,
        List.foldlM_append, right_run, Option.bind_eq_bind, Option.bind_some, left_run,
        Option.bind_some, List.foldlM_cons, at_node]
      rfl
    · intro n member tree unfolds
      rcases List.mem_cons.mp member with rfl | member
      · rw [unfolds.unique (.split row first second)]
        have inside : n < after.size := after_full ▸ row.lt_size
        simp [DecisionTree.height, inside]
      · have ne : node ≠ n := fun same => fresh (same ▸ member)
        rw [Array.getElem?_setIfInBounds_ne ne]
        by_cases in_left : n ∈ left.nodes
        · exact left_heights n in_left tree unfolds
        · rw [left_frame n in_left]
          exact right_heights n ((List.mem_append.mp member).resolve_left in_left) tree unfolds
    · intro n other
      simp only [DecisionTree.nodes, List.mem_cons, List.mem_append, not_or] at other
      rw [Array.getElem?_setIfInBounds_ne (Ne.symm other.1), left_frame n other.2.1,
        right_frame n other.2.2]

theorem Represents.subtreeDepths_eq {tree : DecisionTree} (h : t.Represents tree) :
    ∃ depths, t.subtreeDepths = some depths ∧ depths.size = t.size ∧
    t.Heights depths tree.nodes := by
  obtain ⟨depths, run, full, heights, _⟩ :=
    depths_unfolds h.unfolds h.nodup (Array.replicate t.size 0) (by simp)
  exact ⟨depths, by rw [subtreeDepths, h.preorder_eq, ← run]; rfl, full, heights⟩

end NodeTable

end DecisionTreeC
