import DecisionTreeC.Proofs.Listing
import DecisionTreeC.Proofs.RootedTree
import Mathlib.Data.List.Nodup
import Mathlib.Order.Bounds.Defs

/-!
The walks over an accepted table, told by its rows. The listing has every row once, a parent before
its children, and the tested features stand in the order of the rows that test them first. The depth
below a row is the number of rows on the longest path down from it, in whatever order the rows are
numbered.
-/
namespace DecisionTreeC

theorem findIdx_lt_of_filterMap {α β : Type} [DecidableEq β] (f : α → Option β) {members : List α}
    {a b : β} (less : (members.filterMap f).idxOf a < (members.filterMap f).idxOf b) :
    members.findIdx (fun x => f x = some a) < members.findIdx (fun x => f x = some b) := by
  induction members with
  | nil => simp at less
  | cons x rest ih =>
    rw [List.findIdx_cons, List.findIdx_cons]
    cases result : f x with
    | none =>
      rw [List.filterMap_cons_none result] at less
      have later := ih less
      simpa using later
    | some c =>
      rw [List.filterMap_cons_some result, List.idxOf_cons, List.idxOf_cons] at less
      by_cases is_a : c = a
      · subst is_a
        have other : c ≠ b := by
          rintro rfl
          simp at less
        simp [other]
      · have other : c ≠ b := by
          rintro rfl
          simp at less
        rw [beq_false_of_ne is_a, beq_false_of_ne other, cond_false, cond_false] at less
        have later := ih (Nat.lt_of_succ_lt_succ less)
        simpa [is_a, other] using later

namespace NodeTable

variable {t : NodeTable}

def firstTest (t : NodeTable) (order : List NodeId) (feature : Nat) : Nat :=
  order.findIdx fun node => t.isLeaf[node]? = some false ∧ t.feature[node]? = some feature

theorem splitFeature_iff {node : NodeId} {feature : Nat} :
    (t.splitFeature? node).join = some feature ↔
      t.isLeaf[node]? = some false ∧ t.feature[node]? = some feature := by
  unfold splitFeature?
  cases t.isLeaf[node]? with
  | none => simp
  | some kind => cases kind <;> cases t.feature[node]? <;> simp

theorem Unfolds.tests_filterMap {node : NodeId} {tree : DecisionTree} (h : t.Unfolds node tree) :
    tree.tests = tree.nodes.filterMap fun n => (t.splitFeature? n).join := by
  induction h with
  | leaf row => simp [DecisionTree.tests, DecisionTree.nodes, row.splitFeature]
  | split row first second ihl ihr =>
    simp [DecisionTree.tests, DecisionTree.nodes, row.splitFeature, ihl, ihr]

theorem firstUses_nodup (features : List Nat) : (firstUses features).Nodup := by
  apply (firstUses_ordered features).imp
  intro a b less same
  subst same
  exact Nat.lt_irrefl _ less

theorem Unfolds.firstUses_ordered {node : NodeId} {tree : DecisionTree} (h : t.Unfolds node tree) :
    (firstUses tree.tests).Pairwise
      fun f g => t.firstTest tree.nodes f < t.firstTest tree.nodes g := by
  apply (DecisionTreeC.firstUses_ordered tree.tests).imp
  intro f g less
  rw [h.tests_filterMap] at less
  have later := findIdx_lt_of_filterMap _ less
  simpa only [splitFeature_iff, firstTest] using later

theorem Unfolds.child_mem {node parent child : NodeId} {tree : DecisionTree} {side : Side}
    (h : t.Unfolds node tree) (member : parent ∈ tree.nodes)
    (edge : t.child parent side = some child) : child ∈ tree.nodes := by
  obtain ⟨path, ends⟩ := h.mem_nodes_iff.mp member
  exact h.mem_nodes_iff.mpr ⟨path ++ [side], follow_snoc.mpr ⟨parent, ends, edge⟩⟩

theorem Unfolds.parent_first {node parent child : NodeId} {tree : DecisionTree} {side : Side}
    (h : t.Unfolds node tree) (nodup : tree.nodes.Nodup) (member : parent ∈ tree.nodes)
    (edge : t.child parent side = some child) :
    tree.nodes.idxOf parent < tree.nodes.idxOf child := by
  induction h with
  | leaf row =>
    rw [List.mem_singleton.mp member, row.child_none] at edge
    cases edge
  | @split node l r feature threshold left right row first second ihl ihr =>
    obtain ⟨fresh, apart⟩ := List.nodup_cons.mp nodup
    obtain ⟨left_nodup, right_nodup, disjoint⟩ := List.nodup_append.mp apart
    have behind : ∀ {n}, n ∈ left.nodes ++ right.nodes →
        (node :: (left.nodes ++ right.nodes)).idxOf n =
          (left.nodes ++ right.nodes).idxOf n + 1 := by
      intro n inside
      exact List.idxOf_cons_ne _ fun same => fresh (same ▸ inside)
    rw [DecisionTree.nodes] at member ⊢
    rcases List.mem_cons.mp member with rfl | lower
    · have child_lower : child ∈ left.nodes ++ right.nodes := by
        cases side with
        | left =>
          rw [row.child_left] at edge
          cases edge
          exact List.mem_append_left _ first.node_mem
        | right =>
          rw [row.child_right] at edge
          cases edge
          exact List.mem_append_right _ second.node_mem
      rw [behind child_lower, List.idxOf_cons_self]
      exact Nat.succ_pos _
    rcases List.mem_append.mp lower with in_left | in_right
    · have child_left := first.child_mem in_left edge
      rw [behind lower, behind (List.mem_append_left _ child_left),
        List.idxOf_append_of_mem in_left, List.idxOf_append_of_mem child_left]
      exact Nat.succ_lt_succ (ihl left_nodup in_left)
    · have child_right := second.child_mem in_right edge
      have past_left : ∀ {n}, n ∈ right.nodes → n ∉ left.nodes :=
        fun inside both => disjoint _ both _ inside rfl
      have later := ihr right_nodup in_right
      rw [behind lower, behind (List.mem_append_right _ child_right),
        List.idxOf_append_of_notMem (past_left in_right),
        List.idxOf_append_of_notMem (past_left child_right)]
      omega

theorem Represents.perm_range {tree : DecisionTree} (h : t.Represents tree) :
    tree.nodes.Perm (List.range t.size) := by
  apply (List.perm_ext_iff_of_nodup h.nodup List.nodup_range).mpr
  intro node
  rw [List.mem_range]
  exact ⟨h.unfolds.nodes_lt node, h.covers node⟩

/-- The listing of an accepted table is the pre-order of the tree at its root: every row once,
parents before their children. The tested features are those of the splits, each once, by the first
row that tests them. -/
theorem preorder_exact {t : NodeTable} (valid : t.validate.run = some (.ok ())) :
    ∃ tree features, t.Unfolds 0 tree ∧ t.preorder = some tree.nodes ∧
      tree.nodes.Perm (List.range t.size) ∧ tree.nodes.Nodup ∧
      (∀ parent side child, t.child parent side = some child →
        tree.nodes.idxOf parent < tree.nodes.idxOf child) ∧
      t.referencedFeatures = some features ∧ features.Nodup ∧
      (∀ f, f ∈ features ↔ ∃ node : NodeId, t.isLeaf[node]? = some false ∧
        t.feature[node]? = some f) ∧
      features.Pairwise (fun f g => t.firstTest tree.nodes f < t.firstTest tree.nodes g) := by
  obtain ⟨tree, represents⟩ := validate_ok_iff.mp valid
  refine ⟨tree, firstUses tree.tests, represents.unfolds, represents.preorder_eq,
    represents.perm_range, represents.nodup, ?_, represents.referencedFeatures_eq,
    firstUses_nodup _, ?_,
    represents.unfolds.firstUses_ordered⟩
  · intro parent side child edge
    have member := represents.covers parent (represents.aligned.parent_lt edge)
    exact represents.unfolds.parent_first represents.nodup member edge
  · intro f
    rw [mem_firstUses, represents.unfolds.mem_tests_iff]
    constructor
    · rintro ⟨node, _, tested⟩
      exact ⟨node, tested⟩
    · rintro ⟨node, is_split, found⟩
      obtain ⟨inside, _⟩ := Array.getElem?_eq_some_iff.mp is_split
      exact ⟨node, represents.covers node inside, is_split, found⟩

/-- Seven rows numbered against their order; the root and its right child test one feature. -/
def backward : NodeTable :=
  { feature := #[5, 0, 0, 5, 2, 0, 0]
    threshold := Array.replicate 7 .zero
    left := #[some 4, none, none, some 6, some 2, none, none]
    right := #[some 3, none, none, some 5, some 1, none, none]
    isLeaf := #[false, true, true, false, false, true, true]
    leaf :=
      #[none, some (.ofIndex 0), some (.ofIndex 1), none, none, some (.ofIndex 0),
        some (.ofIndex 1)] }

theorem backward_listed :
    backward.validate.run = some (.ok ()) ∧ backward.preorder = some [0, 4, 2, 1, 3, 6, 5] ∧
      [0, 4, 2, 1, 3, 6, 5].Perm (List.range 7) ∧ backward.referencedFeatures = some [5, 2] ∧
      backward.firstTest [0, 4, 2, 1, 3, 6, 5] 5 < backward.firstTest [0, 4, 2, 1, 3, 6, 5] 2 := by
  have valid : backward.validate.run = some (.ok ()) := by decide +kernel
  have listed : backward.preorder = some [0, 4, 2, 1, 3, 6, 5] := by decide +kernel
  have tested : backward.referencedFeatures = some [5, 2] := by decide +kernel
  obtain ⟨tree, features, _, preorder, perm, _, _, referenced, _, _, ordered⟩ :=
    preorder_exact valid
  have nodes : [0, 4, 2, 1, 3, 6, 5] = tree.nodes := Option.some.inj (listed.symm.trans preorder)
  have uses : [5, 2] = features := Option.some.inj (tested.symm.trans referenced)
  subst uses
  rw [← nodes] at perm ordered
  exact ⟨valid, listed, perm, tested, (List.pairwise_cons.mp ordered).1 2 (by simp)⟩

theorem Unfolds.path_lt_height {node last : NodeId} {tree : DecisionTree} (h : t.Unfolds node tree)
    {path : List Side} (ends : t.follow node path = some last) : path.length < tree.height := by
  induction h generalizing path with
  | leaf row =>
    obtain ⟨rfl, rfl⟩ := row.follow_inv ends
    exact Nat.one_pos
  | split row first second ihl ihr =>
    rw [DecisionTree.height]
    rcases row.follow_inv ends with ⟨rfl, rfl⟩ | ⟨rest, rfl, further⟩ | ⟨rest, rfl, further⟩
    · rw [List.length_nil]
      omega
    · have shorter := ihl further
      rw [List.length_cons]
      omega
    · have shorter := ihr further
      rw [List.length_cons]
      omega

theorem Unfolds.deepest_path {node : NodeId} {tree : DecisionTree} (h : t.Unfolds node tree) :
    ∃ path leaf, t.follow node path = some leaf ∧ t.isLeaf[leaf]? = some true ∧
      tree.height = path.length + 1 := by
  induction h with
  | @leaf node payload row => exact ⟨[], node, rfl, row.isLeaf, rfl⟩
  | @split node l r feature threshold left right row first second ihl ihr =>
    rw [DecisionTree.height]
    rcases Nat.le_total right.height left.height with taller | taller
    · obtain ⟨path, leaf, ends, isLeaf, height⟩ := ihl
      refine ⟨.left :: path, leaf, ?_, isLeaf, ?_⟩
      · exact row.follow_left ends
      · rw [Nat.max_eq_left taller, height, List.length_cons]
        omega
    · obtain ⟨path, leaf, ends, isLeaf, height⟩ := ihr
      refine ⟨.right :: path, leaf, ?_, isLeaf, ?_⟩
      · exact row.follow_right ends
      · rw [Nat.max_eq_right taller, height, List.length_cons]
        omega

theorem Unfolds.unfolds_below {node n : NodeId} {tree : DecisionTree} (h : t.Unfolds node tree)
    {path : List Side} (ends : t.follow node path = some n) : ∃ sub, t.Unfolds n sub := by
  induction h generalizing path with
  | leaf row =>
    obtain ⟨rfl, rfl⟩ := row.follow_inv ends
    exact ⟨_, .leaf row⟩
  | split row first second ihl ihr =>
    rcases row.follow_inv ends with ⟨rfl, rfl⟩ | ⟨rest, rfl, further⟩ | ⟨rest, rfl, further⟩
    · exact ⟨_, .split row first second⟩
    · exact ihl further
    · exact ihr further

theorem Represents.subtree {tree : DecisionTree} (h : t.Represents tree) {node : NodeId}
    (inside : node < t.size) : ∃ sub, t.Unfolds node sub ∧ sub.height ≤ t.size := by
  obtain ⟨above, reached⟩ := h.unfolds.mem_nodes_iff.mp (h.covers node inside)
  obtain ⟨sub, unfolds⟩ := h.unfolds.unfolds_below reached
  obtain ⟨path, leaf, ends, _, height⟩ := unfolds.deepest_path
  have whole : t.follow 0 (above ++ path) = some leaf := by
    rw [follow_append, reached, Option.bind_some, ends]
  have short := h.unfolds.path_lt_height whole
  rw [List.length_append] at short
  have := h.height_le
  exact ⟨sub, unfolds, by omega⟩

theorem Represents.depth_eq {tree : DecisionTree} (h : t.Represents tree) :
    t.depth = some tree.height := by
  obtain ⟨depths, found, _, heights⟩ := h.subtreeDepths_eq
  have top := heights 0 h.unfolds.node_mem tree h.unfolds
  simp [depth, found, top]

/-- The lengths, counted in rows, of the paths down from a node. -/
def Spans (t : NodeTable) (node : NodeId) : Set Nat :=
  { count | ∃ path last, t.follow node path = some last ∧ count = path.length + 1 }

def LeafDepths (t : NodeTable) : Set Nat :=
  { count | ∃ path leaf, t.follow 0 path = some leaf ∧ t.isLeaf[leaf]? = some true ∧
    count = path.length + 1 }

theorem Unfolds.height_greatest {node : NodeId} {tree : DecisionTree} (h : t.Unfolds node tree) :
    IsGreatest (t.Spans node) tree.height := by
  constructor
  · obtain ⟨path, leaf, ends, _, height⟩ := h.deepest_path
    exact ⟨path, leaf, ends, height⟩
  · rintro count ⟨path, last, ends, rfl⟩
    exact h.path_lt_height ends

/-- One pass finds the height of the tree below every row of an accepted table, however the rows are
numbered; the depth of the table is that of its lowest leaf. -/
theorem subtreeDepths_exact {t : NodeTable} (valid : t.validate.run = some (.ok ())) :
    ∃ depths depth, t.subtreeDepths = some depths ∧ t.depth = some depth ∧ depths.size = t.size ∧
      (∀ node : NodeId, t.isLeaf[node]? = some true → depths[node]? = some 1) ∧
      (∀ node : NodeId, t.isLeaf[node]? = some false → ∃ l r a b, t.child node .left = some l ∧
        t.child node .right = some r ∧ depths[l]? = some a ∧ depths[r]? = some b ∧
        depths[node]? = some (1 + max a b)) ∧
      (∀ node, node < t.size → ∃ height, depths[node]? = some height ∧ 0 < height ∧
        height ≤ t.size ∧
        IsGreatest (t.Spans node) height) ∧
      IsGreatest t.LeafDepths depth := by
  obtain ⟨tree, represents⟩ := validate_ok_iff.mp valid
  obtain ⟨depths, found, full, heights⟩ := represents.subtreeDepths_eq
  have at_row : ∀ {node sub}, t.Unfolds node sub → depths[node]? = some sub.height := by
    intro node sub unfolds
    exact heights node (represents.covers node (unfolds.nodes_lt node unfolds.node_mem)) sub unfolds
  have unfold_row : ∀ {node : NodeId} {kind : Bool}, t.isLeaf[node]? = some kind →
      ∃ sub, t.Unfolds node sub := by
    intro node kind is_kind
    obtain ⟨inside, _⟩ := Array.getElem?_eq_some_iff.mp is_kind
    obtain ⟨sub, unfolds, _⟩ := represents.subtree inside
    exact ⟨sub, unfolds⟩
  refine ⟨depths, tree.height, found, represents.depth_eq, full, ?_, ?_, ?_, ?_⟩
  · intro node is_leaf
    obtain ⟨sub, unfolds⟩ := unfold_row is_leaf
    cases unfolds with
    | leaf row => exact at_row (.leaf row)
    | split row =>
      rw [row.isLeaf] at is_leaf
      cases is_leaf
  · intro node is_split
    obtain ⟨sub, unfolds⟩ := unfold_row is_split
    cases unfolds with
    | leaf row =>
      rw [row.isLeaf] at is_split
      cases is_split
    | split row first second =>
      exact ⟨_, _, _, _, row.child_left, row.child_right, at_row first, at_row second,
        at_row (.split row first second)⟩
  · intro node inside
    obtain ⟨sub, unfolds, low⟩ := represents.subtree inside
    exact ⟨sub.height, at_row unfolds, sub.height_pos, low, unfolds.height_greatest⟩
  · constructor
    · exact represents.unfolds.deepest_path
    · rintro count ⟨path, leaf, ends, _, rfl⟩
      exact represents.unfolds.path_lt_height ends

theorem backward_depths :
    backward.validate.run = some (.ok ()) ∧ backward.subtreeDepths = some #[3, 1, 1, 2, 2, 1, 1] ∧
      IsGreatest (backward.Spans 4) 2 ∧ IsGreatest backward.LeafDepths 3 := by
  have valid : backward.validate.run = some (.ok ()) := by decide +kernel
  have found : backward.subtreeDepths = some #[3, 1, 1, 2, 2, 1, 1] := by decide +kernel
  have deep : backward.depth = some 3 := by decide +kernel
  obtain ⟨depths, depth, computed, total, _, _, _, each, lowest⟩ := subtreeDepths_exact valid
  have same : #[3, 1, 1, 2, 2, 1, 1] = depths := Option.some.inj (found.symm.trans computed)
  have three : 3 = depth := Option.some.inj (deep.symm.trans total)
  subst same three
  obtain ⟨height, entry, _, _, longest⟩ := each 4 (by decide)
  have two : 2 = height := Option.some.inj entry
  exact ⟨valid, found, two ▸ longest, lowest⟩

end NodeTable

end DecisionTreeC
