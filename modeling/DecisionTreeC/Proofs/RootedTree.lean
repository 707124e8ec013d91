import DecisionTreeC.Proofs.Explore
import Mathlib.Data.List.Induction
import Mathlib.Data.List.Nodup
import Mathlib.Logic.ExistsUnique

/-!
Rooted binary trees as graphs. A table is seen as a set of edges, each from a parent on one side to
a child; nothing is said about how the table is searched. In a rooted tree a node is reached from
the root by one path only, so no path is longer than the table and the rows below the root spell out
a tree. Together with the accepted tables of the depth-first check this makes the check exact.
-/
namespace DecisionTreeC
namespace NodeTable

def child (t : NodeTable) (node : NodeId) : Side → Option NodeId
  | .left => t.left[node]?.join
  | .right => t.right[node]?.join

def follow (t : NodeTable) (node : NodeId) : List Side → Option NodeId
  | [] => some node
  | side :: rest => (t.child node side).bind (t.follow · rest)

structure RootedTree (t : NodeTable) : Prop where
  aligned : t.Aligned
  nonempty : 0 < t.size
  leaf : ∀ node, t.isLeaf[node]? = some true →
    (∀ side, t.child node side = none) ∧ ∃ payload, t.leaf[node]? = some (some payload)
  split : ∀ node, t.isLeaf[node]? = some false →
    ∀ side, ∃ child, t.child node side = some child ∧ child < t.size
  root : ∀ parent side, t.child parent side ≠ some 0
  parent : ∀ node, 0 < node → node < t.size →
    ∃! edge : NodeId × Side, t.child edge.1 edge.2 = some node
  reachable : ∀ node, node < t.size → ∃ path, t.follow 0 path = some node

variable {t : NodeTable}

theorem follow_append (node : NodeId) (p q : List Side) :
    t.follow node (p ++ q) = (t.follow node p).bind (t.follow · q) := by
  induction p generalizing node with
  | nil => rfl
  | cons side rest ih =>
    simp only [List.cons_append, follow]
    cases t.child node side with
    | none => rfl
    | some next => exact ih next

theorem follow_snoc {node last : NodeId} {p : List Side} {side : Side} :
    t.follow node (p ++ [side]) = some last ↔
      ∃ parent, t.follow node p = some parent ∧ t.child parent side = some last := by
  rw [follow_append, Option.bind_eq_some_iff]
  simp [follow]

theorem SplitRow.child_left {node l r feature : Nat} {threshold : Double}
    (row : t.SplitRow node feature threshold l r) : t.child node .left = some l := by
  simp [child, row.left]

theorem SplitRow.child_right {node l r feature : Nat} {threshold : Double}
    (row : t.SplitRow node feature threshold l r) : t.child node .right = some r := by
  simp [child, row.right]

theorem LeafRow.child_none {node : NodeId} {payload : Leaf} (row : t.LeafRow node payload)
    (side : Side) : t.child node side = none := by
  cases side
  · simp [child, row.left]
  · simp [child, row.right]

theorem LeafRow.follow_inv {node n : NodeId} {payload : Leaf} (row : t.LeafRow node payload)
    {path : List Side} (ends : t.follow node path = some n) : path = [] ∧ n = node := by
  cases path with
  | nil => exact ⟨rfl, (Option.some.inj ends).symm⟩
  | cons side rest =>
    rw [follow, row.child_none] at ends
    cases ends

theorem SplitRow.follow_inv {node l r feature : Nat} {threshold : Double} {n : NodeId}
    (row : t.SplitRow node feature threshold l r) {path : List Side}
    (ends : t.follow node path = some n) :
    (path = [] ∧ n = node) ∨ (∃ rest, path = .left :: rest ∧ t.follow l rest = some n) ∨
      ∃ rest, path = .right :: rest ∧ t.follow r rest = some n := by
  cases path with
  | nil => exact .inl ⟨rfl, (Option.some.inj ends).symm⟩
  | cons side rest =>
    cases side with
    | left =>
      rw [follow, row.child_left] at ends
      exact .inr (.inl ⟨rest, rfl, ends⟩)
    | right =>
      rw [follow, row.child_right] at ends
      exact .inr (.inr ⟨rest, rfl, ends⟩)

theorem SplitRow.follow_left {node l r feature : Nat} {threshold : Double} {n : NodeId}
    (row : t.SplitRow node feature threshold l r) {path : List Side}
    (ends : t.follow l path = some n) : t.follow node (.left :: path) = some n := by
  rw [follow, row.child_left, Option.bind_some, ends]

theorem SplitRow.follow_right {node l r feature : Nat} {threshold : Double} {n : NodeId}
    (row : t.SplitRow node feature threshold l r) {path : List Side}
    (ends : t.follow r path = some n) : t.follow node (.right :: path) = some n := by
  rw [follow, row.child_right, Option.bind_some, ends]

theorem Unfolds.mem_nodes_iff {node n : NodeId} {tree : DecisionTree} (h : t.Unfolds node tree) :
    n ∈ tree.nodes ↔ ∃ path, t.follow node path = some n := by
  induction h with
  | @leaf node payload row =>
    rw [DecisionTree.nodes, List.mem_singleton]
    constructor
    · rintro rfl
      exact ⟨[], rfl⟩
    · rintro ⟨path, ends⟩
      exact (row.follow_inv ends).2
  | @split node l r feature threshold left right row first second ihl ihr =>
    rw [DecisionTree.nodes, List.mem_cons, List.mem_append, ihl, ihr]
    constructor
    · rintro (rfl | ⟨path, ends⟩ | ⟨path, ends⟩)
      · exact ⟨[], rfl⟩
      · exact ⟨.left :: path, row.follow_left ends⟩
      · exact ⟨.right :: path, row.follow_right ends⟩
    · rintro ⟨path, ends⟩
      rcases row.follow_inv ends with ⟨_, here⟩ | ⟨rest, _, further⟩ | ⟨rest, _, further⟩
      · exact .inl here
      · exact .inr (.inl ⟨rest, further⟩)
      · exact .inr (.inr ⟨rest, further⟩)

def PathsApart (t : NodeTable) (node : NodeId) : Prop :=
  ∀ p q n, t.follow node p = some n → t.follow node q = some n → p = q

theorem PathsApart.child {node next : NodeId} {side : Side} (apart : t.PathsApart node)
    (edge : t.child node side = some next) : t.PathsApart next := by
  intro p q n hp hq
  have same :=
    apart (side :: p) (side :: q) n (by simp [follow, edge, hp]) (by simp [follow, edge, hq])
  exact (List.cons.inj same).2

theorem Unfolds.nodup_of_paths_apart {node : NodeId} {tree : DecisionTree} (h : t.Unfolds node tree)
    (apart : t.PathsApart node) : tree.nodes.Nodup := by
  induction h with
  | leaf row => simp [DecisionTree.nodes]
  | @split node l r feature threshold left right row first second ihl ihr =>
    refine List.nodup_cons.mpr ⟨?_, List.nodup_append.mpr
      ⟨ihl (apart.child row.child_left), ihr (apart.child row.child_right), ?_⟩⟩
    · intro below
      rcases List.mem_append.mp below with member | member
      · obtain ⟨p, ends⟩ := first.mem_nodes_iff.mp member
        exact absurd (apart [] _ node rfl (row.follow_left ends)) (by simp)
      · obtain ⟨p, ends⟩ := second.mem_nodes_iff.mp member
        exact absurd (apart [] _ node rfl (row.follow_right ends)) (by simp)
    · rintro a in_left b in_right rfl
      obtain ⟨p, hp⟩ := first.mem_nodes_iff.mp in_left
      obtain ⟨q, hq⟩ := second.mem_nodes_iff.mp in_right
      exact absurd (apart _ _ a (row.follow_left hp) (row.follow_right hq)) (by simp)

theorem Unfolds.paths_apart_of_nodup {node : NodeId} {tree : DecisionTree} (h : t.Unfolds node tree)
    (nodup : tree.nodes.Nodup) : t.PathsApart node := by
  induction h with
  | @leaf node payload row =>
    intro p q n hp hq
    rw [(row.follow_inv hp).1, (row.follow_inv hq).1]
  | @split node l r feature threshold left right row first second ihl ihr =>
    obtain ⟨fresh, below⟩ := List.nodup_cons.mp nodup
    obtain ⟨left_nodup, right_nodup, disjoint⟩ := List.nodup_append.mp below
    have in_left : ∀ {p n}, t.follow l p = some n → n ∈ left.nodes :=
      fun ends => first.mem_nodes_iff.mpr ⟨_, ends⟩
    have in_right : ∀ {p n}, t.follow r p = some n → n ∈ right.nodes :=
      fun ends => second.mem_nodes_iff.mpr ⟨_, ends⟩
    intro p q n hp hq
    rcases row.follow_inv hp with ⟨rfl, rfl⟩ | ⟨p, rfl, ends⟩ | ⟨p, rfl, ends⟩
    · rcases row.follow_inv hq with ⟨rfl, _⟩ | ⟨q, rfl, ends'⟩ | ⟨q, rfl, ends'⟩
      · rfl
      · exact absurd (List.mem_append_left _ (in_left ends')) fresh
      · exact absurd (List.mem_append_right _ (in_right ends')) fresh
    · rcases row.follow_inv hq with ⟨rfl, rfl⟩ | ⟨q, rfl, ends'⟩ | ⟨q, rfl, ends'⟩
      · exact absurd (List.mem_append_left _ (in_left ends)) fresh
      · rw [ihl left_nodup p q n ends ends']
      · exact absurd rfl (disjoint n (in_left ends) n (in_right ends'))
    · rcases row.follow_inv hq with ⟨rfl, rfl⟩ | ⟨q, rfl, ends'⟩ | ⟨q, rfl, ends'⟩
      · exact absurd (List.mem_append_right _ (in_right ends)) fresh
      · exact absurd rfl (disjoint n (in_left ends') n (in_right ends))
      · rw [ihr right_nodup p q n ends ends']

theorem Aligned.parent_lt {parent node : NodeId} {side : Side} (aligned : t.Aligned)
    (edge : t.child parent side = some node) : parent < t.size := by
  cases side with
  | left =>
    obtain ⟨inside, _⟩ := Array.getElem?_eq_some_iff.mp (Option.join_eq_some_iff.mp edge)
    exact aligned.left ▸ inside
  | right =>
    obtain ⟨inside, _⟩ := Array.getElem?_eq_some_iff.mp (Option.join_eq_some_iff.mp edge)
    exact aligned.right ▸ inside

theorem Aligned.entries {node : NodeId} (aligned : t.Aligned) (inside : node < t.size) :
    ∃ kind feature threshold left right, t.isLeaf[node]? = some kind ∧
      t.feature[node]? = some feature ∧ t.threshold[node]? = some threshold ∧
      t.left[node]? = some left ∧ t.right[node]? = some right :=
  ⟨_, _, _, _, _, Array.getElem?_eq_getElem inside,
    Array.getElem?_eq_getElem (by rw [aligned.feature]; exact inside),
    Array.getElem?_eq_getElem (by rw [aligned.threshold]; exact inside),
    Array.getElem?_eq_getElem (by rw [aligned.left]; exact inside),
    Array.getElem?_eq_getElem (by rw [aligned.right]; exact inside)⟩

namespace RootedTree

theorem child_lt (tree : t.RootedTree) {parent node : NodeId} {side : Side}
    (edge : t.child parent side = some node) : node < t.size := by
  obtain ⟨kind, _, _, _, _, is_kind, _⟩ := tree.aligned.entries (tree.aligned.parent_lt edge)
  cases kind with
  | true =>
    rw [(tree.leaf parent is_kind).1 side] at edge
    cases edge
  | false =>
    obtain ⟨child, found, inside⟩ := tree.split parent is_kind side
    rw [edge] at found
    exact Option.some.inj found ▸ inside

theorem follow_lt (tree : t.RootedTree) {path : List Side} {node : NodeId}
    (ends : t.follow 0 path = some node) : node < t.size := by
  rcases List.eq_nil_or_concat' path with rfl | ⟨before, side, rfl⟩
  · exact Option.some.inj ends ▸ tree.nonempty
  · obtain ⟨parent, _, edge⟩ := follow_snoc.mp ends
    exact tree.child_lt edge

/-- A node other than the root has one parent on one side, so the last steps of two paths
to it agree. -/
theorem edge_unique (tree : t.RootedTree) {a b node : NodeId} {s s' : Side}
    (first : t.child a s = some node) (second : t.child b s' = some node) : a = b ∧ s = s' := by
  have positive : 0 < node := by
    rcases Nat.eq_zero_or_pos node with rfl | positive
    · exact absurd first (tree.root a s)
    · exact positive
  obtain ⟨edge, _, only⟩ := tree.parent node positive (tree.child_lt first)
  have same := (only (a, s) first).trans (only (b, s') second).symm
  exact Prod.mk.inj same

theorem paths_apart (tree : t.RootedTree) : t.PathsApart 0 := by
  intro p
  induction p using List.reverseRecOn with
  | nil =>
    intro q n hp hq
    rcases List.eq_nil_or_concat' q with rfl | ⟨before, side, rfl⟩
    · rfl
    · obtain ⟨parent, _, edge⟩ := follow_snoc.mp hq
      rw [← Option.some.inj hp] at edge
      exact absurd edge (tree.root parent side)
  | append_singleton p side ih =>
    intro q n hp hq
    obtain ⟨a, ha, first⟩ := follow_snoc.mp hp
    rcases List.eq_nil_or_concat' q with rfl | ⟨q, side', rfl⟩
    · rw [← Option.some.inj hq] at first
      exact absurd first (tree.root a side)
    · obtain ⟨b, hb, second⟩ := follow_snoc.mp hq
      obtain ⟨rfl, rfl⟩ := tree.edge_unique first second
      rw [ih q a ha hb]

/-- The nodes along a path are distinct, so a path has fewer steps than the table has rows. -/
theorem path_length_lt (tree : t.RootedTree) {path : List Side} {node : NodeId}
    (ends : t.follow 0 path = some node) : path.length < t.size := by
  have defined : ∀ i, ∃ n, t.follow 0 (path.take i) = some n := by
    intro i
    rw [← List.take_append_drop i path, follow_append] at ends
    obtain ⟨n, found, _⟩ := Option.bind_eq_some_iff.mp ends
    exact ⟨n, found⟩
  choose met is_met using defined
  have nodup : ((List.range (path.length + 1)).map met).Nodup := by
    refine List.Nodup.map_on ?_ List.nodup_range
    intro i hi j hj same
    have paths := tree.paths_apart _ _ _ (is_met i) (same ▸ is_met j)
    have lengths := congrArg List.length paths
    simp only [List.length_take] at lengths
    simp only [List.mem_range] at hi hj
    omega
  have inside : (List.range (path.length + 1)).map met ⊆ List.range t.size := by
    intro n member
    obtain ⟨i, _, rfl⟩ := List.mem_map.mp member
    exact List.mem_range.mpr (tree.follow_lt (is_met i))
  have bound := nodup.length_le_of_subset inside
  simp only [List.length_map, List.length_range] at bound
  omega

/-- The rows below the end of a path spell out a tree. The induction is on the
steps still possible. -/
theorem unfolds_at (tree : t.RootedTree) (steps : Nat) {path : List Side} {node : NodeId}
    (ends : t.follow 0 path = some node) (enough : t.size ≤ path.length + steps) :
    ∃ unfolded, t.Unfolds node unfolded := by
  induction steps generalizing path node with
  | zero =>
    have short := tree.path_length_lt ends
    omega
  | succ steps ih =>
    obtain ⟨kind, feature, threshold, left, right, is_kind, has_feature, has_threshold, has_left,
      has_right⟩ := tree.aligned.entries (tree.follow_lt ends)
    cases kind with
    | true =>
      obtain ⟨childless, payload, has_payload⟩ := tree.leaf node is_kind
      have no_left := childless .left
      have no_right := childless .right
      simp only [child, has_left, has_right, Option.join_some] at no_left no_right
      subst no_left no_right
      exact ⟨_, .leaf ⟨is_kind, has_left, has_right, has_payload⟩⟩
    | false =>
      have below : ∀ side, ∃ next unfolded, t.child node side = some next ∧
          t.Unfolds next unfolded := by
        intro side
        obtain ⟨next, edge, _⟩ := tree.split node is_kind side
        obtain ⟨unfolded, h⟩ := ih (follow_snoc.mpr ⟨node, ends, edge⟩) (by simp; omega)
        exact ⟨next, unfolded, edge, h⟩
      obtain ⟨l, left_tree, left_edge, left_unfolds⟩ := below .left
      obtain ⟨r, right_tree, right_edge, right_unfolds⟩ := below .right
      simp only [child, has_left, has_right, Option.join_some] at left_edge right_edge
      subst left_edge right_edge
      exact ⟨_, .split ⟨is_kind, has_left, has_right, has_feature, has_threshold⟩ left_unfolds
        right_unfolds⟩

theorem represents (tree : t.RootedTree) : ∃ unfolded, t.Represents unfolded := by
  obtain ⟨unfolded, unfolds⟩ :=
    tree.unfolds_at t.size (show t.follow 0 [] = some 0 from rfl) (by simp)
  refine ⟨unfolded, tree.aligned, unfolds, unfolds.nodup_of_paths_apart tree.paths_apart, ?_⟩
  intro node inside
  exact unfolds.mem_nodes_iff.mpr (tree.reachable node inside)

end RootedTree

theorem Unfolds.row_of_mem {node n : NodeId} {tree : DecisionTree} (h : t.Unfolds node tree)
    (member : n ∈ tree.nodes) :
    (∃ payload, t.LeafRow n payload) ∨
      ∃ feature threshold l r, t.SplitRow n feature threshold l r ∧ l ∈ tree.nodes ∧
      r ∈ tree.nodes := by
  induction h with
  | @leaf node payload row =>
    rw [List.mem_singleton.mp member]
    exact Or.inl ⟨payload, row⟩
  | @split node l r feature threshold left right row first second ihl ihr =>
    simp only [DecisionTree.nodes, List.mem_cons, List.mem_append] at member ⊢
    rcases member with rfl | member | member
    · exact Or.inr ⟨feature, threshold, l, r, row, .inr (.inl first.node_mem),
        .inr (.inr second.node_mem)⟩
    · rcases ihl member with leaf | ⟨f, x, a, b, row, ha, hb⟩
      · exact Or.inl leaf
      · exact Or.inr ⟨f, x, a, b, row, .inr (.inl ha), .inr (.inl hb)⟩
    · rcases ihr member with leaf | ⟨f, x, a, b, row, ha, hb⟩
      · exact Or.inl leaf
      · exact Or.inr ⟨f, x, a, b, row, .inr (.inr ha), .inr (.inr hb)⟩

theorem Unfolds.leafRow_of_mem {node n : NodeId} {tree : DecisionTree} (h : t.Unfolds node tree)
    (member : n ∈ tree.nodes) (isLeaf : t.isLeaf[n]? = some true) :
    ∃ payload, t.LeafRow n payload := by
  rcases h.row_of_mem member with leaf | ⟨_, _, _, _, row, _⟩
  · exact leaf
  · rw [row.isLeaf] at isLeaf
    cases isLeaf

theorem Unfolds.splitRow_of_mem {node n : NodeId} {tree : DecisionTree} (h : t.Unfolds node tree)
    (member : n ∈ tree.nodes) (isSplit : t.isLeaf[n]? = some false) :
    ∃ feature threshold l r, t.SplitRow n feature threshold l r := by
  rcases h.row_of_mem member with ⟨_, row⟩ | ⟨feature, threshold, l, r, row, _⟩
  · rw [row.isLeaf] at isSplit
    cases isSplit
  · exact ⟨feature, threshold, l, r, row⟩

theorem Represents.rooted {tree : DecisionTree} (h : t.Represents tree) : t.RootedTree := by
  have apart := h.unfolds.paths_apart_of_nodup h.nodup
  have reach : ∀ node, node < t.size → ∃ path, t.follow 0 path = some node :=
    fun node inside => h.unfolds.mem_nodes_iff.mp (h.covers node inside)
  have row_of_kind : ∀ {node kind}, t.isLeaf[node]? = some kind → node ∈ tree.nodes := by
    intro node kind found
    obtain ⟨inside, _⟩ := Array.getElem?_eq_some_iff.mp found
    exact h.covers node inside
  refine ⟨h.aligned, h.size_pos, ?_, ?_, ?_, ?_, reach⟩
  · intro node is_leaf
    rcases h.unfolds.row_of_mem (row_of_kind is_leaf) with ⟨payload, row⟩ | ⟨_, _, _, _, row, _⟩
    · exact ⟨row.child_none, payload, row.leaf⟩
    · rw [row.isLeaf] at is_leaf
      cases is_leaf
  · intro node is_split side
    rcases h.unfolds.row_of_mem (row_of_kind is_split) with
      ⟨payload, row⟩ | ⟨_, _, l, r, row, hl, hr⟩
    · rw [row.isLeaf] at is_split
      cases is_split
    · cases side with
      | left => exact ⟨l, row.child_left, h.unfolds.nodes_lt l hl⟩
      | right => exact ⟨r, row.child_right, h.unfolds.nodes_lt r hr⟩
  · intro parent side edge
    obtain ⟨path, ends⟩ := reach parent (h.aligned.parent_lt edge)
    exact absurd (apart _ [] 0 (follow_snoc.mpr ⟨parent, ends, edge⟩) rfl) (by simp)
  · intro node positive inside
    obtain ⟨path, ends⟩ := reach node inside
    rcases List.eq_nil_or_concat' path with rfl | ⟨before, side, rfl⟩
    · exact absurd (Option.some.inj ends) (Nat.ne_of_lt positive)
    · obtain ⟨parent, reached, edge⟩ := follow_snoc.mp ends
      refine ⟨(parent, side), edge, ?_⟩
      rintro ⟨other, side'⟩ other_edge
      obtain ⟨path', reached'⟩ := reach other (h.aligned.parent_lt other_edge)
      have paths := apart _ _ node (follow_snoc.mpr ⟨other, reached', other_edge⟩) ends
      obtain ⟨rfl, sides⟩ := List.append_inj' paths rfl
      exact Prod.ext (Option.some.inj (reached'.symm.trans reached)) (List.singleton_inj.mp sides)

/-- The check of a table of any shape ends without a missing entry, and accepts exactly the rooted
binary trees. -/
theorem validate_exact (t : NodeTable) :
    (∃ outcome, t.validate.run = some outcome) ∧
      (t.validate.run = some (.ok ()) ↔ t.RootedTree) := by
  refine ⟨validate_isSome t, validate_ok_iff.trans ?_⟩
  constructor
  · rintro ⟨tree, represents⟩
    exact represents.rooted
  · intro tree
    exact tree.represents

end NodeTable

end DecisionTreeC
