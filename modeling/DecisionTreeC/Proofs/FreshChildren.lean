import DecisionTreeC.Proofs.Assembly
import DecisionTreeC.Proofs.Diagnosis

/-!
Children of a split that a builder makes. They get the next two ids, which are counted off before
the slot of the node itself is provided. So they are fresh for every node, there or not, except for
these two ids themselves: a node of one of them becomes its own child. A table with such a row is
refused, whatever is called for other nodes later.
-/
namespace DecisionTreeC

namespace NodeTable

/-- A split of `node` that gives it two new children: they are apart from each other and from the
node, were not there before and are vacant now, and the other rows are as they were. -/
structure FreshChildren (before after : NodeTable) (node : NodeId) (feature : Nat)
    (threshold : Double) (children : NodeId × NodeId) : Prop where
  distinct : children.1 ≠ children.2
  left_apart : children.1 ≠ node
  right_apart : children.2 ≠ node
  left_new : before.size ≤ children.1
  right_new : before.size ≤ children.2
  split : after.Shows node ⟨feature, threshold, .split children.1 children.2⟩
  left_vacant : after.Shows children.1 .vacant
  right_vacant : after.Shows children.2 .vacant
  kept : ∀ n, n < before.size → n ≠ node → before.SameRow after n

/-- A split of any `node`, row by row: the old rows stay, the added ones are vacant, and the node is
a split on the next two ids. -/
structure Divided (before after : NodeTable) (node : NodeId) (feature : Nat) (threshold : Double)
    (children : NodeId × NodeId) : Prop where
  next : children = (before.size, before.size + 1)
  size : after.size = max (before.size + 2) (node + 1)
  split : after.Shows node ⟨feature, threshold, .split children.1 children.2⟩
  added : ∀ n, before.size ≤ n → n < after.size → n ≠ node → after.Shows n .vacant
  kept : ∀ n, n < before.size → n ≠ node → before.SameRow after n

theorem Divided.fresh_iff {before after : NodeTable} {node : NodeId} {feature : Nat}
    {threshold : Double} {children : NodeId × NodeId}
    (divided : Divided before after node feature threshold children) :
    FreshChildren before after node feature threshold children ↔
      node ≠ before.size ∧ node ≠ before.size + 1 := by
  obtain ⟨rfl, size, split, added, kept⟩ := divided
  constructor
  · intro fresh
    exact ⟨fresh.left_apart.symm, fresh.right_apart.symm⟩
  · rintro ⟨not_left, not_right⟩
    have vacant : ∀ n, before.size ≤ n → n < before.size + 2 → n ≠ node →
        after.Shows n .vacant := by
      intro n behind less other
      apply added n behind _ other
      rw [size]
      exact Nat.lt_of_lt_of_le less (Nat.le_max_left ..)
    constructor
    · exact Nat.ne_of_lt (Nat.lt_succ_self _)
    · exact not_left.symm
    · exact not_right.symm
    · exact Nat.le_refl _
    · exact Nat.le_succ _
    · exact split
    · exact vacant before.size (Nat.le_refl _) (by omega) not_left.symm
    · exact vacant (before.size + 1) (Nat.le_succ _) (by omega) not_right.symm
    · exact kept

/-- A node that is its own child closes a cycle, and an accepted table has none. -/
theorem refused_of_own_child {t : NodeTable} {node : NodeId} {side : Side} (inside : node < t.size)
    (loop : t.child node side = some node) : ∃ e, t.validate.run = some (.error e) := by
  apply refused_of_unrepresented
  intro tree represents
  have acyclic := represents.unfolds.acyclic represents.nodup (represents.covers node inside)
  have around : t.follow node [side] = some node := by simp [follow, loop]
  exact List.cons_ne_nil _ _ (acyclic [side] around)

end NodeTable

namespace TableBuilder

theorem slot_of_size_le (b : TableBuilder) {node : NodeId} (outside : b.size ≤ node) :
    b.slot node = .vacant := by
  rw [slot, Array.getElem?_eq_none outside, Option.getD_none]

theorem slot_applySplit (b : TableBuilder) (node : NodeId) (feature : Nat) (threshold : Double) :
    (b.applySplit node feature threshold).2.slot node =
      ⟨feature, threshold, .split b.size (b.size + 1)⟩ := by
  have target : (Call.applySplit node feature threshold).target? = some node := rfl
  have written := slot_call b (.applySplit node feature threshold) node
  rwa [if_pos target] at written

theorem slot_applySplit_other (b : TableBuilder) {node n : NodeId} (other : n ≠ node)
    (feature : Nat) (threshold : Double) :
    (b.applySplit node feature threshold).2.slot n = b.slot n := by
  have untouched := slot_call b (.applySplit node feature threshold) n
  have target : (Call.applySplit node feature threshold).target? ≠ some n := by
    intro same
    exact other (Option.some.inj same).symm
  rwa [if_neg target] at untouched

theorem lt_size_applySplit (b : TableBuilder) (node : NodeId) (feature : Nat) (threshold : Double) :
    node < (b.applySplit node feature threshold).2.size :=
  @target_lt_call b (.applySplit node feature threshold) node rfl

theorem applySplit_divided (b : TableBuilder) (node : NodeId) (feature : Nat) (threshold : Double) :
    NodeTable.Divided b.build (b.applySplit node feature threshold).2.build node feature threshold
      (b.applySplit node feature threshold).1 := by
  constructor
  · rw [size_build]
    rfl
  · rw [size_build, size_build]
    exact size_call b (.applySplit node feature threshold)
  · have row := build_shows _ (lt_size_applySplit b node feature threshold)
    rwa [slot_applySplit] at row
  · intro n behind inside other
    rw [size_build] at behind inside
    have row := build_shows _ inside
    rwa [slot_applySplit_other b other, slot_of_size_le b behind] at row
  · intro n inside other
    rw [size_build] at inside
    apply build_sameRow inside
    · exact size_le_call b (.applySplit node feature threshold)
    · exact slot_applySplit_other b other feature threshold

/-- One of the next two nodes, split before it is there, has itself as a child until it
is assigned again. -/
theorem applySplit_loops (b : TableBuilder) {node : NodeId}
    (next : node = b.size ∨ node = b.size + 1) (feature : Nat) (threshold : Double)
    {calls : List Call} (others : ∀ c ∈ calls, c.target? ≠ some node) :
    ∃ side, (((b.applySplit node feature threshold).2.run calls).build).child node side =
      some node := by
  have inside :=
    Nat.lt_of_lt_of_le (lt_size_applySplit b node feature threshold) (size_le_run _ calls)
  have slot := slot_run_other (b.applySplit node feature threshold).2 others
  rw [slot_applySplit] at slot
  have row := build_splitRow _ inside slot
  rcases next with left | right
  · refine ⟨.left, ?_⟩
    rw [row.child_left, left]
  · refine ⟨.right, ?_⟩
    rw [row.child_right, right]

/-- Splitting any node of any builder. The children are fresh exactly when the node is not one of
the next two ids. Otherwise the table is refused as long as no call assigns the node again. -/
theorem children_fresh_iff (b : TableBuilder) (node : NodeId) (feature : Nat) (threshold : Double) :
    NodeTable.Divided b.build (b.applySplit node feature threshold).2.build node feature threshold
      (b.applySplit node feature threshold).1 ∧
    (NodeTable.FreshChildren b.build
      (b.applySplit node feature threshold).2.build node feature threshold
      (b.applySplit node feature threshold).1 ↔ node ≠ b.size ∧ node ≠ b.size + 1) ∧
    (node = b.size ∨ node = b.size + 1 → ∀ calls : List Call, (∀ c ∈ calls, c.target? ≠ some node) →
      ∃ e, (((b.applySplit node feature threshold).2.run calls).build).validate.run =
        some (.error e)) := by
  have divided := applySplit_divided b node feature threshold
  refine ⟨divided, ?_, ?_⟩
  · rw [divided.fresh_iff, size_build]
  · intro next calls others
    obtain ⟨side, loop⟩ := applySplit_loops b next feature threshold others
    apply NodeTable.refused_of_own_child _ loop
    rw [size_build]
    exact Nat.lt_of_lt_of_le (lt_size_applySplit b node feature threshold) (size_le_run _ calls)

def rootAlone : TableBuilder := empty.run [.initRoot]

/-- The root and a node far behind it can be split, but not node 2: it becomes its own right child,
and leaves for the other two nodes do not help. -/
theorem rootAlone_children :
    NodeTable.FreshChildren rootAlone.build (rootAlone.applySplit 0 7 .zero).2.build
      0 7 .zero (1, 2) ∧
    NodeTable.FreshChildren rootAlone.build (rootAlone.applySplit 5 7 .zero).2.build
      5 7 .zero (1, 2) ∧
    (rootAlone.applySplit 2 7 .zero).1 = (1, 2) ∧
    ∃ e, (((rootAlone.applySplit 2 7 .zero).2.run
      [.setLeaf 0 (.ofIndex 0), .setLeaf 1 (.ofIndex 1)]).build).validate.run =
        some (.error e) := by
  have size : rootAlone.size = 1 := rfl
  have first := (children_fresh_iff rootAlone 0 7 .zero).2.1
  have far := (children_fresh_iff rootAlone 5 7 .zero).2.1
  have refused := (children_fresh_iff rootAlone 2 7 .zero).2.2
  rw [size] at first far refused
  exact ⟨first.mpr (by decide), far.mpr (by decide), rfl, refused (.inr rfl) _ (by decide)⟩

/-- On a new builder, a split of the root that was not provided before makes the root its
own left child. -/
theorem children_not_fresh :
    ¬ ∀ (calls : List Call) (node : NodeId) (feature : Nat) (threshold : Double),
    (empty.run calls).size < 4294967294 →
    NodeTable.FreshChildren (empty.run calls).build
      ((empty.run calls).applySplit node feature threshold).2.build
      node feature threshold ((empty.run calls).applySplit node feature threshold).1 := by
  intro fresh
  exact (fresh [] 0 0 .zero (by decide)).left_apart rfl

end TableBuilder

end DecisionTreeC
