import DecisionTreeC.Tree.Error

/-!
The check that a table is one binary tree rooted at node 0.

The nodes are explored depth first, left before right, with a list of pending tasks. A node is
entered once: meeting an open node again closes a cycle, meeting a finished one finds a second
parent. What is still fresh at the end is unreachable.
-/
namespace DecisionTreeC

inductive Mark where
  | fresh
  | opened
  | finished
  deriving DecidableEq, Repr

/-- Pending work: enter a node, or finish it once its children are done. -/
inductive Task (size : Nat) where
  | enter (node : Fin size)
  | finish (node : Fin size)
  deriving DecidableEq, Repr

namespace NodeTable

def lengths (t : NodeTable) : List (Column × Nat) :=
  [(.feature, t.feature.size), (.threshold, t.threshold.size), (.left, t.left.size),
   (.right, t.right.size), (.leaf, t.leaf.size)]

def checkLengths (t : NodeTable) : Except TreeError Unit :=
  match t.lengths.find? (·.2 != t.size) with
  | some (column, length) => .error (.columnLength column length t.size)
  | none => .ok ()

def checkChild (t : NodeTable) (node : Fin t.size) (side : Side) (child : NodeId) :
    Except TreeError (Fin t.size) :=
  if child = node then .error (.selfLoop node)
  else if inside : child < t.size then .ok ⟨child, inside⟩
  else .error (.childOutOfBounds node side child t.size)

def checkChildren (t : NodeTable) (node : Fin t.size) :
    Option NodeId → Option NodeId → Except TreeError (Fin t.size × Fin t.size)
  | none, _ => .error (.missingChild node .left)
  | some _, none => .error (.missingChild node .right)
  | some left, some right => do
    let left ← t.checkChild node .left left
    let right ← t.checkChild node .right right
    pure (left, right)

/-- The check of one row, giving the children of a split; `none` if a column has no such row. -/
def checkNode (t : NodeTable) (node : Fin t.size) :
    Option (Except TreeError (Option (Fin t.size × Fin t.size))) := do
  let left ← t.left[node.val]?
  let right ← t.right[node.val]?
  if ← t.isLeaf[node.val]? then
    if left.isSome || right.isSome then pure (.error (.leafWithChildren node))
    else if (← t.leaf[node.val]?).isNone then pure (.error (.missingLeaf node))
    else pure (.ok none)
  else pure (some <$> t.checkChildren node left right)

def setMark {size : Nat} (marks : Vector Mark size) (node : Fin size) (mark : Mark) :
    Vector Mark size :=
  marks.set node mark

def freshCount {size : Nat} (marks : Vector Mark size) : Nat := marks.countP (· == .fresh)

theorem freshCount_enter {size : Nat} (marks : Vector Mark size) (node : Fin size)
    (fresh : marks.get node = .fresh) :
    freshCount (setMark marks node .opened) + 1 = freshCount marks := by
  have here : 0 < marks.countP (· == .fresh) :=
    Vector.countP_pos_iff.mpr ⟨marks.get node, Vector.getElem_mem _, by simp [fresh]⟩
  have step := @Vector.countP_set _ _ _ (· == Mark.fresh) marks .opened node.isLt
  have fresh' : marks[node.val] = .fresh := fresh
  simp only [fresh', beq_self_eq_true, if_true] at step
  simp only [freshCount, setMark, step]
  simp
  omega

theorem freshCount_finish {size : Nat} (marks : Vector Mark size) (node : Fin size) :
    freshCount (setMark marks node .finished) ≤ freshCount marks := by
  have step := @Vector.countP_set _ _ _ (· == Mark.fresh) marks .finished node.isLt
  simp only [freshCount, setMark, step]
  simp

def explore (t : NodeTable) (marks : Vector Mark t.size) :
    List (Task t.size) → Option (Except TreeError (Vector Mark t.size))
  | [] => some (.ok marks)
  | .finish node :: rest => explore t (setMark marks node .finished) rest
  | .enter node :: rest =>
    match _ : marks.get node with
    | .opened => some (.error (.cycle node))
    | .finished => some (.error (.sharedNode node))
    | .fresh =>
      match t.checkNode node with
      | none => none
      | some (.error fault) => some (.error fault)
      | some (.ok none) => explore t (setMark marks node .opened) (.finish node :: rest)
      | some (.ok (some (left, right))) =>
        explore t (setMark marks node .opened) (.enter left :: .enter right :: .finish node :: rest)
termination_by tasks => 3 * freshCount marks + tasks.length
decreasing_by
  · have := freshCount_finish marks node
    simp only [List.length_cons]
    omega
  all_goals
    have := freshCount_enter marks node ‹marks.get node = .fresh›
    simp only [List.length_cons]
    omega

/-- Accepts exactly the tables that are one tree; otherwise reports the first fault met. The columns
are compared first, so no row is missing later. -/
def validate (t : NodeTable) : ExceptT TreeError Option Unit := do
  ExceptT.mk (some t.checkLengths)
  if root : 0 < t.size then
    let marks ← ExceptT.mk (t.explore (Vector.replicate t.size .fresh) [.enter ⟨0, root⟩])
    match marks.toList.findIdx? (· == .fresh) with
    | some orphan => throw (.unreachable orphan)
    | none => pure ()
  else throw .emptyTree

end NodeTable

end DecisionTreeC
