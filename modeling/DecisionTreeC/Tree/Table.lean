import DecisionTreeC.Tree.Leaf

/-!
Binary decision trees kept in six parallel columns, one entry per node. Node 0 is the root. A split
tests one feature against a threshold and has two children; a leaf has a class.

A table may hold anything: columns of different lengths, children outside the table, cycles. Looking
up an entry that is not there gives `none`.
-/
namespace DecisionTreeC

abbrev NodeId := Nat

structure NodeTable where
  feature : Array Nat
  threshold : Array Double
  left : Array (Option NodeId)
  right : Array (Option NodeId)
  isLeaf : Array Bool
  leaf : Array (Option Leaf)
  deriving DecidableEq

structure Node where
  isLeaf : Bool
  feature : Nat
  threshold : Double
  left : Option NodeId
  right : Option NodeId
  leaf : Option Leaf
  deriving DecidableEq

namespace NodeTable

/-- The number of nodes is the length of the column that tells leaves from splits. -/
def size (t : NodeTable) : Nat := t.isLeaf.size

def ofLeaf (leaf : Leaf) : NodeTable := ⟨#[0], #[.zero], #[none], #[none], #[true], #[some leaf]⟩

def leaf? (t : NodeTable) (node : NodeId) : Option (Option Leaf) := do
  if ← t.isLeaf[node]? then t.leaf[node]? else pure none

def children? (t : NodeTable) (node : NodeId) : Option (Option (NodeId × NodeId)) := do
  let isLeaf ← t.isLeaf[node]?
  let left ← t.left[node]?
  let right ← t.right[node]?
  if isLeaf then pure none
  else pure (left.bind fun l => right.map fun r => (l, r))

def node? (t : NodeTable) (node : NodeId) : Option Node := do
  let isLeaf ← t.isLeaf[node]?
  let feature ← t.feature[node]?
  let threshold ← t.threshold[node]?
  let left ← t.left[node]?
  let right ← t.right[node]?
  let leaf ← t.leaf? node
  pure ⟨isLeaf, feature, threshold, left, right, leaf⟩

def nodes? (t : NodeTable) : Option (List Node) := (List.range t.size).mapM t.node?

end NodeTable

end DecisionTreeC
