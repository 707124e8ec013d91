import DecisionTreeC.Tree.Table

/-!
What can be wrong with a node table, on its own or against the names it refers to.
-/
namespace DecisionTreeC

inductive Side where
  | left
  | right
  deriving DecidableEq, Repr

def Side.text : Side → String
  | .left => "left"
  | .right => "right"

inductive Column where
  | feature
  | threshold
  | left
  | right
  | leaf
  deriving DecidableEq, Repr

def Column.text : Column → String
  | .feature => "split_indices"
  | .threshold => "split_thresholds"
  | .left => "left_children"
  | .right => "right_children"
  | .leaf => "leaves"

inductive TreeError where
  | emptyTree
  | columnLength (column : Column) (length size : Nat)
  | missingChild (node : NodeId) (side : Side)
  | leafWithChildren (node : NodeId)
  | missingLeaf (node : NodeId)
  | childOutOfBounds (node : NodeId) (side : Side) (child : NodeId) (size : Nat)
  | selfLoop (node : NodeId)
  | sharedNode (node : NodeId)
  | cycle (node : NodeId)
  | unreachable (node : NodeId)
  | unknownFeature (node : NodeId) (feature : Nat)
  | unknownClass (node : NodeId) (verdict : ClassRef)
  | weightCount (node : NodeId) (count classes : Nat)
  | nonFiniteWeight (node : NodeId)
  deriving DecidableEq, Repr

def TreeError.message : TreeError → String
  | .emptyTree => "tree has no nodes"
  | .columnLength column length size =>
    s!"{column.text} has {length} entries but the tree has {size} nodes"
  | .missingChild node side => s!"internal node {node} is missing its {side.text} child"
  | .leafWithChildren node => s!"leaf node {node} has children"
  | .missingLeaf node => s!"leaf node {node} has no class"
  | .childOutOfBounds node side child size =>
    s!"node {node} references {side.text} child {child} but tree has {size} nodes"
  | .selfLoop node => s!"node {node} references itself as a child"
  | .sharedNode node => s!"node {node} is reachable through more than one parent"
  | .cycle node => s!"cycle detected at node {node}"
  | .unreachable node => s!"node {node} is unreachable from the root"
  | .unknownFeature node feature => s!"node {node} splits on feature {feature}, which has no name"
  | .unknownClass node verdict =>
    s!"leaf node {node} predicts class {verdict.text}, which is not a known label"
  | .weightCount node count classes =>
    s!"leaf node {node} has {count} weights but there are {classes} classes"
  | .nonFiniteWeight node => s!"leaf node {node} has a non-finite weight"

end DecisionTreeC
