import DecisionTreeC.Name.FeatureSet
import DecisionTreeC.Tree.Error
import DecisionTreeC.Tree.Walk

/-!
The check that a tree only refers to known features and classes.
-/
namespace DecisionTreeC

def Leaf.check (leaf : Leaf) (node : NodeId) (labels : LabelSet) : Except TreeError Unit := do
  if let some weights := leaf.weights then
    if weights.length ≠ labels.size then
      throw (.weightCount node weights.length labels.size)
    if weights.any (!·.isFinite) then
      throw (.nonFiniteWeight node)
  if (leaf.resolve? labels).isNone then
    throw (.unknownClass node leaf.verdict)

namespace NodeTable

def checkReference (t : NodeTable) (features : FeatureSet) (labels : LabelSet) (node : NodeId) :
    ExceptT TreeError Option Unit := do
  match ← (t.splitFeature? node : Option _) with
  | some feature =>
    if features.contains feature then pure () else throw (.unknownFeature node feature)
  | none =>
    match ← (t.leaf? node : Option _) with
    | none => throw (.missingLeaf node)
    | some leaf => ExceptT.mk (some (leaf.check node labels))

/-- The nodes in order of the listing; the first fault is reported, `none` if the table
is no tree. -/
def validateReferences (t : NodeTable) (features : FeatureSet) (labels : LabelSet) :
    ExceptT TreeError Option Unit := do
  (← (t.preorder : Option _)).forM (t.checkReference features labels)

end NodeTable

end DecisionTreeC
