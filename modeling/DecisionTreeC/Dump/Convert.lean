import DecisionTreeC.Dump.Model
import DecisionTreeC.Name.FeatureSet
import DecisionTreeC.Tree.Builder

/-!
From a dump to a node table with its names. Only the dump's own consistency is checked here; the
table still has to be validated.
-/
namespace DecisionTreeC

inductive ConversionError where
  | lengthMismatch (field : String) (length count : Nat)
  | unsupportedOutputs (node outputs : Nat)
  | childOutOfRange (node : NodeId) (child : Int64) (count : Nat)
  | leafWithChildren (node : NodeId)
  | names (cause : NameError)
  deriving DecidableEq, Repr

def ConversionError.message : ConversionError → String
  | .lengthMismatch field length count =>
    s!"tree array \x60{field}\x60 has {length} entries but node_count is {count}"
  | .unsupportedOutputs node outputs =>
    s!"node {node} has {outputs} outputs; only single-output trees are supported"
  | .childOutOfRange node child count =>
    s!"invalid node index: node {node} references child {child.toInt} but tree has {count} nodes"
  | .leafWithChildren node => s!"leaf node {node} has children"
  | .names cause => cause.message

namespace TreeDump

def lengths (t : TreeDump) : List (String × Nat) :=
  [("children_left", t.childrenLeft.length), ("children_right", t.childrenRight.length),
   ("feature", t.feature.length), ("threshold", t.threshold.length), ("value", t.value.length)]

def checkLengths (t : TreeDump) : Except ConversionError Unit :=
  match t.lengths.find? (·.2 != t.nodeCount.toNat) with
  | some (field, length) => .error (.lengthMismatch field length t.nodeCount.toNat)
  | none => .ok ()

structure Entry where
  left : Int64
  right : Int64
  feature : Int64
  threshold : Double
  outputs : List (List Double)
  deriving DecidableEq

def Entry.isLeaf (e : Entry) : Bool := e.feature < 0

def entries (t : TreeDump) : List Entry :=
  go t.childrenLeft t.childrenRight t.feature t.threshold t.value
where
  go : List Int64 → List Int64 → List Int64 → List Double → List (List (List Double)) → List Entry
    | l :: ls, r :: rs, f :: fs, t :: ts, v :: vs => ⟨l, r, f, t, v⟩ :: go ls rs fs ts vs
    | _, _, _, _, _ => []

def childId (count node : Nat) (child : Int64) : Except ConversionError NodeId :=
  if child < 0 ∨ count ≤ child.toInt.toNat then .error (.childOutOfRange node child count)
  else .ok child.toInt.toNat

/-- Puts one node into the table. Feature indices are kept in words of 32 bits. -/
def Entry.place (count : Nat) (b : TableBuilder) (node : NodeId) (e : Entry) :
    Except ConversionError TableBuilder :=
  match e.outputs with
  | [weights] =>
    if e.isLeaf then
      if e.left ≠ -1 ∨ e.right ≠ -1 then .error (.leafWithChildren node)
      else .ok (b.setLeaf node (.ofWeights weights))
    else do
      let left ← childId count node e.left
      let right ← childId count node e.right
      pure (b.setSplit node (e.feature.toInt.toNat % Nat.pow 2 32) e.threshold left right)
  | outputs => .error (.unsupportedOutputs node outputs.length)

def toTable (t : TreeDump) : Except ConversionError NodeTable := do
  t.checkLengths
  let b ← t.entries.zipIdx.foldlM (fun b (e, node) => e.place t.nodeCount.toNat b node) .empty
  pure b.build

end TreeDump

structure Classifier where
  table : NodeTable
  features : FeatureSet
  labels : LabelSet
  deriving DecidableEq

namespace Dump

/-- The parts with names as they are, or cleaned. A fault of the features comes first, then one of
the classes, then one of the tree. -/
def toClassifier (dump : Dump) (sanitize : Bool) : Except ConversionError Classifier := do
  let classes := dump.classes.map ClassName.display
  let features ← (if sanitize then FeatureSet.sanitized dump.featureNames
    else FeatureSet.ofNames dump.featureNames).mapError .names
  let labels ← (if sanitize then LabelSet.sanitized classes
    else LabelSet.ofNames classes).mapError .names
  pure ⟨← dump.tree.toTable, features, labels⟩

end Dump

end DecisionTreeC
