import DecisionTreeC.Dump.Model
import DecisionTreeC.Json.Schema

/-!
How dumps are laid out in JSON.
-/
namespace DecisionTreeC

open Json

def BlockType.schema : Schema BlockType := .choice [.block, .sliding] BlockType.text

def Provenance.schema : Schema Provenance :=
  .made (fun (size, kind, _) => ⟨size, kind⟩) (fun p => (p.blockSize, p.blockType, ())) <|
    .record <| .required "block_size" .unsigned <| .required "block_type" BlockType.schema .nil

namespace ClassName

def ofSum : String ⊕ Int64 ⊕ Double → ClassName
  | .inl name => .text name
  | .inr (.inl n) => .integer n
  | .inr (.inr x) => .float x

def toSum : ClassName → String ⊕ Int64 ⊕ Double
  | .text name => .inl name
  | .integer n => .inr (.inl n)
  | .float x => .inr (.inr x)

/-- A string, else an integer that fits 64 bits with a sign, else a number. -/
def schema : Schema ClassName := .made ofSum toSum (.untagged .text (.untagged .signed .real))

end ClassName

namespace TreeDump

/-- The weights of a node: one list of numbers is one output, a list of such lists is
an output each. -/
def outputs : Schema (List (List Double)) := .oneOrMany (.list .real)

def schemaWith (outputs : Schema (List (List Double))) : Schema TreeDump :=
  .made
    (fun (nodeCount, left, right, feature, threshold, value, _) =>
      ⟨nodeCount, left, right, feature, threshold, value⟩)
    (fun t =>
      (t.nodeCount, t.childrenLeft, t.childrenRight, t.feature, t.threshold, t.value, ())) <|
    .record <|
      .required "node_count" .unsigned <|
      .required "children_left" (.list .signed) <|
      .required "children_right" (.list .signed) <|
      .required "feature" (.list .signed) <|
      .required "threshold" (.list .real) <|
      .required "value" (.list outputs) .nil

end TreeDump

namespace Dump

def schemaWith (outputs : Schema (List (List Double))) : Schema Dump :=
  .made
    (fun (classes, featureNames, provenance, tree, _) => ⟨classes, featureNames, provenance, tree⟩)
    (fun dump => (dump.classes, dump.featureNames, dump.provenance, dump.tree, ())) <|
    .record <|
      .required "classes" (.list ClassName.schema) <|
      .required "feature_names" (.list .text) <|
      .optional "provenance" Provenance.schema <|
      .required "tree" (TreeDump.schemaWith outputs) .nil

def schema : Schema Dump := schemaWith TreeDump.outputs

end Dump

end DecisionTreeC
