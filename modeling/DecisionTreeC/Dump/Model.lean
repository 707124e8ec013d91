import DecisionTreeC.Number.Shortest
import DecisionTreeC.Source.Config

/-!
Dumps of trained classifiers: the class and feature names of a model and the arrays of its tree.
-/
namespace DecisionTreeC

inductive ClassName where
  | text (name : String)
  | integer (n : Int64)
  | float (x : Double)
  deriving DecidableEq

def ClassName.display : ClassName → String
  | .text name => name
  | .integer n => toString n.toInt
  | .float x => x.display

/-- The arrays of a tree, one entry per node. A leaf has a negative feature and no children, which
is written -1; the weights are listed per output. -/
structure TreeDump where
  nodeCount : UInt64
  childrenLeft : List Int64
  childrenRight : List Int64
  feature : List Int64
  threshold : List Double
  value : List (List (List Double))
  deriving DecidableEq

structure Dump where
  classes : List ClassName
  featureNames : List String
  provenance : Option Provenance
  tree : TreeDump
  deriving DecidableEq

end DecisionTreeC
