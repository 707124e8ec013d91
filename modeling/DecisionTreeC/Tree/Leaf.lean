import DecisionTreeC.Name.LabelSet
import DecisionTreeC.Number.Binary

/-!
Leaves: the class a leaf predicts, by position or by label, and the weights that override it.
-/
namespace DecisionTreeC

/-- Position of the greatest weight. `best` is the greatest so far and `position` the next place;
only a weight not at most the best takes over, so ties keep the lower position. -/
def majorityAfter (best : Nat × Double) (position : Nat) : List Double → Nat
  | [] => best.1
  | weight :: rest =>
    if weight.le best.2 then majorityAfter best (position + 1) rest
    else majorityAfter (position, weight) (position + 1) rest

def majority? : List Double → Option Nat
  | [] => none
  | first :: rest => some (majorityAfter (0, first) 1 rest)

inductive ClassRef where
  | index (position : Nat)
  | label (name : String)
  deriving DecidableEq, Repr

def ClassRef.text : ClassRef → String
  | .index position => "#" ++ toString position
  | .label name => Text.quoted name

structure Leaf where
  verdict : ClassRef
  weights : Option (List Double)
  deriving DecidableEq

namespace Leaf

def ofIndex (position : Nat) : Leaf := ⟨.index position, none⟩
def ofLabel (name : String) : Leaf := ⟨.label name, none⟩

/-- The class is the position of the greatest weight, the first one if there is none. -/
def ofWeights (weights : List Double) : Leaf := ⟨.index ((majority? weights).getD 0), some weights⟩

def withWeights (leaf : Leaf) (weights : List Double) : Leaf :=
  { leaf with weights := some weights }

/-- The predicted position among the labels. Weights decide where they are present. -/
def resolve? (leaf : Leaf) (labels : LabelSet) : Option Nat :=
  match leaf.weights with
  | some weights => (majority? weights).filter (· < labels.size)
  | none =>
    match leaf.verdict with
    | .index position => if position < labels.size then some position else none
    | .label name => labels.indexOf? name

end Leaf

end DecisionTreeC
