import DecisionTreeC.Tree.Table

/-!
Tables put together slot by slot. A slot is vacant until it is made a split or a leaf; the split
fields outlive a change to a leaf, where they mean nothing.
-/
namespace DecisionTreeC

inductive Role where
  | vacant
  | split (left right : NodeId)
  | leaf (payload : Leaf)
  deriving DecidableEq

structure Slot where
  feature : Nat
  threshold : Double
  role : Role
  deriving DecidableEq

def Slot.vacant : Slot := ⟨0, .zero, .vacant⟩

namespace Role

def left? : Role → Option NodeId
  | .split left _ => some left
  | _ => none

def right? : Role → Option NodeId
  | .split _ right => some right
  | _ => none

def leaf? : Role → Option Leaf
  | .leaf payload => some payload
  | _ => none

end Role

structure TableBuilder where
  slots : Array Slot
  deriving DecidableEq

namespace TableBuilder

def empty : TableBuilder := ⟨#[]⟩

instance : Inhabited TableBuilder := ⟨empty⟩

def withCapacity (nodes : Nat) : TableBuilder := ⟨.emptyWithCapacity nodes⟩

def size (b : TableBuilder) : Nat := b.slots.size

def ensure (b : TableBuilder) (node : NodeId) : TableBuilder :=
  ⟨b.slots ++ Array.replicate (node + 1 - b.size) .vacant⟩

def change (b : TableBuilder) (node : NodeId) (f : Slot → Slot) : TableBuilder :=
  ⟨(b.ensure node).slots.modify node f⟩

def setSplit (b : TableBuilder) (node : NodeId) (feature : Nat) (threshold : Double)
    (left right : NodeId) : TableBuilder :=
  b.change node fun _ => ⟨feature, threshold, .split left right⟩

def setLeaf (b : TableBuilder) (node : NodeId) (leaf : Leaf) : TableBuilder :=
  b.change node fun slot => { slot with role := .leaf leaf }

def initRoot (b : TableBuilder) : NodeId × TableBuilder := (0, b.ensure 0)

/-- Makes `node` a split with two new slots as its children. -/
def applySplit (b : TableBuilder) (node : NodeId) (feature : Nat) (threshold : Double) :
    (NodeId × NodeId) × TableBuilder :=
  let left := b.size
  let right := left + 1
  ((left, right), (b.ensure right).setSplit node feature threshold left right)

/-- The table of the slots. A vacant slot becomes a split without children. -/
def build (b : TableBuilder) : NodeTable where
  feature := b.slots.map (·.feature)
  threshold := b.slots.map (·.threshold)
  left := b.slots.map (·.role.left?)
  right := b.slots.map (·.role.right?)
  isLeaf := b.slots.map (·.role.leaf?.isSome)
  leaf := b.slots.map (·.role.leaf?)

end TableBuilder

end DecisionTreeC
