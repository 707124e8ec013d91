import DecisionTreeC.Tree.Table

/-!
Walks over a table. They expect a tree; on any other table a walk gives `none` when it leaves the
table or would never end. No path of a tree is longer than the table, which is what bounds every
walk.
-/
namespace DecisionTreeC

namespace NodeTable

/-- Work left in a listing: a node at depth `d` may have descendants down to depth `size`. -/
def listingWork (t : NodeTable) (pending : List (NodeId × Nat)) : Nat :=
  pending.foldr (fun (_, depth) work => Nat.pow 3 (t.size + 1 - depth) + work) 0

/-- Lists the pending nodes and all below them, each with its depth, behind those already listed. -/
def listing (t : NodeTable) (listed : Array NodeId) (pending : List (NodeId × Nat)) :
    Option (Array NodeId) :=
  match pending with
  | [] => some listed
  | (node, depth) :: rest =>
    match t.children? node with
    | none => none
    | some none => t.listing (listed.push node) rest
    | some (some (left, right)) =>
      if depth < t.size then
        t.listing (listed.push node) ((left, depth + 1) :: (right, depth + 1) :: rest)
      else none
termination_by t.listingWork pending
decreasing_by
  · have : 0 < Nat.pow 3 (t.size + 1 - depth) := Nat.pow_pos (by decide)
    simp only [listingWork, List.foldr_cons]
    omega
  · rename_i below
    have step : t.size + 1 - depth = (t.size - depth) + 1 := by omega
    have next : t.size + 1 - (depth + 1) = t.size - depth := by omega
    have : 0 < Nat.pow 3 (t.size - depth) := Nat.pow_pos (by decide)
    have triple : Nat.pow 3 (t.size - depth + 1) = Nat.pow 3 (t.size - depth) * 3 := rfl
    simp only [listingWork, List.foldr_cons]
    rw [step, next, triple]
    omega

def preorder (t : NodeTable) : Option (List NodeId) :=
  if t.size = 0 then some [] else (t.listing #[] [(0, 1)]).map Array.toList

def splitFeature? (t : NodeTable) (node : NodeId) : Option (Option Nat) := do
  if ← t.isLeaf[node]? then pure none else some <$> t.feature[node]?

def referencedFeatures (t : NodeTable) : Option (List Nat) := do
  let tested ← (← t.preorder).mapM t.splitFeature?
  pure (tested.reduceOption.foldl (fun met f => if f ∈ met then met else met ++ [f]) [])

def depthAt (t : NodeTable) (depths : Array Nat) (node : NodeId) : Option (Array Nat) := do
  match ← t.children? node with
  | none => pure (depths.setIfInBounds node 1)
  | some (left, right) =>
    pure (depths.setIfInBounds node (1 + max (← depths[left]?) (← depths[right]?)))

/-- The depth of the subtree at every node; a leaf has depth one, an unreached node zero. -/
def subtreeDepths (t : NodeTable) : Option (Array Nat) := do
  (← t.preorder).reverse.foldlM t.depthAt (Array.replicate t.size 0)

def depth (t : NodeTable) : Option Nat := do
  pure ((← t.subtreeDepths)[0]?.getD 0)

/-- The child a sample goes to: left when the tested value is at most the threshold, both in single
precision. -/
def turn (t : NodeTable) (sample : Array Single) (node left right : NodeId) : Option NodeId := do
  let value ← sample[← t.feature[node]?]?
  let threshold ← t.threshold[node]?
  pure (if value.le threshold.toSingle then left else right)

def routeFrom (t : NodeTable) (sample : Array Single) : Nat → NodeId → Option NodeId
  | 0, _ => none
  | steps + 1, node => do
    match ← t.children? node with
    | none => pure node
    | some (left, right) => t.routeFrom sample steps (← t.turn sample node left right)

def route (t : NodeTable) (sample : Array Single) : Option NodeId := t.routeFrom sample t.size 0

def predict (t : NodeTable) (sample : Array Single) (labels : LabelSet) : Option (Option Nat) := do
  let leaf ← t.leaf? (← t.route sample)
  pure (leaf.bind fun leaf => leaf.resolve? labels)

end NodeTable

end DecisionTreeC
