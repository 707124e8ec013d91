import DecisionTreeC.Name.FeatureSet
import DecisionTreeC.Source.Section
import DecisionTreeC.Tree.Walk

/-!
The decision logic as nested `if` and `else`.

Pending frames stand for what is still to be written, so depth costs no call stack. Below the depth
limit a lone leaf is still written; anything deeper is replaced by a compiler warning and recorded.
Numbers have a fixed count of decimal places and never an exponent. A value that has no literal is
an error; there is no result at all where the places are more than a number is written with.
-/
namespace DecisionTreeC

/-- A threshold as a single-precision literal; its magnitude may not exceed the
greatest such value. -/
def thresholdLiteral (value : Double) (places : Nat) : ExceptT SourceError Option String := do
  if value.isFinite && value.pattern ≤ Double.singleMax.pattern then
    pure ((← (value.fixed? places : Option _)) ++ "f")
  else throw (.formattingOverflow value places)

def weightText (value : Double) (places : Nat) : ExceptT SourceError Option String := do
  if value.isFinite then pure (← (value.fixed? places : Option _))
  else throw (.formattingOverflow value places)

inductive Statement where
  | test (name literal : String)
  | opening
  | closing
  | otherwise (name literal : String)
  | weights (texts : List String)
  | assign (label : String)
  | warning (depth : Nat)
  deriving DecidableEq, Repr

def Statement.text : Statement → String
  | .test name literal => s!"if ({name} <= {literal})"
  | .opening => "\x7b"
  | .closing => "\x7d"
  | .otherwise name literal => s!"else /* {name} > {literal} */"
  | .weights texts => "/* weights: [" ++ ", ".intercalate texts ++ "] */"
  | .assign label => s!"{resultName} = {label};"
  | .warning depth => s!"#warning truncated branch of depth {depth}"

structure Truncation where
  node : NodeId
  depth : Nat
  subtreeDepth : Nat
  deriving DecidableEq, Repr

/-- Pending work: a node, the turn from its left to its right branch, or its end. -/
inductive Frame where
  | node (id : NodeId) (depth : Nat)
  | otherwise (depth : Nat) (name literal : String)
  | close (depth : Nat)
  deriving DecidableEq, Repr

structure Plan where
  table : NodeTable
  features : FeatureSet
  labels : LabelSet
  config : Config

structure Body where
  lines : Array (Nat × Statement)
  truncations : Array Truncation
  deriving DecidableEq

namespace Body

def empty : Body := ⟨#[], #[]⟩

def write (body : Body) (level : Nat) (statements : List Statement) : Body :=
  { body with lines := body.lines ++ statements.map fun s => (level, s) }

def cut (body : Body) (t : Truncation) : Body :=
  { body.write t.depth [.warning t.subtreeDepth] with truncations := body.truncations.push t }

def render (width : Nat) (body : Body) : String :=
  Line.renderAll width (body.lines.toList.map fun (level, s) => ⟨level, s.text⟩)

end Body

structure Split where
  name : String
  literal : String
  left : NodeId
  right : NodeId
  deriving DecidableEq, Repr

namespace Plan

def leafStatements (plan : Plan) (node : NodeId) : ExceptT SourceError Option (List Statement) := do
  match ← (plan.table.leaf? node : Option _) with
  | none => throw (.malformedTree (.missingLeaf node))
  | some leaf =>
    match (leaf.resolve? plan.labels).bind plan.labels.get? with
    | none => throw (.malformedTree (.unknownClass node leaf.verdict))
    | some label =>
      match plan.config.classWeights, leaf.weights with
      | true, some weights =>
        let texts ← weights.mapM (weightText · plan.config.decimalPlaces)
        pure [.weights texts, .assign label]
      | _, _ => pure [.assign label]

def split (plan : Plan) (node : NodeId) : ExceptT SourceError Option Split := do
  match ← (plan.table.left[node]? : Option _), ← (plan.table.right[node]? : Option _) with
  | none, _ => throw (.malformedTree (.missingChild node .left))
  | some _, none => throw (.malformedTree (.missingChild node .right))
  | some left, some right =>
    let feature ← (plan.table.feature[node]? : Option _)
    match plan.features.name? feature with
    | none => throw (.malformedTree (.unknownFeature node feature))
    | some name =>
      let threshold ← (plan.table.threshold[node]? : Option _)
      let literal ← thresholdLiteral threshold plan.config.decimalPlaces
      pure ⟨name, literal, left, right⟩

inductive Action where
  | write (statements : List Statement)
  | cut (subtreeDepth : Nat)
  | branch (split : Split)
  deriving DecidableEq, Repr

/-- A node down to depth `maxDepth + 1` is written as it is. Below, a leaf is written and anything
else is cut off. -/
def action (plan : Plan) (depths : Array Nat) (node depth : Nat) :
    ExceptT SourceError Option Action := do
  if plan.config.maxDepth + 1 < depth then
    let below ← (depths[node]? : Option _)
    if below = 1 then .write <$> plan.leafStatements node else pure (.cut below)
  else if ← (plan.table.isLeaf[node]? : Option _) then .write <$> plan.leafStatements node
  else .branch <$> plan.split node

/-- Work left in a list of frames: a node at depth `d` may have descendants down to depth `size`. -/
def frameWork (size : Nat) : Frame → Nat
  | .node _ depth => Nat.pow 5 (size + 1 - depth)
  | .otherwise .. => 1
  | .close _ => 1

/-- Works the frames off, the first one first. The result is what was written, and the error that
stopped it; `none` if the table is no tree. -/
def emit (plan : Plan) (depths : Array Nat) (body : Body) (frames : List Frame) :
    Option (Body × Option SourceError) :=
  match frames with
  | [] => some (body, none)
  | .close depth :: rest => plan.emit depths (body.write depth [.closing]) rest
  | .otherwise depth name literal :: rest =>
    plan.emit depths (body.write depth [.closing, .otherwise name literal, .opening]) rest
  | .node id depth :: rest =>
    match (plan.action depths id depth).run with
    | none => none
    | some (.error fault) => some (body, some fault)
    | some (.ok (.write statements)) => plan.emit depths (body.write depth statements) rest
    | some (.ok (.cut below)) => plan.emit depths (body.cut ⟨id, depth, below⟩) rest
    | some (.ok (.branch split)) =>
      if depth < plan.table.size then
        plan.emit depths (body.write depth [.test split.name split.literal, .opening])
          (.node split.left (depth + 1) :: .otherwise depth split.name split.literal ::
            .node split.right (depth + 1) :: .close depth :: rest)
      else none
termination_by frames.foldr (fun frame work => frameWork plan.table.size frame + work) 0
decreasing_by
  all_goals simp only [List.foldr_cons, frameWork]
  · omega
  · omega
  · have : 0 < Nat.pow 5 (plan.table.size + 1 - depth) := Nat.pow_pos (by decide)
    omega
  · have : 0 < Nat.pow 5 (plan.table.size + 1 - depth) := Nat.pow_pos (by decide)
    omega
  · have step : plan.table.size + 1 - depth = (plan.table.size - depth) + 1 := by omega
    have next : plan.table.size + 1 - (depth + 1) = plan.table.size - depth := by omega
    have : 0 < Nat.pow 5 (plan.table.size - depth) := Nat.pow_pos (by decide)
    have fivefold : Nat.pow 5 (plan.table.size - depth + 1) =
        Nat.pow 5 (plan.table.size - depth) * 5 := rfl
    rw [step, next, fivefold]
    omega

def body (plan : Plan) : Option (Body × Option SourceError) := do
  plan.emit (← plan.table.subtreeDepths) .empty [.node 0 1]

end Plan

end DecisionTreeC
