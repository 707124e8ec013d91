import DecisionTreeC.Source.Notice
import DecisionTreeC.Tree.Reference
import DecisionTreeC.Tree.Validate

/-!
The whole source of a classifier. Everything is checked before the first line is written, and there
is either a complete source or an error.
-/
namespace DecisionTreeC

structure Source where
  typeDeclaration : String
  docHeader : String
  signature : String
  body : String
  epilogue : String
  truncations : List Truncation
  deriving DecidableEq, Repr

namespace Source

def isTruncated (source : Source) : Bool := !source.truncations.isEmpty

def text (source : Source) : String :=
  source.typeDeclaration ++ source.docHeader ++ source.signature ++ source.body ++ source.epilogue

end Source

structure Report where
  notices : List Notice
  outcome : Except SourceError Source

namespace Plan

/-- The parameters: the names of the tested features, in the order they are first met. A feature
without a name is reported at the first node that tests it. -/
def parameters (plan : Plan) : ExceptT SourceError Option (List String) := do
  let nodes ← (plan.table.preorder : Option _)
  let tests (feature : Nat) (node : NodeId) : Bool :=
    plan.table.splitFeature? node == some (some feature)
  (← (plan.table.referencedFeatures : Option _)).mapM fun feature =>
    match plan.features.name? feature with
    | some name => pure name
    | none =>
      throw (.malformedTree (.unknownFeature ((nodes.find? (tests feature)).getD 0) feature))

/-- Labels and parameters may not reuse a name of the surrounding code, nor a parameter a label. -/
def collision? (plan : Plan) (parameters : List String) : Option String :=
  let reserved := [resultName, plan.config.functionName, plan.config.typeName]
  (plan.labels.labels.find? (reserved.contains ·)).or
    (parameters.find? fun name => reserved.contains name || plan.labels.labels.contains name)

def prepare (plan : Plan) : ExceptT SourceError Option (List String) := do
  ExceptT.mk (some (plan.config.check.mapError .invalidConfig))
  if plan.labels.isEmpty then throw .emptyModel
  plan.table.validate.adapt .malformedTree
  (plan.table.validateReferences plan.features plan.labels).adapt .malformedTree
  let parameters ← plan.parameters
  match plan.collision? parameters with
  | some name => throw (.nameCollision name)
  | none => pure parameters

def assemble (plan : Plan) (parameters : List String) (body : Body) : Source :=
  let render := Line.renderAll plan.config.indentWidth
  { typeDeclaration := render (Section.typeDeclaration plan.labels plan.config)
    docHeader := render (Section.docHeader plan.labels plan.config)
    signature := render (Section.signature parameters plan.config)
    body := body.render plan.config.indentWidth
    epilogue := render Section.epilogue
    truncations := body.truncations.toList }

def progress (plan : Plan) (parameters : List String) (body : Body) : List Notice :=
  .generating plan.config.functionName plan.table.size parameters.length plan.labels.size ::
    body.truncations.toList.map .truncated

def closing (plan : Plan) (source : Source) : List Notice :=
  (if source.isTruncated then
    [.truncatedTotal source.truncations.length plan.config.maxDepth] else []) ++
  [.generated source.body.utf8ByteSize]

def report (plan : Plan) : Option Report := do
  match ← plan.prepare.run with
  | .error fault => pure ⟨[], .error fault⟩
  | .ok parameters =>
    let (body, fault?) ← plan.body
    let progress := plan.progress parameters body
    match fault? with
    | some fault => pure ⟨progress, .error fault⟩
    | none =>
      let source := plan.assemble parameters body
      pure ⟨progress ++ plan.closing source, .ok source⟩

def source (plan : Plan) : ExceptT SourceError Option Source :=
  ExceptT.mk (plan.report.map (·.outcome))

end Plan

end DecisionTreeC
