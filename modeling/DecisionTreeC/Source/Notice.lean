import DecisionTreeC.Source.Body

/-!
Notices of what the generator is doing.
-/
namespace DecisionTreeC

inductive Notice where
  | loaded (nodes classes features : Nat) (path : String)
  | generating (functionName : String) (nodes parameters classes : Nat)
  | truncated (cut : Truncation)
  | truncatedTotal (count maxDepth : Nat)
  | generated (bytes : Nat)
  deriving DecidableEq, Repr

namespace Notice

def isWarning : Notice → Bool
  | .truncated _ => true
  | .truncatedTotal .. => true
  | _ => false

def text : Notice → String
  | .loaded nodes classes features path =>
    s!"loaded {nodes} nodes, {classes} classes, {features} features from {path}"
  | .generating functionName nodes parameters classes =>
    s!"generating {functionName}() for {nodes} nodes, {parameters} parameters, {classes} classes"
  | .truncated cut =>
    s!"truncated branch at node {cut.node} (depth {cut.depth}): " ++
      s!"remaining subtree depth {cut.subtreeDepth}"
  | .truncatedTotal count maxDepth => s!"{count} branch(es) truncated at max_depth {maxDepth}"
  | .generated bytes => s!"generated {bytes} bytes of body"

def line (notice : Notice) : String :=
  (if notice.isWarning then "WARN " else "DEBUG ") ++ notice.text

end Notice

end DecisionTreeC
