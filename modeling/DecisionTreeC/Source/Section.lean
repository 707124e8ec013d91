import DecisionTreeC.Name.LabelSet
import DecisionTreeC.Source.Config

/-!
Source text as lines, each at a nesting level, and the sections around the decision logic: the
enumeration of the labels, the comment that describes the function, its head, and its end.
-/
namespace DecisionTreeC

structure Line where
  level : Nat
  text : String
  deriving DecidableEq, Repr

namespace Line

def blank : Line := ⟨0, ""⟩

def render (width : Nat) (line : Line) : String :=
  String.ofList (List.replicate (line.level * width) ' ') ++ line.text ++ "\n"

def renderAll (width : Nat) (lines : List Line) : String := String.join (lines.map (·.render width))

end Line

def resultName : String := "ret"

namespace Section

def typeDeclaration (labels : LabelSet) (config : Config) : List Line :=
  [⟨0, "typedef enum"⟩, ⟨0, "\x7b"⟩] ++
  labels.labels.zipIdx.map (fun (label, index) => ⟨1, s!"{label} = {index},"⟩) ++
  [⟨0, "\x7d " ++ config.typeName ++ ";"⟩, .blank]

def docHeader (labels : LabelSet) (config : Config) : List Line :=
  [⟨0, "/*"⟩,
   ⟨0, " * \\brief Decision tree classifier"⟩,
   ⟨0, " *"⟩,
   ⟨0, " * Decision tree classifier based on the following input characteristics:"⟩,
   ⟨0, s!" *   BLOCK_SIZE: {config.provenance.blockSize.toNat}"⟩,
   ⟨0, s!" *   BLOCK_TYPE: {config.provenance.blockType.text}"⟩,
   ⟨0, " *"⟩,
   ⟨0, s!" * \\return {config.typeName}"⟩] ++
  labels.labels.zipIdx.map (fun (label, index) => ⟨0, s!" *   {index}  {label}"⟩) ++
  [⟨0, " */"⟩]

def arguments (parameters : List String) : String :=
  if parameters.isEmpty then "void"
  else ", ".intercalate (parameters.map ("const float " ++ ·))

def signature (parameters : List String) (config : Config) : List Line :=
  [⟨0, s!"{config.typeName} {config.functionName}({arguments parameters})"⟩,
   ⟨0, "\x7b"⟩,
   ⟨1, s!"{config.typeName} {resultName};"⟩,
   .blank]

def epilogue : List Line := [.blank, ⟨1, s!"return {resultName};"⟩, ⟨0, "\x7d"⟩]

end Section

end DecisionTreeC
