import DecisionTreeC.Name.Identifier
import DecisionTreeC.Number.Shortest
import DecisionTreeC.Tree.Error

/-!
Options of the generated source, and why there is none.
-/
namespace DecisionTreeC

/-- How feature windows were cut from the sample stream: block by block, or sliding
by one sample. -/
inductive BlockType where
  | block
  | sliding
  deriving DecidableEq, Repr

def BlockType.text : BlockType → String
  | .block => "BLOCK"
  | .sliding => "SLIDING"

structure Provenance where
  blockSize : UInt64
  blockType : BlockType
  deriving DecidableEq, Repr

def Provenance.standard : Provenance := ⟨100, .block⟩

structure Config where
  /-- Spaces per nesting level. -/
  indentWidth : Nat
  /-- Decimal places of every number. -/
  decimalPlaces : Nat
  /-- Splits stand at depths up to `maxDepth + 1`; the root has depth one. -/
  maxDepth : Nat
  /-- Whether the weights of a leaf are shown in a comment. -/
  classWeights : Bool
  provenance : Provenance
  functionName : String
  typeName : String
  deriving DecidableEq, Repr

def Config.standard : Config := ⟨4, 6, 10, false, .standard, "dtc", "dtc_t"⟩

inductive Symbol where
  | functionName
  | typeName
  deriving DecidableEq, Repr

def Symbol.text : Symbol → String
  | .functionName => "function_name"
  | .typeName => "type_name"

inductive ConfigError where
  | invalidDecimalPlaces (places : Nat)
  | invalidSymbol (symbol : Symbol) (value : String)
  | symbolClash (name : String)
  deriving DecidableEq, Repr

def ConfigError.message : ConfigError → String
  | .invalidDecimalPlaces places => s!"decimal_places must be in 1..=17, got {places}"
  | .invalidSymbol symbol value =>
    symbol.text ++ " must be a C identifier, got " ++ Text.quoted value
  | .symbolClash name => "function_name and type_name are both " ++ Text.quoted name

def Config.check (config : Config) : Except ConfigError Unit :=
  if !(1 ≤ config.decimalPlaces && config.decimalPlaces ≤ 17) then
    .error (.invalidDecimalPlaces config.decimalPlaces)
  else if !isIdentifier config.functionName then
    .error (.invalidSymbol .functionName config.functionName)
  else if !isIdentifier config.typeName then
    .error (.invalidSymbol .typeName config.typeName)
  else if config.functionName = config.typeName then
    .error (.symbolClash config.functionName)
  else .ok ()

inductive SourceError where
  | invalidConfig (cause : ConfigError)
  | malformedTree (cause : TreeError)
  | emptyModel
  | formattingOverflow (value : Double) (places : Nat)
  | nameCollision (name : String)
  deriving DecidableEq

def SourceError.message : SourceError → String
  | .invalidConfig cause => "invalid generator configuration: " ++ cause.message
  | .malformedTree cause => "malformed tree: " ++ cause.message
  | .emptyModel => "model has no class labels"
  | .formattingOverflow value places =>
    s!"value {value.display} cannot be written as a literal with {places} decimal places"
  | .nameCollision name =>
    "name " ++ Text.quoted name ++ " collides with another symbol in the generated code"

end DecisionTreeC
