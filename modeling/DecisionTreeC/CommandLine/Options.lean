import DecisionTreeC.Source.Config

/-!
Arguments of the command line. They are taken from left to right, and the first that does not fit is
a usage error; a request for the version or for help ends the reading where it stands.
-/
namespace DecisionTreeC

structure Options where
  model : String
  output : String
  indentWidth : Nat
  decimalPlaces : Nat
  maxDepth : Nat
  showWeights : Bool
  blockSize : Option UInt64
  blockType : Option BlockType
  functionName : String
  typeName : String
  sanitizeNames : Bool
  print : Bool
  deriving DecidableEq, Repr

inductive Request where
  | run (options : Options)
  | version
  | help
  | usage
  deriving DecidableEq, Repr

inductive Flag where
  | showWeights
  | sanitizeNames
  | print
  | version
  | help
  deriving DecidableEq, Repr

inductive Setting where
  | output
  | indentWidth
  | decimalPlaces
  | maxDepth
  | blockSize
  | blockType
  | functionName
  | typeName
  deriving DecidableEq, Repr

namespace CommandLine

def flag? : String → Option Flag
  | "show-weights" => some .showWeights
  | "sanitize-names" => some .sanitizeNames
  | "print" => some .print
  | "version" => some .version
  | "help" => some .help
  | _ => none

def setting? : String → Option Setting
  | "output" => some .output
  | "indent-width" => some .indentWidth
  | "decimal-places" => some .decimalPlaces
  | "max-depth" => some .maxDepth
  | "block-size" => some .blockSize
  | "block-type" => some .blockType
  | "function-name" => some .functionName
  | "type-name" => some .typeName
  | _ => none

inductive Argument where
  | escape
  | flag (flag : Flag)
  | setting (setting : Setting) (attached : Option String)
  | plain (text : String)
  | unknown
  deriving DecidableEq, Repr

def longArgument (text : List Char) : Argument :=
  let name := String.ofList (text.takeWhile (· != '='))
  let attached :=
    match text.dropWhile (· != '=') with
    | [] => none
    | _ :: value => some (String.ofList value)
  match flag? name, attached with
  | some flag, none => .flag flag
  | some _, some _ => .unknown
  | none, _ =>
    match setting? name with
    | some setting => .setting setting attached
    | none => .unknown

def shortArgument : List Char → Argument
  | 'V' :: _ => .flag .version
  | 'h' :: _ => .flag .help
  | ['o'] => .setting .output none
  | 'o' :: '=' :: value => .setting .output (some (String.ofList value))
  | 'o' :: value => .setting .output (some (String.ofList value))
  | _ => .unknown

/-- A dash alone is an argument like any other. -/
def Argument.ofText (text : String) : Argument :=
  match text.toList with
  | ['-', '-'] => .escape
  | '-' :: '-' :: long => longArgument long
  | ['-'] => .plain text
  | '-' :: short => shortArgument short
  | _ => .plain text

def natural? (text : String) : Option Nat :=
  let digits :=
    match text.toList with
    | '+' :: digits => digits
    | digits => digits
  if digits.isEmpty || !digits.all Char.isDigit then none
  else
    let n := digits.foldl (fun n c => 10 * n + (c.toNat - '0'.toNat)) 0
    if n < Nat.pow 2 64 then some n else none

def blockType? : String → Option BlockType
  | "block" => some .block
  | "sliding" => some .sliding
  | _ => none

def path? (text : String) : Option String := if text.isEmpty then none else some text

structure Draft where
  model : Option String
  output : Option String
  indentWidth : Option Nat
  decimalPlaces : Option Nat
  maxDepth : Option Nat
  showWeights : Option Unit
  blockSize : Option Nat
  blockType : Option BlockType
  functionName : Option String
  typeName : Option String
  sanitizeNames : Option Unit
  print : Option Unit
  deriving DecidableEq, Repr

namespace Draft

def empty : Draft := ⟨none, none, none, none, none, none, none, none, none, none, none, none⟩

/-- A value that is given at most once and fits. -/
def fresh {α : Type} (known given : Option α) : Option α := if known.isSome then none else given

def setModel (d : Draft) (text : String) : Option Draft :=
  (fresh d.model (path? text)).map fun v => { d with model := some v }

def set (d : Draft) (setting : Setting) (text : String) : Option Draft :=
  match setting with
  | .output => (fresh d.output (path? text)).map fun v => { d with output := some v }
  | .indentWidth =>
    (fresh d.indentWidth (natural? text)).map fun v => { d with indentWidth := some v }
  | .decimalPlaces =>
    (fresh d.decimalPlaces (natural? text)).map fun v => { d with decimalPlaces := some v }
  | .maxDepth => (fresh d.maxDepth (natural? text)).map fun v => { d with maxDepth := some v }
  | .blockSize => (fresh d.blockSize (natural? text)).map fun v => { d with blockSize := some v }
  | .blockType => (fresh d.blockType (blockType? text)).map fun v => { d with blockType := some v }
  | .functionName =>
    (fresh d.functionName (some text)).map fun v => { d with functionName := some v }
  | .typeName => (fresh d.typeName (some text)).map fun v => { d with typeName := some v }

def options? (d : Draft) : Option Options :=
  d.model.map fun model =>
    { model
      output := d.output.getD "dtc_model.c"
      indentWidth := d.indentWidth.getD Config.standard.indentWidth
      decimalPlaces := d.decimalPlaces.getD Config.standard.decimalPlaces
      maxDepth := d.maxDepth.getD Config.standard.maxDepth
      showWeights := d.showWeights.isSome
      blockSize := d.blockSize.map UInt64.ofNat
      blockType := d.blockType
      functionName := d.functionName.getD Config.standard.functionName
      typeName := d.typeName.getD Config.standard.typeName
      sanitizeNames := d.sanitizeNames.isSome
      print := d.print.isSome }

def request (d : Draft) : Request :=
  match d.options? with
  | some options => .run options
  | none => .usage

def raise (d : Draft) : Flag → Except Request Draft
  | .version => .error .version
  | .help => .error .help
  | .showWeights =>
    if d.showWeights.isSome then .error .usage else .ok { d with showWeights := some () }
  | .sanitizeNames =>
    if d.sanitizeNames.isSome then .error .usage else .ok { d with sanitizeNames := some () }
  | .print => if d.print.isSome then .error .usage else .ok { d with print := some () }

end Draft

def readPlain (d : Draft) : List String → Request
  | [] => d.request
  | text :: rest =>
    match d.setModel text with
    | none => .usage
    | some d => readPlain d rest

/-- A value that stands alone may not look like an option. -/
def isValue (text : String) : Bool :=
  match Argument.ofText text with
  | .plain _ => true
  | _ => false

def readArguments (d : Draft) : List String → Request
  | [] => d.request
  | text :: rest =>
    match Argument.ofText text with
    | .escape => readPlain d rest
    | .unknown => .usage
    | .plain text =>
      match d.setModel text with
      | none => .usage
      | some d => readArguments d rest
    | .flag flag =>
      match d.raise flag with
      | .error request => request
      | .ok d => readArguments d rest
    | .setting setting (some value) =>
      match d.set setting value with
      | none => .usage
      | some d => readArguments d rest
    | .setting setting none =>
      match rest with
      | [] => .usage
      | value :: rest =>
        if isValue value then
          match d.set setting value with
          | none => .usage
          | some d => readArguments d rest
        else .usage

end CommandLine

def Request.ofArguments (arguments : List String) : Request :=
  CommandLine.readArguments .empty arguments

end DecisionTreeC
