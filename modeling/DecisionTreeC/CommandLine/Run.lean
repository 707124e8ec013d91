import DecisionTreeC.CommandLine.Options
import DecisionTreeC.Dump.Convert
import DecisionTreeC.Dump.Load
import DecisionTreeC.Source.Generate

/-!
A run of the command line: a dump is loaded, converted and turned into source, the source is
written, and what was done is printed. Nothing is written unless the source is complete.
-/
namespace DecisionTreeC

/-- What was being done when a run failed, and why, the outermost cause first. -/
structure Failure where
  context : String
  causes : List String
  deriving DecidableEq, Repr

namespace Failure

def causeLines (causes : List String) : List String :=
  match causes with
  | [cause] => ["    " ++ cause]
  | causes => causes.zipIdx.map fun (cause, index) =>
    let number := toString index
    String.ofList (List.replicate (5 - number.length) ' ') ++ number ++ ": " ++ cause

def message (failure : Failure) : String :=
  "Error: " ++ failure.context ++ "\n" ++
    if failure.causes.isEmpty then ""
    else "\nCaused by:\n" ++ String.join ((causeLines failure.causes).map (· ++ "\n"))

end Failure

def SourceError.causes (fault : SourceError) : List String :=
  match fault with
  | .invalidConfig cause => [fault.message, cause.message]
  | .malformedTree cause => [fault.message, cause.message]
  | _ => [fault.message]

namespace Options

/-- Each part of the provenance comes from the options, else from the dump, else is
the standard one. -/
def provenance (options : Options) (recorded : Option Provenance) : Provenance :=
  let base := recorded.getD .standard
  ⟨options.blockSize.getD base.blockSize, options.blockType.getD base.blockType⟩

def config (options : Options) (recorded : Option Provenance) : Config where
  indentWidth := options.indentWidth
  decimalPlaces := options.decimalPlaces
  maxDepth := options.maxDepth
  classWeights := options.showWeights
  provenance := options.provenance recorded
  functionName := options.functionName
  typeName := options.typeName

def plan (options : Options) (dump : Dump) : Except Failure Plan := do
  let classifier ← (dump.toClassifier options.sanitizeNames).mapError fun fault =>
    ⟨"converting model (try --sanitize-names for arbitrary names)", [fault.message]⟩
  let config := options.config dump.provenance
  config.check.mapError fun fault => ⟨"invalid generator options", [fault.message]⟩
  pure ⟨classifier.table, classifier.features, classifier.labels, config⟩

/-- The source of a dump; `none` only if the table is no tree, which the plan refuses. -/
def source (options : Options) (dump : Dump) : ExceptT Failure Option Source := do
  let plan ← ExceptT.mk (some (options.plan dump))
  plan.source.adapt fun fault => ⟨"generating C source", fault.causes⟩

def warning (options : Options) (source : Source) : String :=
  s!"warning: {source.truncations.length} branch(es) deeper than --max-depth {options.maxDepth} " ++
    "were replaced by #warning\n"

def report (options : Options) (source : Source) : List String :=
  (if options.print then [source.text] else []) ++ ["File written:\n", options.output ++ "\n"]

end Options

/-- How a run ends. One that cannot even warn is broken off. -/
inductive Ending where
  | done
  | failed (failure : Failure)
  | aborted
  deriving DecidableEq, Repr

namespace CommandLine

variable {m : Type → Type} [Monad m]

def writeSource (disk : Disk m) (path text : String) : m (Except Failure Unit) := do
  let prepared ← match Path.parent? path with
    | none => pure (.ok ())
    | some "" => pure (.ok ())
    | some parent => do
      pure ((← disk.makeDirectories parent).mapError fun fault =>
        (⟨"creating " ++ parent, [fault.message]⟩ : Failure))
  match prepared with
  | .error failure => pure (.error failure)
  | .ok () => do
    pure ((← disk.write path text.toUTF8).mapError fun fault =>
      ⟨"writing " ++ path, [fault.message]⟩)

def warn (terminal : Terminal m) (options : Options) (source : Source) :
    m (Except FileError Unit) :=
  if source.isTruncated then terminal.print .err (options.warning source) else pure (.ok ())

def deliver (disk : Disk m) (terminal : Terminal m) (options : Options) (source : Source) :
    m Ending := do
  match ← warn terminal options source with
  | .error _ => pure .aborted
  | .ok () =>
    match ← writeSource disk options.output source.text with
    | .error failure => pure (.failed failure)
    | .ok () =>
      match ← terminal.printAll .out (options.report source) with
      | .error fault => pure (.failed ⟨fault.message, []⟩)
      | .ok () => pure .done

def run (json : Json.Library) (disk : Disk m) (terminal : Terminal m) (options : Options) :
    m Ending := do
  match ← Dump.load json disk options.model with
  | .error fault => pure (.failed ⟨"loading " ++ options.model, fault.causes⟩)
  | .ok dump =>
    match (options.source dump).run with
    | none => pure .aborted
    | some (.error failure) => pure (.failed failure)
    | some (.ok source) => deliver disk terminal options source

def usage : String := "Usage: dtcgen [OPTIONS] <MODEL>\n"

def perform (json : Json.Library) (disk : Disk m) (terminal : Terminal m)
    (arguments : List String) :
    m Nat := do
  match Request.ofArguments arguments with
  | .run options =>
    match ← run json disk terminal options with
    | .done => pure 0
    | .failed failure => do
      let _ ← terminal.print .err failure.message
      pure 1
    | .aborted => pure 101
  | .version => do
    let _ ← terminal.print .out "dtcgen 0.1.0\n"
    pure 0
  | .help => do
    let _ ← terminal.print .out usage
    pure 0
  | .usage => do
    let _ ← terminal.print .err usage
    pure 2

end CommandLine

end DecisionTreeC
