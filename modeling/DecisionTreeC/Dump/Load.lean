import DecisionTreeC.Dump.Schema
import DecisionTreeC.File.Disk
import DecisionTreeC.Source.Notice

/-!
Dumps read from a disk.
-/
namespace DecisionTreeC

inductive LoadError (json : Json.Library) where
  | file (cause : FileError)
  | json (cause : json.Fault)

namespace LoadError

variable {json : Json.Library}

def message : LoadError json → String
  | .file cause => "failed to read model dump: " ++ cause.message
  | .json cause => "failed to parse model dump: " ++ json.message cause

def causes (fault : LoadError json) : List String :=
  [fault.message, match fault with
    | .file cause => cause.message
    | .json cause => json.message cause]

end LoadError

namespace Dump

def load {m : Type → Type} [Monad m] (json : Json.Library) (disk : Disk m) (path : String) :
    m (Except (LoadError json) Dump) := do
  match ← disk.readText path with
  | .error fault => pure (.error (.file fault))
  | .ok text => pure ((json.read schema text).mapError .json)

def loaded (dump : Dump) (path : String) : Notice :=
  .loaded dump.tree.nodeCount.toNat dump.classes.length dump.featureNames.length path

end Dump

end DecisionTreeC
