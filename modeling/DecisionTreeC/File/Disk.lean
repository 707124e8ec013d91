import DecisionTreeC.File.Path

/-!
What the program asks of a disk and of a terminal, and what can go wrong there.
-/
namespace DecisionTreeC

inductive FileError where
  | notFound
  | alreadyExists
  | notDirectory
  | isDirectory
  | invalidText
  | full
  | other (message : String)
  deriving DecidableEq, Repr

def FileError.message : FileError → String
  | .notFound => "No such file or directory (os error 2)"
  | .alreadyExists => "File exists (os error 17)"
  | .notDirectory => "Not a directory (os error 20)"
  | .isDirectory => "Is a directory (os error 21)"
  | .invalidText => "stream did not contain valid UTF-8"
  | .full => "No space left on device (os error 28)"
  | .other message => message

structure Disk (m : Type → Type) where
  read : String → m (Except FileError ByteArray)
  write : String → ByteArray → m (Except FileError Unit)
  makeDirectory : String → m (Except FileError Unit)
  isDirectory : String → m Bool

namespace Disk

variable {m : Type → Type} [Monad m]

def readText (disk : Disk m) (path : String) : m (Except FileError String) := do
  match ← disk.read path with
  | .error fault => pure (.error fault)
  | .ok bytes =>
    match String.fromUTF8? bytes with
    | some text => pure (.ok text)
    | none => pure (.error .invalidText)

def ensureDirectory (disk : Disk m) (path : String) : m (Except FileError Unit) := do
  match ← disk.makeDirectory path with
  | .ok () => pure (.ok ())
  | .error fault => if ← disk.isDirectory path then pure (.ok ()) else pure (.error fault)

def makeAbove (disk : Disk m) : Nat → String → m (Except FileError Unit)
  | 0, path => disk.ensureDirectory path
  | levels + 1, path => do
    match ← disk.ensureDirectory path with
    | .error .notFound =>
      match Path.parent? path with
      | none => pure (.error (.other "failed to create whole tree"))
      | some "" => disk.ensureDirectory path
      | some parent =>
        match ← disk.makeAbove levels parent with
        | .error fault => pure (.error fault)
        | .ok () => disk.ensureDirectory path
    | result => pure result

/-- Makes a directory and those above it. A path has no more names than characters. -/
def makeDirectories (disk : Disk m) (path : String) : m (Except FileError Unit) :=
  disk.makeAbove path.length path

end Disk

inductive Channel where
  | out
  | err
  deriving DecidableEq, Repr

/-- What a path leads to that can be written to: the regular file at a place, or a device. A device
shows what it is given on a channel, or nowhere. -/
inductive Target (π : Type) where
  | file (place : π)
  | device (channel : Option Channel)
  deriving DecidableEq, Repr

/-- Where a program prints. A text may be refused, also after a part of it. -/
structure Terminal (m : Type → Type) where
  print : Channel → String → m (Except FileError Unit)

def Terminal.printAll {m : Type → Type} [Monad m] (terminal : Terminal m) (channel : Channel) :
    List String → m (Except FileError Unit)
  | [] => pure (.ok ())
  | text :: rest => do
    match ← terminal.print channel text with
    | .error fault => pure (.error fault)
    | .ok () => terminal.printAll channel rest

end DecisionTreeC
