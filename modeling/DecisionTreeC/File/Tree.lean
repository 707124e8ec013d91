import DecisionTreeC.File.Disk

/-!
A machine held in memory: a tree of directories and files with a working directory, and screens that
may run out of room.
-/
namespace DecisionTreeC

inductive FileEntry where
  | directory
  | file (bytes : ByteArray)
  | device (channel : Option Channel)

def FileEntry.isDirectory : FileEntry → Bool
  | .directory => true
  | _ => false

/-- A place is the list of names that leads to it from the root. -/
abbrev Place := List (List Char)

structure FileTree where
  entries : List (Place × FileEntry)
  working : Place

namespace FileTree

def entryAt (tree : FileTree) (place : Place) : Option FileEntry :=
  if place = [] then some .directory else tree.entries.lookup place

def put (tree : FileTree) (place : Place) (entry : FileEntry) : FileTree :=
  { tree with entries := (place, entry) :: tree.entries.filter (·.1 != place) }

/-- One step of a path. It starts from a directory; a dot stays there and two dots leave it. -/
def step (tree : FileTree) (here : Place) (name : List Char) : Except FileError Place :=
  match tree.entryAt here with
  | some .directory =>
    if name = [] ∨ name = ['.'] then .ok here
    else if name = ['.', '.'] then .ok here.dropLast
    else if (tree.entryAt (here ++ [name])).isSome then .ok (here ++ [name])
    else .error .notFound
  | some _ => .error .notDirectory
  | none => .error .notFound

def start (tree : FileTree) (path : String) : Except FileError (Place × List (List Char)) :=
  match path.toList with
  | [] => .error .notFound
  | '/' :: rest => .ok ([], Path.splitSlash rest)
  | path => .ok (tree.working, Path.splitSlash path)

def resolve (tree : FileTree) (path : String) : Except FileError Place := do
  let (place, names) ← tree.start path
  names.foldlM tree.step place

def isDirectory (tree : FileTree) (path : String) : Bool :=
  match tree.resolve path with
  | .ok place => (tree.entryAt place).any (·.isDirectory)
  | .error _ => false

def read (tree : FileTree) (path : String) : Except FileError ByteArray := do
  match tree.entryAt (← tree.resolve path) with
  | some (.file bytes) => .ok bytes
  | some .directory => .error .isDirectory
  | some (.device none) => .ok .empty
  | some (.device (some _)) => .error (.other "Permission denied (os error 13)")
  | none => .error .notFound

/-- Where a path would put something new: a directory that is there already, or a name in a
directory, with or without a slash behind it. -/
inductive Site where
  | standing
  | within (place : Place) (slash : Bool)
  deriving DecidableEq, Repr

def site (tree : FileTree) (path : String) : Except FileError Site := do
  let (place, names) ← tree.start path
  let kept := (names.reverse.dropWhile (· == [])).reverse
  match kept.getLast? with
  | none => .ok .standing
  | some last =>
    let above ← kept.dropLast.foldlM tree.step place
    if last = ['.'] ∨ last = ['.', '.'] then do
      let _ ← tree.step above last
      .ok .standing
    else
      let _ ← tree.step above ['.']
      .ok (.within (above ++ [last]) (kept.length != names.length))

def target (tree : FileTree) (path : String) : Except FileError (Target Place) := do
  match ← tree.site path with
  | .standing => .error .isDirectory
  | .within place slash =>
    if slash then .error .isDirectory
    else
      match tree.entryAt place with
      | some .directory => .error .isDirectory
      | some (.device channel) => .ok (.device channel)
      | _ => .ok (.file place)

def makeDirectory (tree : FileTree) (path : String) : Except FileError FileTree := do
  match ← tree.site path with
  | .standing => .error .alreadyExists
  | .within place _ =>
    if (tree.entryAt place).isSome then .error .alreadyExists
    else .ok (tree.put place .directory)

def empty : FileTree where
  entries :=
    [([['w']], .directory), (["dev".toList], .directory),
     (["dev".toList, "null".toList], .device none),
     (["dev".toList, "stdout".toList], .device (some .out)),
     (["dev".toList, "stderr".toList], .device (some .err))]
  working := [['w']]

end FileTree

/-- What a channel has shown so far, and how many more characters it takes if there is a limit. -/
structure Screen where
  shown : String
  room : Option Nat
  deriving DecidableEq, Repr

def Screen.take (screen : Screen) (text : String) : Except FileError Unit × Screen :=
  match screen.room with
  | none => (.ok (), { screen with shown := screen.shown ++ text })
  | some room =>
    if text.length ≤ room then (.ok (), ⟨screen.shown ++ text, some (room - text.length)⟩)
    else (.error .full, ⟨screen.shown ++ String.ofList (text.toList.take room), some 0⟩)

structure Machine where
  tree : FileTree
  screens : Channel → Screen

namespace Machine

def print (channel : Channel) (text : String) : StateM Machine (Except FileError Unit) :=
  fun machine =>
    let (result, screen) := (machine.screens channel).take text
    (result, { machine with
      screens := fun other => if other = channel then screen else machine.screens other })

def write (path : String) (bytes : ByteArray) : StateM Machine (Except FileError Unit) :=
  fun machine =>
    match machine.tree.target path with
    | .error fault => (.error fault, machine)
    | .ok (.file place) => (.ok (), { machine with tree := machine.tree.put place (.file bytes) })
    | .ok (.device none) => (.ok (), machine)
    | .ok (.device (some channel)) =>
      match String.fromUTF8? bytes with
      | some text => print channel text machine
      | none => (.error .invalidText, machine)

def makeDirectory (path : String) : StateM Machine (Except FileError Unit) :=
  fun machine =>
    match machine.tree.makeDirectory path with
    | .error fault => (.error fault, machine)
    | .ok tree => (.ok (), { machine with tree })

def disk : Disk (StateM Machine) where
  read path := do return (← get).tree.read path
  write := write
  makeDirectory := makeDirectory
  isDirectory path := do return (← get).tree.isDirectory path

def terminal : Terminal (StateM Machine) where
  print := print

def ofTree (tree : FileTree) : Machine := ⟨tree, fun _ => ⟨"", none⟩⟩

end Machine

end DecisionTreeC
