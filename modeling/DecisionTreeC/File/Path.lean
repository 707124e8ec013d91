/-!
Paths as texts: names between slashes, kept as they are written.
-/
namespace DecisionTreeC.Path

def splitSlash : List Char → List (List Char)
  | [] => [[]]
  | c :: rest =>
    if c = '/' then [] :: splitSlash rest
    else
      match splitSlash rest with
      | [] => [[c]]
      | first :: more => (c :: first) :: more

def joinSlash : List (List Char) → List Char
  | [] => []
  | [name] => name
  | name :: rest => name ++ '/' :: joinSlash rest

/-- What a path starts from, and the names after it: the root, the working directory written as a
dot, or nothing. -/
def parts (path : List Char) : List Char × List (List Char) :=
  match path with
  | '/' :: rest => (['/'], splitSlash rest)
  | ['.'] => (['.'], [])
  | '.' :: '/' :: rest => (['.'], [] :: splitSlash rest)
  | path => ([], splitSlash path)

def trimmed (names : List (List Char)) : List (List Char) :=
  (names.reverse.dropWhile fun name => name == [] || name == ['.']).reverse

def parent? (path : String) : Option String :=
  let (start, names) := parts path.toList
  match trimmed names with
  | [] => if start = ['.'] then some "" else none
  | names => some (String.ofList (start ++ joinSlash (trimmed names.dropLast)))

end DecisionTreeC.Path
