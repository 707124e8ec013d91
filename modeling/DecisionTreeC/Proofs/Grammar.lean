import DecisionTreeC.Proofs.Token

/-!
The grammar of a classifier's source. Braces are matched first, from the end of the tokens, which
leaves a forest; statements and declarations are then read off the forest by structural recursion.
Both functions refuse what they do not know, so a text has at most one reading.
-/
namespace DecisionTreeC.Code

/-- Tokens with their braces matched. -/
inductive Forest where
  | done
  | token (t : Token) (rest : Forest)
  | group (inner rest : Forest)
  deriving DecidableEq

namespace Forest

def append : Forest → Forest → Forest
  | .done, after => after
  | .token t rest, after => .token t (rest.append after)
  | .group inner rest, after => .group inner (rest.append after)

def code : Forest → Forest
  | .done => .done
  | .token (.comment _) rest => rest.code
  | .token t rest => .token t rest.code
  | .group inner rest => .group inner.code rest.code

def flat? : Forest → Option (List Token)
  | .done => some []
  | .token t rest => rest.flat?.map (t :: ·)
  | .group .. => none

def parted? : Forest → Option (List Token × Forest × Forest)
  | .done => none
  | .token t rest => rest.parted?.map fun (head, inner, after) => (t :: head, inner, after)
  | .group inner rest => some ([], inner, rest)

end Forest

/-- One more token in front. The first forest is the one that is being read; each of the others
waits for the opening brace of the group before it. -/
def place : Token → List Forest → Option (List Forest)
  | .closing, stack => some (.done :: stack)
  | .opening, inner :: after :: stack => some (.group inner after :: stack)
  | .opening, _ => none
  | t, here :: stack => some (.token t here :: stack)
  | _, [] => none

def nest : List Token → Option (List Forest)
  | [] => some [.done]
  | t :: rest => nest rest >>= place t

def forest? (text : String) : Option Forest := do
  match ← nest (← tokens? text) with
  | [f] => some f
  | _ => none

inductive Command where
  | declare (type name : String)
  | assign (target value : String)
  | give (name : String)
  deriving DecidableEq, Repr

inductive Block where
  | done
  | command (c : Command) (rest : Block)
  | directive (text : String) (rest : Block)
  | choice (name literal : String) (yes no rest : Block)
  deriving DecidableEq

def command? : List Token → Option Command
  | [.word target, .mark '=', .word value] =>
    if isIdentifier target && isIdentifier value then some (.assign target value) else none
  | [.word first, .word name] =>
    if !isIdentifier name then none
    else if first = "return" then some (.give name)
    else if isIdentifier first then some (.declare first name)
    else none
  | _ => none

def isFloat (text : List Char) : Bool :=
  match text.dropWhile Char.isDigit with
  | '.' :: rest =>
    !(text.takeWhile Char.isDigit).isEmpty && !(rest.takeWhile Char.isDigit).isEmpty &&
      rest.dropWhile Char.isDigit == ['f']
  | _ => false

def condition? : List Token → Option (String × String)
  | [.word "if", .mark '(', .word name, .atMost, .number text, .mark ')'] =>
    if isIdentifier name && isFloat text.toList then some (name, text) else none
  | [.word "if", .mark '(', .word name, .atMost, .mark '-', .number text, .mark ')'] =>
    if isIdentifier name && isFloat text.toList then some (name, "-" ++ text) else none
  | _ => none

def block? : List Token → Forest → Option Block
  | [], .done => some .done
  | _, .done => none
  | [], .token (.directive text) rest => (block? [] rest).map (.directive text)
  | _, .token (.directive _) _ => none
  | pending, .token (.mark ';') rest => do
    let c ← command? pending
    let after ← block? [] rest
    pure (.command c after)
  | pending, .token t rest => block? (pending ++ [t]) rest
  | pending, .group yes (.token (.word "else") (.group no rest)) => do
    let (name, literal) ← condition? pending
    let first ← block? [] yes
    let second ← block? [] no
    let after ← block? [] rest
    pure (.choice name literal first second after)
  | _, .group .. => none

def statements? (text : String) : Option Block := do
  block? [] (← forest? text).code

/-- A decimal number as it is usually written; a leading zero would make it octal. -/
def decimal? (text : String) : Option Nat :=
  let value := Nat.ofDigitChars 10 text.toList 0
  if toString value = text then some value else none

def enumerators? : List Token → Option (List (String × Nat))
  | [] => some []
  | .word name :: .mark '=' :: .number text :: .mark ',' :: rest => do
    let value ← decimal? text
    let more ← enumerators? rest
    if isIdentifier name then some ((name, value) :: more) else none
  | _ => none

def enumeration? (head : List Token) (inner : Forest) : Option (List (String × Nat)) := do
  let all ← enumerators? (← inner.flat?)
  if head = [.word "typedef", .word "enum"] ∧ all ≠ [] then some all else none

def definition? (text : String) : Option (String × List (String × Nat)) := do
  let (head, inner, after) ← (← forest? text).parted?
  let all ← enumeration? head inner
  match after.flat? with
  | some [.word name, .mark ';'] => if isIdentifier name then some (name, all) else none
  | _ => none

def named? : List Token → Option (List String)
  | [.word "const", .word "float", .word name, .mark ')'] =>
    if isIdentifier name then some [name] else none
  | .word "const" :: .word "float" :: .word name :: .mark ',' :: rest =>
    if isIdentifier name then (named? rest).map (name :: ·) else none
  | _ => none

def parameters? (ts : List Token) : Option (List String) :=
  if ts = [.word "void", .mark ')'] then some [] else named? ts

structure Program where
  typeName : String
  enumerators : List (String × Nat)
  comment : String
  returnType : String
  functionName : String
  parameters : List String
  body : Block
  deriving DecidableEq

def program? (text : String) : Option Program := do
  let (head, inner, after) ← (← forest? text).parted?
  let all ← enumeration? head inner
  let (middle, body, after) ← after.parted?
  match middle, after with
  | .word typeName :: .mark ';' :: .comment comment :: .word returnType :: .word functionName ::
      .mark '(' :: rest, .done =>
    let parameters ← parameters? rest
    let block ← block? [] body.code
    if isIdentifier typeName ∧ isIdentifier returnType ∧ isIdentifier functionName then
      some ⟨typeName, all, comment, returnType, functionName, parameters, block⟩
    else none
  | _, _ => none

namespace Forest

theorem append_done (f : Forest) : f.append .done = f := by
  induction f with
  | done => rfl
  | token t rest ih => rw [append, ih]
  | group inner rest _ ih => rw [append, ih]

theorem append_assoc (f g h : Forest) : (f.append g).append h = f.append (g.append h) := by
  induction f with
  | done => rfl
  | token t rest ih => rw [append, append, append, ih]
  | group inner rest _ ih => rw [append, append, append, ih]

theorem code_append (f g : Forest) : (f.append g).code = f.code.append g.code := by
  induction f with
  | done => rfl
  | token t rest ih => cases t <;> simp [append, code, ih]
  | group inner rest _ ih => simp [append, code, ih]

def row : List Token → Forest
  | [] => .done
  | t :: rest => .token t (row rest)

theorem flat_row (ts : List Token) : (row ts).flat? = some ts := by
  induction ts with
  | nil => rfl
  | cons t rest ih => simp [row, flat?, ih]

theorem parted_row (ts : List Token) (inner after : Forest) :
    ((row ts).append (.group inner after)).parted? = some (ts, inner, after) := by
  induction ts with
  | nil => rfl
  | cons t rest ih => simp [row, append, parted?, ih]

end Forest

/-- These tokens make this forest, whatever stands behind them. -/
def Nests (ts : List Token) (f : Forest) : Prop :=
  ∀ rest here stack, nest rest = some (here :: stack) →
    nest (ts ++ rest) = some (f.append here :: stack)

def Token.isBrace : Token → Bool
  | .opening | .closing => true
  | _ => false

theorem place_token {t : Token} (other : t.isBrace = false) (here : Forest) (stack : List Forest) :
    place t (here :: stack) = some (.token t here :: stack) := by
  cases t with
  | opening | closing => cases other
  | word text | number text | directive text | comment text | mark c | atMost => rfl

theorem nests_row {ts : List Token} (braceless : ∀ t ∈ ts, t.isBrace = false) :
    Nests ts (.row ts) := by
  intro rest here stack behind
  induction ts with
  | nil => exact behind
  | cons t more ih =>
    have later := ih fun u member => braceless u (List.mem_cons_of_mem t member)
    rw [List.cons_append, nest, later]
    exact place_token (braceless t (List.mem_cons_self ..)) _ stack

theorem Nests.append {a b : List Token} {f g : Forest} (first : Nests a f) (second : Nests b g) :
    Nests (a ++ b) (f.append g) := by
  intro rest here stack behind
  rw [List.append_assoc, Forest.append_assoc]
  exact first _ _ _ (second _ _ _ behind)

theorem Nests.group {ts : List Token} {f : Forest} (inside : Nests ts f) :
    Nests (.opening :: ts ++ [.closing]) (.group f .done) := by
  intro rest here stack behind
  have closed : nest (.closing :: rest) = some (.done :: here :: stack) := by
    rw [nest, behind]
    rfl
  have filled := inside _ _ _ closed
  rw [Forest.append_done] at filled
  rw [List.append_assoc, List.cons_append, nest, List.singleton_append, filled]
  rfl

theorem forest_of_nests {text : String} {ts : List Token} {f : Forest}
    (scanned : tokens? text = some ts) (nested : Nests ts f) : forest? text = some f := by
  have all := nested [] .done [] rfl
  rw [List.append_nil, Forest.append_done] at all
  simp [forest?, scanned, all]

namespace Block

def append : Block → Block → Block
  | .done, after => after
  | .command c rest, after => .command c (rest.append after)
  | .directive text rest, after => .directive text (rest.append after)
  | .choice name literal yes no rest, after => .choice name literal yes no (rest.append after)

theorem append_done (b : Block) : b.append .done = b := by
  induction b with
  | done => rfl
  | command c rest ih => rw [append, ih]
  | directive text rest ih => rw [append, ih]
  | choice name literal yes no rest _ _ ih => rw [append, ih]

theorem append_assoc (a b c : Block) : (a.append b).append c = a.append (b.append c) := by
  induction a with
  | done => rfl
  | command command rest ih => rw [append, append, append, ih]
  | directive text rest ih => rw [append, append, append, ih]
  | choice name literal yes no rest _ _ ih => rw [append, append, append, ih]

end Block

def Token.isPlain : Token → Bool
  | .word _ | .number _ | .atMost => true
  | .mark c => c != ';'
  | _ => false

theorem block_plain {ts : List Token} (plain : ∀ t ∈ ts, t.isPlain = true) (pending : List Token)
    (after : Forest) :
    block? pending ((Forest.row ts).code.append after) = block? (pending ++ ts) after := by
  induction ts generalizing pending with
  | nil => rw [List.append_nil]; rfl
  | cons t rest ih =>
    have here := plain t (List.mem_cons_self ..)
    have later := ih (fun u member => plain u (List.mem_cons_of_mem t member)) (pending ++ [t])
    rw [List.append_assoc, List.singleton_append] at later
    rw [← later]
    cases t with
    | mark c =>
      have other : c ≠ ';' := by simpa [Token.isPlain] using here
      simp [Forest.row, Forest.code, Forest.append, block?, other]
    | word text | number text | atMost => simp [Forest.row, Forest.code, Forest.append, block?]
    | opening | closing | directive text | comment text => cases here

theorem Token.isBrace_of_isPlain {t : Token} (plain : t.isPlain = true) : t.isBrace = false := by
  cases t with
  | opening | closing => cases plain
  | word text | number text | directive text | comment text | mark c | atMost => rfl

/-- These tokens are whole statements, whatever statements stand behind them. -/
def Reads (ts : List Token) (b : Block) : Prop :=
  ∃ f : Forest, Nests ts f ∧
    ∀ after, block? [] (f.code.append after) = (block? [] after).map b.append

namespace Reads

theorem append {s t : List Token} {a b : Block} (first : Reads s a) (second : Reads t b) :
    Reads (s ++ t) (a.append b) := by
  obtain ⟨f, nests_f, reads_f⟩ := first
  obtain ⟨g, nests_g, reads_g⟩ := second
  refine ⟨f.append g, nests_f.append nests_g, ?_⟩
  intro after
  rw [Forest.code_append, Forest.append_assoc, reads_f, reads_g, Option.map_map]
  congr 1
  funext c
  exact (Block.append_assoc a b c).symm

theorem comment (text : String) : Reads [.comment text] .done := by
  refine ⟨.row [.comment text], nests_row (by simp [Token.isBrace]), ?_⟩
  intro after
  change block? [] after = (block? [] after).map Block.done.append
  cases block? [] after <;> rfl

theorem directive (text : String) : Reads [.directive text] (.directive text .done) := by
  refine ⟨.row [.directive text], nests_row (by simp [Token.isBrace]), ?_⟩
  intro after
  cases found : block? [] after <;>
    simp [Forest.row, Forest.code, Forest.append, block?, found, Block.append]

theorem command {ts : List Token} {c : Command} (read : command? ts = some c)
    (plain : ∀ t ∈ ts, t.isPlain = true) : Reads (ts ++ [.mark ';']) (.command c .done) := by
  have braceless : ∀ t ∈ ts, t.isBrace = false :=
    fun t member => Token.isBrace_of_isPlain (plain t member)
  refine ⟨(Forest.row ts).append (.row [.mark ';']),
    (nests_row braceless).append (nests_row (by simp [Token.isBrace])), ?_⟩
  intro after
  rw [Forest.code_append, Forest.append_assoc, block_plain plain, List.nil_append]
  cases found : block? [] after <;>
    simp [Forest.row, Forest.code, Forest.append, block?, read, found, Block.append]

theorem block_code {f : Forest} {b : Block}
    (reads : ∀ after, block? [] (f.code.append after) = (block? [] after).map b.append) :
    block? [] f.code = some b := by
  have ended := reads .done
  rw [Forest.append_done] at ended
  rw [ended, block?, Option.map_some, Block.append_done]

theorem choice {ts first second : List Token} {name literal remark : String} {yes no : Block}
    (read : condition? ts = some (name, literal)) (plain : ∀ t ∈ ts, t.isPlain = true)
    (reads_first : Reads first yes) (reads_second : Reads second no) :
    Reads (ts ++ (.opening :: first ++ [.closing]) ++ [.word "else", .comment remark] ++
      (.opening :: second ++ [.closing])) (.choice name literal yes no .done) := by
  obtain ⟨f, nests_f, reads_f⟩ := reads_first
  obtain ⟨g, nests_g, reads_g⟩ := reads_second
  have braceless : ∀ t ∈ ts, t.isBrace = false :=
    fun t member => Token.isBrace_of_isPlain (plain t member)
  refine ⟨_, (((nests_row braceless).append nests_f.group).append
    (nests_row (by simp [Token.isBrace]))).append nests_g.group, ?_⟩
  intro after
  rw [Forest.code_append, Forest.code_append, Forest.code_append, Forest.append_assoc,
    Forest.append_assoc, Forest.append_assoc, block_plain plain, List.nil_append]
  have yes_read := block_code reads_f
  have no_read := block_code reads_g
  cases found : block? [] after <;>
    simp [Forest.row, Forest.code, Forest.append, block?, read, yes_read, no_read, found,
      Block.append]

end Reads

theorem statements_of_reads {text : String} {ts : List Token} {b : Block}
    (scanned : tokens? text = some ts) (reads : Reads ts b) : statements? text = some b := by
  obtain ⟨f, nests, reads⟩ := reads
  simp [statements?, forest_of_nests scanned nests, Reads.block_code reads]

end DecisionTreeC.Code
