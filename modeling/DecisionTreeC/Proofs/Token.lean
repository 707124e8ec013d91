import DecisionTreeC.Name.Identifier

/-!
C source as tokens. The scanner takes one character at a time, so what it makes of a text follows
from what it makes of the parts. It knows the small part of C that a classifier is written in and
refuses all else. A block comment ends at the first `*/`; a line whose first mark is `#` is a
directive and one token.
-/
namespace DecisionTreeC.Code

open Identifier

inductive Token where
  | word (text : String)
  | number (text : String)
  | mark (c : Char)
  | atMost
  | opening
  | closing
  | directive (text : String)
  | comment (text : String)
  deriving DecidableEq, Repr

/-- What has been read of the current token, last character first. -/
inductive Mode where
  | lineStart
  | gap
  | word (read : List Char)
  | number (read : List Char)
  | less
  | slash
  | comment (read : List Char)
  | directive (read : List Char)
  deriving DecidableEq, Repr

def start (first : Bool) (c : Char) : Option (Mode × List Token) :=
  if c = '\n' then some (.lineStart, [])
  else if c = ' ' then some (if first then .lineStart else .gap, [])
  else if isStart c then some (.word [c], [])
  else if c.isDigit then some (.number [c], [])
  else if c = '<' then some (.less, [])
  else if c = '/' then some (.slash, [])
  else if c = '#' ∧ first then some (.directive [c], [])
  else if c = '\x7b' then some (.gap, [.opening])
  else if c = '\x7d' then some (.gap, [.closing])
  else if c ∈ ['(', ')', '=', ';', ',', '-'] then some (.gap, [.mark c])
  else none

/-- Characters that could begin a comment, a splice or a literal inside a directive. -/
def delicate (c : Char) : Bool := c ∈ ['/', '\\', '"', '\'']

/-- One character: the next mode, and the token that ends here or the one this character is. -/
def step : Mode → Char → Option (Mode × List Token)
  | .lineStart, c => start true c
  | .gap, c => start false c
  | .word read, c =>
    if isPart c then some (.word (c :: read), [])
    else (start false c).map fun (m, out) => (m, .word (String.ofList read.reverse) :: out)
  | .number read, c =>
    if isPart c || c == '.' then some (.number (c :: read), [])
    else (start false c).map fun (m, out) => (m, .number (String.ofList read.reverse) :: out)
  | .less, c => if c = '=' then some (.gap, [.atMost]) else none
  | .slash, c => if c = '*' then some (.comment [], []) else none
  | .comment ('*' :: read), '/' => some (.gap, [.comment (String.ofList read.reverse)])
  | .comment read, c => some (.comment (c :: read), [])
  | .directive read, c =>
    if c = '\n' then some (.lineStart, [.directive (String.ofList read.reverse)])
    else if delicate c then none
    else some (.directive (c :: read), [])

def scan : Mode → List Char → Option (Mode × List Token)
  | m, [] => some (m, [])
  | m, c :: rest => do
    let (m', out) ← step m c
    let (last, later) ← scan m' rest
    pure (last, out ++ later)

def tokens? (text : String) : Option (List Token) :=
  match scan .lineStart text.toList with
  | some (.lineStart, out) => some out
  | _ => none

theorem scan_cons {m m' last : Mode} {c : Char} {rest : List Char} {out later : List Token}
    (first : step m c = some (m', out)) (second : scan m' rest = some (last, later)) :
    scan m (c :: rest) = some (last, out ++ later) := by
  simp [scan, first, second]

theorem scan_append {m m' last : Mode} {a b : List Char} {out later : List Token}
    (first : scan m a = some (m', out)) (second : scan m' b = some (last, later)) :
    scan m (a ++ b) = some (last, out ++ later) := by
  induction a generalizing m out with
  | nil =>
    cases first
    exact second
  | cons c rest ih =>
    rw [scan, Option.bind_eq_bind, Option.bind_eq_some_iff] at first
    obtain ⟨⟨m₁, out₁⟩, stepped, first⟩ := first
    dsimp only at first
    rw [Option.bind_eq_some_iff] at first
    obtain ⟨⟨m₂, out₂⟩, scanned, made⟩ := first
    cases made
    rw [List.append_assoc]
    exact scan_cons stepped (ih scanned)

theorem scan_within {mode : List Char → Mode} {p : Char → Prop}
    (prolongs : ∀ c read, p c → step (mode read) c = some (mode (c :: read), []))
    {text : List Char} (all : ∀ c ∈ text, p c) (read : List Char) :
    scan (mode read) text = some (mode (text.reverse ++ read), []) := by
  induction text generalizing read with
  | nil => rfl
  | cons c rest ih =>
    have here := prolongs c read (all c (List.mem_cons_self ..))
    have later := ih (fun d member => all d (List.mem_cons_of_mem c member)) (c :: read)
    rw [List.reverse_cons, List.append_assoc]
    exact scan_cons here later

theorem step_word {c : Char} (part : isPart c = true) (read : List Char) :
    step (.word read) c = some (.word (c :: read), []) := by
  simp [step, part]

theorem step_number {c : Char} (part : (isPart c || c == '.') = true) (read : List Char) :
    step (.number read) c = some (.number (c :: read), []) := by
  rw [step, if_pos part]

theorem step_directive {c : Char} (plain : c ≠ '\n' ∧ delicate c = false) (read : List Char) :
    step (.directive read) c = some (.directive (c :: read), []) := by
  simp [step, plain.1, plain.2]

theorem step_comment {c : Char} (other : c ≠ '/') (read : List Char) :
    step (.comment read) c = some (.comment (c :: read), []) := by
  unfold step
  split <;> simp_all

theorem isDigit_isPart {c : Char} (digit : c.isDigit = true) : isPart c = true := by
  simp [isPart, Char.isAlphanum, digit]

theorem isPart_of_isWord {word : List Char} (valid : isWord word = true) :
    ∀ c ∈ word, isPart c = true := by
  cases word with
  | nil => cases valid
  | cons first rest =>
    rw [isWord, isStart, Bool.and_eq_true, Bool.or_eq_true, List.all_eq_true] at valid
    rw [List.forall_mem_cons]
    refine ⟨?_, valid.2⟩
    rcases valid.1 with alpha | low
    · simp [isPart, Char.isAlphanum, alpha]
    · simp [isPart, low]

theorem scan_blanks (count : Nat) :
    scan .lineStart (List.replicate count ' ') = some (.lineStart, []) := by
  induction count with
  | zero => rfl
  | succ count ih => exact scan_cons (show step .lineStart ' ' = some (.lineStart, []) from rfl) ih

theorem start_word {c : Char} (letter : isStart c = true) (first : Bool) :
    start first c = some (.word [c], []) := by
  have line : c ≠ '\n' := by rintro rfl; exact absurd letter (by decide)
  have blank : c ≠ ' ' := by rintro rfl; exact absurd letter (by decide)
  rw [start, if_neg line, if_neg blank, if_pos letter]

theorem isDigit_not_isStart {c : Char} (digit : c.isDigit = true) : ¬ isStart c = true := by
  have ceiling : c.val ≤ '9'.val := of_decide_eq_true (Bool.and_eq_true_iff.mp digit).2
  intro letter
  rcases Bool.or_eq_true_iff.mp letter with alpha | low
  · rcases Bool.or_eq_true_iff.mp alpha with upper | lower
    · have floor : 'A'.val ≤ c.val := (of_decide_eq_true upper).1
      exact absurd (UInt32.le_trans floor ceiling) (by decide)
    · have floor : 'a'.val ≤ c.val := of_decide_eq_true (Bool.and_eq_true_iff.mp lower).1
      exact absurd (UInt32.le_trans floor ceiling) (by decide)
  · rw [beq_iff_eq.mp low] at ceiling
    exact absurd ceiling (by decide)

theorem start_number {c : Char} (digit : c.isDigit = true) (first : Bool) :
    start first c = some (.number [c], []) := by
  have line : c ≠ '\n' := by rintro rfl; exact absurd digit (by decide)
  have blank : c ≠ ' ' := by rintro rfl; exact absurd digit (by decide)
  rw [start, if_neg line, if_neg blank, if_neg (isDigit_not_isStart digit), if_pos digit]

def Mode.between (first : Bool) : Mode := if first then .lineStart else .gap

theorem step_between (first : Bool) (c : Char) : step (.between first) c = start first c := by
  cases first <;> rfl

theorem scan_word {name : String} (word : isWord name.toList = true) (first : Bool) :
    scan (.between first) name.toList = some (.word name.toList.reverse, []) := by
  cases chars : name.toList with
  | nil =>
    rw [chars] at word
    cases word
  | cons c rest =>
    rw [chars, isWord, Bool.and_eq_true, List.all_eq_true] at word
    have began := (step_between first c).trans (start_word word.1 first)
    rw [List.reverse_cons]
    exact scan_cons began (scan_within (fun c read part => step_word part read) word.2 [c])

theorem scan_digits {c : Char} {rest : List Char} (digit : c.isDigit = true)
    (more : ∀ d ∈ rest, (isPart d || d == '.') = true) (first : Bool) :
    scan (.between first) (c :: rest) = some (.number (c :: rest).reverse, []) := by
  have began := (step_between first c).trans (start_number digit first)
  rw [List.reverse_cons]
  exact scan_cons began (scan_within (fun c read part => step_number part read) more [c])

theorem scan_comment {text : List Char} (slashless : '/' ∉ text) (read : List Char) :
    scan (.comment read) text = some (.comment (text.reverse ++ read), []) :=
  scan_within (fun _ read other => step_comment other read)
    (fun _ member same => slashless (same ▸ member)) read

end DecisionTreeC.Code
