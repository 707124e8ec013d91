import DecisionTreeC.Proofs.Draft
import DecisionTreeC.Proofs.Grammar
import DecisionTreeC.Source.Generate

/-!
The written lines as tokens. Indentation is never seen, names and literals come back as they were
put in, and a comment ends where it is closed, since nothing written into one has a slash.
-/
namespace DecisionTreeC.Code

open Identifier

theorem isWord_of_isIdentifier {name : String} (valid : isIdentifier name = true) :
    isWord name.toList = true := by
  rw [isIdentifier, Bool.and_eq_true] at valid
  exact valid.1

def Unbroken (text : List Char) : Prop := '/' ∉ text ∧ '\n' ∉ text

instance (text : List Char) : Decidable (Unbroken text) := inferInstanceAs (Decidable (_ ∧ _))

@[simp]
theorem unbroken_append {a b : List Char} : Unbroken (a ++ b) ↔ Unbroken a ∧ Unbroken b := by
  simp only [Unbroken, List.mem_append, not_or]
  constructor
  · rintro ⟨⟨slash, slash'⟩, line, line'⟩
    exact ⟨⟨slash, line⟩, slash', line'⟩
  · rintro ⟨⟨slash, line⟩, slash', line'⟩
    exact ⟨⟨slash, slash'⟩, line, line'⟩

theorem unbroken_of_isPart {text : List Char} (all : ∀ c ∈ text, isPart c = true) : Unbroken text :=
  ⟨fun member => absurd (all _ member) (by decide), fun member => absurd (all _ member) (by decide)⟩

theorem unbroken_name {name : String} (valid : isIdentifier name = true) : Unbroken name.toList :=
  unbroken_of_isPart (isPart_of_isWord (isWord_of_isIdentifier valid))

theorem unbroken_digits {digits : List Char} (all : ∀ c ∈ digits, c.isDigit = true) :
    Unbroken digits :=
  unbroken_of_isPart fun c member => isDigit_isPart (all c member)

theorem scan_name {name : String} (valid : isIdentifier name = true) (first : Bool)
    {tail : List Char} {m : Mode} {out : List Token}
    (ended : ∀ read, scan (.word read) tail = some (m, .word (String.ofList read.reverse) :: out)) :
    scan (.between first) (name.toList ++ tail) = some (m, .word name :: out) := by
  have behind := ended name.toList.reverse
  rw [List.reverse_reverse, String.ofList_toList] at behind
  exact scan_append (scan_word (isWord_of_isIdentifier valid) first) behind

theorem toString_toList (n : Nat) : (toString n).toList = digits n := by
  rw [Nat.toString_eq_repr, Nat.toList_repr, digits]

theorem digits_of_nat (n : Nat) : ∀ c ∈ (toString n).toList, c.isDigit = true := by
  rw [toString_toList]
  exact digits_isDigit

theorem toString_toList_ne_nil (n : Nat) : (toString n).toList ≠ [] := by
  rw [toString_toList]
  exact Nat.toDigits_ne_nil

theorem scan_nat (n : Nat) (first : Bool) {tail : List Char} {m : Mode} {out : List Token}
    (ended : ∀ read, scan (.number read) tail =
      some (m, .number (String.ofList read.reverse) :: out)) :
    scan (.between first) ((toString n).toList ++ tail) =
      some (m, .number (toString n) :: out) := by
  have behind := ended (toString n).toList.reverse
  rw [List.reverse_reverse, String.ofList_toList] at behind
  have all := digits_of_nat n
  have scanned : scan (.between first) (toString n).toList =
      some (.number (toString n).toList.reverse, []) := by
    cases digits : (toString n).toList with
    | nil => exact absurd digits (toString_toList_ne_nil n)
    | cons c rest =>
      rw [digits] at all
      refine scan_digits (all c (List.mem_cons_self ..)) ?_ first
      intro d member
      rw [isDigit_isPart (all d (List.mem_cons_of_mem c member)), Bool.true_or]
  exact scan_append scanned behind

theorem scan_remark {text : List Char} (slashless : '/' ∉ text) (first : Bool) :
    scan (.between first) (['/', '*'] ++ text ++ ['*', '/', '\n']) =
      some (.lineStart, [.comment (String.ofList text)]) := by
  have opened : scan (.between first) ['/', '*'] = some (.comment [], []) := by
    cases first <;> rfl
  have closed : scan (.comment (text.reverse ++ [])) ['*', '/', '\n'] =
      some (.lineStart, [.comment (String.ofList (text.reverse ++ []).reverse)]) :=
    scan_cons (step_comment (by decide) _) rfl
  rw [List.append_nil, List.reverse_reverse] at closed
  exact scan_append (scan_append opened (scan_comment slashless [])) (List.append_nil _ ▸ closed)

theorem isFloat_digits {whole fraction : List Char} (some_whole : whole ≠ [])
    (whole_digits : ∀ c ∈ whole, c.isDigit = true) (some_fraction : fraction ≠ [])
    (fraction_digits : ∀ c ∈ fraction, c.isDigit = true) :
    isFloat (whole ++ '.' :: (fraction ++ ['f'])) = true := by
  have dropped : (whole ++ '.' :: (fraction ++ ['f'])).dropWhile Char.isDigit =
      '.' :: (fraction ++ ['f']) := by
    rw [List.dropWhile_append_of_pos whole_digits]
    rfl
  have taken : (whole ++ '.' :: (fraction ++ ['f'])).takeWhile Char.isDigit = whole := by
    rw [List.takeWhile_append_of_pos whole_digits]
    exact List.append_nil whole
  have dropped' : (fraction ++ ['f']).dropWhile Char.isDigit = ['f'] := by
    rw [List.dropWhile_append_of_pos fraction_digits]
    rfl
  have taken' : (fraction ++ ['f']).takeWhile Char.isDigit = fraction := by
    rw [List.takeWhile_append_of_pos fraction_digits]
    exact List.append_nil fraction
  simp [isFloat, dropped, taken, dropped', taken', some_whole, some_fraction]

theorem scan_number {whole fraction : List Char} (some_whole : whole ≠ [])
    (whole_digits : ∀ c ∈ whole, c.isDigit = true)
    (fraction_digits : ∀ c ∈ fraction, c.isDigit = true) (first : Bool) :
    scan (.between first) (whole ++ '.' :: (fraction ++ ['f'])) =
      some (.number (whole ++ '.' :: (fraction ++ ['f'])).reverse, []) := by
  cases whole with
  | nil => exact absurd rfl some_whole
  | cons c rest =>
    rw [List.cons_append]
    refine scan_digits (whole_digits c (List.mem_cons_self ..)) ?_ first
    intro d member
    simp only [List.mem_append, List.mem_cons, List.not_mem_nil, or_false] at member
    rcases member with inside | rfl | inside | rfl
    · rw [isDigit_isPart (whole_digits d (List.mem_cons_of_mem c inside)), Bool.true_or]
    · decide
    · rw [isDigit_isPart (fraction_digits d inside), Bool.true_or]
    · decide

theorem literal_toList (x : Double) {places : Nat} (positive : 0 < places) :
    ∃ whole fraction, (literalText x places).toList =
        (if x.negative then ['-'] else []) ++ (whole ++ '.' :: (fraction ++ ['f'])) ∧
      whole ≠ [] ∧ (∀ c ∈ whole, c.isDigit = true) ∧ fraction ≠ [] ∧
      ∀ c ∈ fraction, c.isDigit = true := by
  obtain ⟨whole, fraction, chars, facts⟩ := fixed_toList x positive
  refine ⟨whole, fraction, ?_, facts⟩
  rw [literalText, String.toList_append, chars]
  simp

theorem scan_test {name : String} (valid : isIdentifier name = true) (x : Double) {places : Nat}
    (positive : 0 < places) :
    ∃ ts, scan .lineStart ((Statement.test name (literalText x places)).text ++ "\n").toList =
        some (.lineStart, ts) ∧
      condition? ts = some (name, literalText x places) ∧ ∀ t ∈ ts, t.isPlain = true := by
  obtain ⟨whole, fraction, chars, some_whole, whole_digits, some_fraction, fraction_digits⟩ :=
    literal_toList x positive
  generalize number : whole ++ '.' :: (fraction ++ ['f']) = digits at chars
  have float : isFloat digits = true :=
    number ▸ isFloat_digits some_whole whole_digits some_fraction fraction_digits
  have scanned : scan .gap digits = some (.number digits.reverse, []) :=
    number ▸ scan_number some_whole whole_digits fraction_digits false
  have opened : scan .lineStart "if (".toList = some (.gap, [.word "if", .mark '(']) := rfl
  have named : scan .gap (name.toList ++ " <= ".toList) = some (.gap, [.word name, .atMost]) :=
    scan_name valid false fun _ => rfl
  have head := scan_append opened named
  have tail : scan (.number digits.reverse) ")\n".toList =
      some (.lineStart, [.number (String.ofList digits.reverse.reverse), .mark ')']) := rfl
  rw [List.reverse_reverse] at tail
  have split_text : ((Statement.test name (literalText x places)).text ++ "\n").toList =
      "if (".toList ++ (name.toList ++ " <= ".toList) ++
        ((literalText x places).toList ++ ")\n".toList) := by
    change ("if (" ++ name ++ " <= " ++ literalText x places ++ ")" ++ "\n").toList = _
    simp only [String.toList_append, List.append_assoc]
    rfl
  rw [split_text, chars]
  cases sign : x.negative with
  | false =>
    have same : literalText x places = String.ofList digits := by
      rw [← String.ofList_toList (s := literalText x places), chars, sign]
      rfl
    refine ⟨_, scan_append head (scan_append scanned tail), ?_, ?_⟩
    · simp [condition?, valid, float, same]
    · simp [Token.isPlain]
  | true =>
    have same : literalText x places = "-" ++ String.ofList digits := by
      rw [← String.ofList_toList (s := literalText x places), chars, sign]
      exact String.ofList_append
    have minus : scan .gap ['-'] = some (.gap, [.mark '-']) := rfl
    refine ⟨_, scan_append head (scan_append (scan_append minus scanned) tail), ?_, ?_⟩
    · simp [condition?, valid, float, same]
    · simp [Token.isPlain]

theorem unbroken_literal (x : Double) {places : Nat} (positive : 0 < places) :
    Unbroken (literalText x places).toList := by
  obtain ⟨whole, fraction, chars, _, whole_digits, _, fraction_digits⟩ := literal_toList x positive
  have around : literalText x places =
      String.ofList
        ((if x.negative then ['-'] else []) ++ (whole ++ (['.'] ++ (fraction ++ ['f'])))) := by
    rw [← String.ofList_toList (s := literalText x places), chars]
    rfl
  have sign : Unbroken (if x.negative then ['-'] else []) := by
    cases x.negative <;> decide
  rw [around, String.toList_ofList]
  simp only [unbroken_append]
  exact ⟨sign, unbroken_digits whole_digits, by decide, unbroken_digits fraction_digits, by decide⟩

theorem unbroken_fixed (x : Double) {places : Nat} (positive : 0 < places) :
    Unbroken (x.fixed places).toList := by
  have whole := unbroken_literal x positive
  rw [literalText, String.toList_append, unbroken_append] at whole
  exact whole.1

theorem unbroken_weights {places : Nat} (positive : 0 < places) (values : List Double) :
    ∀ text ∈ values.map (·.fixed places), Unbroken text.toList := by
  intro text member
  obtain ⟨x, _, rfl⟩ := List.mem_map.mp member
  exact unbroken_fixed x positive

theorem unbroken_intercalate {texts : List String} (each : ∀ text ∈ texts, Unbroken text.toList) :
    Unbroken (", ".intercalate texts).toList := by
  induction texts with
  | nil => decide
  | cons text rest ih =>
    have here := each text (List.mem_cons_self ..)
    have later := ih fun other member => each other (List.mem_cons_of_mem text member)
    cases rest with
    | nil => simpa using here
    | cons next more =>
      rw [String.intercalate_cons_cons, String.toList_append, String.toList_append, unbroken_append,
        unbroken_append]
      exact ⟨⟨here, by decide⟩, later⟩

theorem scan_otherwise {name : String} (valid : isIdentifier name = true) (x : Double)
    {places : Nat} (positive : 0 < places) :
    ∃ remark,
      scan .lineStart ((Statement.otherwise name (literalText x places)).text ++ "\n").toList =
      some (.lineStart, [.word "else", .comment remark]) := by
  have absent_name := (unbroken_name valid).1
  have absent_literal := (unbroken_literal x positive).1
  have absent : '/' ∉ (" " ++ name ++ " > " ++ literalText x places ++ " ").toList := by
    simp [absent_name, absent_literal]
  have split_text : ((Statement.otherwise name (literalText x places)).text ++ "\n").toList =
      "else ".toList ++
        (['/', '*'] ++ (" " ++ name ++ " > " ++ literalText x places ++ " ").toList ++
        ['*', '/', '\n']) := by
    change ("else /* " ++ name ++ " > " ++ literalText x places ++ " */" ++ "\n").toList = _
    simp only [String.toList_append, List.append_assoc]
    rfl
  have turned : scan .lineStart "else ".toList = some (.gap, [.word "else"]) := rfl
  rw [split_text]
  exact ⟨_, scan_append turned (scan_remark absent false)⟩

theorem scan_weights {texts : List String} (each : ∀ text ∈ texts, Unbroken text.toList) :
    ∃ remark, scan .lineStart ((Statement.weights texts).text ++ "\n").toList =
      some (.lineStart, [.comment remark]) := by
  have absent : '/' ∉ (" weights: [" ++ ", ".intercalate texts ++ "] ").toList := by
    simp only [String.toList_append, List.mem_append, not_or]
    exact ⟨⟨by decide, (unbroken_intercalate each).1⟩, by decide⟩
  have split_text : ((Statement.weights texts).text ++ "\n").toList =
      ['/', '*'] ++ (" weights: [" ++ ", ".intercalate texts ++ "] ").toList ++
        ['*', '/', '\n'] := by
    change ("/* weights: [" ++ ", ".intercalate texts ++ "] */" ++ "\n").toList = _
    simp only [String.toList_append, List.append_assoc]
    rfl
  rw [split_text]
  exact ⟨_, scan_remark absent true⟩

theorem scan_assign {label : String} (valid : isIdentifier label = true) :
    scan .lineStart ((Statement.assign label).text ++ "\n").toList =
      some (.lineStart, [.word resultName, .mark '=', .word label] ++ [.mark ';']) := by
  have split_text : ((Statement.assign label).text ++ "\n").toList =
      "ret = ".toList ++ (label.toList ++ ";\n".toList) := by
    change ("ret" ++ " = " ++ label ++ ";" ++ "\n").toList = _
    simp only [String.toList_append, List.append_assoc]
    rfl
  have target : scan .lineStart "ret = ".toList = some (.gap, [.word "ret", .mark '=']) := rfl
  have value : scan .gap (label.toList ++ ";\n".toList) =
      some (.lineStart, [.word label, .mark ';']) :=
    scan_name valid false fun _ => rfl
  rw [split_text]
  exact (scan_append target value).trans rfl

theorem scan_warning (depth : Nat) :
    scan .lineStart ((Statement.warning depth).text ++ "\n").toList =
      some (.lineStart, [.directive (Statement.warning depth).text]) := by
  have split_text : (Statement.warning depth).text =
      "#warning truncated branch of depth " ++ toString depth := rfl
  have began : scan .lineStart "#warning truncated branch of depth ".toList =
      some (.directive "#warning truncated branch of depth ".toList.reverse, []) := rfl
  have plain : ∀ c ∈ (toString depth).toList, c ≠ '\n' ∧ delicate c = false := by
    intro c member
    have digit := digits_of_nat depth c member
    constructor
    · rintro rfl
      exact absurd digit (by decide)
    · cases found : delicate c with
      | false => rfl
      | true =>
        simp only [delicate, decide_eq_true_eq, List.mem_cons, List.not_mem_nil, or_false] at found
        rcases found with rfl | rfl | rfl | rfl <;> exact absurd digit (by decide)
  have digits := scan_within (fun c read plain => step_directive plain read) plain
    "#warning truncated branch of depth ".toList.reverse
  have ended : ∀ read, scan (.directive read) ['\n'] =
      some (.lineStart, [.directive (String.ofList read.reverse)]) := fun _ => rfl
  have whole := scan_append (scan_append began digits) (ended _)
  rw [List.reverse_append, List.reverse_reverse, List.reverse_reverse, String.ofList_append,
    String.ofList_toList, String.ofList_toList] at whole
  rw [split_text, String.toList_append, String.toList_append]
  exact whole

/-- Lines that are these tokens, whatever the width of a level. -/
def Lists (lines : List Line) (out : List Token) : Prop :=
  ∀ width, scan .lineStart (Line.renderAll width lines).toList = some (.lineStart, out)

theorem lists_nil : Lists [] [] := fun _ => rfl

theorem Lists.cons (level : Nat) {text : String} {rest : List Line} {out later : List Token}
    (read : scan .lineStart (text ++ "\n").toList = some (.lineStart, out))
    (behind : Lists rest later) : Lists (⟨level, text⟩ :: rest) (out ++ later) := by
  intro width
  have here := scan_append (scan_blanks (level * width)) read
  have whole := scan_append here (behind width)
  rw [List.nil_append] at whole
  rw [← whole]
  congr 1
  simp [Line.renderAll, Line.render]

theorem Lists.append {a b : List Line} {s t : List Token} (first : Lists a s) (second : Lists b t) :
    Lists (a ++ b) (s ++ t) := by
  intro width
  rw [Line.renderAll, List.map_append, String.join_append, String.toList_append]
  exact scan_append (first width) (second width)

theorem lists_flatMap {α : Type} {level : Nat} {text : α → String} {out : α → List Token}
    {xs : List α}
    (each : ∀ x ∈ xs, scan .lineStart (text x ++ "\n").toList = some (.lineStart, out x)) :
    Lists (xs.map fun x => ⟨level, text x⟩) (xs.flatMap out) := by
  induction xs with
  | nil => exact lists_nil
  | cons x rest ih =>
    have later := ih fun y member => each y (List.mem_cons_of_mem x member)
    rw [List.map_cons, List.flatMap_cons]
    exact .cons level (each x (List.mem_cons_self ..)) later

theorem tokens_of_lists {lines : List Line} {out : List Token} (listed : Lists lines out)
    (width : Nat) : tokens? (Line.renderAll width lines) = some out := by
  rw [tokens?, listed width]

theorem decimal_toString (n : Nat) : decimal? (toString n) = some n := by
  have value : Nat.ofDigitChars 10 (toString n).toList 0 = n := by
    rw [toString_toList, digits, Nat.ofDigitChars_ten_toDigits]
  rw [decimal?, value, if_pos rfl]

def enumeratorTokens (pair : String × Nat) : List Token :=
  [.word pair.1, .mark '=', .number (toString pair.2), .mark ',']

theorem scan_enumerator {pair : String × Nat} (valid : isIdentifier pair.1 = true) :
    scan .lineStart (pair.1 ++ " = " ++ toString pair.2 ++ "," ++ "\n").toList =
      some (.lineStart, enumeratorTokens pair) := by
  have split_text : (pair.1 ++ " = " ++ toString pair.2 ++ "," ++ "\n").toList =
      (pair.1.toList ++ " = ".toList) ++ ((toString pair.2).toList ++ ",\n".toList) := by
    simp only [String.toList_append, List.append_assoc]
    rfl
  have name : scan .lineStart (pair.1.toList ++ " = ".toList) =
      some (.gap, [.word pair.1, .mark '=']) :=
    scan_name valid true fun _ => rfl
  have value : scan .gap ((toString pair.2).toList ++ ",\n".toList) =
      some (.lineStart, [.number (toString pair.2), .mark ',']) :=
    scan_nat pair.2 false fun _ => rfl
  rw [split_text]
  exact scan_append name value

theorem enumerators_tokens {pairs : List (String × Nat)}
    (valid : ∀ pair ∈ pairs, isIdentifier pair.1 = true) :
    enumerators? (pairs.flatMap enumeratorTokens) = some pairs := by
  induction pairs with
  | nil => rfl
  | cons pair rest ih =>
    have here := valid pair (List.mem_cons_self ..)
    have later := ih fun other member => valid other (List.mem_cons_of_mem pair member)
    have value := decimal_toString pair.2
    rw [List.flatMap_cons, enumeratorTokens]
    simp only [List.cons_append, List.nil_append, enumerators?, value, later, here, if_true,
      Option.bind_eq_bind, Option.bind_some]

theorem zipIdx_identifiers (labels : LabelSet) :
    ∀ pair ∈ labels.labels.zipIdx, isIdentifier pair.1 = true :=
  fun _ member => labels.identifiers _ (List.fst_mem_of_mem_zipIdx member)

theorem lists_typeDeclaration (labels : LabelSet) {config : Config}
    (valid : isIdentifier config.typeName = true) :
    Lists (Section.typeDeclaration labels config)
      ([.word "typedef", .word "enum"] ++
        (.opening :: labels.labels.zipIdx.flatMap enumeratorTokens ++ [.closing]) ++
        [.word config.typeName, .mark ';']) := by
  have typed : scan .lineStart ("typedef enum" ++ "\n").toList =
      some (.lineStart, [.word "typedef", .word "enum"]) := rfl
  have opened : scan .lineStart ("\x7b" ++ "\n").toList = some (.lineStart, [.opening]) := rfl
  have pairs : Lists (labels.labels.zipIdx.map fun pair => ⟨1, s!"{pair.1} = {pair.2},"⟩)
      (labels.labels.zipIdx.flatMap enumeratorTokens) :=
    lists_flatMap fun pair member => scan_enumerator (zipIdx_identifiers labels pair member)
  have named : scan .lineStart ("\x7d " ++ config.typeName ++ ";" ++ "\n").toList =
      some (.lineStart, [.closing, .word config.typeName, .mark ';']) := by
    have closed : scan .lineStart "\x7d ".toList = some (.gap, [.closing]) := rfl
    have name : scan .gap (config.typeName.toList ++ ";\n".toList) =
        some (.lineStart, [.word config.typeName, .mark ';']) := scan_name valid false fun _ => rfl
    have whole := scan_append closed name
    rw [← List.append_assoc] at whole
    simp only [String.toList_append, List.append_assoc] at whole ⊢
    exact whole
  have blank : scan .lineStart ("" ++ "\n").toList = some (.lineStart, []) := rfl
  have head := Lists.cons 0 typed (.cons 0 opened lists_nil)
  have whole := (head.append pairs).append (.cons 0 named (.cons 0 blank lists_nil))
  simp only [List.append_assoc, List.cons_append, List.nil_append] at whole ⊢
  exact whole

theorem enumeration_tokens {labels : LabelSet} (some_label : labels.labels ≠ []) :
    enumeration? [.word "typedef", .word "enum"]
      (.row (labels.labels.zipIdx.flatMap enumeratorTokens)) =
      some labels.labels.zipIdx := by
  have some_pair : labels.labels.zipIdx ≠ [] := by simpa using some_label
  simp [enumeration?, Forest.flat_row, enumerators_tokens (zipIdx_identifiers labels), some_pair]

theorem enumeratorTokens_braceless (pairs : List (String × Nat)) :
    ∀ t ∈ pairs.flatMap enumeratorTokens, t.isBrace = false := by
  intro t member
  obtain ⟨pair, _, inside⟩ := List.mem_flatMap.mp member
  simp only [enumeratorTokens, List.mem_cons, List.not_mem_nil, or_false] at inside
  rcases inside with rfl | rfl | rfl | rfl <;> rfl

theorem nests_typeDeclaration (pairs : List (String × Nat)) :
    Nests ([.word "typedef", .word "enum"] ++
      (.opening :: pairs.flatMap enumeratorTokens ++ [.closing]))
      ((Forest.row [.word "typedef", .word "enum"]).append
        (.group (.row (pairs.flatMap enumeratorTokens)) .done)) :=
  (nests_row (by simp [Token.isBrace])).append (nests_row (enumeratorTokens_braceless pairs)).group

theorem definition_typeDeclaration {labels : LabelSet} {config : Config}
    (some_label : labels.labels ≠ []) (valid : isIdentifier config.typeName = true) (width : Nat) :
    definition? (Line.renderAll width (Section.typeDeclaration labels config)) =
      some (config.typeName, labels.labels.zipIdx) := by
  have scanned := tokens_of_lists (lists_typeDeclaration labels valid) width
  have nested := (nests_typeDeclaration labels.labels.zipIdx).append
    (@nests_row [.word config.typeName, .mark ';'] (by simp [Token.isBrace]))
  have found := forest_of_nests scanned nested
  rw [Forest.append_assoc, Forest.append, Forest.append] at found
  simp [definition?, found, Forest.parted_row, enumeration_tokens some_label, Forest.flat_row,
    valid]

theorem slash_not_mem_lines {lines : List Line} (each : ∀ line ∈ lines, '/' ∉ line.text.toList)
    (width : Nat) : '/' ∉ (Line.renderAll width lines).toList := by
  intro member
  rw [Line.renderAll, String.toList_join, List.mem_flatMap] at member
  obtain ⟨text, rendered, inside⟩ := member
  obtain ⟨line, listed, rfl⟩ := List.mem_map.mp rendered
  simp only [Line.render, String.toList_append, String.toList_ofList, List.mem_append,
    List.mem_replicate] at inside
  rcases inside with (⟨_, blank⟩ | inside) | last
  · exact absurd blank (by decide)
  · exact each line listed inside
  · exact absurd last (by decide)

theorem renderAll_outer {lines : List Line} (outer : ∀ line ∈ lines, line.level = 0) (width : Nat) :
    Line.renderAll width lines = Line.renderAll 0 lines := by
  have same : ∀ line ∈ lines, line.render width = line.render 0 := by
    intro line member
    simp [Line.render, outer line member]
  rw [Line.renderAll, Line.renderAll, List.map_congr_left same]

def headerLines (labels : LabelSet) (config : Config) : List Line :=
  [⟨0, " * \\brief Decision tree classifier"⟩,
   ⟨0, " *"⟩,
   ⟨0, " * Decision tree classifier based on the following input characteristics:"⟩,
   ⟨0, " *   BLOCK_SIZE: " ++ toString config.provenance.blockSize.toNat⟩,
   ⟨0, " *   BLOCK_TYPE: " ++ config.provenance.blockType.text⟩,
   ⟨0, " *"⟩,
   ⟨0, " * \\return " ++ config.typeName⟩] ++
  labels.labels.zipIdx.map (fun (label, index) => ⟨0, " *   " ++ toString index ++ "  " ++ label⟩)

theorem docHeader_eq (labels : LabelSet) (config : Config) :
    Section.docHeader labels config = [⟨0, "/*"⟩] ++ headerLines labels config ++ [⟨0, " */"⟩] :=
  rfl

theorem headerLines_plain (labels : LabelSet) {config : Config}
    (valid : isIdentifier config.typeName = true) :
    ∀ line ∈ headerLines labels config, line.level = 0 ∧ Unbroken line.text.toList := by
  intro line member
  rcases List.mem_append.mp member with fixed | listed
  · simp only [List.mem_cons, List.not_mem_nil, or_false] at fixed
    rcases fixed with rfl | rfl | rfl | rfl | rfl | rfl | rfl
    · exact ⟨rfl, by decide⟩
    · exact ⟨rfl, by decide⟩
    · exact ⟨rfl, by decide⟩
    · rw [String.toList_append, unbroken_append]
      exact ⟨rfl, by decide, unbroken_digits (digits_of_nat _)⟩
    · cases config.provenance.blockType <;> exact ⟨rfl, by decide⟩
    · exact ⟨rfl, by decide⟩
    · rw [String.toList_append, unbroken_append]
      exact ⟨rfl, by decide, unbroken_name valid⟩
  · obtain ⟨pair, inside, rfl⟩ := List.mem_map.mp listed
    refine ⟨rfl, ?_⟩
    simp only [String.toList_append, unbroken_append]
    exact ⟨⟨⟨by decide, unbroken_digits (digits_of_nat _)⟩, by decide⟩,
      unbroken_name (zipIdx_identifiers labels pair inside)⟩

/-- The describing comment is one token: nothing in it ends it early. -/
theorem lists_docHeader (labels : LabelSet) {config : Config}
    (valid : isIdentifier config.typeName = true) :
    ∃ comment : String, '/' ∉ comment.toList ∧
      (∀ width, Line.renderAll width (Section.docHeader labels config) =
        "/*" ++ comment ++ "*/\n") ∧
      Lists (Section.docHeader labels config) [.comment comment] := by
  have plain := headerLines_plain labels valid
  have inner_absent := slash_not_mem_lines (fun line member => (plain line member).2.1) 0
  have text : ∀ width, Line.renderAll width (Section.docHeader labels config) =
      "/*" ++ ("\n" ++ Line.renderAll 0 (headerLines labels config) ++ " ") ++ "*/\n" := by
    intro width
    rw [← renderAll_outer (fun line member => (plain line member).1) width, docHeader_eq]
    apply String.toList_inj.mp
    simp [Line.renderAll, Line.render]
  have absent : '/' ∉ ("\n" ++ Line.renderAll 0 (headerLines labels config) ++ " ").toList := by
    simp only [String.toList_append, List.mem_append, not_or]
    exact ⟨⟨by decide, inner_absent⟩, by decide⟩
  refine ⟨_, absent, text, ?_⟩
  intro width
  rw [text width, String.toList_append, String.toList_append]
  have scanned := scan_remark absent true
  rw [String.ofList_toList] at scanned
  exact scanned

def parameterTokens : List String → List Token
  | [] => [.word "void", .mark ')']
  | [name] => [.word "const", .word "float", .word name, .mark ')']
  | name :: next :: rest =>
    [.word "const", .word "float", .word name, .mark ','] ++ parameterTokens (next :: rest)

theorem named_tokens {name : String} {rest : List String}
    (valid : ∀ other ∈ name :: rest, isIdentifier other = true) :
    named? (parameterTokens (name :: rest)) = some (name :: rest) := by
  induction rest generalizing name with
  | nil => simp [parameterTokens, named?, valid name]
  | cons next more ih =>
    have here := valid name (List.mem_cons_self ..)
    have later := ih fun other member => valid other (List.mem_cons_of_mem name member)
    simp [parameterTokens, named?, here, later]

theorem parameters_tokens {names : List String} (valid : ∀ name ∈ names, isIdentifier name = true) :
    parameters? (parameterTokens names) = some names := by
  cases names with
  | nil => rfl
  | cons name rest =>
    have other : parameterTokens (name :: rest) ≠ [.word "void", .mark ')'] := by
      cases rest <;> simp [parameterTokens]
    rw [parameters?, if_neg other, named_tokens valid]

theorem scan_named {name : String} {rest : List String}
    (valid : ∀ other ∈ name :: rest, isIdentifier other = true) :
    scan .gap
      ((", ".intercalate ((name :: rest).map ("const float " ++ ·))).toList ++ ")\n".toList) =
      some (.lineStart, parameterTokens (name :: rest)) := by
  have typed : scan .gap "const float ".toList = some (.gap, [.word "const", .word "float"]) := rfl
  have here := valid name (List.mem_cons_self ..)
  induction rest generalizing name with
  | nil =>
    have last : scan .gap (name.toList ++ ")\n".toList) =
        some (.lineStart, [.word name, .mark ')']) :=
      scan_name here false fun _ => rfl
    have whole := scan_append typed last
    rw [List.map_singleton, String.intercalate_singleton, String.toList_append, List.append_assoc]
    exact whole
  | cons next more ih =>
    have later := ih (fun other member => valid other (List.mem_cons_of_mem name member))
      (valid next (by simp))
    have named : scan .gap (name.toList ++ ", ".toList) = some (.gap, [.word name, .mark ',']) :=
      scan_name here false fun _ => rfl
    have whole := scan_append (scan_append typed named) later
    rw [List.map_cons, List.map_cons, String.intercalate_cons_cons]
    simp only [String.toList_append, List.append_assoc, List.map_cons] at whole ⊢
    exact whole

theorem scan_arguments {names : List String} (valid : ∀ name ∈ names, isIdentifier name = true) :
    scan .gap ((Section.arguments names).toList ++ ")\n".toList) =
      some (.lineStart, parameterTokens names) := by
  cases names with
  | nil => rfl
  | cons name rest => exact scan_named valid

theorem lists_signature {names : List String} {config : Config}
    (valid : ∀ name ∈ names, isIdentifier name = true)
    (valid_type : isIdentifier config.typeName = true)
    (valid_function : isIdentifier config.functionName = true) :
    Lists (Section.signature names config)
      ([.word config.typeName, .word config.functionName, .mark '('] ++ parameterTokens names ++
        .opening :: [.word config.typeName, .word resultName, .mark ';']) := by
  have head : scan .lineStart
    (s!"{config.typeName} {config.functionName}({Section.arguments names})" ++
      "\n").toList = some (.lineStart,
        [.word config.typeName, .word config.functionName, .mark '('] ++
          parameterTokens names) := by
    have split_text : (s!"{config.typeName} {config.functionName}({Section.arguments names})" ++
        "\n").toList =
          (config.typeName.toList ++ " ".toList) ++ (config.functionName.toList ++ "(".toList) ++
          ((Section.arguments names).toList ++ ")\n".toList) := by
      change (config.typeName ++ " " ++ config.functionName ++ "(" ++
        Section.arguments names ++ ")" ++ "\n").toList = _
      simp only [String.toList_append, List.append_assoc]
      rfl
    have type_name : scan .lineStart (config.typeName.toList ++ " ".toList) =
        some (.gap, [.word config.typeName]) := scan_name valid_type true fun _ => rfl
    have function_name : scan .gap (config.functionName.toList ++ "(".toList) =
        some (.gap, [.word config.functionName, .mark '(']) :=
          scan_name valid_function false fun _ => rfl
    rw [split_text]
    exact scan_append (scan_append type_name function_name) (scan_arguments valid)
  have opened : scan .lineStart ("\x7b" ++ "\n").toList = some (.lineStart, [.opening]) := rfl
  have declared : scan .lineStart (s!"{config.typeName} {resultName};" ++ "\n").toList =
      some (.lineStart, [.word config.typeName, .word resultName, .mark ';']) := by
    have split_text : (s!"{config.typeName} {resultName};" ++ "\n").toList =
        config.typeName.toList ++ " ret;\n".toList := by
      change (config.typeName ++ " " ++ "ret" ++ ";" ++ "\n").toList = _
      simp only [String.toList_append, List.append_assoc]
      rfl
    rw [split_text]
    exact scan_name valid_type true fun _ => rfl
  have blank : scan .lineStart ("" ++ "\n").toList = some (.lineStart, []) := rfl
  have whole := Lists.cons 0 head (.cons 0 opened (.cons 1 declared (.cons 0 blank lists_nil)))
  simp only [List.cons_append, List.nil_append, List.append_nil] at whole ⊢
  exact whole

theorem lists_epilogue :
    Lists Section.epilogue [.word "return", .word resultName, .mark ';', .closing] := by
  have blank : scan .lineStart ("" ++ "\n").toList = some (.lineStart, []) := rfl
  have given : scan .lineStart (s!"return {resultName};" ++ "\n").toList =
      some (.lineStart, [.word "return", .word resultName, .mark ';']) := rfl
  have closed : scan .lineStart ("\x7d" ++ "\n").toList = some (.lineStart, [.closing]) := rfl
  exact .cons 0 blank (.cons 1 given (.cons 0 closed lists_nil))

end DecisionTreeC.Code
