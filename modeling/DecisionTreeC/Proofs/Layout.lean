import DecisionTreeC.Proofs.Scope
import DecisionTreeC.Text

/-!
Options that only lay the source out: the width of an indentation, the comments with weights, and
the windows that the description names. Under any two choices of them generation ends with the same
error, or both times with a source. The two sources record the same truncations and have the same
substance: their lines without indentation, without comments of weights and without the lines that
name the windows.
-/
namespace DecisionTreeC

open Code

namespace Text

theorem words_cons (c : Char) (rest : List Char) :
    words (c :: rest) =
      if isBlank c then words rest
      else
        match rest, words rest with
        | next :: _, word :: more =>
          if isBlank next then [c] :: word :: more else (c :: word) :: more
        | _, more => [c] :: more := rfl

theorem words_blank {c : Char} (blank : isBlank c = true) (rest : List Char) :
    words (c :: rest) = words rest := by
  rw [words_cons, if_pos blank]

theorem words_solid {c : Char} (solid : isBlank c = false) (rest : List Char) :
    ∃ word more, words (c :: rest) = word :: more := by
  rw [words_cons, if_neg (by simp [solid])]
  split
  · split
    · exact ⟨_, _, rfl⟩
    · exact ⟨_, _, rfl⟩
  · exact ⟨_, _, rfl⟩

theorem words_apart {c d : Char} (solid : isBlank c = false) (blank : isBlank d = true)
    (rest : List Char) : words (c :: d :: rest) = [c] :: words (d :: rest) := by
  rw [words_cons]
  cases words (d :: rest) <;> simp [solid, blank]

theorem words_joined {c d : Char} (solid : isBlank c = false) (next : isBlank d = false)
    {rest word : List Char} {more : List (List Char)} (found : words (d :: rest) = word :: more) :
    words (c :: d :: rest) = (c :: word) :: more := by
  rw [words_cons, found]
  simp [solid, next]

theorem words_append (a : List Char) {c : Char} (blank : isBlank c = true) (b : List Char) :
    words (a ++ c :: b) = words a ++ words b := by
  induction a with
  | nil => exact words_blank blank b
  | cons x rest ih =>
    cases solid : isBlank x with
    | true =>
      rw [List.cons_append, words_blank solid, words_blank solid, ih]
    | false =>
      cases rest with
      | nil =>
        rw [List.cons_append, List.nil_append, words_apart solid blank, words_blank blank,
          words_cons x [], if_neg (by simp [solid])]
        rfl
      | cons y rest =>
        cases next : isBlank y with
        | true =>
          have apart := words_apart solid next (rest ++ c :: b)
          rw [words_apart solid next, List.cons_append, List.cons_append, apart, ← List.cons_append,
            ih]
          rfl
        | false =>
          obtain ⟨word, more, found⟩ := words_solid next rest
          have whole : words (y :: (rest ++ c :: b)) = word :: (more ++ words b) := by
            rw [← List.cons_append, ih, found]
            rfl
          rw [words_joined solid next found, List.cons_append, List.cons_append,
            words_joined solid next whole]
          rfl

theorem words_indented (count : Nat) (text : List Char) :
    words (List.replicate count ' ' ++ text) = words text := by
  induction count with
  | zero => rfl
  | succ count ih =>
    rw [List.replicate_succ, List.cons_append, words_blank (by decide), ih]

def unindented (line : List Char) : List Char := line.dropWhile (· == ' ')

theorem unindented_indented (count : Nat) (text : List Char) :
    unindented (List.replicate count ' ' ++ text) = unindented text := by
  apply List.dropWhile_append_of_pos
  intro c member
  rw [List.eq_of_mem_replicate member]
  rfl

/-- A whole line that is one comment with weights: its only slashes are the first and
the last character. -/
def isWeightsRemark (line : List Char) : Bool :=
  "/* weights: [".toList.isPrefixOf line && "] */".toList.isSuffixOf line && line.count '/' == 2

def isWindowsRemark (line : List Char) : Bool :=
  "*   BLOCK_SIZE: ".toList.isPrefixOf line || "*   BLOCK_TYPE: ".toList.isPrefixOf line

def isRemark (line : List Char) : Bool := isWeightsRemark line || isWindowsRemark line

/-- The lines of a text without their indentation, and without remarks. -/
def substance (text : String) : List (List Char) :=
  ((text.toList.splitOn '\n').map unindented).filter (!isRemark ·)

end Text

open Text

namespace Line

theorem renderAll_cons (width : Nat) (line : Line) (rest : List Line) :
    (renderAll width (line :: rest)).toList =
      List.replicate (line.level * width) ' ' ++
        (line.text.toList ++ '\n' :: (renderAll width rest).toList) := by
  simp [renderAll, render]

def substantial (lines : List Line) : List (List Char) :=
  (lines.map fun line => unindented line.text.toList).filter (!isRemark ·)

theorem substantial_append (a b : List Line) :
    substantial (a ++ b) = substantial a ++ substantial b := by
  simp [substantial]

theorem unindented_renderAll (width : Nat) {lines : List Line}
    (each : ∀ line ∈ lines, '\n' ∉ line.text.toList) :
    ((renderAll width lines).toList.splitOn '\n').map unindented =
      (lines.map fun line => unindented line.text.toList) ++ [[]] := by
  induction lines with
  | nil => rfl
  | cons line rest ih =>
    rw [List.forall_mem_cons] at each
    have whole : '\n' ∉ List.replicate (line.level * width) ' ' ++ line.text.toList := by
      simp [each.1]
    rw [renderAll_cons, ← List.append_assoc, List.splitOn_append_cons_self_of_not_mem whole,
      List.map_cons, unindented_indented, ih each.2]
    rfl

theorem substance_renderAll (width : Nat) {lines : List Line}
    (each : ∀ line ∈ lines, '\n' ∉ line.text.toList) :
    substance (renderAll width lines) = substantial lines ++ [[]] := by
  rw [substance, unindented_renderAll width each, List.filter_append]
  rfl

theorem words_renderAll (width : Nat) (lines : List Line) :
    words (renderAll width lines).toList = lines.flatMap fun line => words line.text.toList := by
  induction lines with
  | nil => rfl
  | cons line rest ih =>
    rw [renderAll_cons, words_indented, words_append _ (by decide), ih, List.flatMap_cons]

theorem squash_renderAll (width other : Nat) (lines : List Line) :
    squash (renderAll width lines) = squash (renderAll other lines) := by
  rw [squash, squash, words_renderAll, words_renderAll]

end Line

open Line

namespace Statement

def isWeights : Statement → Bool
  | .weights _ => true
  | _ => false

/-- No text put into the statement ends a comment or a line. -/
def Tidy : Statement → Prop
  | .test name literal | .otherwise name literal => Unbroken name.toList ∧ Unbroken literal.toList
  | .weights texts => ∀ text ∈ texts, Unbroken text.toList
  | .assign label => Unbroken label.toList
  | .opening | .closing | .warning _ => True

theorem Tidy.newline_not_mem {s : Statement} (tidy : s.Tidy) : '\n' ∉ s.text.toList := by
  cases s with
  | test name literal =>
    change '\n' ∉ ("if (" ++ name ++ " <= " ++ literal ++ ")").toList
    simp [tidy.1.2, tidy.2.2]
  | opening => decide
  | closing => decide
  | otherwise name literal =>
    change '\n' ∉ ("else /* " ++ name ++ " > " ++ literal ++ " */").toList
    simp [tidy.1.2, tidy.2.2]
  | weights texts =>
    have inner := (unbroken_intercalate tidy).2
    change '\n' ∉ ("/* weights: [" ++ ", ".intercalate texts ++ "] */").toList
    simp only [String.toList_append, List.mem_append, not_or]
    exact ⟨⟨by decide, inner⟩, by decide⟩
  | assign label =>
    change '\n' ∉ ("ret" ++ " = " ++ label ++ ";").toList
    have inner : '\n' ∉ label.toList := And.right tidy
    simp [inner]
  | warning depth =>
    have digits := (unbroken_digits (digits_of_nat depth)).2
    change '\n' ∉ ("#warning truncated branch of depth " ++ toString depth).toList
    rw [String.toList_append, List.mem_append, not_or]
    exact ⟨by decide, digits⟩

theorem weights_isRemark {texts : List String} (tidy : (weights texts).Tidy) :
    isRemark (unindented (weights texts).text.toList) = true := by
  have inner := (unbroken_intercalate tidy).1
  have chars : (weights texts).text.toList =
      "/* weights: [".toList ++ ((", ".intercalate texts).toList ++ "] */".toList) := by
    change ("/* weights: [" ++ ", ".intercalate texts ++ "] */").toList = _
    rw [String.toList_append, String.toList_append, List.append_assoc]
  have counted : (weights texts).text.toList.count '/' = 2 := by
    rw [chars, List.count_append, List.count_append, List.count_eq_zero.mpr inner]
    rfl
  have whole : unindented (weights texts).text.toList = (weights texts).text.toList := by
    rw [chars]
    rfl
  have starts : "/* weights: [".toList.isPrefixOf (weights texts).text.toList = true := by
    rw [List.isPrefixOf_iff_prefix, chars]
    exact List.prefix_append _ _
  have ends : "] */".toList.isSuffixOf (weights texts).text.toList = true := by
    rw [List.isSuffixOf_iff_suffix, chars, ← List.append_assoc]
    exact List.suffix_append _ _
  rw [whole, isRemark, isWeightsRemark, starts, ends, counted]
  rfl

end Statement

namespace Body

def unweighted (body : Body) : Body :=
  { body with lines := body.lines.filter fun line => !line.2.isWeights }

theorem unweighted_join (a b : Body) : (a.join b).unweighted = a.unweighted.join b.unweighted := by
  simp [unweighted, join]

theorem unweighted_write (level : Nat) (statements : List Statement) :
    (empty.write level statements).unweighted =
      empty.write level (statements.filter fun s => !s.isWeights) := by
  simp [unweighted, write, empty, List.filter_map, Function.comp_def]

theorem unweighted_cut (t : Truncation) : (empty.cut t).unweighted = empty.cut t := by
  simp [unweighted, cut, write, empty, Statement.isWeights]

theorem substantial_unweighted {body : Body} (tidy : ∀ line ∈ body.lines.toList, line.2.Tidy) :
    substantial body.unweighted.written = substantial body.written := by
  have dropped : ∀ line ∈ body.lines.toList,
      (!isRemark (unindented line.2.text.toList) && !line.2.isWeights) =
        !isRemark (unindented line.2.text.toList) := by
    intro line member
    have proper := tidy line member
    cases kind : line.2 with
    | weights texts =>
      rw [kind] at proper
      rw [Statement.weights_isRemark proper]
      rfl
    | test | opening | closing | otherwise | assign | warning => exact Bool.and_true _
  simp only [substantial, written, unweighted, Array.toList_filter, List.map_map, List.filter_map,
    List.filter_filter]
  exact congrArg _ (List.filter_congr dropped)

end Body

namespace Draft

theorem leafStatements_unweighted (config : Config) (label : String)
    (weights : Option (List Double)) :
    (leafStatements config label weights).filter (fun s => !s.isWeights) = [.assign label] := by
  unfold leafStatements
  split <;> rfl

theorem branch_unweighted (depth : Nat) (name literal : String) (first second : Body) :
    (branch depth name literal first second).unweighted =
      branch depth name literal first.unweighted second.unweighted := by
  simp only [branch, Body.unweighted_join, Body.unweighted_write]
  rfl

theorem print_unweighted (config : Config) (draft : Draft) (depth : Nat) :
    (draft.print config depth).map Body.unweighted =
      draft.print { config with classWeights := false } depth := by
  induction draft generalizing depth with
  | leaf node label weights =>
    simp only [print, Except.map, Body.unweighted_write, leafStatements_unweighted]
    rfl
  | split node name threshold left right ihl ihr =>
    rw [print, print]
    by_cases deep : config.maxDepth + 1 < depth
    · rw [if_pos deep, if_pos deep]
      exact congrArg Except.ok (Body.unweighted_cut _)
    rw [if_neg deep, if_neg deep]
    by_cases fits : threshold.FitsSingle
    · rw [if_pos fits, if_pos fits, ← ihl, ← ihr]
      cases left.print config (depth + 1) with
      | error e => rfl
      | ok first =>
        cases right.print config (depth + 1) with
        | error e => rfl
        | ok second => exact congrArg Except.ok (branch_unweighted _ _ _ first second)
    · rw [if_neg fits, if_neg fits]
      rfl

/-- Three options decide what is printed. -/
theorem print_congr {a b : Config} (places : a.decimalPlaces = b.decimalPlaces)
    (limit : a.maxDepth = b.maxDepth) (weighted : a.classWeights = b.classWeights) (draft : Draft)
    (depth : Nat) : draft.print a depth = draft.print b depth := by
  induction draft generalizing depth with
  | leaf node label weights =>
    have same : leafStatements a label weights = leafStatements b label weights := by
      unfold leafStatements
      rw [places, weighted]
    rw [print, print, same]
  | split node name threshold left right ihl ihr => rw [print, print, places, limit, ihl, ihr]

theorem print_tidy {config : Config} (positive : 0 < config.decimalPlaces) {draft : Draft}
    (named : draft.Named) {depth : Nat} {printed : Body}
    (done : draft.print config depth = .ok printed) :
    ∀ line ∈ printed.lines.toList, line.2.Tidy := by
  induction draft generalizing depth printed with
  | leaf node label weights =>
    cases done
    have assigned : (Statement.assign label).Tidy := unbroken_name named
    intro line member
    simp only [Body.write, Body.empty, Array.toList_appendList, List.nil_append, List.mem_map]
      at member
    obtain ⟨s, inside, rfl⟩ := member
    unfold leafStatements at inside
    split at inside
    · simp only [List.mem_cons, List.not_mem_nil, or_false] at inside
      rcases inside with rfl | rfl
      · exact unbroken_weights positive _
      · exact assigned
    · rw [List.mem_singleton.mp inside]
      exact assigned
  | split node name threshold left right ihl ihr =>
    obtain ⟨valid, left_named, right_named⟩ := named
    rcases print_split done with ⟨_, rfl⟩ | ⟨_, _, first, second, left_done, right_done, rfl⟩
    · simp [Body.cut, Body.write, Body.empty, Statement.Tidy]
    · have first_tidy := ihl left_named left_done
      have second_tidy := ihr right_named right_done
      have texts := And.intro (unbroken_name valid) (unbroken_literal threshold positive)
      intro line member
      simp only [branch, Body.join, Body.write, Body.empty, Array.toList_append,
        Array.toList_appendList, List.nil_append, List.map_cons, List.map_nil, List.mem_append,
        List.mem_cons, List.not_mem_nil,
        or_false] at member
      rcases member with (rfl | rfl) | inside | (rfl | rfl | rfl) | inside | rfl
      · exact texts
      · trivial
      · exact first_tidy line inside
      · trivial
      · exact texts
      · trivial
      · exact second_tidy line inside
      · trivial

end Draft

namespace Section

theorem typeDeclaration_inline (labels : LabelSet) {config : Config}
    (valid : isIdentifier config.typeName = true) :
    ∀ line ∈ typeDeclaration labels config, '\n' ∉ line.text.toList := by
  have type_absent := (unbroken_name valid).2
  rw [typeDeclaration, List.forall_mem_append, List.forall_mem_append]
  refine ⟨⟨by decide, ?_⟩, ?_⟩
  · intro line member
    obtain ⟨pair, inside, rfl⟩ := List.mem_map.mp member
    have label_absent := (unbroken_name (zipIdx_identifiers labels pair inside)).2
    have index_absent := (unbroken_digits (digits_of_nat pair.2)).2
    change '\n' ∉ (pair.1 ++ " = " ++ toString pair.2 ++ ",").toList
    simp only [String.toList_append, List.mem_append, not_or]
    exact ⟨⟨⟨label_absent, by decide⟩, index_absent⟩, by decide⟩
  · simp [type_absent, Line.blank]

theorem docHeader_inline (labels : LabelSet) {config : Config}
    (valid : isIdentifier config.typeName = true) :
    ∀ line ∈ docHeader labels config, '\n' ∉ line.text.toList := by
  rw [docHeader_eq, List.forall_mem_append, List.forall_mem_append]
  refine ⟨⟨by decide, ?_⟩, by decide⟩
  intro line member
  exact (headerLines_plain labels valid line member).2.2

theorem arguments_inline {names : List String} (valid : ∀ name ∈ names, isIdentifier name = true) :
    '\n' ∉ (arguments names).toList := by
  unfold arguments
  split
  · decide
  · apply And.right
    apply unbroken_intercalate
    intro text member
    obtain ⟨name, inside, rfl⟩ := List.mem_map.mp member
    rw [String.toList_append, unbroken_append]
    exact ⟨by decide, unbroken_name (valid name inside)⟩

theorem signature_inline {names : List String} {config : Config}
    (valid : ∀ name ∈ names, isIdentifier name = true)
    (typeName : isIdentifier config.typeName = true)
    (functionName : isIdentifier config.functionName = true) :
    ∀ line ∈ signature names config, '\n' ∉ line.text.toList := by
  have type_absent := (unbroken_name typeName).2
  have function_absent := (unbroken_name functionName).2
  have head : '\n' ∉
      (config.typeName ++ " " ++ config.functionName ++ "(" ++ arguments names ++ ")").toList := by
    simp [type_absent, function_absent, arguments_inline valid]
  have declared : '\n' ∉ (config.typeName ++ " " ++ "ret" ++ ";").toList := by
    simp [type_absent]
  intro line member
  simp only [signature, List.mem_cons, List.not_mem_nil, or_false] at member
  rcases member with rfl | rfl | rfl | rfl
  · exact head
  · decide
  · exact declared
  · decide

def windowLines (windows : Provenance) : List Line :=
  [⟨0, " *   BLOCK_SIZE: " ++ toString windows.blockSize.toNat⟩,
   ⟨0, " *   BLOCK_TYPE: " ++ windows.blockType.text⟩]

theorem substantial_windowLines (windows : Provenance) :
    substantial (windowLines windows) = [] := by
  have size :
      isRemark (unindented (" *   BLOCK_SIZE: " ++ toString windows.blockSize.toNat).toList) =
        true := by
    rw [String.toList_append]
    rfl
  have type : isRemark (unindented (" *   BLOCK_TYPE: " ++ windows.blockType.text).toList) =
      true := by
    cases windows.blockType <;> rfl
  simp only [substantial, windowLines, List.map_cons, List.map_nil, List.filter_cons,
    List.filter_nil, size, type]
  rfl

theorem substantial_docHeader (labels : LabelSet) (config : Config) (windows : Provenance) :
    substantial (docHeader labels { config with provenance := windows }) =
      substantial (docHeader labels config) := by
  have parted : ∀ shown : Provenance, docHeader labels { config with provenance := shown } =
      (docHeader labels config).take 4 ++ (windowLines shown ++ (docHeader labels config).drop 6) :=
    fun _ => rfl
  have whole := parted config.provenance
  rw [parted windows, substantial_append, substantial_append, substantial_windowLines]
  rw [← substantial_windowLines config.provenance, ← substantial_append, ← substantial_append,
    ← whole]

end Section

namespace Plan

variable {plan : Plan} {tree : DecisionTree} {draft : Draft} {printed : Body}

def relaid (plan : Plan) (width : Nat) (weighted : Bool) (windows : Provenance) : Plan :=
  { plan with config := { plan.config with
      indentWidth := width, classWeights := weighted, provenance := windows } }

theorem Ready.relaid (ready : plan.Ready tree draft) (width : Nat) (weighted : Bool)
    (windows : Provenance) : (plan.relaid width weighted windows).Ready tree draft :=
  ready.reconfigured rfl rfl rfl

theorem Ready.inline (ready : plan.Ready tree draft)
    (tidy : ∀ line ∈ printed.lines.toList, line.2.Tidy) :
    ∀ line ∈ Section.typeDeclaration plan.labels plan.config ++
        Section.docHeader plan.labels plan.config ++
        Section.signature ((firstUses tree.tests).filterMap plan.features.name?) plan.config ++
        printed.written ++ Section.epilogue, '\n' ∉ line.text.toList := by
  simp only [List.forall_mem_append]
  refine ⟨⟨⟨⟨?_, ?_⟩, ?_⟩, ?_⟩, by decide⟩
  · exact Section.typeDeclaration_inline plan.labels ready.sound.typeName
  · exact Section.docHeader_inline plan.labels ready.sound.typeName
  · apply Section.signature_inline
    · exact plan.features.names_valid (firstUses tree.tests)
    · exact ready.sound.typeName
    · exact ready.sound.functionName
  · intro line member
    obtain ⟨entry, inside, rfl⟩ := List.mem_map.mp member
    exact (tidy entry inside).newline_not_mem

theorem Ready.substance (ready : plan.Ready tree draft)
    (done : draft.print plan.config 1 = .ok printed) :
    Text.substance
      (plan.assemble ((firstUses tree.tests).filterMap plan.features.name?) printed).text =
      substantial (Section.typeDeclaration plan.labels plan.config) ++
        substantial (Section.docHeader plan.labels plan.config) ++
        substantial
          (Section.signature ((firstUses tree.tests).filterMap plan.features.name?) plan.config) ++
        substantial printed.unweighted.written ++ substantial Section.epilogue ++ [[]] := by
  have tidy := Draft.print_tidy ready.sound.positive (DecisionTree.draft_named ready.drafted) done
  rw [assemble_text, substance_renderAll _ (ready.inline tidy), Body.substantial_unweighted tidy]
  simp only [substantial_append]

/-- Options of layout change neither the outcome nor the substance of the source. Under two choices
of them generation fails with one error, or gives two sources with the same truncations and the same
substance. If the choices differ in the width only, the sources differ in blanks only. -/
theorem layout_irrelevant (plan : Plan) (width : Nat) (weighted : Bool) (windows : Provenance) :
    (∃ e, plan.source.run = some (.error e) ∧
      (plan.relaid width weighted windows).source.run = some (.error e)) ∨
    ∃ source source', plan.source.run = some (.ok source) ∧
      (plan.relaid width weighted windows).source.run = some (.ok source') ∧
      source.truncations = source'.truncations ∧
      Text.substance source.text = Text.substance source'.text ∧
      (weighted = plan.config.classWeights → windows = plan.config.provenance →
        Text.squash source.text = Text.squash source'.text) := by
  rcases plan.prepare_outcome with ⟨e, refused⟩ | ⟨tree, draft, ready⟩
  · have refused' : (plan.relaid width weighted windows).prepare.run = some (.error e) := refused
    exact .inl ⟨e, source_of_refused refused, source_of_refused refused'⟩
  have ready' := ready.relaid width weighted windows
  have made := ready.source
  have made' := ready'.source
  have same : (draft.print plan.config 1).map Body.unweighted =
      (draft.print (plan.relaid width weighted windows).config 1).map Body.unweighted := by
    rw [Draft.print_unweighted, Draft.print_unweighted]
    apply Draft.print_congr <;> rfl
  rcases except_map_eq_map same with ⟨e, done, done'⟩ | ⟨printed, printed', done, done', unweighted⟩
  · rw [done] at made
    rw [done'] at made'
    exact .inl ⟨e, made, made'⟩
  rw [done] at made
  rw [done'] at made'
  refine .inr ⟨_, _, made, made', ?_, ?_, ?_⟩
  · exact congrArg (fun body => body.truncations.toList) unweighted
  · have header : substantial (Section.docHeader plan.labels plan.config) =
        substantial (Section.docHeader plan.labels (plan.relaid width weighted windows).config) :=
      (Section.substantial_docHeader plan.labels plan.config windows).symm
    rw [ready.substance done, ready'.substance done', unweighted, header]
    rfl
  · rintro rfl rfl
    have alike : draft.print plan.config 1 = draft.print
        (plan.relaid width plan.config.classWeights plan.config.provenance).config 1 := by
      apply Draft.print_congr <;> rfl
    rw [done, done'] at alike
    cases alike
    rw [assemble_text, assemble_text]
    exact squash_renderAll _ _ _

end Plan

end DecisionTreeC
