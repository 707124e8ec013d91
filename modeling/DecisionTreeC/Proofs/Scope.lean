import DecisionTreeC.Proofs.Decision
import Mathlib.Data.List.Nodup

/-!
The whole source as a program. It reads as a type definition, a comment and a function; the
parameters are the features tested anywhere in the tree, by first use; and the names are in scope:
everything declared can stand in C source and is kept apart from the rest, everything used is
declared.
-/
namespace DecisionTreeC

namespace Code

namespace Block

def tested : Block → List String
  | .done => []
  | .command _ rest => rest.tested
  | .directive _ rest => rest.tested
  | .choice name _ yes no rest => name :: (yes.tested ++ no.tested ++ rest.tested)

def assigned : Block → List (String × String)
  | .done => []
  | .command (.assign target value) rest => (target, value) :: rest.assigned
  | .command _ rest => rest.assigned
  | .directive _ rest => rest.assigned
  | .choice _ _ yes no rest => yes.assigned ++ no.assigned ++ rest.assigned

theorem mem_tested_append {a b : Block} {name : String} :
    name ∈ (a.append b).tested ↔ name ∈ a.tested ∨ name ∈ b.tested := by
  induction a with
  | done => simp [append, tested]
  | command c rest ih => exact ih
  | directive text rest ih => exact ih
  | choice other literal yes no rest _ _ ih => simp [append, tested, ih, or_assoc]

theorem mem_assigned_append {a b : Block} {pair : String × String} :
    pair ∈ (a.append b).assigned ↔ pair ∈ a.assigned ∨ pair ∈ b.assigned := by
  induction a with
  | done => simp [append, assigned]
  | command c rest ih => cases c <;> simp [append, assigned, ih, or_assoc]
  | directive text rest ih => exact ih
  | choice name literal yes no rest _ _ ih => simp [append, assigned, ih, or_assoc]

end Block

def Program.labels (p : Program) : List String := p.enumerators.map Prod.fst

/-- The names of a program around its result variable are in order. Labels and parameters differ
from each other and from the symbols around them; what is tested is a parameter, and what the result
is set to is a label. -/
structure Program.Scoped (p : Program) (result : String) : Prop where
  identifiers : ∀ name ∈ p.labels ++ p.parameters ++ [result, p.functionName, p.typeName],
    isIdentifier name = true
  distinct : (p.labels ++ p.parameters).Nodup
  apart : ∀ name ∈ p.labels ++ p.parameters, name ∉ [result, p.functionName, p.typeName]
  symbols : p.functionName ≠ p.typeName
  tested : ∀ name ∈ p.body.tested, name ∈ p.parameters
  assigned : ∀ pair ∈ p.body.assigned, pair.1 = result ∧ pair.2 ∈ p.labels

theorem parameterTokens_braceless (names : List String) :
    ∀ t ∈ parameterTokens names, t.isBrace = false := by
  induction names with
  | nil => simp [parameterTokens, Token.isBrace]
  | cons name rest ih =>
    cases rest with
    | nil => simp [parameterTokens, Token.isBrace]
    | cons next more =>
      intro t member
      rw [parameterTokens, List.mem_append] at member
      rcases member with here | later
      · simp only [List.mem_cons, List.not_mem_nil, or_false] at here
        rcases here with rfl | rfl | rfl | rfl <;> rfl
      · exact ih t later

theorem renderAll_append (width : Nat) (a b : List Line) :
    Line.renderAll width (a ++ b) = Line.renderAll width a ++ Line.renderAll width b := by
  rw [Line.renderAll, List.map_append, String.join_append]
  rfl

end Code

open Code

theorem FeatureSet.entry_unique {features : FeatureSet} {entry other : Nat × String}
    (member : entry ∈ features.entries) (member' : other ∈ features.entries)
    (same : entry.2 = other.2) : entry = other := by
  have names : (features.entries.map Prod.snd).Nodup :=
    List.pairwise_map.mpr (features.ordered.imp And.right)
  exact List.inj_on_of_nodup_map names member member' same

theorem FeatureSet.index_unique {features : FeatureSet} {f g : Nat} {name : String}
    (first : features.name? f = some name) (second : features.name? g = some name) : f = g := by
  obtain ⟨_, _, entries, _⟩ := List.lookup_eq_some_iff.mp first
  obtain ⟨_, _, entries', _⟩ := List.lookup_eq_some_iff.mp second
  have here : (f, name) ∈ features.entries := by simp [entries]
  have there : (g, name) ∈ features.entries := by simp [entries']
  exact congrArg Prod.fst (entry_unique here there rfl)

theorem FeatureSet.names_valid (features : FeatureSet) (tested : List Nat) :
    ∀ name ∈ tested.filterMap features.name?, isIdentifier name = true := by
  intro name member
  obtain ⟨_, _, named⟩ := List.mem_filterMap.mp member
  exact FeatureSet.name_identifier named

theorem FeatureSet.names_distinct (features : FeatureSet) (uses : List Nat) :
    ((firstUses uses).filterMap features.name?).Nodup := by
  have once : (firstUses uses).Nodup := by
    refine (firstUses_ordered uses).imp ?_
    intro a b less same
    rw [same] at less
    exact Nat.lt_irrefl _ less
  refine List.Nodup.filterMap ?_ once
  intro f g name first second
  exact FeatureSet.index_unique first second

theorem DecisionTree.Refers.map_names {features : FeatureSet} {labels : LabelSet}
    {tree : DecisionTree} (refers : tree.Refers features labels) :
    ((firstUses tree.tests).filterMap features.name?).map some =
      (firstUses tree.tests).map features.name? := by
  rw [refers.names_eq, List.map_map]
  exact List.map_congr_left fun f member => (refers.name_eq f member).symm

theorem DecisionTree.draft_scope {features : FeatureSet} {labels : LabelSet} {tree : DecisionTree}
    {draft : Draft} (drafted : tree.draft? features labels = some draft) (config : Config)
    (depth : Nat) :
    (∀ name ∈ (draft.block config depth).tested, name ∈ tree.tests.filterMap features.name?) ∧
      ∀ pair ∈ (draft.block config depth).assigned, pair.1 = resultName ∧
      pair.2 ∈ labels.labels := by
  induction tree generalizing draft depth with
  | leaf node payload =>
    simp only [draft?, Option.bind_eq_bind, Option.bind_eq_some_iff] at drafted
    obtain ⟨_, _, label, found, made⟩ := drafted
    cases made
    have declared : label ∈ labels.labels := List.mem_of_getElem? found
    simp [Draft.block, Block.tested, Block.assigned, declared]
  | split node feature threshold left right ihl ihr =>
    simp only [draft?, Option.bind_eq_bind, Option.bind_eq_some_iff] at drafted
    obtain ⟨name, named, _, left_drafted, _, right_drafted, made⟩ := drafted
    cases made
    obtain ⟨left_tested, left_assigned⟩ := ihl left_drafted (depth + 1)
    obtain ⟨right_tested, right_assigned⟩ := ihr right_drafted (depth + 1)
    rw [Draft.block]
    split
    · simp [Block.tested, Block.assigned]
    · rw [tests, List.filterMap_cons_some named, List.filterMap_append]
      constructor
      · intro other member
        simp only [Block.tested, List.mem_cons, List.mem_append, List.not_mem_nil, or_false]
          at member ⊢
        rcases member with same | inside | inside
        · exact .inl same
        · exact .inr (.inl (left_tested other inside))
        · exact .inr (.inr (right_tested other inside))
      · intro pair member
        simp only [Block.assigned, List.mem_append, List.not_mem_nil, or_false] at member
        rcases member with inside | inside
        · exact left_assigned pair inside
        · exact right_assigned pair inside

namespace Plan

def functionBody (plan : Plan) (inner : Block) : Block :=
  .command (.declare plan.config.typeName resultName)
    (inner.append (.command (.give resultName) .done))

variable {plan : Plan} {source : Source} {tree : DecisionTree} {draft : Draft} {printed : Body}

theorem Made.function_reads (made : plan.Made source tree draft printed) :
    ∃ ts, Lists printed.written ts ∧
      Reads ([.word plan.config.typeName, .word resultName] ++ [.mark ';'] ++ ts ++
        ([.word "return", .word resultName] ++ [.mark ';']))
        (plan.functionBody (draft.block plan.config 1)) := by
  obtain ⟨ts, lists, reads⟩ := Draft.print_reads made.sound.positive
    (DecisionTree.draft_named made.drafted) made.done
  have result : isIdentifier resultName = true := by decide
  have other : plan.config.typeName ≠ "return" := by
    intro same
    have valid := made.sound.typeName
    rw [same] at valid
    exact absurd valid (by decide)
  have declared : command? [.word plan.config.typeName, .word resultName] =
      some (.declare plan.config.typeName resultName) := by
    simp [command?, result, other, made.sound.typeName]
  have given : command? [.word "return", .word resultName] = some (.give resultName) := by
    simp [command?, result]
  exact ⟨ts, lists, ((Reads.command declared (by simp [Token.isPlain])).append reads).append
    (Reads.command given (by simp [Token.isPlain]))⟩

theorem assemble_text (plan : Plan) (parameters : List String) (body : Body) :
    (plan.assemble parameters body).text = Line.renderAll plan.config.indentWidth
      (Section.typeDeclaration plan.labels plan.config ++
        Section.docHeader plan.labels plan.config ++
        Section.signature parameters plan.config ++ body.written ++ Section.epilogue) := by
  simp only [Source.text, assemble, Body.render, Body.written, renderAll_append]

theorem Made.text_eq (made : plan.Made source tree draft printed) :
    source.text = Line.renderAll plan.config.indentWidth
      (Section.typeDeclaration plan.labels plan.config ++
        Section.docHeader plan.labels plan.config ++
        Section.signature ((firstUses tree.tests).filterMap plan.features.name?) plan.config ++
        printed.written ++ Section.epilogue) := by
  rw [made.assembled]
  exact assemble_text plan _ printed

theorem Made.docHeader_eq (made : plan.Made source tree draft printed) :
    source.docHeader =
      Line.renderAll plan.config.indentWidth (Section.docHeader plan.labels plan.config) := by
  rw [made.assembled]
  simp only [assemble]

theorem Made.program (made : plan.Made source tree draft printed) :
    ∃ comment : String, '/' ∉ comment.toList ∧ source.docHeader = "/*" ++ comment ++ "*/\n" ∧
      program? source.text = some
        { typeName := plan.config.typeName
          enumerators := plan.labels.labels.zipIdx
          comment := comment
          returnType := plan.config.typeName
          functionName := plan.config.functionName
          parameters := (firstUses tree.tests).filterMap plan.features.name?
          body := plan.functionBody (draft.block plan.config 1) } := by
  have sound := made.sound
  have valid := plan.features.names_valid (firstUses tree.tests)
  obtain ⟨ts, lists, f, nests, reads⟩ := made.function_reads
  obtain ⟨comment, absent, header, comment_lists⟩ := lists_docHeader plan.labels sound.typeName
  have lines := ((((lists_typeDeclaration plan.labels sound.typeName).append comment_lists).append
    (lists_signature valid sound.typeName sound.functionName)).append lists).append lists_epilogue
  have scanned := tokens_of_lists lines plan.config.indentWidth
  rw [← made.text_eq] at scanned
  generalize names : (firstUses tree.tests).filterMap plan.features.name? =
    parameters at valid scanned ⊢
  have middle := @nests_row ([.word plan.config.typeName, .mark ';', .comment comment,
      .word plan.config.typeName, .word plan.config.functionName, .mark '('] ++
      parameterTokens parameters) (by
    intro t member
    rcases List.mem_append.mp member with here | later
    · simp only [List.mem_cons, List.not_mem_nil, or_false] at here
      rcases here with rfl | rfl | rfl | rfl | rfl | rfl <;> rfl
    · exact parameterTokens_braceless parameters t later)
  have nested :=
    (nests_typeDeclaration plan.labels.labels.zipIdx).append (middle.append nests.group)
  simp only [List.append_assoc, List.cons_append, List.nil_append] at scanned nested
  have found := forest_of_nests scanned nested
  rw [Forest.append_assoc, Forest.append, Forest.append] at found
  refine ⟨comment, absent, ?_, ?_⟩
  · rw [made.docHeader_eq, header]
  · have pairs := @enumeration_tokens plan.labels (made.met .labels)
    simp [program?, found, Forest.parted_row, pairs, parameters_tokens valid,
      Reads.block_code reads, sound.typeName, sound.functionName]

theorem mem_parameters {name : String} :
    name ∈ (firstUses tree.tests).filterMap plan.features.name? ↔
      name ∈ tree.tests.filterMap plan.features.name? := by
  simp only [List.mem_filterMap, mem_firstUses]

theorem Made.in_scope (made : plan.Made source tree draft printed) (comment : String) :
    Program.Scoped
      { typeName := plan.config.typeName
        enumerators := plan.labels.labels.zipIdx
        comment := comment
        returnType := plan.config.typeName
        functionName := plan.config.functionName
        parameters := (firstUses tree.tests).filterMap plan.features.name?
        body := plan.functionBody (draft.block plan.config 1) } resultName := by
  have names : plan.NamesApart := made.met .names
  have labels : plan.labels.labels.zipIdx.map Prod.fst = plan.labels.labels :=
    List.zipIdx_map_fst ..
  have tests : ∀ name ∈ (firstUses tree.tests).filterMap plan.features.name?, plan.Tests name :=
    fun name member => (tests_iff made.represents).mpr (mem_parameters.mp member)
  obtain ⟨tested, assigned⟩ := DecisionTree.draft_scope made.drafted plan.config 1
  refine ⟨?_, ?_, ?_, made.sound.apart, ?_, ?_⟩
  · intro name member
    rw [Program.labels, labels, List.append_assoc, List.mem_append, List.mem_append] at member
    rcases member with label | parameter | around
    · exact plan.labels.identifiers name label
    · exact plan.features.names_valid _ name parameter
    · simp only [List.mem_cons, List.not_mem_nil, or_false] at around
      rcases around with rfl | rfl | rfl
      · decide
      · exact made.sound.functionName
      · exact made.sound.typeName
  · rw [Program.labels, labels]
    refine List.nodup_append.mpr ⟨plan.labels.distinct, plan.features.names_distinct tree.tests, ?_⟩
    rintro label declared _ parameter rfl
    exact (names.tested label (tests label parameter)).2 declared
  · intro name member
    rw [Program.labels, labels] at member
    rcases List.mem_append.mp member with label | parameter
    · exact names.labels name label
    · exact (names.tested name (tests name parameter)).1
  · intro name member
    rcases Block.mem_tested_append.mp member with inside | behind
    · exact mem_parameters.mpr (tested name inside)
    · cases behind
  · intro pair member
    rw [Program.labels, labels]
    rcases Block.mem_assigned_append.mp member with inside | behind
    · exact assigned pair inside
    · cases behind

/-- The whole text is one program, well formed and closed in scope. -/
theorem text_well_formed {plan : Plan} {source : Source}
    (made : plan.source.run = some (.ok source)) :
    ∃ (program : Program) (inner : Block) (tree : DecisionTree) (tested : List Nat),
      program? source.text = some program ∧
      program.typeName = plan.config.typeName ∧
      program.enumerators = plan.labels.labels.zipIdx ∧
      source.docHeader = "/*" ++ program.comment ++ "*/\n" ∧ '/' ∉ program.comment.toList ∧
      program.returnType = plan.config.typeName ∧
      program.functionName = plan.config.functionName ∧
      plan.table.Unfolds 0 tree ∧
      program.parameters.map some = tested.map plan.features.name? ∧
      (∀ feature, feature ∈ tested ↔ feature ∈ tree.tests) ∧
      tested.Pairwise (fun a b => tree.tests.idxOf a < tree.tests.idxOf b) ∧
      statements? source.body = some inner ∧
      program.body = .command (.declare plan.config.typeName "ret")
        (inner.append (.command (.give "ret") .done)) ∧
      program.Scoped "ret" := by
  obtain ⟨tree, draft, printed, made⟩ := source_made made
  obtain ⟨comment, absent, header, read⟩ := made.program
  exact ⟨_, _, tree, firstUses tree.tests, read, rfl, rfl, header, absent, rfl, rfl,
    made.represents.unfolds, made.refers.map_names, fun _ => mem_firstUses, firstUses_ordered _,
    made.statements, rfl, made.in_scope comment⟩

theorem sample_well_formed :
    ∃ source program, sample.source.run = some (.ok source) ∧ program? source.text = some program ∧
      program.enumerators = [("low", 0), ("high", 1)] ∧ program.functionName = "dtc" ∧
      program.Scoped "ret" := by
  obtain ⟨source, made⟩ := sample_source
  obtain ⟨program, _, _, _, read, _, enumerators, _, _, _, function, _, _, _, _, _, _, closed⟩ :=
    text_well_formed made
  exact ⟨source, program, made, read, enumerators, function, closed⟩

end Plan

end DecisionTreeC
