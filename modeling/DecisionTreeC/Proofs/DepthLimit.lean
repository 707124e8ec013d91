import DecisionTreeC.Proofs.Decision

/-!
Two depth limits for one plan. The checks before the body do not see the limit, so a source can only
be lost at the deeper one, to a threshold that the other cuts off. A body within the deeper limit
goes on where the other stops, and decides alike everywhere else; where nothing was cut off, the two
sources are the same.
-/
namespace DecisionTreeC

open Code

def Config.limited (config : Config) (limit : Nat) : Config := { config with maxDepth := limit }

namespace Draft

variable {config : Config} {limit deeper : Nat}

/-- What is printed within a limit is printed within a lower one: every threshold met there
is met here. -/
theorem print_lower (raised : limit ≤ deeper) {draft : Draft} {depth : Nat} {printed : Body}
    (done : draft.print (config.limited deeper) depth = .ok printed) :
    ∃ lower, draft.print (config.limited limit) depth = .ok lower := by
  induction draft generalizing depth printed with
  | leaf node label weights => exact ⟨_, rfl⟩
  | split node name threshold left right ihl ihr =>
    rw [print]
    by_cases deep : (config.limited limit).maxDepth + 1 < depth
    · rw [if_pos deep]
      exact ⟨_, rfl⟩
    rw [if_neg deep]
    rcases print_split done with ⟨deeper, _⟩ | ⟨_, fits, first, second, left_done, right_done, _⟩
    · exact absurd (Nat.lt_of_le_of_lt (Nat.succ_le_succ raised) deeper) deep
    · obtain ⟨one, left_lower⟩ := ihl left_done
      obtain ⟨two, right_lower⟩ := ihr right_done
      rw [if_pos fits, left_lower, right_lower]
      exact ⟨_, rfl⟩

theorem print_whole (raised : limit ≤ deeper) {draft : Draft} {depth : Nat} {printed : Body}
    (done : draft.print (config.limited limit) depth = .ok printed)
    (whole : printed.truncations.toList = []) :
    draft.print (config.limited deeper) depth = .ok printed := by
  induction draft generalizing depth printed with
  | leaf node label weights => exact done
  | split node name threshold left right ihl ihr =>
    rcases print_split done with
      ⟨_, rfl⟩ | ⟨shallow, fits, first, second, left_done, right_done, rfl⟩
    · cases whole
    rw [branch_truncations, Array.toList_append, List.append_eq_nil_iff] at whole
    have shallow' : ¬ (config.limited deeper).maxDepth + 1 < depth := fun deep =>
      shallow (Nat.lt_of_le_of_lt (Nat.succ_le_succ raised) deep)
    rw [print, if_neg shallow', if_pos fits, ihl left_done whole.1, ihr right_done whole.2]
    rfl

theorem block_event (decide : String → String → Bool) (draft : Draft) (depth place : Nat) :
    ∃ event, ∀ after, (draft.block config depth).run decide place after = event :: after := by
  induction draft generalizing depth place with
  | leaf node label weights => exact ⟨_, fun _ => rfl⟩
  | split node name threshold left right ihl ihr =>
    rw [block]
    by_cases deep : config.maxDepth + 1 < depth
    · rw [if_pos deep]
      exact ⟨_, fun _ => rfl⟩
    rw [if_neg deep]
    simp only [Block.run]
    split
    · exact ihl (depth + 1) _
    · exact ihr (depth + 1) _

theorem block_within {node : NodeId} {name : String} {threshold : Double} {left right : Draft}
    {depth : Nat} (within : ¬ limit + 1 < depth) :
    (Draft.split node name threshold left right).block (config.limited limit) depth =
      .choice name (literalText threshold config.decimalPlaces)
        (left.block (config.limited limit) (depth + 1))
        (right.block (config.limited limit) (depth + 1)) .done :=
  if_neg within

theorem block_deeper (raised : limit ≤ deeper) {decide : String → String → Bool} {draft : Draft}
    {depth place : Nat} {c : Command}
    (performed : (draft.block (config.limited limit) depth).run decide place [] = [.command c])
    (place' : Nat) :
    (draft.block (config.limited deeper) depth).run decide place' [] = [.command c] := by
  induction draft generalizing depth place place' with
  | leaf node label weights => exact performed
  | split node name threshold left right ihl ihr =>
    by_cases deep : limit + 1 < depth
    · rw [block, if_pos (show (config.limited limit).maxDepth + 1 < depth from deep)] at performed
      cases performed
    rw [block_within deep, Block.run] at performed
    rw [block_within (by omega), Block.run]
    by_cases side : decide name (literalText threshold config.decimalPlaces) = true
    · rw [if_pos side] at performed ⊢
      exact ihl performed _
    · rw [if_neg side] at performed ⊢
      exact ihr performed _

end Draft

namespace Plan

variable {plan : Plan} {tree : DecisionTree} {draft : Draft} {printed : Body}

def limited (plan : Plan) (limit : Nat) : Plan := { plan with config := plan.config.limited limit }

theorem Ready.limited (ready : plan.Ready tree draft) (limit : Nat) :
    (plan.limited limit).Ready tree draft :=
  ready.reconfigured rfl rfl rfl

theorem Ready.statements (ready : plan.Ready tree draft)
    (done : draft.print plan.config 1 = .ok printed) (parameters : List String) :
    statements? (plan.assemble parameters printed).body = some (draft.block plan.config 1) := by
  obtain ⟨ts, lists, reads⟩ := Draft.print_reads ready.sound.positive
    (DecisionTree.draft_named ready.drafted) done
  exact statements_of_reads (tokens_of_lists lists plan.config.indentWidth) reads

theorem Ready.source_ok {source : Source} (ready : plan.Ready tree draft)
    (made : plan.source.run = some (.ok source)) :
    ∃ printed, draft.print plan.config 1 = .ok printed ∧
      source = plan.assemble ((firstUses tree.tests).filterMap plan.features.name?) printed := by
  rw [ready.source] at made
  cases done : draft.print plan.config 1 with
  | error e =>
    rw [done] at made
    cases made
  | ok printed =>
    rw [done] at made
    cases made
    exact ⟨printed, rfl, rfl⟩

/-- Raising the depth limit only refines the source. -/
theorem deeper_refines (plan : Plan) {limit deeper : Nat} (raised : limit ≤ deeper) :
    (∀ deep, (plan.limited deeper).source.run = some (.ok deep) →
      ∃ source, (plan.limited limit).source.run = some (.ok source)) ∧
    (∀ source deep, (plan.limited limit).source.run = some (.ok source) →
      (plan.limited deeper).source.run = some (.ok deep) →
      source.typeDeclaration = deep.typeDeclaration ∧ source.docHeader = deep.docHeader ∧
      source.signature = deep.signature ∧ source.epilogue = deep.epilogue ∧
      ∃ block deepBlock, statements? source.body = some block ∧
      statements? deep.body = some deepBlock ∧
        ∀ (decide : String → String → Bool) (label : String),
          .command (.assign "ret" label) ∈ block.run decide 0 [] →
            deepBlock.run decide 0 [] = [.command (.assign "ret" label)]) ∧
    (∀ source, (plan.limited limit).source.run = some (.ok source) → source.truncations = [] →
      (plan.limited deeper).source.run = some (.ok source)) := by
  rcases plan.prepare_outcome with ⟨e, refused⟩ | ⟨tree, draft, ready⟩
  · have none_made : ∀ bound source, (plan.limited bound).source.run ≠ some (.ok source) := by
      intro bound source made
      have refused' : (plan.limited bound).prepare.run = some (.error e) := refused
      rw [source_of_refused refused'] at made
      cases made
    refine ⟨?_, ?_, ?_⟩
    · exact fun deep made => absurd made (none_made deeper deep)
    · exact fun source _ made => absurd made (none_made limit source)
    · exact fun source made => absurd made (none_made limit source)
  have ready₁ := ready.limited limit
  have ready₂ := ready.limited deeper
  refine ⟨?_, ?_, ?_⟩
  · intro deep made
    obtain ⟨printed, done, _⟩ := ready₂.source_ok made
    obtain ⟨lower, done'⟩ := Draft.print_lower raised done
    have made' := ready₁.source
    rw [show draft.print (plan.limited limit).config 1 = .ok lower from done'] at made'
    exact ⟨_, made'⟩
  · intro source deep made made'
    obtain ⟨printed, done, rfl⟩ := ready₁.source_ok made
    obtain ⟨printed', done', rfl⟩ := ready₂.source_ok made'
    refine ⟨rfl, rfl, rfl, rfl, _, _, ready₁.statements done _, ready₂.statements done' _, ?_⟩
    intro decide label assigned
    obtain ⟨event, runs⟩ := @Draft.block_event (plan.limited limit).config decide draft 1 0
    rw [runs, List.mem_singleton] at assigned
    subst assigned
    exact Draft.block_deeper raised (runs []) 0
  · intro source made whole
    obtain ⟨printed, done, rfl⟩ := ready₁.source_ok made
    have done' := Draft.print_whole raised done whole
    have made' := ready₂.source
    rw [show draft.print (plan.limited deeper).config 1 = .ok printed from done'] at made'
    exact made'

theorem source_of_any {plan : Plan} {test : Source → Bool}
    (found : plan.source.run.any (fun outcome => outcome.toOption.any test) = true) :
    ∃ source, plan.source.run = some (.ok source) ∧ test source = true := by
  obtain ⟨outcome, made, passed⟩ := (Option.any_eq_true _ _).mp found
  cases outcome with
  | error e => cases passed
  | ok source => exact ⟨source, made, passed⟩

theorem sample_refined :
    ∃ source deep, (sample.limited 0).source.run = some (.ok source) ∧
      (sample.limited 1).source.run = some (.ok deep) ∧ source.isTruncated = true ∧
      source.signature = deep.signature ∧ deep.truncations = [] ∧
      (sample.limited 18446744073709551615).source.run = some (.ok deep) := by
  have cut : (sample.limited 0).source.run.any
      (fun outcome => outcome.toOption.any fun source => source.isTruncated) = true := by
        decide +kernel
  have whole : (sample.limited 1).source.run.any
      (fun outcome => outcome.toOption.any fun source => source.truncations.isEmpty) = true := by
    decide +kernel
  obtain ⟨source, made, truncated⟩ := source_of_any cut
  obtain ⟨deep, made', empty⟩ := source_of_any whole
  rw [List.isEmpty_iff] at empty
  have step : 0 ≤ 1 := by decide
  have further : 1 ≤ 18446744073709551615 := by decide
  obtain ⟨_, _, signature, _⟩ := (deeper_refines sample step).2.1 source deep made made'
  exact ⟨source, deep, made, made', truncated, signature, empty,
    (deeper_refines sample further).2.2 deep made' empty⟩

end Plan

end DecisionTreeC
