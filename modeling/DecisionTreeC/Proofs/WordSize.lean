import DecisionTreeC.Proofs.DepthLimit

/-!
Depths and indents in words of 64 bits. The depth limit is a sum that stays at the greatest word,
and the indent of a line is a product of words. No depth in a table that fits memory is beyond the
first, and no text that fits memory has a line beyond the second, so both come out as with unbounded
numbers.
-/
namespace DecisionTreeC

def saturatingAdd (a b : Nat) : Nat := min (a + b) (UInt64.size - 1)

theorem saturatingAdd_lt_iff {limit depth : Nat} (word : depth < UInt64.size) :
    saturatingAdd limit 1 < depth ↔ limit + 1 < depth := by
  unfold saturatingAdd
  omega

namespace Plan

/-- The plan whose limit, with one added, is the sum in words. -/
def saturated (plan : Plan) : Plan := plan.limited (saturatingAdd plan.config.maxDepth 1 - 1)

variable (plan : Plan)

theorem saturated_limit :
    plan.saturated.config.maxDepth + 1 = saturatingAdd plan.config.maxDepth 1 := by
  change saturatingAdd plan.config.maxDepth 1 - 1 + 1 = _
  have positive : 0 < saturatingAdd plan.config.maxDepth 1 := by
    rw [saturatingAdd, UInt64.size]
    omega
  omega

theorem action_saturated (depths : Array Nat) (node : NodeId) {depth : Nat}
    (word : depth < UInt64.size) :
    plan.saturated.action depths node depth = plan.action depths node depth := by
  have limit : plan.saturated.config.maxDepth + 1 < depth ↔ plan.config.maxDepth + 1 < depth := by
    rw [saturated_limit, saturatingAdd_lt_iff word]
  unfold action
  by_cases deep : plan.config.maxDepth + 1 < depth
  · rw [if_pos deep, if_pos (limit.mpr deep)]
    rfl
  · rw [if_neg deep, if_neg (mt limit.mp deep)]
    rfl

def InWords (frames : List Frame) : Prop :=
  ∀ node depth, .node node depth ∈ frames → depth < UInt64.size

theorem InWords.tail {frame : Frame} {rest : List Frame} (words : InWords (frame :: rest)) :
    InWords rest :=
  fun node depth member => words node depth (List.mem_cons_of_mem _ member)

theorem InWords.branch {rest : List Frame} {depth : Nat} {name literal : String}
    {left right : NodeId} (words : InWords rest) (next : depth + 1 < UInt64.size) :
    InWords (.node left (depth + 1) :: .otherwise depth name literal :: .node right (depth + 1) ::
      .close depth :: rest) := by
  intro node deep member
  simp only [List.mem_cons, Frame.node.injEq, reduceCtorEq, false_or] at member
  rcases member with ⟨_, rfl⟩ | ⟨_, rfl⟩ | later
  · exact next
  · exact next
  · exact words node deep later

/-- Frames are worked off alike: a branch goes no deeper than the table is long. -/
theorem emit_saturated (fits : plan.table.size < UInt64.size) (depths : Array Nat) (body : Body)
    {frames : List Frame} (words : InWords frames) :
    plan.saturated.emit depths body frames = plan.emit depths body frames := by
  fun_induction plan.emit depths body frames with
  | case1 body => rw [emit]
  | case2 body depth rest ih | case3 body depth name literal rest ih =>
    rw [emit]
    exact ih words.tail
  | case4 body id depth rest acted | case5 body id depth rest fault acted =>
    rw [emit, plan.action_saturated depths id (words id depth (.head _)), acted]
  | case6 body id depth rest statements acted ih | case7 body id depth rest below acted ih =>
    rw [emit, plan.action_saturated depths id (words id depth (.head _)), acted]
    exact ih words.tail
  | case8 body id depth rest split acted inside ih =>
    rw [emit, plan.action_saturated depths id (words id depth (.head _)), acted]
    exact (if_pos inside).trans (ih (words.tail.branch (Nat.lt_of_le_of_lt inside fits)))
  | case9 body id depth rest split acted outside =>
    rw [emit, plan.action_saturated depths id (words id depth (.head _)), acted]
    exact if_neg outside

theorem body_saturated (fits : plan.table.size < UInt64.size) :
    plan.saturated.body = plan.body := by
  have words : InWords [.node 0 1] := by simp [InWords, UInt64.size]
  unfold body
  exact congrArg plan.table.subtreeDepths.bind
    (funext fun depths => plan.emit_saturated fits depths _ words)

theorem source_saturated (fits : plan.table.size < UInt64.size) :
    plan.saturated.source.run = plan.source.run := by
  change plan.saturated.report.map _ = plan.report.map _
  have checks : plan.saturated.prepare.run = plan.prepare.run := rfl
  unfold report
  rw [checks, body_saturated plan fits]
  -- Only a notice names the limit itself, and the outcome is without notices.
  cases plan.prepare.run with
  | none => rfl
  | some checked =>
    cases checked with
    | error fault => rfl
    | ok parameters =>
      cases plan.body with
      | none => rfl
      | some emitted =>
        obtain ⟨body, stopped⟩ := emitted
        cases stopped <;> rfl

end Plan

namespace Line

def renderWord (width : Nat) (line : Line) : String :=
  String.ofList (List.replicate (UInt64.ofNat line.level * UInt64.ofNat width).toNat ' ') ++
    line.text ++ "\n"

theorem utf8ByteSize_spaces (count : Nat) :
    (String.ofList (List.replicate count ' ')).utf8ByteSize = count := by
  induction count with
  | zero => rfl
  | succ count ih =>
    rw [List.replicate_succ, String.ofList_cons, String.utf8ByteSize_append, ih, Nat.add_comm]
    rfl

theorem utf8ByteSize_render (width : Nat) (line : Line) :
    (line.render width).utf8ByteSize = line.level * width + line.text.utf8ByteSize + 1 := by
  rw [render, String.utf8ByteSize_append, String.utf8ByteSize_append, utf8ByteSize_spaces]
  rfl

theorem renderWord_eq {width : Nat} {line : Line}
    (fits : (line.render width).utf8ByteSize < UInt64.size) :
    line.renderWord width = line.render width := by
  have product : (UInt64.ofNat line.level * UInt64.ofNat width).toNat = line.level * width := by
    rw [utf8ByteSize_render, UInt64.size] at fits
    rw [UInt64.toNat_mul, UInt64.toNat_ofNat', UInt64.toNat_ofNat', ← Nat.mul_mod]
    exact Nat.mod_eq_of_lt (by omega)
  rw [renderWord, product, render]

theorem join_renderWord {width : Nat} {lines : List Line}
    (fits : (renderAll width lines).utf8ByteSize < UInt64.size) :
    String.join (lines.map (·.renderWord width)) = renderAll width lines := by
  induction lines with
  | nil => rfl
  | cons line rest ih =>
    have whole : renderAll width (line :: rest) = line.render width ++ renderAll width rest :=
      String.join_cons
    rw [whole, String.utf8ByteSize_append] at fits
    rw [List.map_cons, String.join_cons, renderWord_eq (by omega), ih (by omega), whole]

end Line

end DecisionTreeC
