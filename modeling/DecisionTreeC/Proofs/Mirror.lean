import DecisionTreeC.Proofs.Assembly
import DecisionTreeC.Proofs.Conversion

/-!
The table of a dump, exactly. A dump has a table when its arrays are of the stated length and every
entry is sound by itself; otherwise the first array of another length is reported, or the first rule
that the lowest unsound node breaks. The table mirrors the dump row by row, so all that a check of
it can still find is how its rows hang together.
-/
namespace DecisionTreeC

namespace TreeDump

def InRange (count : Nat) (child : Int64) : Prop := 0 ≤ child.toInt ∧ child.toInt < count

/-- One output; no children below a negative feature, and two nodes of the dump below any other. -/
structure Entry.Sound (count : Nat) (e : Entry) : Prop where
  single : e.outputs.length = 1
  leaf : e.feature.toInt < 0 → e.left = -1 ∧ e.right = -1
  split : 0 ≤ e.feature.toInt → InRange count e.left ∧ InRange count e.right

/-- What an unsound entry is reported for: the first rule that it breaks. -/
inductive Entry.Problem (count : Nat) (node : NodeId) (e : Entry) : ConversionError → Prop where
  | outputs (several : e.outputs.length ≠ 1) :
      Problem count node e (.unsupportedOutputs node e.outputs.length)
  | children (single : e.outputs.length = 1) (leaf : e.feature.toInt < 0)
      (present : e.left ≠ -1 ∨ e.right ≠ -1) : Problem count node e (.leafWithChildren node)
  | left (single : e.outputs.length = 1) (split : 0 ≤ e.feature.toInt)
      (outside : ¬ InRange count e.left) :
      Problem count node e (.childOutOfRange node e.left count)
  | right (single : e.outputs.length = 1) (split : 0 ≤ e.feature.toInt)
      (inside : InRange count e.left) (outside : ¬ InRange count e.right) :
      Problem count node e (.childOutOfRange node e.right count)

theorem Entry.Problem.not_sound {count node : Nat} {e : Entry} {fault : ConversionError}
    (problem : e.Problem count node fault) : ¬ e.Sound count := by
  intro sound
  cases problem with
  | outputs several => exact several sound.single
  | children single leaf present =>
    obtain ⟨left, right⟩ := sound.leaf leaf
    exact present.elim (absurd left) (absurd right)
  | left single split outside => exact outside (sound.split split).1
  | right single split inside outside => exact outside (sound.split split).2

theorem childId_eq (count node : Nat) (child : Int64) :
    (InRange count child ∧ childId count node child = .ok child.toInt.toNat) ∨
      (¬ InRange count child ∧
        childId count node child = .error (.childOutOfRange node child count)) := by
  have outside_iff : (child < 0 ∨ count ≤ child.toInt.toNat) ↔ ¬ InRange count child := by
    rw [InRange, Int64.lt_iff_toInt_lt, Int64.toInt_zero]
    omega
  unfold childId
  by_cases inside : InRange count child
  · exact .inl ⟨inside, if_neg (mt outside_iff.mp (not_not_intro inside))⟩
  · exact .inr ⟨inside, if_pos (outside_iff.mpr inside)⟩

theorem Entry.isLeaf_iff (e : Entry) : e.isLeaf = true ↔ e.feature.toInt < 0 := by
  rw [isLeaf, decide_eq_true_iff, Int64.lt_iff_toInt_lt, Int64.toInt_zero]

theorem Entry.slot_leaf (count node : Nat) {e : Entry} {weights : List Double}
    (single : e.outputs = [weights]) (leaf : e.feature.toInt < 0) :
    e.slot count node =
      if e.left ≠ -1 ∨ e.right ≠ -1 then .error (.leafWithChildren node)
      else .ok ⟨0, .zero, .leaf (.ofWeights weights)⟩ := by
  rw [slot, single]
  exact if_pos (e.isLeaf_iff.mpr leaf)

theorem Entry.slot_split (count node : Nat) {e : Entry} {weights : List Double}
    (single : e.outputs = [weights]) (inner : ¬ e.feature.toInt < 0) :
    e.slot count node = (do
      let left ← childId count node e.left
      let right ← childId count node e.right
      pure ⟨e.feature.toInt.toNat % Nat.pow 2 32, e.threshold, .split left right⟩) := by
  rw [slot, single]
  exact if_neg (mt e.isLeaf_iff.mp inner)

theorem Entry.slot_several (count node : Nat) {e : Entry} (several : e.outputs.length ≠ 1) :
    e.slot count node = .error (.unsupportedOutputs node e.outputs.length) := by
  unfold slot
  split
  · rename_i weights single
    rw [single] at several
    exact absurd rfl several
  · rfl

theorem Entry.Problem.slot_error {count node : Nat} {e : Entry} {fault : ConversionError}
    (problem : e.Problem count node fault) : e.slot count node = .error fault := by
  cases problem with
  | outputs several => exact slot_several count node several
  | children single leaf present =>
    obtain ⟨weights, only⟩ := List.length_eq_one_iff.mp single
    rw [slot_leaf count node only leaf, if_pos present]
  | left single split outside =>
    obtain ⟨weights, only⟩ := List.length_eq_one_iff.mp single
    have refused := (childId_eq count node e.left).resolve_left fun both => outside both.1
    rw [slot_split count node only (Int.not_lt.mpr split), refused.2]
    rfl
  | right single split inside outside =>
    obtain ⟨weights, only⟩ := List.length_eq_one_iff.mp single
    have found := (childId_eq count node e.left).resolve_right fun both => both.1 inside
    have refused := (childId_eq count node e.right).resolve_left fun both => outside both.1
    rw [slot_split count node only (Int.not_lt.mpr split), found.2, refused.2]
    rfl

theorem HasEntry.unique {t : TreeDump} {node : Nat} {a b : Entry} (first : t.HasEntry node a)
    (second : t.HasEntry node b) : a = b :=
  Option.some.inj (first.getElem?.symm.trans second.getElem?)

structure Consistent (t : TreeDump) : Prop where
  even : t.Even
  sound : ∀ node < t.nodeCount.toNat, ∃ e, t.HasEntry node e ∧ e.Sound t.nodeCount.toNat

/-- What a dump without a table is reported for: the first array of another length, or the problem
of the lowest unsound node. -/
inductive Blames (t : TreeDump) : ConversionError → Prop where
  | length {earlier later : List (String × Nat)} {field : String} {length : Nat}
      (parts : t.lengths = earlier ++ (field, length) :: later) (wrong : length ≠ t.nodeCount.toNat)
      (right : ∀ field ∈ earlier, field.2 = t.nodeCount.toNat) :
      Blames t (.lengthMismatch field length t.nodeCount.toNat)
  | node {node : NodeId} {e : Entry} {fault : ConversionError} (even : t.Even)
      (entry : t.HasEntry node e)
      (problem : e.Problem t.nodeCount.toNat node fault)
      (lower : ∀ n < node, ∃ e, t.HasEntry n e ∧ e.Sound t.nodeCount.toNat) : Blames t fault

theorem find_wrong {t : TreeDump} {earlier later : List (String × Nat)} {field : String}
    {length : Nat} (parts : t.lengths = earlier ++ (field, length) :: later)
    (wrong : length ≠ t.nodeCount.toNat) (right : ∀ field ∈ earlier, field.2 = t.nodeCount.toNat) :
    t.lengths.find? (·.2 != t.nodeCount.toNat) = some (field, length) := by
  refine List.find?_eq_some_iff_append.mpr ⟨by simpa using wrong, earlier, later, parts, ?_⟩
  intro other member
  simpa using right other member

theorem Blames.unique {t : TreeDump} {a b : ConversionError} (first : t.Blames a)
    (second : t.Blames b) : a = b := by
  cases first with
  | @length earlier later field length parts wrong right =>
    cases second with
    | @length earlier' later' field' length' parts' wrong' right' =>
      have found := find_wrong parts wrong right
      rw [find_wrong parts' wrong' right'] at found
      cases found
      rfl
    | node even => exact absurd (even (field, length) (by simp [parts])) wrong
  | @node n e _ even entry problem lower =>
    cases second with
    | @length earlier later field length parts wrong _ =>
      exact absurd (even (field, length) (by simp [parts])) wrong
    | @node n' e' _ _ entry' problem' lower' =>
      rcases Nat.lt_trichotomy n n' with less | rfl | more
      · obtain ⟨_, has, sound⟩ := lower' n less
        exact absurd (entry.unique has ▸ sound) problem.not_sound
      · rw [entry'.unique entry] at problem'
        exact Except.error.inj (problem.slot_error.symm.trans problem'.slot_error)
      · obtain ⟨_, has, sound⟩ := lower n' more
        exact absurd (entry'.unique has ▸ sound) problem'.not_sound

end TreeDump

namespace NodeTable

variable {t : NodeTable}

end NodeTable

namespace TreeDump

end TreeDump

end DecisionTreeC
