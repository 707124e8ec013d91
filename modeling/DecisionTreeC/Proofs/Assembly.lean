import DecisionTreeC.Proofs.Explore
import DecisionTreeC.Tree.Builder
import Mathlib.Data.List.Induction
import Mathlib.Logic.ExistsUnique

/-!
Tables assembled by calls to a builder, in any order and with any arguments. A builder is seen as a
function from node to slot, vacant where nothing was allocated; each call changes the slot of its
target and no other. After a whole run every row of the table is vacant, a split or a leaf, as the
last call with this target left it, and the check of the table can only complain about what such
rows can have.
-/
namespace DecisionTreeC

inductive Call where
  | initRoot
  | applySplit (node : NodeId) (feature : Nat) (threshold : Double)
  | setSplit (node : NodeId) (feature : Nat) (threshold : Double) (left right : NodeId)
  | setLeaf (node : NodeId) (leaf : Leaf)
  deriving DecidableEq

namespace Call

def target? : Call → Option NodeId
  | .initRoot => none
  | .applySplit node .. => some node
  | .setSplit node .. => some node
  | .setLeaf node _ => some node

def room (size : Nat) : Call → Nat
  | .initRoot => max size 1
  | .applySplit node .. => max (size + 2) (node + 1)
  | .setSplit node .. => max size (node + 1)
  | .setLeaf node _ => max size (node + 1)

def write (size : Nat) (old : Slot) : Call → Slot
  | .initRoot => old
  | .applySplit _ feature threshold => ⟨feature, threshold, .split size (size + 1)⟩
  | .setSplit _ feature threshold left right => ⟨feature, threshold, .split left right⟩
  | .setLeaf _ leaf => { old with role := .leaf leaf }

end Call

namespace TableBuilder

def call (b : TableBuilder) : Call → TableBuilder
  | .initRoot => b.initRoot.2
  | .applySplit node feature threshold => (b.applySplit node feature threshold).2
  | .setSplit node feature threshold left right => b.setSplit node feature threshold left right
  | .setLeaf node leaf => b.setLeaf node leaf

def run (b : TableBuilder) (calls : List Call) : TableBuilder := calls.foldl call b

def slot (b : TableBuilder) (node : NodeId) : Slot := b.slots[node]?.getD .vacant

theorem slots_eq (b : TableBuilder) (node : NodeId) :
    b.slots[node]? = if node < b.size then some (b.slot node) else none := by
  unfold slot size
  by_cases inside : node < b.slots.size
  · simp [inside]
  · simp [inside]

@[simp] theorem slot_empty (node : NodeId) : empty.slot node = .vacant := by
  simp [slot, empty]

@[simp] theorem size_ensure (b : TableBuilder) (node : NodeId) :
    (b.ensure node).size = max b.size (node + 1) := by
  simp only [ensure, size, Array.size_append, Array.size_replicate]
  omega

@[simp] theorem slot_ensure (b : TableBuilder) (node other : NodeId) :
    (b.ensure node).slot other = b.slot other := by
  simp only [slot, ensure, Array.getElem?_append, Array.getElem?_replicate]
  split
  · rfl
  · rename_i outside
    rw [Array.getElem?_eq_none (Nat.le_of_not_lt outside)]
    split <;> rfl

@[simp] theorem size_change (b : TableBuilder) (node : NodeId) (f : Slot → Slot) :
    (b.change node f).size = max b.size (node + 1) := by
  rw [← size_ensure]
  simp [change, size]

@[simp] theorem slot_change (b : TableBuilder) (node other : NodeId) (f : Slot → Slot) :
    (b.change node f).slot other = if other = node then f (b.slot other) else b.slot other := by
  have grown := slots_eq (b.ensure node) other
  rw [size_ensure, slot_ensure] at grown
  by_cases here : other = node
  · subst here
    have inside : other < max b.size (other + 1) := Nat.le_max_right ..
    rw [if_pos inside] at grown
    rw [slot, change, Array.getElem?_modify, if_pos rfl, if_pos rfl, grown]
    rfl
  · rw [slot, change, Array.getElem?_modify, if_neg (Ne.symm here), if_neg here,
      ← slot_ensure b node]
    rfl

/-- One call, in full: the slots there are, and what each of them holds. -/
theorem size_call (b : TableBuilder) (c : Call) : (b.call c).size = c.room b.size := by
  cases c with
  | initRoot => simp [call, initRoot, Call.room]
  | applySplit node feature threshold =>
    simp only [call, applySplit, setSplit, size_change, size_ensure, Call.room]
    omega
  | setSplit node feature threshold left right => simp [call, setSplit, Call.room]
  | setLeaf node leaf => simp [call, setLeaf, Call.room]

theorem slot_call (b : TableBuilder) (c : Call) (node : NodeId) :
    (b.call c).slot node =
      if c.target? = some node then c.write b.size (b.slot node) else b.slot node := by
  cases c with
  | initRoot => simp [call, initRoot, Call.target?]
  | applySplit target feature threshold =>
    simp [call, applySplit, setSplit, Call.target?, Call.write, eq_comm]
  | setSplit target feature threshold left right =>
    simp [call, setSplit, Call.target?, Call.write, eq_comm]
  | setLeaf target leaf => simp [call, setLeaf, Call.target?, Call.write, eq_comm]

theorem run_snoc (b : TableBuilder) (calls : List Call) (c : Call) :
    b.run (calls ++ [c]) = (b.run calls).call c := by
  simp [run]

theorem run_append (b : TableBuilder) (first second : List Call) :
    b.run (first ++ second) = (b.run first).run second := by
  simp [run]

theorem size_le_call (b : TableBuilder) (c : Call) : b.size ≤ (b.call c).size := by
  rw [size_call]
  cases c <;> simp only [Call.room] <;> omega

theorem size_le_run (b : TableBuilder) (calls : List Call) : b.size ≤ (b.run calls).size := by
  induction calls generalizing b with
  | nil => exact Nat.le_refl _
  | cons c rest ih => exact Nat.le_trans (size_le_call b c) (ih (b.call c))

theorem target_lt_call (b : TableBuilder) {c : Call} {node : NodeId}
    (target : c.target? = some node) : node < (b.call c).size := by
  rw [size_call]
  cases c with
  | initRoot => cases target
  | applySplit _ _ _ | setSplit _ _ _ _ _ | setLeaf _ _ =>
    cases target
    exact Nat.le_max_right _ (node + 1)

theorem slot_run_other (b : TableBuilder) {calls : List Call} {node : NodeId}
    (others : ∀ c ∈ calls, c.target? ≠ some node) : (b.run calls).slot node = b.slot node := by
  induction calls generalizing b with
  | nil => rfl
  | cons c rest ih =>
    have here := others c (List.mem_cons_self ..)
    have later := ih (b.call c) fun other member => others other (List.mem_cons_of_mem c member)
    have step := slot_call b c node
    rw [if_neg here] at step
    exact later.trans step

theorem slot_run_last (b : TableBuilder) {before after : List Call} {c : Call} {node : NodeId}
    (target : c.target? = some node) (others : ∀ later ∈ after, later.target? ≠ some node) :
    (b.run (before ++ c :: after)).slot node =
      c.write (b.run before).size ((b.run before).slot node) := by
  rw [run_append]
  change (((b.run before).call c).run after).slot node = _
  rw [slot_run_other _ others, slot_call, if_pos target]

theorem target_lt_run (b : TableBuilder) {calls : List Call} {c : Call} {node : NodeId}
    (member : c ∈ calls) (target : c.target? = some node) : node < (b.run calls).size := by
  obtain ⟨before, after, rfl⟩ := List.append_of_mem member
  rw [run_append]
  exact Nat.lt_of_lt_of_le (target_lt_call _ target) (size_le_run _ after)

theorem write_not_vacant {c : Call} {node : NodeId} (target : c.target? = some node) (size : Nat)
    (old : Slot) : (c.write size old).role ≠ .vacant := by
  cases c with
  | initRoot => cases target
  | applySplit _ _ _ | setSplit _ _ _ _ _ | setLeaf _ _ => exact nofun

theorem vacant_iff (calls : List Call) (node : NodeId) :
    ((empty.run calls).slot node).role = .vacant ↔ ∀ c ∈ calls, c.target? ≠ some node := by
  induction calls using List.reverseRecOn with
  | nil => simp [run, Slot.vacant]
  | append_singleton calls c ih =>
    rw [run_snoc, slot_call]
    simp only [List.mem_append, List.mem_singleton, or_imp, forall_and, forall_eq, ← ih]
    by_cases target : c.target? = some node
    · rw [if_pos target]
      exact ⟨fun vacant => absurd vacant (write_not_vacant target _ _),
        fun both => absurd target both.2⟩
    · rw [if_neg target]
      exact ⟨fun vacant => ⟨vacant, target⟩, fun both => both.1⟩

end TableBuilder

namespace NodeTable

/-- The entries of a row in one of its three states: vacant, a split without a class, or a leaf
without children. -/
def Holds (t : NodeTable) (node : NodeId) : Role → Prop
  | .vacant => t.VacantRow node
  | .split left right =>
    (∃ feature threshold, t.SplitRow node feature threshold left right) ∧ t.leaf[node]? = some none
  | .leaf payload => t.LeafRow node payload

variable {t : NodeTable}

theorem Holds.entries {node : NodeId} {role : Role} (holds : t.Holds node role) :
    t.left[node]? = some role.left? ∧ t.right[node]? = some role.right? ∧
      t.leaf[node]? = some role.leaf? := by
  cases role with
  | vacant => exact ⟨holds.left, holds.right, holds.leaf⟩
  | split left right =>
    obtain ⟨⟨feature, threshold, row⟩, unclassed⟩ := holds
    exact ⟨row.left, row.right, unclassed⟩
  | leaf payload => exact ⟨holds.left, holds.right, holds.leaf⟩

theorem Holds.unique {node : NodeId} {a b : Role} (first : t.Holds node a)
    (second : t.Holds node b) : a = b := by
  obtain ⟨left, right, leaf⟩ := first.entries
  obtain ⟨left', right', leaf'⟩ := second.entries
  rw [left, Option.some.injEq] at left'
  rw [right, Option.some.injEq] at right'
  rw [leaf, Option.some.injEq] at leaf'
  cases a <;> cases b <;> simp_all [Role.left?, Role.right?, Role.leaf?]

structure SameRow (t u : NodeTable) (node : NodeId) : Prop where
  feature : u.feature[node]? = t.feature[node]?
  threshold : u.threshold[node]? = t.threshold[node]?
  left : u.left[node]? = t.left[node]?
  right : u.right[node]? = t.right[node]?
  isLeaf : u.isLeaf[node]? = t.isLeaf[node]?
  leaf : u.leaf[node]? = t.leaf[node]?

structure Shows (t : NodeTable) (node : NodeId) (slot : Slot) : Prop where
  feature : t.feature[node]? = some slot.feature
  threshold : t.threshold[node]? = some slot.threshold
  left : t.left[node]? = some slot.role.left?
  right : t.right[node]? = some slot.role.right?
  isLeaf : t.isLeaf[node]? = some slot.role.leaf?.isSome
  leaf : t.leaf[node]? = some slot.role.leaf?

theorem checkChild_error {node : Fin t.size} {side : Side} {child : NodeId} {e : TreeError}
    (refused : t.checkChild node side child = .error e) :
    e = .selfLoop node ∨ e = .childOutOfBounds node side child t.size := by
  unfold checkChild at refused
  split at refused
  · cases refused
    exact .inl rfl
  · split at refused
    · cases refused
    · cases refused
      exact .inr rfl

theorem Holds.checkNode_error {node : Fin t.size} {role : Role} {e : TreeError}
    (holds : t.Holds node role) (found : t.checkNode node = some (.error e)) :
    (role = .vacant ∧ e = .missingChild node .left) ∨ e = .selfLoop node ∨
      ∃ side child, e = .childOutOfBounds node side child t.size := by
  cases role with
  | vacant =>
    rw [VacantRow.checkNode holds] at found
    cases found
    exact .inl ⟨rfl, rfl⟩
  | leaf payload =>
    rw [checkNode_leaf_iff.mpr ⟨payload, holds⟩] at found
    cases found
  | split left right =>
    obtain ⟨⟨feature, threshold, row⟩, _⟩ := holds
    rcases row.checkNode_error found with refused | refused
    · rcases checkChild_error refused with loop | outside
      · exact .inr (.inl loop)
      · exact .inr (.inr ⟨_, _, outside⟩)
    · rcases checkChild_error refused with loop | outside
      · exact .inr (.inl loop)
      · exact .inr (.inr ⟨_, _, outside⟩)

end NodeTable

namespace TableBuilder

@[simp] theorem size_build (b : TableBuilder) : b.build.size = b.size := by
  simp [build, NodeTable.size, size]

theorem build_aligned (b : TableBuilder) : b.build.Aligned := by
  constructor <;> simp [build, NodeTable.size]

theorem build_shows (b : TableBuilder) {node : NodeId} (inside : node < b.size) :
    b.build.Shows node (b.slot node) := by
  have found := slots_eq b node
  rw [if_pos inside] at found
  constructor <;> simp [build, found]

theorem build_holds (b : TableBuilder) {node : NodeId} (inside : node < b.size) :
    b.build.Holds node (b.slot node).role := by
  have row := b.build_shows inside
  generalize b.slot node = slot at row
  obtain ⟨feature, threshold, role⟩ := slot
  cases role with
  | vacant => exact ⟨row.isLeaf, row.left, row.right, row.leaf⟩
  | split left right =>
    exact ⟨⟨feature, threshold, row.isLeaf, row.left, row.right, row.feature, row.threshold⟩,
      row.leaf⟩
  | leaf payload => exact ⟨row.isLeaf, row.left, row.right, row.leaf⟩

theorem build_splitRow (b : TableBuilder) {node left right feature : Nat} {threshold : Double}
    (inside : node < b.size) (holds : b.slot node = ⟨feature, threshold, .split left right⟩) :
    b.build.SplitRow node feature threshold left right := by
  have row := b.build_shows inside
  rw [holds] at row
  exact ⟨row.isLeaf, row.left, row.right, row.feature, row.threshold⟩

theorem build_sameRow {b d : TableBuilder} {node : NodeId} (inside : node < b.size)
    (less : b.size ≤ d.size) (same : d.slot node = b.slot node) : b.build.SameRow d.build node := by
  have slots : d.slots[node]? = b.slots[node]? := by
    rw [slots_eq, slots_eq, if_pos inside, if_pos (Nat.lt_of_lt_of_le inside less), same]
  constructor <;> simp [build, slots]

end TableBuilder

namespace NodeTable

def resized {α : Type} (column : Array α) (length : Nat) (fill : α) : Array α :=
  column.take length ++ Array.replicate (length - column.size) fill

/-- The calls on the columns themselves, each of the six grown and written on its own. -/
def ensure (t : NodeTable) (node : NodeId) : NodeTable :=
  if t.size < node + 1 then
    { feature := resized t.feature (node + 1) 0
      threshold := resized t.threshold (node + 1) .zero
      left := resized t.left (node + 1) none
      right := resized t.right (node + 1) none
      isLeaf := resized t.isLeaf (node + 1) false
      leaf := resized t.leaf (node + 1) none }
  else t

def setSplit (t : NodeTable) (node : NodeId) (feature : Nat) (threshold : Double)
    (left right : NodeId) : NodeTable :=
  let t := t.ensure node
  { feature := t.feature.setIfInBounds node feature
    threshold := t.threshold.setIfInBounds node threshold
    left := t.left.setIfInBounds node (some left)
    right := t.right.setIfInBounds node (some right)
    isLeaf := t.isLeaf.setIfInBounds node false
    leaf := t.leaf.setIfInBounds node none }

def setLeaf (t : NodeTable) (node : NodeId) (leaf : Leaf) : NodeTable :=
  let t := t.ensure node
  { t with
    left := t.left.setIfInBounds node none
    right := t.right.setIfInBounds node none
    isLeaf := t.isLeaf.setIfInBounds node true
    leaf := t.leaf.setIfInBounds node (some leaf) }

def call (t : NodeTable) : Call → NodeTable
  | .initRoot => t.ensure 0
  | .applySplit node feature threshold =>
    (t.ensure (t.size + 1)).setSplit node feature threshold t.size (t.size + 1)
  | .setSplit node feature threshold left right => t.setSplit node feature threshold left right
  | .setLeaf node leaf => t.setLeaf node leaf

def run (t : NodeTable) (calls : List Call) : NodeTable := calls.foldl call t

end NodeTable

namespace TableBuilder

theorem resized_map {α : Type} (b : TableBuilder) (f : Slot → α) {node : NodeId}
    (short : b.size < node + 1) :
    NodeTable.resized (b.slots.map f) (node + 1) (f .vacant) = (b.ensure node).slots.map f := by
  have whole : (b.slots.map f).take (node + 1) = b.slots.map f := by
    apply Array.extract_eq_self_of_le
    rw [Array.size_map]
    exact Nat.le_of_lt short
  rw [NodeTable.resized, whole, ensure, Array.map_append, Array.map_replicate, Array.size_map]
  rfl

theorem build_ensure (b : TableBuilder) (node : NodeId) :
    (b.ensure node).build = b.build.ensure node := by
  unfold NodeTable.ensure
  rw [size_build]
  split
  · rename_i short
    simp only [build, ← resized_map b _ short]
    rfl
  · rename_i enough
    have none_left : node + 1 - b.size = 0 := Nat.sub_eq_zero_of_le (Nat.le_of_not_lt enough)
    rw [ensure, none_left]
    simp [build]

theorem map_modify {α : Type} (slots : Array Slot) (node : NodeId) (f : Slot → α) {g : Slot → Slot}
    {value : α} (written : ∀ slot, f (g slot) = value) :
    (slots.modify node g).map f = (slots.map f).setIfInBounds node value := by
  apply Array.ext_getElem?
  intro i
  rw [Array.getElem?_map, Array.getElem?_modify, Array.getElem?_setIfInBounds, Array.getElem?_map,
    Array.size_map]
  by_cases here : node = i
  · subst here
    by_cases inside : node < slots.size
    · simp [inside, written]
    · simp [inside]
  · simp [here]

theorem map_modify_kept {α : Type} (slots : Array Slot) (node : NodeId) (f : Slot → α)
    {g : Slot → Slot} (kept : ∀ slot, f (g slot) = f slot) :
    (slots.modify node g).map f = slots.map f := by
  apply Array.ext_getElem?
  intro i
  rw [Array.getElem?_map, Array.getElem?_modify, Array.getElem?_map]
  split
  · rw [Option.map_map]
    exact congrArg (Option.map · slots[i]?) (funext kept)
  · rfl

theorem build_setSplit (b : TableBuilder) (node : NodeId) (feature : Nat) (threshold : Double)
    (left right : NodeId) : (b.setSplit node feature threshold left right).build =
      b.build.setSplit node feature threshold left right := by
  unfold NodeTable.setSplit setSplit change
  rw [← build_ensure]
  generalize b.ensure node = grown
  simp only [build, NodeTable.mk.injEq]
  refine ⟨?_, ?_, ?_, ?_, ?_, ?_⟩ <;> exact map_modify _ _ _ fun _ => rfl

theorem build_setLeaf (b : TableBuilder) (node : NodeId) (leaf : Leaf) :
    (b.setLeaf node leaf).build = b.build.setLeaf node leaf := by
  unfold NodeTable.setLeaf setLeaf change
  rw [← build_ensure]
  generalize b.ensure node = grown
  simp only [build, NodeTable.mk.injEq]
  refine ⟨map_modify_kept _ _ _ fun _ => rfl, map_modify_kept _ _ _ fun _ => rfl,
    ?_, ?_, ?_, ?_⟩ <;>
    exact map_modify _ _ _ fun _ => rfl

/-- The columns of the slots are the columns written one by one. -/
theorem build_call (b : TableBuilder) (c : Call) : (b.call c).build = b.build.call c := by
  cases c with
  | initRoot => exact build_ensure b 0
  | applySplit node feature threshold =>
    change _ = (b.build.ensure (b.build.size + 1)).setSplit node feature threshold b.build.size
      (b.build.size + 1)
    rw [size_build, ← build_ensure, ← build_setSplit]
    rfl
  | setSplit node feature threshold left right => exact build_setSplit ..
  | setLeaf node leaf => exact build_setLeaf ..

theorem build_run (b : TableBuilder) (calls : List Call) :
    (b.run calls).build = b.build.run calls := by
  induction calls generalizing b with
  | nil => rfl
  | cons c rest ih =>
    change ((b.call c).run rest).build = (b.build.call c).run rest
    rw [ih, build_call]

end TableBuilder

def Call.Leaves (t : NodeTable) (node : NodeId) (size : Nat) : Call → Prop
  | .initRoot => False
  | .applySplit _ feature threshold =>
    t.SplitRow node feature threshold size (size + 1) ∧ t.leaf[node]? = some none
  | .setSplit _ feature threshold left right =>
    t.SplitRow node feature threshold left right ∧ t.leaf[node]? = some none
  | .setLeaf _ leaf => t.LeafRow node leaf

def assembled (calls : List Call) : NodeTable := (TableBuilder.empty.run calls).build

structure Tracked (calls : List Call) : Prop where
  aligned : (assembled calls).Aligned
  state : ∀ node, node < (assembled calls).size → ∃! role, (assembled calls).Holds node role
  unassigned : ∀ node, node < (assembled calls).size → (∀ c ∈ calls, c.target? ≠ some node) →
    (assembled calls).Holds node .vacant
  /-- The last call that assigned a row decides what it holds. -/
  last : ∀ before c after node, calls = before ++ c :: after → c.target? = some node →
    (∀ later ∈ after, later.target? ≠ some node) →
    node < (assembled calls).size ∧ c.Leaves (assembled calls) node (assembled before).size
  /-- One more call changes no other row. -/
  others : ∀ c node, node < (assembled calls).size → c.target? ≠ some node →
    (assembled calls).SameRow (assembled (calls ++ [c])) node
  grows : ∀ c, (assembled (calls ++ [c])).size = c.room (assembled calls).size

/-- What the check may report of an assembled table: never columns of different length, a
leaf with children or a leaf without class, and a missing child only on the left of a row
that was never assigned. -/
structure Reportable (calls : List Call) (e : TreeError) : Prop where
  lengths : ∀ column length size, e ≠ .columnLength column length size
  leafWithChildren : ∀ node, e ≠ .leafWithChildren node
  missingLeaf : ∀ node, e ≠ .missingLeaf node
  missingChild : ∀ node side, e = .missingChild node side →
    side = .left ∧ node < (assembled calls).size ∧ ∀ c ∈ calls, c.target? ≠ some node

open TableBuilder

theorem assembled_size (calls : List Call) : (assembled calls).size = (empty.run calls).size :=
  size_build _

theorem assembled_snoc (calls : List Call) (c : Call) :
    assembled (calls ++ [c]) = ((empty.run calls).call c).build := by
  rw [assembled, run_snoc]

theorem assembled_holds {calls : List Call} {node : NodeId}
    (inside : node < (assembled calls).size) :
    (assembled calls).Holds node ((empty.run calls).slot node).role := by
  rw [assembled_size] at inside
  exact build_holds _ inside

theorem leaves_of_last {before after : List Call} {c : Call} {node : NodeId}
    (target : c.target? = some node) (others : ∀ later ∈ after, later.target? ≠ some node) :
    node < (assembled (before ++ c :: after)).size ∧
      c.Leaves (assembled (before ++ c :: after)) node (assembled before).size := by
  have inside : node < (assembled (before ++ c :: after)).size := by
    rw [assembled_size]
    exact target_lt_run empty (by simp) target
  have slot := @slot_run_last empty before after c node target others
  have holds := assembled_holds inside
  rw [slot] at holds
  refine ⟨inside, ?_⟩
  rw [assembled_size] at inside ⊢
  cases c with
  | initRoot => cases target
  | applySplit _ feature threshold => exact ⟨build_splitRow _ inside slot, holds.2⟩
  | setSplit _ feature threshold left right => exact ⟨build_splitRow _ inside slot, holds.2⟩
  | setLeaf _ leaf => exact holds

theorem assembled_tracked (calls : List Call) : Tracked calls where
  aligned := build_aligned _
  state := by
    intro node inside
    have holds := assembled_holds inside
    exact ⟨_, holds, fun role other => other.unique holds⟩
  unassigned := by
    intro node inside untouched
    have holds := assembled_holds inside
    rwa [(vacant_iff calls node).mpr untouched] at holds
  last := by
    intro before c after node parts target others
    rw [parts]
    exact leaves_of_last target others
  others := by
    intro c node inside other
    have slot := slot_call (empty.run calls) c node
    rw [if_neg other] at slot
    rw [assembled_size] at inside
    rw [assembled_snoc]
    exact build_sameRow inside (size_le_call _ c) slot
  grows := by
    intro c
    rw [assembled_snoc, size_build, size_call, assembled_size]

theorem assembled_reportable {calls : List Call} {e : TreeError}
    (refused : (assembled calls).validate.run = some (.error e)) : Reportable calls e := by
  cases NodeTable.validate_refusal refused with
  | lengths found =>
    rw [NodeTable.checkLengths_ok_iff.mpr (assembled_tracked calls).aligned] at found
    cases found
  | empty | cycle node | shared node | unreachable node => constructor <;> nofun
  | row node found =>
    rcases (assembled_holds node.isLt).checkNode_error found with
      ⟨vacant, rfl⟩ | rfl | ⟨side, child, rfl⟩
    · constructor
      · nofun
      · nofun
      · nofun
      · intro other side same
        cases same
        exact ⟨rfl, node.isLt, (vacant_iff calls node).mp vacant⟩
    · constructor <;> nofun
    · constructor <;> nofun

/-- Any calls on a new builder, whatever its capacity. The table is the one that writing each of the
six columns on its own gives; its rows are in the states in which their last assignments left them,
and the check reports nothing that such rows cannot have. -/
theorem run_keeps_states (capacity : Nat) (calls : List Call) :
    ((withCapacity capacity).run calls).build = assembled calls ∧
    NodeTable.run ⟨#[], #[], #[], #[], #[], #[]⟩ calls = assembled calls ∧
    Tracked calls ∧
    ∀ e, (assembled calls).validate.run = some (.error e) → Reportable calls e := by
  have nothing : empty.build = ⟨#[], #[], #[], #[], #[], #[]⟩ := by simp [build, empty]
  refine ⟨rfl, ?_, assembled_tracked calls, ?_⟩
  · rw [assembled, build_run, nothing]
  · intro e refused
    exact assembled_reportable refused

end DecisionTreeC
