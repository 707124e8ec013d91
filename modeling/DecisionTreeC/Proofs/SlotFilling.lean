import DecisionTreeC.Proofs.Assembly
import Mathlib.Data.List.Nodup
import Mathlib.Order.Bounds.Defs

/-!
Slots filled one by one. Calls that only assign given slots, no two of them the same one, leave a
table that can be told from the calls as a set: a slot holds what its call gave, the other slots
below the greatest one are vacant, and the order of the calls is lost. A gap that is left makes the
table invalid.
-/
namespace DecisionTreeC

def Call.IsFill : Call → Prop
  | .setSplit .. => True
  | .setLeaf .. => True
  | .initRoot => False
  | .applySplit .. => False

theorem Call.IsFill.target {c : Call} (fill : c.IsFill) : ∃ node, c.target? = some node := by
  cases c with
  | initRoot => cases fill
  | applySplit _ _ _ => cases fill
  | setSplit node _ _ _ _ => exact ⟨node, rfl⟩
  | setLeaf node _ => exact ⟨node, rfl⟩

structure Fills (calls : List Call) : Prop where
  only : ∀ c ∈ calls, c.IsFill
  once : (calls.filterMap Call.target?).Nodup

def Listed (calls : List Call) (node : NodeId) : Prop := ∃ c ∈ calls, c.target? = some node

theorem NodeTable.Shows.vacantRow {t : NodeTable} {node : NodeId} (row : t.Shows node .vacant) :
    t.VacantRow node :=
  ⟨row.isLeaf, row.left, row.right, row.leaf⟩

theorem NodeTable.VacantRow.refused {t : NodeTable} {node : NodeId} (row : t.VacantRow node) :
    ∃ e, t.validate.run = some (.error e) := by
  apply refused_of_unrepresented
  intro tree represents
  exact represents.unfolds.not_vacant node (represents.covers node row.lt_size) row

namespace Fills

variable {calls : List Call}

theorem perm {others : List Call} (fills : Fills calls) (same : others.Perm calls) :
    Fills others where
  only c member := fills.only c (same.mem_iff.mp member)
  once := (same.filterMap Call.target?).nodup_iff.mpr fills.once

theorem apart {before after : List Call} {c : Call} {node : NodeId}
    (fills : Fills (before ++ c :: after)) (target : c.target? = some node) :
    ∀ other ∈ before ++ after, other.target? ≠ some node := by
  intro other member same
  have once := fills.once
  rw [List.filterMap_append, List.filterMap_cons_some target, List.nodup_middle, List.nodup_cons,
    ← List.filterMap_append] at once
  exact once.1 (List.mem_filterMap.mpr ⟨other, member, same⟩)

end Fills

namespace TableBuilder

theorem eq_of_slots {b d : TableBuilder} (size : b.size = d.size)
    (slots : ∀ node, b.slot node = d.slot node) : b = d := by
  have same : b.slots = d.slots := by
    apply Array.ext_getElem?
    intro node
    rw [slots_eq, slots_eq, size, slots]
  cases b
  cases d
  cases same
  rfl

theorem size_run_le_iff (b : TableBuilder) {calls : List Call} (only : ∀ c ∈ calls, c.IsFill)
    (n : Nat) : (b.run calls).size ≤ n ↔ b.size ≤ n ∧ ∀ node, Listed calls node → node < n := by
  induction calls generalizing b with
  | nil => simp [run, Listed]
  | cons c rest ih =>
    obtain ⟨here, later⟩ := List.forall_mem_cons.mp only
    have listed : ∀ node, Listed (c :: rest) node ↔ c.target? = some node ∨ Listed rest node := by
      intro node
      simp [Listed]
    have step : (b.call c).size ≤ n ↔ b.size ≤ n ∧ ∀ node, c.target? = some node → node < n := by
      rw [size_call]
      cases c with
      | initRoot => cases here
      | applySplit _ _ _ => cases here
      | setSplit node _ _ _ _ | setLeaf node _ =>
        simp only [Call.room, Call.target?, Option.some.injEq, forall_eq']
        exact Nat.max_le
    change ((b.call c).run rest).size ≤ n ↔ _
    rw [ih (b.call c) later, step]
    simp only [listed, or_imp, forall_and, and_assoc]

theorem write_fill {c : Call} (fill : c.IsFill) (size : Nat) (old : Slot) :
    c.write size old = c.write 0 old := by
  cases c with
  | initRoot => cases fill
  | applySplit _ _ _ => cases fill
  | setSplit _ _ _ _ _ => rfl
  | setLeaf _ _ => rfl

theorem slot_of_mem {calls : List Call} (fills : Fills calls) {c : Call} {node : NodeId}
    (member : c ∈ calls) (target : c.target? = some node) :
    (empty.run calls).slot node = c.write 0 .vacant := by
  obtain ⟨before, after, rfl⟩ := List.append_of_mem member
  have apart := fills.apart target
  have untouched : (empty.run before).slot node = .vacant := by
    rw [slot_run_other empty fun other earlier => apart other (List.mem_append_left after earlier),
      slot_empty]
  rw [slot_run_last empty target fun other later =>
    apart other (List.mem_append_right before later), untouched]
  exact write_fill (fills.only c member) _ _

theorem slot_of_unlisted {calls : List Call} {node : NodeId} (unlisted : ¬ Listed calls node) :
    (empty.run calls).slot node = .vacant := by
  rw [slot_run_other empty, slot_empty]
  intro c member target
  exact unlisted ⟨c, member, target⟩

theorem listed_perm {calls others : List Call} (same : others.Perm calls) (node : NodeId) :
    Listed others node ↔ Listed calls node := by
  simp only [Listed, same.mem_iff]

theorem run_perm {calls others : List Call} (fills : Fills calls) (same : others.Perm calls) :
    empty.run others = empty.run calls := by
  have fills' := fills.perm same
  apply eq_of_slots
  · apply Nat.le_antisymm
    · rw [size_run_le_iff empty fills'.only]
      simp only [listed_perm same]
      exact (size_run_le_iff empty fills.only _).mp (Nat.le_refl _)
    · rw [size_run_le_iff empty fills.only]
      simp only [← listed_perm same]
      exact (size_run_le_iff empty fills'.only _).mp (Nat.le_refl _)
  · intro node
    by_cases listed : Listed calls node
    · obtain ⟨c, member, target⟩ := listed
      rw [slot_of_mem fills member target, slot_of_mem fills' (same.mem_iff.mpr member) target]
    · rw [slot_of_unlisted listed, slot_of_unlisted (mt (listed_perm same node).mp listed)]

end TableBuilder

open TableBuilder

theorem listed_lt {calls : List Call} {node : NodeId} (listed : Listed calls node) :
    node < (assembled calls).size := by
  obtain ⟨c, member, target⟩ := listed
  rw [assembled_size]
  exact target_lt_run empty member target

theorem assembled_shows {calls : List Call} {node : NodeId}
    (inside : node < (assembled calls).size) :
    (assembled calls).Shows node ((empty.run calls).slot node) := by
  rw [assembled_size] at inside
  exact build_shows _ inside

theorem eq_nil_of_size {calls : List Call} (only : ∀ c ∈ calls, c.IsFill)
    (size : (assembled calls).size = 0) : calls = [] := by
  apply List.eq_nil_iff_forall_not_mem.mpr
  intro c member
  obtain ⟨node, target⟩ := (only c member).target
  have inside := listed_lt ⟨c, member, target⟩
  rw [size] at inside
  exact Nat.not_lt_zero node inside

theorem last_listed {calls : List Call} (only : ∀ c ∈ calls, c.IsFill) {last : NodeId}
    (size : (assembled calls).size = last + 1) : IsGreatest { node | Listed calls node } last := by
  have bound : ∀ node, Listed calls node → node ≤ last := by
    intro node listed
    have inside := listed_lt listed
    rw [size] at inside
    exact Nat.le_of_lt_succ inside
  constructor
  · by_contra unlisted
    have shorter : (assembled calls).size ≤ last := by
      rw [assembled_size, size_run_le_iff empty only]
      constructor
      · exact Nat.zero_le _
      · intro node listed
        exact Nat.lt_of_le_of_ne (bound node listed) fun same => unlisted (same ▸ listed)
    omega
  · exact bound

/-- The table of calls that fill slots, from the calls as a set. -/
structure FilledTable (calls : List Call) (t : NodeTable) : Prop where
  aligned : t.Aligned
  size : (calls = [] ∧ t.size = 0) ∨
    ∃ last, IsGreatest { node | Listed calls node } last ∧ t.size = last + 1
  split : ∀ node feature threshold left right, .setSplit node feature threshold left right ∈ calls →
    t.Shows node ⟨feature, threshold, .split left right⟩
  leaf : ∀ node leaf, .setLeaf node leaf ∈ calls → t.Shows node ⟨0, .zero, .leaf leaf⟩
  gap : ∀ node, node < t.size → ¬ Listed calls node → t.Shows node .vacant
  incomplete : (∃ node, node < t.size ∧ ¬ Listed calls node) → ∃ e, t.validate.run = some (.error e)

/-- Calls that fill each slot once give one table in every order, with what the calls gave in the
slots they name and vacant rows between; and a table with such a gap is never accepted. -/
theorem filling_unordered {calls : List Call} (fills : Fills calls) :
    (∀ others, others.Perm calls → assembled others = assembled calls) ∧
      FilledTable calls (assembled calls) := by
  have given : ∀ (c : Call) (node : NodeId), c ∈ calls → c.target? = some node →
      (assembled calls).Shows node (c.write 0 .vacant) := by
    intro c node member target
    rw [← slot_of_mem fills member target]
    exact assembled_shows (listed_lt ⟨c, member, target⟩)
  have vacant : ∀ node, node < (assembled calls).size → ¬ Listed calls node →
      (assembled calls).Shows node .vacant := by
    intro node inside unlisted
    rw [← slot_of_unlisted unlisted]
    exact assembled_shows inside
  constructor
  · intro others same
    rw [assembled, run_perm fills same, assembled]
  · constructor
    · exact build_aligned _
    · cases size : (assembled calls).size with
      | zero =>
        left
        exact ⟨eq_nil_of_size fills.only size, rfl⟩
      | succ last =>
        right
        exact ⟨last, last_listed fills.only size, rfl⟩
    · intro node feature threshold left right member
      exact given _ node member rfl
    · intro node leaf member
      exact given _ node member rfl
    · exact vacant
    · intro gap
      obtain ⟨node, inside, unlisted⟩ := gap
      exact (vacant node inside unlisted).vacantRow.refused

def scattered : List Call :=
  [.setLeaf 4 (.ofIndex 0), .setSplit 0 7 .zero 1 4, .setLeaf 1 (.ofLabel "low")]

theorem scattered_filled :
    Fills scattered ∧ assembled scattered.reverse = assembled scattered ∧
    (assembled scattered).size = 5 ∧
      (assembled scattered).Shows 0 ⟨7, .zero, .split 1 4⟩ ∧ (assembled scattered).Shows 3 .vacant ∧
        ∃ e, (assembled scattered).validate.run = some (.error e) := by
  have fills : Fills scattered := ⟨by simp [scattered, Call.IsFill], by decide⟩
  have unlisted : ¬ Listed scattered 3 := by simp [Listed, scattered, Call.target?]
  have size : (assembled scattered).size = 5 := by decide +kernel
  obtain ⟨unordered, filled⟩ := filling_unordered fills
  have inside : 3 < (assembled scattered).size := by rw [size]; decide
  exact ⟨fills, unordered _ scattered.reverse_perm, size,
    filled.split 0 7 .zero 1 4 (List.mem_cons_of_mem _ (List.mem_cons_self ..)),
    filled.gap 3 inside unlisted, filled.incomplete ⟨3, inside, unlisted⟩⟩

end DecisionTreeC
