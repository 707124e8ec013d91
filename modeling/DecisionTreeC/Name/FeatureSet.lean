import DecisionTreeC.Name.Identifier

/-!
Features by index. Indices need not be contiguous, and no two features share a name.
-/
namespace DecisionTreeC

/-- The entries stand in ascending order of index, so equal sets have equal lists. -/
structure FeatureSet where
  entries : List (Nat × String)
  identifiers : ∀ entry ∈ entries, isIdentifier entry.2 = true
  ordered : entries.Pairwise fun a b => a.1 < b.1 ∧ a.2 ≠ b.2
  deriving DecidableEq

namespace FeatureSet

def empty : FeatureSet := ⟨[], by simp, .nil⟩

instance : Inhabited FeatureSet := ⟨empty⟩

def size (set : FeatureSet) : Nat := set.entries.length
def isEmpty (set : FeatureSet) : Bool := set.entries.isEmpty
def name? (set : FeatureSet) (index : Nat) : Option String := set.entries.lookup index
def contains (set : FeatureSet) (index : Nat) : Bool := (set.name? index).isSome

def place (entry : Nat × String) : List (Nat × String) → List (Nat × String)
  | [] => [entry]
  | head :: rest => if entry.1 < head.1 then entry :: head :: rest else head :: place entry rest

theorem mem_place {entry other : Nat × String} {entries : List (Nat × String)} :
    other ∈ place entry entries ↔ other = entry ∨ other ∈ entries := by
  induction entries with
  | nil => simp [place]
  | cons head rest ih =>
    unfold place
    split
    · simp
    · simp only [List.mem_cons, ih]
      exact or_left_comm

theorem ordered_place {entry : Nat × String} {entries : List (Nat × String)}
    (ordered : entries.Pairwise fun a b => a.1 < b.1 ∧ a.2 ≠ b.2)
    (fresh : ∀ other ∈ entries, other.1 ≠ entry.1 ∧ other.2 ≠ entry.2) :
    (place entry entries).Pairwise fun a b => a.1 < b.1 ∧ a.2 ≠ b.2 := by
  induction entries with
  | nil => simp [place]
  | cons head rest ih =>
    obtain ⟨first, later⟩ := List.pairwise_cons.mp ordered
    have head_fresh := fresh head (List.mem_cons_self ..)
    have rest_fresh : ∀ other ∈ rest, other.1 ≠ entry.1 ∧ other.2 ≠ entry.2 :=
      fun other member => fresh other (List.mem_cons_of_mem _ member)
    unfold place
    split
    · rename_i before
      refine List.pairwise_cons.mpr ⟨?_, ordered⟩
      intro other member
      rcases List.mem_cons.mp member with rfl | member
      · exact ⟨before, Ne.symm head_fresh.2⟩
      · exact ⟨Nat.lt_trans before (first other member).1, Ne.symm (rest_fresh other member).2⟩
    · rename_i after
      refine List.pairwise_cons.mpr ⟨?_, ih later rest_fresh⟩
      intro other member
      rcases mem_place.mp member with rfl | member
      · exact ⟨by have := head_fresh.1; omega, head_fresh.2⟩
      · exact first other member

/-- One more feature. A name that is no identifier is reported before a repeated name, and that
before a repeated index. -/
def insert (set : FeatureSet) (entry : Nat × String) : Except NameError FeatureSet :=
  if identifier : isIdentifier entry.2 = true then
    if named : entry.2 ∈ set.entries.map Prod.snd then .error (.duplicateName entry.2)
    else if indexed : entry.1 ∈ set.entries.map Prod.fst then .error (.duplicateIndex entry.1)
    else
      .ok
        { entries := place entry set.entries
          identifiers := by
            intro other member
            rcases mem_place.mp member with rfl | member
            · exact identifier
            · exact set.identifiers other member
          ordered := by
            refine ordered_place set.ordered fun other member => ⟨?_, ?_⟩
            · exact fun same => indexed (same ▸ List.mem_map_of_mem member)
            · exact fun same => named (same ▸ List.mem_map_of_mem member) }
  else .error (.invalidIdentifier entry.2)

def ofPairs (pairs : List (Nat × String)) : Except NameError FeatureSet := pairs.foldlM insert empty

def ofNames (names : List String) : Except NameError FeatureSet :=
  ofPairs (names.zipIdx.map Prod.swap)

def sanitized (names : List String) : Except NameError FeatureSet :=
  cleanAll "feature_" names >>= ofNames

end FeatureSet

end DecisionTreeC
