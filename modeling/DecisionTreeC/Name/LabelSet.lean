import DecisionTreeC.Name.Identifier

/-!
Class labels in the order of the classifier: the label at position `i` is the class it calls `i`.
-/
namespace DecisionTreeC

structure LabelSet where
  labels : List String
  identifiers : ∀ label ∈ labels, isIdentifier label = true
  distinct : labels.Nodup
  deriving DecidableEq

namespace LabelSet

def empty : LabelSet := ⟨[], by simp, .nil⟩

instance : Inhabited LabelSet := ⟨empty⟩

def size (set : LabelSet) : Nat := set.labels.length
def isEmpty (set : LabelSet) : Bool := set.labels.isEmpty
def get? (set : LabelSet) (index : Nat) : Option String := set.labels[index]?

def indexOf? (set : LabelSet) (label : String) : Option Nat := set.labels.findIdx? (· == label)

def push (set : LabelSet) (label : String) : Except NameError LabelSet :=
  if identifier : isIdentifier label = true then
    if known : label ∈ set.labels then .error (.duplicateName label)
    else
      .ok
        { labels := set.labels ++ [label]
          identifiers := by
            intro name member
            rcases List.mem_append.mp member with before | last
            · exact set.identifiers name before
            · rw [List.mem_singleton.mp last]
              exact identifier
          distinct := by
            refine List.nodup_append.mpr ⟨set.distinct, by simp, ?_⟩
            intro a before b last same
            rw [List.mem_singleton.mp last] at same
            exact known (same ▸ before) }
  else .error (.invalidIdentifier label)

def ofNames (labels : List String) : Except NameError LabelSet := labels.foldlM push empty

def sanitized (labels : List String) : Except NameError LabelSet :=
  cleanAll "class_" labels >>= ofNames

end LabelSet

end DecisionTreeC
