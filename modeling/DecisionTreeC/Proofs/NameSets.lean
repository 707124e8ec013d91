import DecisionTreeC.Proofs.Conversion
import Mathlib.Data.List.Induction
import Mathlib.Data.List.Nodup

/-!
Sets of names, exactly. A set of features is a finite injection: it comes from any list of pairs
whose names are identifiers and which repeats neither a name nor an index, and it holds just these
pairs, whatever their order. Any other list is refused at its first pair that cannot join those
before it. A set of labels is its list, so positions and labels determine each other.
-/
namespace DecisionTreeC

namespace FeatureSet

structure Consistent (pairs : List (Nat × String)) : Prop where
  identifiers : ∀ pair ∈ pairs, isIdentifier pair.2 = true
  names : (pairs.map Prod.snd).Nodup
  indices : (pairs.map Prod.fst).Nodup

/-- Why a pair cannot join those before it. The name is looked at first, then its repetition, then
the index. -/
inductive Refused (before : List (Nat × String)) (pair : Nat × String) : NameError → Prop where
  | invalid (wrong : isIdentifier pair.2 = false) : Refused before pair (.invalidIdentifier pair.2)
  | name (valid : isIdentifier pair.2 = true) (taken : ∃ index, (index, pair.2) ∈ before) :
      Refused before pair (.duplicateName pair.2)
  | index (valid : isIdentifier pair.2 = true) (unnamed : ¬ ∃ index, (index, pair.2) ∈ before)
      (taken : ∃ name, (pair.1, name) ∈ before) : Refused before pair (.duplicateIndex pair.1)

/-- The set is the one map from indices to names that the pairs describe. -/
structure Holds (set : FeatureSet) (pairs : List (Nat × String)) : Prop where
  name : ∀ index name, set.name? index = some name ↔ (index, name) ∈ pairs
  contains : ∀ index, set.contains index = true ↔ ∃ name, (index, name) ∈ pairs
  size : set.size = pairs.length
  isEmpty : set.isEmpty = true ↔ pairs = []
  listed : set.entries.Perm pairs
  ascending : set.entries.Pairwise fun a b => a.1 < b.1

theorem mem_names {pairs : List (Nat × String)} {name : String} :
    name ∈ pairs.map Prod.snd ↔ ∃ index, (index, name) ∈ pairs := by
  simp

theorem mem_indices {pairs : List (Nat × String)} {index : Nat} :
    index ∈ pairs.map Prod.fst ↔ ∃ name, (index, name) ∈ pairs := by
  simp

theorem Refused.congr {before others : List (Nat × String)} {pair : Nat × String} {e : NameError}
    (same : ∀ entry, entry ∈ before ↔ entry ∈ others) (refused : Refused before pair e) :
    Refused others pair e := by
  cases refused with
  | invalid wrong => exact .invalid wrong
  | name valid taken =>
    obtain ⟨index, member⟩ := taken
    exact .name valid ⟨index, (same _).mp member⟩
  | index valid unnamed taken =>
    obtain ⟨name, member⟩ := taken
    apply Refused.index valid
    · intro named
      obtain ⟨index, member⟩ := named
      exact unnamed ⟨index, (same _).mpr member⟩
    · exact ⟨name, (same _).mp member⟩

theorem Refused.not_consistent {before : List (Nat × String)} {pair : Nat × String} {e : NameError}
    (refused : Refused before pair e) (after : List (Nat × String)) :
    ¬ Consistent (before ++ pair :: after) := by
  intro consistent
  have names := consistent.names
  have indices := consistent.indices
  rw [List.map_append, List.map_cons, List.nodup_middle, List.nodup_cons, List.mem_append]
    at names indices
  cases refused with
  | invalid wrong =>
    have valid := consistent.identifiers pair (by simp)
    rw [wrong] at valid
    cases valid
  | name valid taken => exact names.1 (.inl (mem_names.mpr taken))
  | index valid unnamed taken => exact indices.1 (.inl (mem_indices.mpr taken))

theorem Consistent.perm {pairs others : List (Nat × String)} (consistent : Consistent pairs)
    (same : others.Perm pairs) : Consistent others where
  identifiers pair member := consistent.identifiers pair (same.mem_iff.mp member)
  names := (same.map Prod.snd).nodup_iff.mpr consistent.names
  indices := (same.map Prod.fst).nodup_iff.mpr consistent.indices

theorem entries_consistent (set : FeatureSet) : Consistent set.entries where
  identifiers := set.identifiers
  names := List.pairwise_map.mpr (set.ordered.imp And.right)
  indices := List.pairwise_map.mpr (set.ordered.imp fun less => Nat.ne_of_lt less.1)

theorem entries_ascending (set : FeatureSet) : set.entries.Pairwise fun a b => a.1 < b.1 :=
  set.ordered.imp And.left

theorem eq_of_entries {a b : FeatureSet} (same : a.entries = b.entries) : a = b := by
  cases a
  cases b
  cases same
  rfl

theorem place_perm (entry : Nat × String) (entries : List (Nat × String)) :
    (place entry entries).Perm (entry :: entries) := by
  induction entries with
  | nil => exact .refl _
  | cons head rest ih =>
    unfold place
    split
    · exact .refl _
    · exact (ih.cons head).trans (.swap entry head rest)

theorem insert_error_iff {set : FeatureSet} {pair : Nat × String} {e : NameError} :
    set.insert pair = .error e ↔ Refused set.entries pair e := by
  unfold insert
  constructor
  · intro stopped
    split at stopped
    · rename_i valid
      split at stopped
      · rename_i named
        cases stopped
        exact .name valid (mem_names.mp named)
      · rename_i unnamed
        split at stopped
        · rename_i indexed
          cases stopped
          exact .index valid (mt mem_names.mpr unnamed) (mem_indices.mp indexed)
        · cases stopped
    · rename_i wrong
      cases stopped
      exact .invalid (Bool.not_eq_true _ ▸ wrong)
  · intro refused
    cases refused with
    | invalid wrong => rw [dif_neg (by simp [wrong])]
    | name valid taken => rw [dif_pos valid, dif_pos (mem_names.mpr taken)]
    | index valid unnamed taken =>
      rw [dif_pos valid, dif_neg (mt mem_names.mp unnamed), dif_pos (mem_indices.mpr taken)]

theorem insert_perm {set bigger : FeatureSet} {pair : Nat × String}
    (added : set.insert pair = .ok bigger) : bigger.entries.Perm (pair :: set.entries) := by
  unfold insert at added
  split at added
  · split at added
    · cases added
    · split at added
      · cases added
      · cases added
        exact place_perm pair set.entries
  · cases added

theorem ofPairs_snoc (pairs : List (Nat × String)) (pair : Nat × String) :
    ofPairs (pairs ++ [pair]) = ofPairs pairs >>= fun set => set.insert pair := by
  unfold ofPairs
  rw [List.foldlM_append]
  simp

theorem ofPairs_perm {pairs : List (Nat × String)} {set : FeatureSet}
    (made : ofPairs pairs = .ok set) : set.entries.Perm pairs := by
  induction pairs using List.reverseRecOn generalizing set with
  | nil =>
    cases made
    exact .refl _
  | append_singleton pairs pair ih =>
    rw [ofPairs_snoc] at made
    obtain ⟨smaller, before, added⟩ := except_bind_eq_ok.mp made
    calc
      List.Perm set.entries (pair :: smaller.entries) := insert_perm added
      List.Perm _ (pair :: pairs) := (ih before).cons pair
      List.Perm _ (pairs ++ [pair]) := (List.perm_append_singleton pair pairs).symm

/-- An error is that of the first pair that cannot join the others: those before it form a set. -/
theorem refused_of_error {pairs : List (Nat × String)} {e : NameError}
    (stopped : ofPairs pairs = .error e) :
    ∃ before pair after, pairs = before ++ pair :: after ∧ Consistent before ∧
    Refused before pair e := by
  induction pairs using List.reverseRecOn with
  | nil => cases stopped
  | append_singleton pairs pair ih =>
    rw [ofPairs_snoc] at stopped
    cases made : ofPairs pairs with
    | error fault =>
      rw [made] at stopped
      cases stopped
      obtain ⟨before, first, after, rfl, consistent, refused⟩ := ih made
      exact ⟨before, first, after ++ [pair], by simp, consistent, refused⟩
    | ok set =>
      rw [made] at stopped
      have same := ofPairs_perm made
      have refused : Refused set.entries pair e := insert_error_iff.mp stopped
      exact ⟨pairs, pair, [], rfl, set.entries_consistent.perm same.symm,
        refused.congr fun _ => same.mem_iff⟩

theorem ofPairs_ok_iff {pairs : List (Nat × String)} :
    (∃ set, ofPairs pairs = .ok set) ↔ Consistent pairs := by
  constructor
  · intro made
    obtain ⟨set, made⟩ := made
    exact set.entries_consistent.perm (ofPairs_perm made).symm
  · intro consistent
    cases made : ofPairs pairs with
    | ok set => exact ⟨set, rfl⟩
    | error e =>
      obtain ⟨before, pair, after, rfl, _, refused⟩ := refused_of_error made
      exact absurd consistent (refused.not_consistent after)

theorem ofPairs_error_iff {pairs : List (Nat × String)} {e : NameError} :
    ofPairs pairs = .error e ↔
      ∃ before pair after, pairs = before ++ pair :: after ∧ Consistent before ∧
      Refused before pair e := by
  constructor
  · exact refused_of_error
  · intro first
    obtain ⟨before, pair, after, rfl, consistent, refused⟩ := first
    obtain ⟨set, made⟩ := ofPairs_ok_iff.mpr consistent
    have same := ofPairs_perm made
    have stopped : set.insert pair = .error e :=
      insert_error_iff.mpr (refused.congr fun _ => same.symm.mem_iff)
    have parts : before ++ pair :: after = before ++ [pair] ++ after := by simp
    have until_here : ofPairs (before ++ [pair]) = .error e := by
      rw [ofPairs_snoc, made]
      exact stopped
    rw [parts, ofPairs, List.foldlM_append]
    exact congrArg (· >>= fun set => after.foldlM insert set) until_here

theorem ofPairs_holds {pairs : List (Nat × String)} {set : FeatureSet}
    (made : ofPairs pairs = .ok set) : set.Holds pairs := by
  have same := ofPairs_perm made
  have name : ∀ index name, set.name? index = some name ↔ (index, name) ∈ pairs := by
    intro index name
    rw [name_foldlM made]
    simp [empty, name?]
  constructor
  · exact name
  · intro index
    unfold contains
    rw [Option.isSome_iff_exists]
    exact exists_congr (name index)
  · exact same.length_eq
  · unfold isEmpty
    rw [List.isEmpty_iff, ← List.length_eq_zero_iff, same.length_eq, List.length_eq_zero_iff]
  · exact same
  · exact set.entries_ascending

/-- Ascending entries are determined by what they are, so the order of the pairs is forgotten. -/
theorem ofPairs_of_perm {pairs others : List (Nat × String)} {set : FeatureSet}
    (made : ofPairs pairs = .ok set) (same : others.Perm pairs) : ofPairs others = .ok set := by
  have consistent := (ofPairs_ok_iff.mp ⟨set, made⟩).perm same
  obtain ⟨other, made'⟩ := ofPairs_ok_iff.mpr consistent
  have entries := calc
    other.entries.Perm others := ofPairs_perm made'
    List.Perm _ pairs := same
    List.Perm _ set.entries := (ofPairs_perm made).symm
  have equal : other.entries = set.entries := by
    apply List.Perm.eq_of_pairwise _ other.entries_ascending set.entries_ascending entries
    intro a b _ _ less more
    omega
  rw [made', eq_of_entries equal]

end FeatureSet

namespace LabelSet

theorem push_labels {set bigger : LabelSet} {label : String} (added : set.push label = .ok bigger) :
    bigger.labels = set.labels ++ [label] := by
  unfold push at added
  split at added
  · split at added
    · cases added
    · cases added
      rfl
  · cases added

theorem push_ok {set : LabelSet} {label : String} (valid : isIdentifier label = true)
    (fresh : label ∉ set.labels) : ∃ bigger, set.push label = .ok bigger := by
  unfold push
  rw [dif_pos valid, dif_neg fresh]
  exact ⟨_, rfl⟩

theorem ofNames_snoc (labels : List String) (label : String) :
    ofNames (labels ++ [label]) = ofNames labels >>= fun set => set.push label := by
  unfold ofNames
  rw [List.foldlM_append]
  simp

theorem labels_ofNames {labels : List String} {set : LabelSet} (made : ofNames labels = .ok set) :
    set.labels = labels := by
  induction labels using List.reverseRecOn generalizing set with
  | nil =>
    cases made
    rfl
  | append_singleton labels label ih =>
    rw [ofNames_snoc] at made
    obtain ⟨smaller, before, added⟩ := except_bind_eq_ok.mp made
    rw [push_labels added, ih before]

theorem ofNames_ok_iff {labels : List String} :
    (∃ set, ofNames labels = .ok set) ↔ (∀ label ∈ labels, isIdentifier label = true) ∧
    labels.Nodup := by
  constructor
  · intro made
    obtain ⟨set, made⟩ := made
    rw [← labels_ofNames made]
    exact ⟨set.identifiers, set.distinct⟩
  · intro sound
    induction labels using List.reverseRecOn with
    | nil => exact ⟨empty, rfl⟩
    | append_singleton labels label ih =>
      obtain ⟨identifiers, distinct⟩ := sound
      rw [List.nodup_append] at distinct
      obtain ⟨set, made⟩ :=
        ih ⟨fun other member => identifiers other (by simp [member]), distinct.1⟩
      have fresh : label ∉ set.labels := by
        rw [labels_ofNames made]
        intro member
        exact distinct.2.2 label member label (by simp) rfl
      rw [ofNames_snoc, made]
      exact push_ok (identifiers label (by simp)) fresh

theorem indexOf_iff {set : LabelSet} {label : String} {index : Nat} :
    set.indexOf? label = some index ↔ set.get? index = some label := by
  unfold indexOf? get?
  rw [List.findIdx?_eq_some_iff_getElem, List.getElem?_eq_some_iff]
  constructor
  · intro found
    obtain ⟨inside, here, _⟩ := found
    exact ⟨inside, by simpa using here⟩
  · intro found
    obtain ⟨inside, here⟩ := found
    refine ⟨inside, by simpa using here, ?_⟩
    intro other before again
    have equal : set.labels[other] = set.labels[index] := by
      rw [here]
      simpa using again
    have same := set.distinct.getElem_inj_iff.mp equal
    omega

end LabelSet

structure FeatureSet.Exact (pairs : List (Nat × String)) : Prop where
  accepts : (∃ set, ofPairs pairs = .ok set) ↔ Consistent pairs
  holds : ∀ set, ofPairs pairs = .ok set → set.Holds pairs
  unordered : ∀ set others, ofPairs pairs = .ok set → others.Perm pairs → ofPairs others = .ok set
  refuses : ∀ e, ofPairs pairs = .error e ↔
    ∃ before pair after, pairs = before ++ pair :: after ∧ Consistent before ∧ Refused before pair e

structure LabelSet.Exact (labels : List String) : Prop where
  accepts : (∃ set, ofNames labels = .ok set) ↔ (∀ label ∈ labels, isIdentifier label = true) ∧
    labels.Nodup
  get : ∀ set, ofNames labels = .ok set → ∀ index label,
    set.get? index = some label ↔ labels[index]? = some label
  indexOf : ∀ set, ofNames labels = .ok set → ∀ index label,
    set.indexOf? label = some index ↔ labels[index]? = some label

/-- Both kinds of sets are exact for every list: nothing else is accepted, nothing is lost or
reordered, and an error is that of the first entry that cannot join those before it. -/
theorem name_sets_exact (pairs : List (Nat × String)) (labels : List String) :
    FeatureSet.Exact pairs ∧ LabelSet.Exact labels := by
  constructor
  · constructor
    · exact FeatureSet.ofPairs_ok_iff
    · intro set made
      exact FeatureSet.ofPairs_holds made
    · intro set others made same
      exact FeatureSet.ofPairs_of_perm made same
    · intro e
      exact FeatureSet.ofPairs_error_iff
  · constructor
    · exact LabelSet.ofNames_ok_iff
    · intro set made index label
      rw [LabelSet.get?, LabelSet.labels_ofNames made]
    · intro set made index label
      rw [LabelSet.indexOf_iff, LabelSet.get?, LabelSet.labels_ofNames made]

end DecisionTreeC
