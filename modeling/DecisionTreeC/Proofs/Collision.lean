import DecisionTreeC.Proofs.CleanName
import DecisionTreeC.Proofs.NameSets

/-!
Names that collide once they are cleaned. A list is cleaned as a whole exactly when its cleaned
names are distinct; otherwise the first name that becomes one seen before is reported together with
the name it collides with, or as a repetition if the two were the same. What comes out of the
cleaning are distinct identifiers, so no set of names has anything left to refuse.
-/
namespace DecisionTreeC

open Identifier

structure Clash (lead : String) (names : List String) (i j : Nat) (first second : String) :
    Prop where
  before : i < j
  here : names[i]? = some first
  there : names[j]? = some second
  same : cleaned lead first = cleaned lead second

/-- A clash that no other one comes to an end before. -/
structure FirstClash (lead : String) (names : List String) (i j : Nat) (first second : String) :
    Prop where
  clash : Clash lead names i j first second
  least : ∀ k l a b, Clash lead names k l a b → j ≤ l

def clashError (lead first second : String) : NameError :=
  if first = second then .duplicateName second
  else .sanitizeCollision (cleaned lead second) first second

structure CleanedInto {S : Type} (lead : String) (nameAt : S → Nat → Option String)
    (names : List String) (outcome : Except NameError S) : Prop where
  accepts : (∃ set, outcome = .ok set) ↔ (names.map (cleaned lead)).Nodup
  entries : ∀ set, outcome = .ok set → ∀ i, nameAt set i = names[i]?.map (cleaned lead)
  /-- The later place of the first clash has one partner only. -/
  refuses : ¬ (names.map (cleaned lead)).Nodup → ∃ i j first second,
    FirstClash lead names i j first second ∧ (∀ k a b, Clash lead names k j a b → k = i) ∧
      outcome = .error (clashError lead first second)
  valid : ∀ name, outcome ≠ .error (.invalidIdentifier name)
  indexed : ∀ index, outcome ≠ .error (.duplicateIndex index)

section

variable {lead : String} {names : List String} {i j : Nat} {first second : String}

theorem Clash.lt_length (clash : Clash lead names i j first second) : j < names.length :=
  (List.getElem?_eq_some_iff.mp clash.there).1

theorem Clash.not_nodup (clash : Clash lead names i j first second) :
    ¬ (names.map (cleaned lead)).Nodup := by
  intro distinct
  have inside : i < (names.map (cleaned lead)).length := by
    rw [List.length_map]
    exact Nat.lt_trans clash.before clash.lt_length
  have same : (names.map (cleaned lead))[i]? = (names.map (cleaned lead))[j]? := by
    rw [List.getElem?_map, List.getElem?_map, clash.here, clash.there, Option.map_some,
      Option.map_some, clash.same]
  have equal := (List.getElem?_inj inside distinct).mp same
  have before := clash.before
  omega

theorem Clash.of_append {more : List String} (clash : Clash lead (names ++ more) i j first second)
    (inside : j < names.length) : Clash lead names i j first second := by
  have before := clash.before
  have at_first := clash.here
  have at_second := clash.there
  rw [List.getElem?_append_left (by omega)] at at_first
  rw [List.getElem?_append_left inside] at at_second
  exact ⟨before, at_first, at_second, clash.same⟩

/-- Two partners of one place would clash with each other, and earlier. -/
theorem FirstClash.partner (earliest : FirstClash lead names i j first second) {k : Nat}
    {a b : String} (other : Clash lead names k j a b) : k = i := by
  have seconds : b = second := Option.some.inj (other.there.symm.trans earliest.clash.there)
  have same : cleaned lead a = cleaned lead first := by
    rw [other.same, seconds, earliest.clash.same]
  rcases Nat.lt_trichotomy k i with less | equal | more
  · have last := earliest.least k i a first ⟨less, other.here, earliest.clash.here, same⟩
    have before := earliest.clash.before
    omega
  · exact equal
  · have last := earliest.least i k first a ⟨more, earliest.clash.here, other.here, same.symm⟩
    have before := other.before
    omega

theorem firstClash_next (distinct : (names.map (cleaned lead)).Nodup)
    (at_first : names[i]? = some first) (same : cleaned lead first = cleaned lead second)
    (rest : List String) :
    FirstClash lead (names ++ second :: rest) i names.length first second := by
  have inside : i < names.length := (List.getElem?_eq_some_iff.mp at_first).1
  constructor
  · constructor
    · exact inside
    · rw [List.getElem?_append_left inside]
      exact at_first
    · simp
    · exact same
  · intro k l a b clash
    by_contra earlier
    exact (clash.of_append (by omega)).not_nodup distinct

end

def recorded (lead : String) (names : List String) : List (String × String) :=
  (names.map fun name => (cleaned lead name, name)).reverse

theorem recorded_snoc (lead : String) (names : List String) (name : String) :
    recorded lead (names ++ [name]) = (cleaned lead name, name) :: recorded lead names := by
  simp [recorded]

theorem mem_recorded {lead : String} {names : List String} {clean name : String} :
    (clean, name) ∈ recorded lead names ↔ name ∈ names ∧ cleaned lead name = clean := by
  simp [recorded]

theorem lookup_recorded {lead : String} {names : List String} {clean first : String}
    (found : (recorded lead names).lookup clean = some first) :
    ∃ i : Nat, names[i]? = some first ∧ cleaned lead first = clean := by
  obtain ⟨later, earlier, parts, _⟩ := List.lookup_eq_some_iff.mp found
  have member : (clean, first) ∈ recorded lead names := by simp [parts]
  obtain ⟨here, same⟩ := mem_recorded.mp member
  obtain ⟨i, at_first⟩ := List.getElem?_of_mem here
  exact ⟨i, at_first, same⟩

theorem nodup_snoc_of_lookup {lead : String} {names : List String} {name : String}
    (distinct : (names.map (cleaned lead)).Nodup)
    (absent : (recorded lead names).lookup (cleaned lead name) = none) :
    ((names ++ [name]).map (cleaned lead)).Nodup := by
  have fresh : cleaned lead name ∉ names.map (cleaned lead) := by
    intro member
    obtain ⟨other, here, same⟩ := List.mem_map.mp member
    have unlike := List.lookup_eq_none_iff.mp absent _ (mem_recorded.mpr ⟨here, same⟩)
    simp at unlike
  rw [List.map_append, List.map_singleton, List.nodup_append]
  refine ⟨distinct, List.nodup_singleton _, ?_⟩
  intro a here b there same
  rw [List.mem_singleton.mp there] at same
  exact fresh (same ▸ here)

/-- Cleaning the names behind distinct ones: they are all distinct, or the first clash is reported.
The record grows by one name at each step. -/
theorem cleanAfter_outcome (lead : String) (before names : List String)
    (distinct : (before.map (cleaned lead)).Nodup) :
    (cleanAfter lead (recorded lead before) names = .ok (names.map (cleaned lead)) ∧
      ((before ++ names).map (cleaned lead)).Nodup) ∨
    ∃ i j first second, FirstClash lead (before ++ names) i j first second ∧
      cleanAfter lead (recorded lead before) names = .error (clashError lead first second) := by
  induction names generalizing before with
  | nil =>
    left
    rw [List.append_nil]
    exact ⟨rfl, distinct⟩
  | cons name rest ih =>
    rw [cleanAfter]
    cases found : (recorded lead before).lookup (cleaned lead name) with
    | some first =>
      right
      obtain ⟨i, at_first, same⟩ := lookup_recorded found
      have reported : (if first = name then .error (.duplicateName name)
            else .error (.sanitizeCollision (cleaned lead name) first name) :
              Except NameError (List String)) =
          .error (clashError lead first name) := (apply_ite Except.error ..).symm
      exact ⟨i, before.length, first, name, firstClash_next distinct at_first same rest, reported⟩
    | none =>
      have later := ih (before ++ [name]) (nodup_snoc_of_lookup distinct found)
      rw [recorded_snoc, List.append_assoc, List.singleton_append] at later
      rcases later with ⟨done, whole⟩ | ⟨i, j, first, second, earliest, stopped⟩
      · left
        rw [done]
        exact ⟨rfl, whole⟩
      · right
        rw [stopped]
        exact ⟨i, j, first, second, earliest, rfl⟩

theorem cleanAll_outcome (lead : String) (names : List String) :
    (cleanAll lead names = .ok (names.map (cleaned lead)) ∧ (names.map (cleaned lead)).Nodup) ∨
    ∃ i j first second, FirstClash lead names i j first second ∧
      cleanAll lead names = .error (clashError lead first second) :=
  cleanAfter_outcome lead [] names .nil

theorem nameFault_none {seen names : List String}
    (valid : ∀ name ∈ names, isIdentifier name = true) (distinct : names.Nodup)
    (apart : ∀ name ∈ names, name ∉ seen) : nameFault? seen names = none := by
  induction names generalizing seen with
  | nil => rfl
  | cons first rest ih =>
    obtain ⟨here, later⟩ := List.forall_mem_cons.mp valid
    obtain ⟨fresh, others⟩ := List.nodup_cons.mp distinct
    obtain ⟨unseen, rest_unseen⟩ := List.forall_mem_cons.mp apart
    rw [nameFault?, if_pos here, if_neg unseen]
    apply ih later others
    intro name member known
    rcases List.mem_cons.mp known with equal | before
    · exact fresh (equal ▸ member)
    · exact rest_unseen name member before

theorem cleaned_into {S : Type} {make : List String → Except NameError S}
    {nameAt : S → Nat → Option String} {lead : String} (word : isWord lead.toList = true)
    (stops : ∀ {names e}, make names = .error e ↔ nameFault? [] names = some e)
    (keeps : ∀ {names set}, make names = .ok set → ∀ i, nameAt set i = names[i]?)
    (names : List String) : CleanedInto lead nameAt names (cleanAll lead names >>= make) := by
  rcases cleanAll_outcome lead names with
    ⟨done, distinct⟩ | ⟨i, j, first, second, earliest, stopped⟩
  · have valid : ∀ name ∈ names.map (cleaned lead), isIdentifier name = true := by
      intro name member
      obtain ⟨raw, _, rfl⟩ := List.mem_map.mp member
      exact isIdentifier_cleaned word raw
    have clear : nameFault? [] (names.map (cleaned lead)) = none :=
      nameFault_none valid distinct (by simp)
    have accepted : ∃ set, make (names.map (cleaned lead)) = .ok set := by
      cases made : make (names.map (cleaned lead)) with
      | ok set => exact ⟨set, rfl⟩
      | error e =>
        rw [stops.mp made] at clear
        cases clear
    obtain ⟨set, made⟩ := accepted
    have outcome : (cleanAll lead names >>= make) = .ok set := by
      rw [done]
      exact made
    rw [outcome]
    constructor
    · exact ⟨fun _ => distinct, fun _ => ⟨set, rfl⟩⟩
    · intro other equal i
      cases equal
      rw [keeps made, List.getElem?_map]
    · exact fun clashing => absurd distinct clashing
    · exact nofun
    · exact nofun
  · have outcome : (cleanAll lead names >>= make) = .error (clashError lead first second) := by
      rw [stopped]
      rfl
    rw [outcome]
    constructor
    · exact ⟨nofun, fun distinct => absurd distinct earliest.clash.not_nodup⟩
    · exact nofun
    · intro _
      exact ⟨i, j, first, second, earliest, fun k a b => earliest.partner, rfl⟩
    · intro name
      unfold clashError
      split <;> exact nofun
    · intro index
      unfold clashError
      split <;> exact nofun

/-- Features and labels cleaned into sets: the sets exist exactly when the cleaned names are
distinct, and have them in the given order; otherwise the first clash is the error. -/
theorem sanitized_exact (names : List String) :
    CleanedInto "feature_" FeatureSet.name? names (FeatureSet.sanitized names) ∧
      CleanedInto "class_" LabelSet.get? names (LabelSet.sanitized names) := by
  constructor
  · apply cleaned_into (by decide) FeatureSet.ofNames_error_iff
    exact FeatureSet.name_ofNames
  · apply cleaned_into (by decide) LabelSet.ofNames_error_iff
    intro labels set made i
    rw [LabelSet.get?, LabelSet.labels_ofNames made]

end DecisionTreeC
