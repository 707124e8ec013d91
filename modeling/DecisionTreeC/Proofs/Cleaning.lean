import DecisionTreeC.Dump.Convert
import DecisionTreeC.Proofs.Token

/-!
Cleaned names beside names taken as they are. An identifier is cleaned into itself, so a list of
identifiers is repeated exactly when its cleaned list is. Both sets of names refuse a list at the
same place for the same reason; cleaning first gives the same set or the same repetition, and
differs only where some name is no identifier. The same then holds of whole conversions.
-/
namespace DecisionTreeC

open Identifier

theorem masked_word {word : List Char} (valid : isWord word = true) : masked word = word := by
  have parts : ∀ c ∈ word, (if isPart c then c else '_') = c := by
    intro c member
    rw [if_pos (Code.isPart_of_isWord valid c member)]
  rw [masked, List.map_congr_left parts, List.map_id']

theorem led_word (lead : List Char) {word : List Char} (valid : isWord word = true) :
    led lead word = word := by
  cases word with
  | nil => cases valid
  | cons first rest =>
    rw [isWord, Bool.and_eq_true] at valid
    have letter : ¬ first.isDigit = true := fun digit => Code.isDigit_not_isStart digit valid.1
    rw [led, if_neg letter]

theorem cleaned_identifier (lead : String) {name : String} (valid : isIdentifier name = true) :
    cleaned lead name = name := by
  rw [isIdentifier, Bool.and_eq_true, Bool.not_eq_true'] at valid
  have kept : String.ofList (led lead.toList (masked name.toList)) = name := by
    rw [masked_word valid.1, led_word _ valid.1, String.ofList_toList]
  rw [cleaned, kept, valid.2]
  rfl

/-- Why a list of names is refused as it is, behind the names in `seen`: at the first name that is
no identifier or that was there before. -/
def nameFault? (seen : List String) : List String → Option NameError
  | [] => none
  | name :: rest =>
    if isIdentifier name then
      if name ∈ seen then some (.duplicateName name) else nameFault? (name :: seen) rest
    else some (.invalidIdentifier name)

/-- What becomes of one more name for a set: it is refused if it is no identifier or is there
already, and otherwise joins the names of the set. -/
inductive Admission {S : Type} (names : S → List String) (after : S → Prop) (set : S)
    (name : String) : Except NameError S → Prop where
  | invalid (wrong : ¬ isIdentifier name = true) :
      Admission names after set name (.error (.invalidIdentifier name))
  | known (valid : isIdentifier name = true) (before : name ∈ names set) :
      Admission names after set name (.error (.duplicateName name))
  | taken {bigger : S} (valid : isIdentifier name = true) (fresh : name ∉ names set)
      (now : ∀ other, other ∈ names bigger ↔ other = name ∨ other ∈ names set)
      (ready : after bigger) :
      Admission names after set name (.ok bigger)

theorem foldlM_fault {S α : Type} {step : S → α → Except NameError S} {names : S → List String}
    {nameOf : α → String} {Ready : List α → S → Prop}
    (admits : ∀ set item rest, Ready (item :: rest) set →
      Admission names (Ready rest) set (nameOf item) (step set item))
    {set : S} {items : List α} {seen : List String} {e : NameError} (ready : Ready items set)
    (known : ∀ name, name ∈ names set ↔ name ∈ seen) :
    items.foldlM step set = .error e ↔ nameFault? seen (items.map nameOf) = some e := by
  induction items generalizing set seen with
  | nil => exact ⟨nofun, nofun⟩
  | cons item rest ih =>
    have admitted := admits set item rest ready
    rw [List.foldlM_cons, List.map_cons, nameFault?]
    generalize step set item = outcome at admitted
    cases admitted with
    | invalid wrong =>
      rw [if_neg wrong]
      exact ⟨fun stopped => by cases stopped; rfl, fun stopped => by cases stopped; rfl⟩
    | known valid before =>
      rw [if_pos valid, if_pos ((known _).mp before)]
      exact ⟨fun stopped => by cases stopped; rfl, fun stopped => by cases stopped; rfl⟩
    | taken valid fresh now ready =>
      rw [if_pos valid, if_neg (mt (known _).mpr fresh)]
      apply ih ready
      intro other
      rw [now, known, List.mem_cons]

namespace LabelSet

theorem push_admission (set : LabelSet) (label : String) :
    Admission labels (fun _ => True) set label (set.push label) := by
  unfold push
  split
  · rename_i valid
    split
    · rename_i before
      exact .known valid before
    · rename_i fresh
      refine .taken valid fresh ?_ trivial
      intro other
      rw [List.mem_append, List.mem_singleton, or_comm]
  · rename_i wrong
    exact .invalid wrong

theorem ofNames_error_iff {names : List String} {e : NameError} :
    ofNames names = .error e ↔ nameFault? [] names = some e := by
  have stopped := @foldlM_fault _ _ push labels id (fun _ _ => True)
    (fun set label _ _ => push_admission set label) empty names [] e trivial (by simp [empty])
  rwa [List.map_id] at stopped

end LabelSet

namespace FeatureSet

def Ready (items : List (Nat × String)) (set : FeatureSet) : Prop :=
  (items.map Prod.fst).Nodup ∧ ∀ item ∈ items, item.1 ∉ set.entries.map Prod.fst

theorem insert_admission {set : FeatureSet} {item : Nat × String} {rest : List (Nat × String)}
    (ready : Ready (item :: rest) set) :
    Admission (·.entries.map Prod.snd) (Ready rest) set item.2 (set.insert item) := by
  obtain ⟨distinct, unused⟩ := ready
  rw [List.map_cons, List.nodup_cons] at distinct
  unfold insert
  split
  · rename_i valid
    split
    · rename_i before
      exact .known valid before
    · rename_i fresh
      rw [dif_neg (unused item (List.mem_cons_self ..))]
      refine .taken valid fresh ?_ ⟨distinct.2, ?_⟩
      · intro other
        simp only [List.mem_map, mem_place]
        constructor
        · rintro ⟨entry, rfl | earlier, rfl⟩
          · exact .inl rfl
          · exact .inr ⟨entry, earlier, rfl⟩
        · rintro (rfl | ⟨entry, earlier, rfl⟩)
          · exact ⟨item, .inl rfl, rfl⟩
          · exact ⟨entry, .inr earlier, rfl⟩
      · intro later member used
        obtain ⟨entry, placed, same⟩ := List.mem_map.mp used
        rcases mem_place.mp placed with rfl | earlier
        · exact distinct.1 (same ▸ List.mem_map_of_mem member)
        · exact unused later (List.mem_cons_of_mem _ member) (same ▸ List.mem_map_of_mem earlier)
  · rename_i wrong
    exact .invalid wrong

theorem ofNames_error_iff {names : List String} {e : NameError} :
    ofNames names = .error e ↔ nameFault? [] names = some e := by
  have indices : (names.zipIdx.map Prod.swap).map Prod.fst = List.range' 0 names.length := by
    rw [List.map_map]
    exact List.zipIdx_map_snd 0 names
  have values : (names.zipIdx.map Prod.swap).map Prod.snd = names := by
    rw [List.map_map]
    exact List.zipIdx_map_fst 0 names
  have ready : Ready (names.zipIdx.map Prod.swap) empty :=
    ⟨indices ▸ List.nodup_range', fun _ _ => by simp [empty]⟩
  have stopped := @foldlM_fault _ _ insert (·.entries.map Prod.snd) Prod.snd Ready
    (fun _ _ _ => insert_admission) empty (names.zipIdx.map Prod.swap) [] e ready (by simp [empty])
  rwa [values] at stopped

end FeatureSet

theorem lookup_pairs (seen : List String) (name : String) :
    (seen.map fun other => (other, other)).lookup name =
      if name ∈ seen then some name else none := by
  induction seen with
  | nil => rfl
  | cons first rest ih =>
    rw [List.map_cons, List.lookup_cons, ih]
    by_cases here : name = first
    · simp [here]
    · simp [here, beq_false_of_ne here]

def NameError.IsInvalid (e : NameError) : Prop := ∃ name, e = .invalidIdentifier name

/-- Identifiers are cleaned into themselves, so they collide only by being repeated. -/
theorem cleanAfter_fault (lead : String) (seen names : List String) :
    (nameFault? seen names = none →
      cleanAfter lead (seen.map fun other => (other, other)) names = .ok names) ∧
    (∀ e, nameFault? seen names = some e → ¬ e.IsInvalid →
      cleanAfter lead (seen.map fun other => (other, other)) names = .error e) := by
  induction names generalizing seen with
  | nil => exact ⟨fun _ => rfl, nofun⟩
  | cons first rest ih =>
    rw [nameFault?]
    by_cases valid : isIdentifier first = true
    · rw [if_pos valid, cleanAfter, cleaned_identifier lead valid, lookup_pairs]
      by_cases before : first ∈ seen
      · rw [if_pos before, if_pos before]
        constructor
        · nofun
        · intro e fault _
          cases fault
          exact if_pos rfl
      · rw [if_neg before, if_neg before]
        obtain ⟨kept, repeated⟩ := ih (first :: seen)
        rw [List.map_cons] at kept repeated
        constructor
        · intro clear
          exact congrArg (Except.map (first :: ·)) (kept clear)
        · intro e fault unexcused
          exact congrArg (Except.map (first :: ·)) (repeated e fault unexcused)
    · rw [if_neg valid]
      constructor
      · nofun
      · intro e fault unexcused
        cases fault
        exact absurd ⟨first, rfl⟩ unexcused

/-- The second outcome is the first one, unless the first is an error that is excused. -/
structure Extends {ε α : Type} (Excused : ε → Prop) (strict lenient : Except ε α) : Prop where
  ok : ∀ a, strict = .ok a → lenient = .ok a
  error : ∀ e, strict = .error e → ¬ Excused e → lenient = .error e

namespace Extends

variable {ε ε' α β : Type} {Excused : ε → Prop}

theorem refl (outcome : Except ε α) : Extends Excused outcome outcome :=
  ⟨fun _ done => done, fun _ stopped _ => stopped⟩

theorem bind {x y : Except ε α} {f g : α → Except ε β} (first : Extends Excused x y)
    (next : ∀ a, Extends Excused (f a) (g a)) : Extends Excused (x >>= f) (y >>= g) := by
  cases x with
  | ok a =>
    rw [first.ok a rfl]
    exact next a
  | error e =>
    constructor
    · nofun
    · intro e' same unexcused
      cases same
      rw [first.error e rfl unexcused]
      rfl

theorem mapError {x y : Except ε α} {Excused' : ε' → Prop} {f : ε → ε'}
    (kept : ∀ e, Excused e → Excused' (f e)) (inner : Extends Excused x y) :
    Extends Excused' (x.mapError f) (y.mapError f) := by
  cases x with
  | ok a =>
    rw [inner.ok a rfl]
    exact refl _
  | error e =>
    constructor
    · nofun
    · intro e' same unexcused
      cases same
      rw [inner.error e rfl (mt (kept e) unexcused)]
      rfl

end Extends

theorem cleaned_extends {S : Type} {make : List String → Except NameError S} (lead : String)
    (stops : ∀ {names e}, make names = .error e ↔ nameFault? [] names = some e)
    (names : List String) :
    Extends NameError.IsInvalid (make names) (cleanAll lead names >>= make) := by
  obtain ⟨kept, repeated⟩ := cleanAfter_fault lead [] names
  constructor
  · intro set done
    have clear : nameFault? [] names = none := by
      cases fault : nameFault? [] names with
      | none => rfl
      | some e =>
        rw [stops.mpr fault] at done
        cases done
    exact (congrArg (· >>= make) (kept clear)).trans done
  · intro e stopped unexcused
    exact congrArg (· >>= make) (repeated e (stops.mp stopped) unexcused)

def ConversionError.IsInvalidName (e : ConversionError) : Prop :=
  ∃ name, e = .names (.invalidIdentifier name)

theorem NameError.IsInvalid.conversion {e : NameError} (invalid : e.IsInvalid) :
    (ConversionError.names e).IsInvalidName := by
  obtain ⟨name, rfl⟩ := invalid
  exact ⟨name, rfl⟩

namespace Dump

/-- Converting with cleaned names gives what converting with the names as they are gives: the same
classifier, or the same error. Only where a name is no identifier can it give something else. -/
theorem sanitized_extends_strict (dump : Dump) :
    (∀ c, dump.toClassifier false = .ok c → dump.toClassifier true = .ok c) ∧
    (∀ e, dump.toClassifier false = .error e → (∀ name, e ≠ .names (.invalidIdentifier name)) →
      dump.toClassifier true = .error e) := by
  have features :=
    (cleaned_extends "feature_" FeatureSet.ofNames_error_iff dump.featureNames).mapError
    fun _ => NameError.IsInvalid.conversion
  have labels := (cleaned_extends "class_" LabelSet.ofNames_error_iff
    (dump.classes.map ClassName.display)).mapError fun _ => NameError.IsInvalid.conversion
  have whole : Extends ConversionError.IsInvalidName (dump.toClassifier false)
      (dump.toClassifier true) :=
    features.bind fun _ => labels.bind fun _ => .refl _
  constructor
  · exact whole.ok
  · intro e stopped other
    apply whole.error e stopped
    rintro ⟨name, same⟩
    exact other name same

end Dump

end DecisionTreeC
