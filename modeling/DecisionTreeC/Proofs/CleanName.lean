import DecisionTreeC.Proofs.Cleaning

/-!
What cleaning makes of a name. Masking leaves only characters of identifiers, the lead replaces a
digit or nothing at the front, and no keyword ends in an underscore; so each step keeps what the
earlier ones reached, and the cleaned name is an identifier. A name that is one already is not
changed, so cleaning twice is cleaning once.
-/
namespace DecisionTreeC

namespace Identifier

theorem isPart_masked (text : List Char) : ∀ c ∈ masked text, isPart c = true := by
  intro c member
  obtain ⟨d, _, rfl⟩ := List.mem_map.mp member
  split
  · assumption
  · rfl

theorem isStart_of_isPart {c : Char} (part : isPart c = true) (letter : ¬ c.isDigit = true) :
    isStart c = true := by
  simp only [isPart, isStart, Char.isAlphanum, Bool.or_eq_true] at part ⊢
  rcases part with (alpha | digit) | low
  · exact .inl alpha
  · exact absurd digit letter
  · exact .inr low

theorem isWord_append {word rest : List Char} (valid : isWord word = true)
    (parts : ∀ c ∈ rest, isPart c = true) : isWord (word ++ rest) = true := by
  cases word with
  | nil => cases valid
  | cons first more =>
    rw [isWord, Bool.and_eq_true] at valid
    rw [List.cons_append, isWord, List.all_append, valid.1, valid.2, List.all_eq_true.mpr parts]
    rfl

theorem isWord_led {lead text : List Char} (word : isWord lead = true)
    (parts : ∀ c ∈ text, isPart c = true) : isWord (led lead text) = true := by
  cases text with
  | nil => exact word
  | cons first rest =>
    rw [led]
    split
    · exact isWord_append word parts
    · rename_i letter
      obtain ⟨here, later⟩ := List.forall_mem_cons.mp parts
      rw [isWord, isStart_of_isPart here letter, List.all_eq_true.mpr later]
      rfl

theorem keyword_last : ∀ keyword ∈ keywords, keyword.toList.getLast? ≠ some '_' := by
  decide +kernel

theorem suffixed_not_keyword (word : String) : word ++ "_" ∉ keywords := by
  intro keyword
  apply keyword_last _ keyword
  simp [String.toList_append]

end Identifier

open Identifier

theorem isIdentifier_cleaned {lead : String} (word : isWord lead.toList = true) (name : String) :
    isIdentifier (cleaned lead name) = true := by
  have spelled := isWord_led word (isPart_masked name.toList)
  rw [cleaned]
  split
  · have longer : isWord (led lead.toList (masked name.toList) ++ ['_']) = true :=
      isWord_append spelled (by simp [isPart])
    simp [isIdentifier, longer, suffixed_not_keyword]
  · rename_i free
    rw [Bool.not_eq_true] at free
    rw [isIdentifier, String.toList_ofList, spelled, free]
    rfl

/-- Cleaning gives an identifier for every name, as long as the lead is spelled like one; it keeps
identifiers, and with any lead a second cleaning keeps what the first one made. -/
theorem cleaned_usable {lead : String} (word : isWord lead.toList = true) (name : String) :
    isIdentifier (cleaned lead name) = true ∧
    (isIdentifier name = true → cleaned lead name = name) ∧
      ∀ second, cleaned second (cleaned lead name) = cleaned lead name := by
  have usable := isIdentifier_cleaned word name
  refine ⟨usable, cleaned_identifier lead, ?_⟩
  intro second
  exact cleaned_identifier second usable

/-- The lead may itself be a keyword: an empty name becomes one, and gets an underscore. -/
theorem cleaned_int :
    isWord "int".toList = true ∧ cleaned "int" "" = "int_" ∧ cleaned "int" "8é" = "int8_" ∧
    isIdentifier (cleaned "int" "") = true ∧
    cleaned "class_" (cleaned "int" "8é") = cleaned "int" "8é" := by
  have word : isWord "int".toList = true := by decide
  obtain ⟨usable, _, _⟩ := cleaned_usable word ""
  obtain ⟨_, _, again⟩ := cleaned_usable word "8é"
  exact ⟨word, by decide +kernel, by decide +kernel, usable, again "class_"⟩

end DecisionTreeC
