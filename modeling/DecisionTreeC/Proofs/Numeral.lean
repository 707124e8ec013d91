import DecisionTreeC.Proofs.Reading
import DecisionTreeC.Proofs.Shortest

/-!
Numbers in JSON text. A numeral is taken apart into its digits and its power of ten exactly as it
was put together, so integers and finite doubles are read as what they were written for. A double
always has a point or an exponent in its text, which keeps it apart from the integers.
-/
namespace DecisionTreeC.Json

open Reader

/-- The parts of a number's text behind its sign: digits before and after the point, and the digits
of a negative or positive power of ten. -/
structure Numeral where
  whole : List Char
  fraction : List Char
  exponent : Option (Bool × List Char)

namespace Numeral

def powerText : Option (Bool × List Char) → List Char
  | none => []
  | some (down, digits) => 'e' :: (if down then '-' else '+') :: digits

def pointText (fraction : List Char) : List Char := if fraction = [] then [] else '.' :: fraction

def text (n : Numeral) : List Char := n.whole ++ (pointText n.fraction ++ powerText n.exponent)

def power : Option (Bool × List Char) → Option Int
  | none => none
  | some (down, digits) =>
    some (if down then -(digitsValue 0 digits : Int) else digitsValue 0 digits)

def literal (n : Numeral) (negative : Bool) : Literal :=
  ⟨negative, digitsValue 0 (n.whole ++ n.fraction), (power n.exponent).getD 0 - n.fraction.length,
    n.fraction.isEmpty && n.exponent.isNone⟩

structure Proper (n : Numeral) : Prop where
  whole : ∀ c ∈ n.whole, c.isDigit = true
  first : n.whole ≠ []
  leading : n.whole = ['0'] ∨ n.whole.head? ≠ some '0'
  fraction : ∀ c ∈ n.fraction, c.isDigit = true
  power : ∀ down digits, n.exponent = some (down, digits) → digits ≠ [] ∧
    ∀ c ∈ digits, c.isDigit = true

end Numeral

def EndsDigits (rest : List Char) : Prop := ∀ c, rest.head? = some c → c.isDigit = false

theorem takeWhile_digits {digits rest : List Char} (all_digits : ∀ c ∈ digits, c.isDigit = true)
    (ends : EndsDigits rest) :
    (digits ++ rest).takeWhile Char.isDigit = digits ∧
    (digits ++ rest).dropWhile Char.isDigit = rest := by
  rw [List.takeWhile_append_of_pos all_digits, List.dropWhile_append_of_pos all_digits]
  cases rest with
  | nil => simp
  | cons c rest => simp [ends c rfl]

theorem wholePart_eq {early : Fault} {n : Numeral} (proper : n.Proper) {rest : List Char}
    (ends : EndsDigits rest) : wholePart early (n.whole ++ rest) = .ok (n.whole, rest) := by
  obtain ⟨c, more, split_whole⟩ := List.exists_cons_of_ne_nil proper.first
  have digits := proper.whole
  have leading := proper.leading
  rw [split_whole] at digits leading ⊢
  by_cases zero : c = '0'
  · subst zero
    have alone : more = [] := by simpa using leading
    subst alone
    cases rest with
    | nil => rfl
    | cons d rest => simp [wholePart, ends d rfl]
  · have run := takeWhile_digits (fun d member => digits d (List.mem_cons_of_mem c member)) ends
    rw [List.cons_append, wholePart]
    · simp [digits c (by simp), run]
    · exact zero

theorem digitRun_eq {early : Fault} {digits rest : List Char} (nonempty : digits ≠ [])
    (all_digits : ∀ c ∈ digits, c.isDigit = true) (ends : EndsDigits rest) :
    digitRun early (digits ++ rest) = .ok (digits, rest) := by
  obtain ⟨c, more, rfl⟩ := List.exists_cons_of_ne_nil nonempty
  have run := takeWhile_digits all_digits ends
  rw [List.cons_append] at run ⊢
  simp [digitRun, all_digits c (by simp), run]

theorem fractionPart_eq {early : Fault} {fraction rest : List Char}
    (all_digits : ∀ c ∈ fraction, c.isDigit = true) (ends : EndsDigits rest)
    (point : rest.head? ≠ some '.') :
    fractionPart early (Numeral.pointText fraction ++ rest) = .ok (fraction, rest) := by
  by_cases empty : fraction = []
  · subst empty
    cases rest with
    | nil => rfl
    | cons c rest =>
      have other : c ≠ '.' := fun same => point (congrArg some same)
      simp [fractionPart, Numeral.pointText, other]
  · simp [fractionPart, Numeral.pointText, empty, digitRun_eq empty all_digits ends]

theorem Stops.endsDigits {rest : List Char} (stops : Stops rest) : EndsDigits rest := by
  intro c first
  rcases stops c first with rfl | rfl | rfl <;> decide

theorem exponentPart_eq {early : Fault} {exponent : Option (Bool × List Char)} {rest : List Char}
    (proper : ∀ down digits, exponent = some (down, digits) → digits ≠ [] ∧
      ∀ c ∈ digits, c.isDigit = true) (stops : Stops rest) :
    exponentPart early (Numeral.powerText exponent ++ rest) =
      .ok (Numeral.power exponent, rest) := by
  cases exponent with
  | none =>
    cases rest with
    | nil => rfl
    | cons c rest => rcases stops c rfl with rfl | rfl | rfl <;> rfl
  | some parts =>
    obtain ⟨down, digits⟩ := parts
    obtain ⟨nonempty, all_digits⟩ := proper down digits rfl
    have run := @digitRun_eq early _ _ nonempty all_digits stops.endsDigits
    cases down <;> simp [exponentPart, Numeral.powerText, Numeral.power, run, Except.map]

theorem powerText_head {exponent : Option (Bool × List Char)} {rest : List Char}
    (stops : Stops rest) :
    EndsDigits (Numeral.powerText exponent ++ rest) ∧
      (Numeral.powerText exponent ++ rest).head? ≠ some '.' := by
  cases exponent with
  | none =>
    refine ⟨stops.endsDigits, ?_⟩
    intro point
    rcases stops '.' point with same | same | same <;> cases same
  | some parts =>
    refine ⟨?_, by simp [Numeral.powerText]⟩
    intro c first
    cases first
    decide

theorem pointText_head {fraction rest : List Char} (ends : EndsDigits rest) :
    EndsDigits (Numeral.pointText fraction ++ rest) := by
  rw [Numeral.pointText]
  split
  · exact ends
  · intro c first
    cases first
    decide

theorem literal_eq {early : Fault} {n : Numeral} (proper : n.Proper) (negative : Bool)
    {rest : List Char} (stops : Stops rest) :
    literal early negative (n.text ++ rest) = .ok (n.literal negative, rest) := by
  obtain ⟨ends, point⟩ := @powerText_head n.exponent _ stops
  have whole := @wholePart_eq early _ proper _ (@pointText_head n.fraction _ ends)
  have fraction := @fractionPart_eq early _ _ proper.fraction ends point
  have exponent := @exponentPart_eq early _ _ proper.power stops
  have absent : (Numeral.power n.exponent).isNone = n.exponent.isNone := by
    cases n.exponent <;> rfl
  simp only [literal, Numeral.text, List.append_assoc, whole, fraction, exponent, bind, Except.bind,
    pure, Except.pure, absent, Numeral.literal]

def signedText (negative : Bool) (n : Numeral) : List Char :=
  if negative then '-' :: n.text else n.text

theorem Numeral.Proper.start {n : Numeral} (proper : n.Proper) :
    ∃ c more, n.text = c :: more ∧ c.isDigit = true := by
  obtain ⟨c, more, split_whole⟩ := List.exists_cons_of_ne_nil proper.first
  have digit := proper.whole c (by simp [split_whole])
  exact ⟨c, _, by rw [Numeral.text, split_whole, List.cons_append], digit⟩

theorem numberBody_eq {early : Fault} {n : Numeral} (proper : n.Proper) (negative : Bool)
    {rest : List Char} (stops : Stops rest) :
    numberBody early (signedText negative n ++ rest) = .ok (n.literal negative, rest) := by
  cases negative with
  | true => exact literal_eq proper true stops
  | false =>
    obtain ⟨c, more, start, digit⟩ := proper.start
    have read := @literal_eq early _ proper false _ stops
    simp only [signedText, Bool.false_eq_true, if_false]
    rw [start, List.cons_append] at read ⊢
    rw [numberBody]
    · exact read
    · intro more same
      cases same
      cases digit

structure Counts (text : List Char) (value : Number) : Prop where
  start : ∃ c more, text = c :: more ∧ isNumberStart c = true
  reads : Reads number text value

theorem Numeral.Proper.counts {n : Numeral} (proper : n.Proper) (negative : Bool) {value : Number}
    (known : (n.literal negative).number = .ok value) : Counts (signedText negative n) value where
  start := by
    obtain ⟨c, more, start, digit⟩ := proper.start
    cases negative with
    | true => exact ⟨'-', n.text, rfl, by decide⟩
    | false => exact ⟨c, more, start, by simp [isNumberStart, digit]⟩
  reads := by
    intro fuel rest _ stops
    have read := @numberBody_eq .unfinished _ proper negative _ stops
    simp [number, read, known]

theorem numberStart_ne {c d : Char} (start : isNumberStart c = true)
    (other : isNumberStart d = false) : c ≠ d := by
  rintro rfl
  rw [start] at other
  cases other

theorem numberStart_solid {c : Char} (start : isNumberStart c = true) : isBlank c = false := by
  simp [isBlank, numberStart_ne start (show isNumberStart ' ' = false by decide),
    numberStart_ne start (show isNumberStart '\n' = false by decide),
    numberStart_ne start (show isNumberStart '\t' = false by decide),
    numberStart_ne start (show isNumberStart '\r' = false by decide)]

namespace Counts

variable {text : List Char} {value : Number}

theorem numeral (counts : Counts text value) {α : Type} {keep : Number → Option α} {kept : α}
    (keeps : keep value = some kept) : Spells (Json.numeral keep) text kept := by
  obtain ⟨⟨c, more, rfl, start⟩, reads⟩ := counts
  have solid := numberStart_solid start
  refine ⟨⟨c, more, rfl, solid, numberStart_ne start (by decide)⟩, ?_⟩
  intro fuel rest enough stops
  have read := reads fuel rest enough stops
  rw [List.cons_append] at read ⊢
  simp [Json.numeral, solid, start, read, keeps]

theorem nested (counts : Counts text value) (depth : Nat) :
    Spells (Json.nested (depth + 1)) text (.number value) := by
  obtain ⟨⟨c, more, rfl, start⟩, reads⟩ := counts
  have solid := numberStart_solid start
  refine ⟨⟨c, more, rfl, solid, numberStart_ne start (by decide)⟩, ?_⟩
  intro fuel rest enough stops
  have read := reads fuel rest enough stops
  rw [List.cons_append] at read ⊢
  have others : c ≠ 'n' ∧ c ≠ 't' ∧ c ≠ 'f' ∧ c ≠ '"' ∧ c ≠ '[' ∧ c ≠ '\x7b' := by
    refine ⟨?_, ?_, ?_, ?_, ?_, ?_⟩ <;> exact numberStart_ne start (by decide)
  simp [Json.nested, solid, others, start, read]

end Counts

/-! Doubles. -/

/-- A numeral that is not plainly an integer and is worth `n * 10 ^ -scale`. -/
structure Numeral.Tells (numeral : Numeral) (n scale : Nat) : Prop where
  proper : numeral.Proper
  pointed : (numeral.fraction.isEmpty && numeral.exponent.isNone) = false
  worth : Worth (digitsValue 0 (numeral.whole ++ numeral.fraction))
    ((Numeral.power numeral.exponent).getD 0 - numeral.fraction.length) n scale

theorem digitsValue_eq (start : Nat) (digits : List Char) :
    digitsValue start digits = Nat.ofDigitChars 10 digits start := Nat.ofDigitChars_eq_foldl.symm

theorem digitsValue_digits (n : Nat) : digitsValue 0 (digits n) = n := by
  rw [digitsValue_eq]
  exact Nat.ofDigitChars_ten_toDigits

theorem zeros_isDigit (count : Nat) : ∀ c ∈ List.replicate count '0', c.isDigit = true := by
  intro c member
  rw [List.eq_of_mem_replicate member]
  decide

section Written

variable {s : Scientific} {n scale : Nat}

theorem positional_small (denotes : s.Denotes n scale) {e : Nat} (power : s.exponent = .negSucc e) :
    ∃ numeral : Numeral, numeral.Tells n scale ∧ (s.positional ".0").toList = numeral.text := by
  refine ⟨⟨['0'], List.replicate e '0' ++ s.digits, none⟩, ⟨?_, ?_, ?_⟩, ?_⟩
  · refine ⟨by simp [Char.isDigit], by simp, .inl rfl, ?_, by simp⟩
    exact List.forall_mem_append.mpr ⟨zeros_isDigit e, denotes.digit⟩
  · simp [denotes.nonempty]
  · have worth := denotes.worth_digits
    have value : digitsValue 0 (['0'] ++ (List.replicate e '0' ++ s.digits)) =
        Nat.ofDigitChars 10 s.digits 0 := by
      simp [digitsValue_eq, Nat.ofDigitChars_append, Nat.ofDigitChars_cons,
        Nat.ofDigitChars_replicate_zero]
    have exponent : s.exponent + 1 - s.digits.length =
        (Numeral.power none).getD 0 - (List.replicate e '0' ++ s.digits).length := by
      rw [power, Int.negSucc_eq, List.length_append, List.length_replicate, Numeral.power]
      simp only [Option.getD_none]
      omega
    rw [value, ← exponent]
    exact worth
  · simp [Scientific.positional, power, Numeral.text, Numeral.pointText, Numeral.powerText,
      denotes.nonempty]

theorem positional_padded (denotes : s.Denotes n scale) {e : Nat} (power : s.exponent = .ofNat e)
    (short : s.digits.length ≤ e + 1) :
    ∃ numeral : Numeral, numeral.Tells n scale ∧ (s.positional ".0").toList = numeral.text := by
  refine ⟨⟨s.digits ++ List.replicate (e + 1 - s.digits.length) '0', ['0'], none⟩,
    ⟨?_, rfl, ?_⟩, ?_⟩
  · refine ⟨?_, by simp [denotes.nonempty], .inr ?_, by simp [Char.isDigit], by simp⟩
    · exact List.forall_mem_append.mpr ⟨denotes.digit, zeros_isDigit _⟩
    · rw [List.head?_append, Option.or_of_isSome (List.isSome_head?.mpr denotes.nonempty)]
      exact denotes.leading
  · have worth :=
      denotes.worth_whole (power.trans (Int.ofNat_eq_natCast e)) (Nat.add_sub_of_le short)
    have value : digitsValue 0 (s.digits ++ List.replicate (e + 1 - s.digits.length) '0' ++ ['0']) =
        Nat.ofDigitChars 10 s.digits 0 * 10 ^ (e + 1 - s.digits.length) * 10 := by
      simp only [digitsValue_eq, Nat.ofDigitChars_append, Nat.ofDigitChars_replicate_zero,
        Nat.ofDigitChars_cons, Nat.ofDigitChars_nil, Nat.sub_self, Nat.add_zero]
      ring
    rw [value]
    exact worth
  · simp [Scientific.positional, power, short, Numeral.text, Numeral.pointText, Numeral.powerText]

theorem positional_split (denotes : s.Denotes n scale) {e : Nat} (power : s.exponent = .ofNat e)
    (long : ¬ s.digits.length ≤ e + 1) :
    ∃ numeral : Numeral, numeral.Tells n scale ∧ (s.positional ".0").toList = numeral.text := by
  have behind : s.digits.drop (e + 1) ≠ [] := by
    rw [Ne, List.drop_eq_nil_iff]
    exact long
  refine ⟨⟨s.digits.take (e + 1), s.digits.drop (e + 1), none⟩, ⟨?_, ?_, ?_⟩, ?_⟩
  · refine ⟨fun c member => denotes.digit c (List.mem_of_mem_take member),
      by simp [denotes.nonempty], .inr ?_, fun c member =>
        denotes.digit c (List.mem_of_mem_drop member), by simp⟩
    rw [List.head?_take]
    simpa using denotes.leading
  · simp [behind]
  · have worth := denotes.worth_digits
    have exponent : s.exponent + 1 - s.digits.length =
        (Numeral.power none).getD 0 - (s.digits.drop (e + 1)).length := by
      rw [power, Int.ofNat_eq_natCast, List.length_drop, Numeral.power]
      simp only [Option.getD_none]
      omega
    rw [List.take_append_drop, ← exponent, digitsValue_eq]
    exact worth
  · simp [Scientific.positional, power, long, Numeral.text, Numeral.pointText, Numeral.powerText,
      behind]

def powerParts : Int → Bool × List Char
  | .negSucc e => (true, digits (e + 1))
  | .ofNat e => (false, digits e)

theorem power_powerParts (exponent : Int) :
    Numeral.power (some (powerParts exponent)) = some exponent := by
  cases exponent with
  | negSucc e => simp [Numeral.power, powerParts, digitsValue_digits, Int.negSucc_eq]
  | ofNat e => simp [Numeral.power, powerParts, digitsValue_digits]

theorem powerParts_digits (exponent : Int) :
    (powerParts exponent).2 ≠ [] ∧ ∀ c ∈ (powerParts exponent).2, c.isDigit = true := by
  cases exponent with
  | negSucc e => exact ⟨Nat.toDigits_ne_nil, digits_isDigit⟩
  | ofNat e => exact ⟨Nat.toDigits_ne_nil, digits_isDigit⟩

theorem exponential_eq {first : Char} {more : List Char} (parts : s.digits = first :: more) :
    s.exponential.toList = (⟨[first], more, some (powerParts s.exponent)⟩ : Numeral).text := by
  simp only [Scientific.exponential, parts, Numeral.text, Numeral.pointText, Numeral.powerText]
  cases more <;> cases s.exponent <;> simp [powerParts]

theorem exponential_tells (denotes : s.Denotes n scale) :
    ∃ numeral : Numeral, numeral.Tells n scale ∧ s.exponential.toList = numeral.text := by
  obtain ⟨first, more, parts⟩ := List.exists_cons_of_ne_nil denotes.nonempty
  have digit := denotes.digit
  have leading := denotes.leading
  have worth := denotes.worth_digits
  rw [parts] at digit leading worth
  refine ⟨⟨[first], more, some (powerParts s.exponent)⟩, ⟨?_, by simp, ?_⟩, exponential_eq parts⟩
  · refine ⟨?_, by simp, .inr leading, fun c member => digit c (List.mem_cons_of_mem _ member), ?_⟩
    · intro c member
      rw [List.mem_singleton.mp member]
      exact digit first (by simp)
    · intro down digits same
      have := powerParts_digits s.exponent
      rwa [Option.some.inj same] at this
  · rw [power_powerParts, digitsValue_eq]
    have exponent : s.exponent + 1 - (first :: more).length =
        (some s.exponent).getD 0 - more.length := by
      simp only [List.length_cons, Option.getD_some]
      omega
    rw [← exponent]
    exact worth

theorem magnitude_tells (denotes : s.Denotes n scale) :
    ∃ numeral : Numeral, numeral.Tells n scale ∧
      (if -5 ≤ s.exponent ∧ s.exponent ≤ 15 then s.positional ".0" else s.exponential).toList =
        numeral.text := by
  split
  · cases power : s.exponent with
    | negSucc e => exact positional_small denotes power
    | ofNat e =>
      by_cases short : s.digits.length ≤ e + 1
      · exact positional_padded denotes power short
      · exact positional_split denotes power short
  · exact exponential_tells denotes

end Written

theorem zero_tells (scale : Nat) : (⟨['0'], ['0'], none⟩ : Numeral).Tells 0 scale where
  proper := ⟨by simp [Char.isDigit], by simp, .inl rfl, by simp [Char.isDigit], by simp⟩
  pointed := rfl
  worth := ⟨0, 1, rfl, by simp [digitsValue]⟩

theorem writeNumber_tells {x : Double} (finite : x.isFinite = true) :
    ∃ (numeral : Numeral) (n : Nat), (writeNumber x).toList = signedText x.negative numeral ∧
      numeral.Tells n Format.double.scale ∧
      Format.double.Within n (5 ^ Format.double.scale) x.pattern := by
  have signed : ∀ magnitude : String, ∀ numeral : Numeral, magnitude.toList = numeral.text →
      (if x.negative then "-" ++ magnitude else magnitude).toList =
        signedText x.negative numeral := by
    intro magnitude numeral same
    cases x.negative <;> simp [signedText, same]
  rw [writeNumber, if_pos finite]
  by_cases zero : x.pattern = 0
  · refine ⟨⟨['0'], ['0'], none⟩, 0, signed _ _ ?_, zero_tells _, ?_⟩
    · rw [Binary.shortest, if_pos zero]
      rfl
    · rw [zero]
      exact Format.within_zero Format.double_wide (Nat.zero_le _)
  · obtain ⟨n, shortest, within⟩ := Binary.shortest_within .even zero finite
    have positive : 0 < n := within.pos (Nat.pow_pos (by decide)) zero
    have denotes := Scientific.ofScaled_denotes positive Format.double.scale
    obtain ⟨numeral, tells, same⟩ := magnitude_tells denotes
    rw [shortest]
    exact ⟨numeral, n, signed _ _ same, tells, within⟩

theorem counts_double {x : Double} (finite : x.isFinite = true) :
    Counts (writeNumber x).toList (.float x) := by
  obtain ⟨numeral, n, same, tells, within⟩ := writeNumber_tells finite
  rw [same]
  refine tells.proper.counts x.negative ?_
  have value :=
    Binary.ofDecimal_eq Format.double_wide Format.double_guarded finite tells.worth within
  simp [Literal.number, Numeral.literal, tells.pointed, value, finite]

/-! Integers. -/

theorem integer_proper (n : Nat) : (⟨digits n, [], none⟩ : Numeral).Proper where
  whole := digits_isDigit
  first := Nat.toDigits_ne_nil
  leading := by
    rcases Nat.eq_zero_or_pos n with rfl | positive
    · exact .inl rfl
    · exact .inr (head_digits positive)
  fraction := by simp
  power := by simp

theorem integer_literal (n : Nat) (negative : Bool) :
    (⟨digits n, [], none⟩ : Numeral).literal negative = ⟨negative, n, 0, true⟩ := by
  simp [Numeral.literal, Numeral.power, digitsValue_digits]

theorem counts_natural {n : Nat} (small : n < Nat.pow 2 64) :
    Counts (toString n).toList (.natural n) := by
  have text : (toString n).toList = signedText false ⟨digits n, [], none⟩ := by
    simp [signedText, Numeral.text, Numeral.pointText, Numeral.powerText, digits]
  rw [text]
  refine (integer_proper n).counts false ?_
  rw [integer_literal]
  simp [Literal.number, small]

theorem counts_negative {n : Nat} (positive : 0 < n) (small : n ≤ Nat.pow 2 63) :
    Counts ('-' :: (toString n).toList) (.negative n) := by
  have text : '-' :: (toString n).toList = signedText true ⟨digits n, [], none⟩ := by
    simp [signedText, Numeral.text, Numeral.pointText, Numeral.powerText, digits]
  rw [text]
  refine (integer_proper n).counts true ?_
  rw [integer_literal]
  simp [Literal.number, positive, small]

end DecisionTreeC.Json
