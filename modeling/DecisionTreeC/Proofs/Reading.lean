import DecisionTreeC.Json.Value
import Mathlib.Data.List.Basic
import Mathlib.Data.List.Forall2

/-!
Readers against writers. A text spells a value for a reader when the reader takes exactly the text,
whatever may follow it inside a list or an object, and gives the value. Strings, lists and objects
are spelled by what is written for them once their parts are.
-/
namespace DecisionTreeC.Json

namespace Reader

variable {α β : Type} {fuel : Nat} {text rest : List Char}

/-- The outcome of a reader on a text, given the length that it takes for the length
of the whole. -/
def on (one : Reader α) (fuel : Nat) (text : List Char) : Except Fault (α × List Char) :=
  (one.run fuel).run text

@[simp] theorem on_pure (a : α) : on (pure a) fuel text = .ok (a, text) := rfl

@[simp] theorem on_bind (one : Reader α) (next : α → Reader β) :
    on (one >>= next) fuel text =
      match on one fuel text with
      | .ok (a, rest) => on (next a) fuel rest
      | .error fault => .error fault := by
  change on one fuel text >>= _ = _
  rcases on one fuel text with fault | ⟨a, rest⟩ <;> rfl

@[simp] theorem on_map (g : α → β) (one : Reader α) :
    on (g <$> one) fuel text =
      match on one fuel text with
      | .ok (a, rest) => .ok (g a, rest)
      | .error fault => .error fault := by
  change (fun (a, rest) => (g a, rest)) <$> on one fuel text = _
  rcases on one fuel text with fault | ⟨a, rest⟩ <;> rfl

@[simp] theorem on_throw (fault : Fault) :
    on (throw fault : Reader α) fuel text = .error fault := rfl

@[simp] theorem on_get : on get fuel text = .ok (text, text) := rfl

@[simp] theorem on_set (rest : List Char) : on (set rest) fuel text = .ok ((), rest) := rfl

@[simp] theorem on_read : on read fuel text = .ok (fuel, text) := rfl

@[simp] theorem on_advance : on advance fuel text = .ok ((), text.tail) := rfl

@[simp] theorem isBlank_eq_false {c : Char} :
    isBlank c = false ↔ c ≠ ' ' ∧ c ≠ '\n' ∧ c ≠ '\t' ∧ c ≠ '\r' := by
  simp [isBlank, and_assoc]

@[simp] theorem on_peek {c : Char} (solid : isBlank c = false) :
    on peek fuel (c :: text) = .ok (some c, c :: text) := by
  change Except.ok (((c :: text).dropWhile isBlank).head?, (c :: text).dropWhile isBlank) = _
  simp [solid]

@[simp] theorem on_colon : on colon fuel (':' :: text) = .ok ((), text) := by
  simp [colon, mark]

end Reader

open Reader

/-- What may follow a value: nothing, or the comma or bracket that ends it. -/
def Stops (rest : List Char) : Prop := ∀ c, rest.head? = some c → c = ',' ∨ c = ']' ∨ c = '\x7d'

theorem stops_cons {c : Char} {rest : List Char} (ends : c = ',' ∨ c = ']' ∨ c = '\x7d') :
    Stops (c :: rest) := by
  intro d first
  rwa [← Option.some.inj first]

section Spelling

variable {α : Type}

def Reads (one : Reader α) (text : List Char) (value : α) : Prop :=
  ∀ fuel rest, text.length ≤ fuel → Stops rest → one.on fuel (text ++ rest) = .ok (value, rest)

/-- The reader takes the text, which can stand as an item of a list. -/
structure Spells (one : Reader α) (text : List Char) (value : α) : Prop where
  start : ∃ c more, text = c :: more ∧ isBlank c = false ∧ c ≠ ']'
  reads : Reads one text value

def restText (close : Char) (texts : List (List Char)) : List Char :=
  texts.flatMap (',' :: ·) ++ [close]

theorem intercalate_comma (first : List Char) (more : List (List Char)) :
    [','].intercalate (first :: more) = first ++ more.flatMap (',' :: ·) := by
  induction more generalizing first with
  | nil => simp
  | cons second more ih => simp [List.intercalate_cons_cons, ih]

theorem stops_restText {close : Char} (ends : close = ']' ∨ close = '\x7d')
    (texts : List (List Char)) (rest : List Char) : Stops (restText close texts ++ rest) := by
  cases texts with
  | nil => exact stops_cons (.inr ends)
  | cons first more => exact stops_cons (.inl rfl)

theorem length_lt_restText (close : Char) (texts : List (List Char)) :
    texts.length < (restText close texts).length := by
  induction texts with
  | nil => simp [restText]
  | cons text texts ih =>
    simp only [restText, List.flatMap_cons, List.length_append, List.length_cons] at ih ⊢
    omega

theorem length_restText_cons (close : Char) (text : List Char) (texts : List (List Char)) :
    (restText close (text :: texts)).length = text.length + 1 + (restText close texts).length := by
  simp only [restText, List.flatMap_cons, List.length_append, List.length_cons]
  omega

variable {one : Reader α}

theorem item_on {text : List Char} {value : α} (spells : Spells one text value) {fuel : Nat}
    (enough : text.length ≤ fuel) {rest : List Char} (stops : Stops rest) :
    (item one).on fuel (text ++ rest) = .ok (value, rest) := by
  obtain ⟨⟨c, more, rfl, solid, inner⟩, reads⟩ := spells
  have read := reads fuel rest enough stops
  rw [List.cons_append] at read ⊢
  simp [item, solid, read]

theorem moreItems_on {texts : List (List Char)} {values : List α}
    (spells : List.Forall₂ (Spells one) texts values) {room fuel : Nat} (many : texts.length < room)
    (enough : (restText ']' texts).length ≤ fuel) (rest : List Char) :
    (moreItems one room).on fuel (restText ']' texts ++ rest) = .ok (values, rest) := by
  induction spells generalizing room with
  | nil =>
    obtain ⟨room, rfl⟩ := Nat.exists_eq_succ_of_ne_zero (Nat.ne_of_gt many)
    simp [moreItems, restText]
  | @cons text value texts values first more ih =>
    obtain ⟨room, rfl⟩ := Nat.exists_eq_succ_of_ne_zero (Nat.ne_of_gt (Nat.zero_lt_of_lt many))
    rw [length_restText_cons] at enough
    have read : (item one).on fuel (text ++ (restText ']' texts ++ rest)) =
        .ok (value, restText ']' texts ++ rest) :=
      item_on first (by omega) (stops_restText (.inl rfl) texts rest)
    have others := ih (Nat.lt_of_succ_lt_succ many) (by omega)
    have split_text : restText ']' (text :: texts) ++ rest =
        ',' :: (text ++ (restText ']' texts ++ rest)) := by simp [restText]
    simp [moreItems, split_text, read, others]

def listText (texts : List (List Char)) : List Char := '[' :: [','].intercalate texts ++ [']']

theorem writeList_toList (texts : List String) :
    (writeList texts).toList = listText (texts.map String.toList) := by
  simp [writeList, listText]

theorem items_on {texts : List (List Char)} {values : List α}
    (spells : List.Forall₂ (Spells one) texts values) {fuel : Nat}
    (enough : (listText texts).length ≤ fuel) (rest : List Char) :
    (items one).on fuel ([','].intercalate texts ++ ']' :: rest) = .ok (values, rest) := by
  cases spells with
  | nil =>
    simp [items]
  | @cons text value texts values first more =>
    obtain ⟨⟨c, others, rfl, solid, inner⟩, reads⟩ := first
    have split_text : [','].intercalate ((c :: others) :: texts) ++ ']' :: rest =
        c :: others ++ (restText ']' texts ++ rest) := by simp [intercalate_comma, restText]
    have size : (c :: others).length + (restText ']' texts).length ≤ fuel := by
      simp only [listText, intercalate_comma, restText, List.length_append, List.length_cons]
        at enough ⊢
      omega
    have many := length_lt_restText ']' texts
    have read :=
      reads fuel (restText ']' texts ++ rest) (by omega) (stops_restText (.inl rfl) texts rest)
    have next : (moreItems one fuel).on fuel (restText ']' texts ++ rest) = .ok (values, rest) :=
      moreItems_on more (by omega) (by omega) rest
    rw [split_text, List.cons_append]
    rw [List.cons_append] at read
    simp [items, solid, read, next]

theorem Spells.list {texts : List (List Char)} {values : List α}
    (spells : List.Forall₂ (Spells one) texts values) :
    Spells (Json.list one) (listText texts) values where
  start := ⟨'[', _, rfl, by decide, by decide⟩
  reads := by
    intro fuel rest enough _
    have read := items_on spells enough rest
    simp [Json.list, listText, read]

end Spelling

/-! Strings. -/

def quotedRest (s : String) : List Char := s.toList.flatMap escapedChar ++ ['"']

theorem writeText_toList (s : String) : (writeText s).toList = '"' :: quotedRest s := by
  simp [writeText, quotedRest]

theorem textBody_escape {c : Char} {text after : List Char} (read : escaped text = .ok (c, after)) :
    textBody ('\\' :: text) = (textBody after).map fun (more, rest) => (c :: more, rest) := by
  rw [textBody]
  split <;> simp_all

theorem textBody_plain {c : Char} (rest : List Char) (quote : c ≠ '"') (slash : c ≠ '\\')
    (shown : ¬ c.toNat < 0x20) :
    textBody (c :: rest) = (textBody rest).map fun (more, rest) => (c :: more, rest) := by
  rw [textBody]
  · rw [if_neg shown]
  · exact quote
  · exact slash

theorem hexDigit_digitChar : ∀ n < 16, hexDigit? (Nat.digitChar n) = some n := by decide

theorem escaped_control {c : Char} (small : c.toNat < 0x20) (after : List Char) :
    escaped
      ('u' :: '0' :: '0' :: Nat.digitChar (c.toNat / 16) :: Nat.digitChar (c.toNat % 16) :: after) =
      .ok (c, after) := by
  have high := hexDigit_digitChar (c.toNat / 16) (by omega)
  have low := hexDigit_digitChar (c.toNat % 16) (by omega)
  have zero : hexDigit? '0' = some 0 := by decide
  have unit : ((0 * 16 + 0) * 16 + c.toNat / 16) * 16 + c.toNat % 16 = c.toNat := by omega
  simp only [escaped, hexFour, high, low, zero, unit, bind, Except.bind]
  rw [if_neg (by omega), if_neg (by omega), Char.ofNat_toNat]
  rfl

theorem textBody_escapedChar (c : Char) (after : List Char) :
    textBody (escapedChar c ++ after) = (textBody after).map fun (more, rest) =>
      (c :: more, rest) := by
  unfold escapedChar
  split
  · exact textBody_escape rfl
  · exact textBody_escape rfl
  · exact textBody_escape rfl
  · exact textBody_escape rfl
  · exact textBody_escape rfl
  · exact textBody_escape rfl
  · exact textBody_escape rfl
  · split
    · rename_i small
      exact textBody_escape (escaped_control small after)
    · rename_i shown
      exact textBody_plain after ‹_› ‹_› shown

theorem textBody_written (chars rest : List Char) :
    textBody (chars.flatMap escapedChar ++ '"' :: rest) = .ok (chars, rest) := by
  induction chars with
  | nil => simp [textBody]
  | cons c chars ih =>
    rw [List.flatMap_cons, List.append_assoc, textBody_escapedChar, ih]
    rfl

@[simp] theorem text_on (s : String) (fuel : Nat) (rest : List Char) :
    text.on fuel (quotedRest s ++ rest) = .ok (s, rest) := by
  have read := textBody_written s.toList rest
  simp [text, quotedRest, read]

theorem Spells.string (s : String) : Spells Json.string (writeText s).toList s where
  start := ⟨'"', quotedRest s, writeText_toList s, by decide, by decide⟩
  reads := by
    intro fuel rest _ _
    simp [Json.string, writeText_toList]

/-! Objects. -/

section Objects

variable {σ : Type}

def memberText (entry : String × List Char) : List Char :=
  '"' :: quotedRest entry.1 ++ ':' :: entry.2

def objectText (entries : List (String × List Char)) : List Char :=
  '\x7b' :: [','].intercalate (entries.map memberText) ++ ['\x7d']

theorem writeObject_toList (entries : List (String × String)) :
    (writeObject entries).toList =
      objectText (entries.map fun (key, value) => (key, value.toList)) := by
  simp [writeObject, objectText, memberText, writeText_toList, Function.comp_def]

inductive Gathers (member : σ → String → Reader σ) : σ → List (String × List Char) → σ → Prop where
  | nil (state : σ) : Gathers member state [] state
  | cons {state next last : σ} {key : String} {text : List Char} {more : List (String × List Char)}
      (first : Reads (member state key) (':' :: text) next)
      (others : Gathers member next more last) :
      Gathers member state ((key, text) :: more) last

variable {member : σ → String → Reader σ}

theorem Gathers.lift {τ : Type} {wide : τ → String → Reader τ} (put : σ → τ) {start last : σ}
    {entries : List (String × List Char)} (gathers : Gathers member start entries last)
    (same : ∀ entry ∈ entries, ∀ state, wide (put state) entry.1 = put <$> member state entry.1) :
    Gathers wide (put start) entries (put last) := by
  induction gathers with
  | nil state => exact .nil _
  | @cons state next last key text more first others ih =>
    obtain ⟨here, later⟩ := List.forall_mem_cons.mp same
    refine .cons ?_ (ih later)
    intro fuel rest enough stops
    have read := first fuel rest enough stops
    rw [here state, on_map, read]

theorem moreMembers_on {state last : σ} {entries : List (String × List Char)}
    (gathers : Gathers member state entries last) {room fuel : Nat} (many : entries.length < room)
    (enough : (restText '\x7d' (entries.map memberText)).length ≤ fuel) (rest : List Char) :
    (moreMembers text member room state).on fuel
      (restText '\x7d' (entries.map memberText) ++ rest) =
      .ok (last, rest) := by
  induction gathers generalizing room with
  | nil =>
    obtain ⟨room, rfl⟩ := Nat.exists_eq_succ_of_ne_zero (Nat.ne_of_gt many)
    simp [moreMembers, restText]
  | @cons state next last key value more first others ih =>
    obtain ⟨room, rfl⟩ := Nat.exists_eq_succ_of_ne_zero (Nat.ne_of_gt (Nat.zero_lt_of_lt many))
    rw [List.map_cons, length_restText_cons, memberText, List.length_append] at enough
    dsimp only at enough
    have split_text : restText '\x7d' (((key, value) :: more).map memberText) ++ rest =
        ',' :: '"' :: (quotedRest key ++
          (':' :: value ++ (restText '\x7d' (more.map memberText) ++ rest))) := by
      simp [restText, memberText]
    have read := first fuel _ (by omega) (stops_restText (.inr rfl) (more.map memberText) rest)
    have next_read := ih (Nat.lt_of_succ_lt_succ many) (by omega)
    simp only [moreMembers, split_text, on_bind, on_peek (c := ',') (by decide),
      on_peek (c := '"') (by decide), on_advance, List.tail_cons, text_on, read, next_read]

theorem members_on {state last : σ} {entries : List (String × List Char)}
    (gathers : Gathers member state entries last) {fuel : Nat}
    (enough : (objectText entries).length ≤ fuel) (rest : List Char) :
    (members text member state).on fuel
      ([','].intercalate (entries.map memberText) ++ '\x7d' :: rest) =
      .ok (last, rest) := by
  cases gathers with
  | nil =>
    simp [members]
  | @cons state next last key value more first others =>
    have split_text : [','].intercalate (((key, value) :: more).map memberText) ++ '\x7d' :: rest =
        '"' :: (quotedRest key ++
          (':' :: value ++ (restText '\x7d' (more.map memberText) ++ rest))) := by
      simp [intercalate_comma, restText, memberText]
    have size : (':' :: value).length + (restText '\x7d' (more.map memberText)).length ≤ fuel := by
      have length := congrArg List.length split_text
      simp only [objectText, List.length_append, List.length_cons] at length enough ⊢
      omega
    have many := length_lt_restText '\x7d' (more.map memberText)
    rw [List.length_map] at many
    have read := first fuel _ (by omega) (stops_restText (.inr rfl) (more.map memberText) rest)
    have next_read : (moreMembers text member fuel next).on fuel
        (restText '\x7d' (more.map memberText) ++ rest) = .ok (last, rest) :=
      moreMembers_on others (by omega) (by omega) rest
    simp only [members, split_text, on_bind, on_peek (c := '"') (by decide), on_advance,
      List.tail_cons, text_on, read, on_read, next_read]

theorem Reads.field {α : Type} {field : Reader α} {text : List Char} {value : α}
    (reads : Reads field text value) (name : String) (put : Option α → σ) :
    Reads (do pure (put (← once name none field))) (':' :: text) (put (some value)) := by
  intro fuel rest enough stops
  have read := reads fuel rest (Nat.le_of_succ_le enough) stops
  simp [once, read]

end Objects

/-! Values of any kind, and records. -/

section Values

variable {α : Type} {text : List Char} {depth : Nat}

theorem Spells.nested_text (s : String) :
    Spells (nested (depth + 1)) (writeText s).toList (.text s) where
  start := (Spells.string s).start
  reads := by
    intro fuel rest _ _
    simp [nested, writeText_toList]

theorem Spells.nested_list {texts : List (List Char)} {values : List Value}
    (spells : List.Forall₂ (Spells (nested depth)) texts values) :
    Spells (nested (depth + 1)) (listText texts) (.array values) where
  start := (Spells.list spells).start
  reads := by
    intro fuel rest enough _
    have read := items_on spells enough rest
    simp [nested, listText, read]

theorem Spells.nested_object {entries : List (String × List Char)} {members : List (String × Value)}
    (gathers : Gathers (anyMember (nested depth)) [] entries members) :
    Spells (nested (depth + 1)) (objectText entries) (.object members) where
  start := ⟨'\x7b', _, rfl, by decide, by decide⟩
  reads := by
    intro fuel rest enough _
    have read := members_on gathers enough rest
    simp [nested, objectText, read]

theorem Gathers.record {σ : Type} {member : σ → String → Reader σ} {start last : σ}
    {entries : List (String × List Char)} (gathers : Gathers member start entries last)
    {listed : Reader α} {build : σ → Reader α} {value : α}
    (built : ∀ fuel rest, (build last).on fuel rest = .ok (value, rest)) :
    Spells (Json.record listed (members Json.text member start >>= build))
      (objectText entries) value where
  start := ⟨'\x7b', _, rfl, by decide, by decide⟩
  reads := by
    intro fuel rest enough _
    have read := members_on gathers enough rest
    simp [Json.record, objectText, read, built]

theorem Spells.optional {one : Reader α} {value : α} (spells : Spells one text value)
    (present : text.head? ≠ some 'n') : Spells (Json.optional one) text (some value) := by
  obtain ⟨⟨c, more, rfl, solid, inner⟩, reads⟩ := spells
  refine ⟨⟨c, more, rfl, solid, inner⟩, ?_⟩
  intro fuel rest enough stops
  have read := reads fuel rest enough stops
  have other : c ≠ 'n' := fun same => present (congrArg some same)
  rw [List.cons_append] at read ⊢
  simp [Json.optional, solid, other, read]

end Values

end DecisionTreeC.Json
