import DecisionTreeC.Proofs.Accepted

/-!
The library of this project keeps the laws of a JSON library. A value is spelled by its print for
the reader of every schema that makes something of it, and every finite float is read back.
-/
namespace DecisionTreeC.Json

open Reader

theorem counts_print {n : Number} (finite : (Value.number n).Finite) : Counts n.print.toList n := by
  cases finite with
  | natural small => exact counts_natural small
  | negative positive small =>
    rw [Number.print, String.toList_append]
    exact counts_negative positive small
  | float finite => exact counts_double finite

namespace Value

theorem printItems_eq (items : List Value) : printItems items = items.map print := by
  induction items with
  | nil => rfl
  | cons v items ih => rw [printItems, ih, List.map_cons]

theorem printMembers_eq (members : List (String × Value)) :
    printMembers members = members.map fun m => (m.1, m.2.print) := by
  induction members with
  | nil => rfl
  | cons m members ih => rw [printMembers, ih, printMember, List.map_cons]

theorem print_array (items : List Value) :
    (Value.array items).print.toList = listText (items.map fun v => v.print.toList) := by
  rw [print, printItems_eq, writeList_toList, List.map_map]
  rfl

theorem print_object (members : List (String × Value)) :
    (Value.object members).print.toList =
      objectText (members.map fun m => (m.1, m.2.print.toList)) := by
  rw [print, printMembers_eq, writeObject_toList, List.map_map]
  rfl

end Value

/-! Values of any kind. -/

theorem length_le_intercalate {text : List Char} {texts : List (List Char)}
    (member : text ∈ texts) : text.length ≤ ([','].intercalate texts).length := by
  cases texts with
  | nil => cases member
  | cons first more =>
    rw [intercalate_comma, List.length_append]
    rcases List.mem_cons.mp member with rfl | later
    · exact Nat.le_add_right _ _
    · have inside : ',' :: text ∈ more.map (',' :: ·) := List.mem_map.mpr ⟨text, later, rfl⟩
      have shorter := (List.sublist_flatten_of_mem inside).length_le
      rw [List.length_cons, ← List.flatMap_def] at shorter
      omega

theorem gathers_any {depth : Nat} {members : List (String × Value)}
    (each : ∀ m ∈ members, Spells (nested depth) m.2.print.toList m.2)
    (seen : List (String × Value)) :
    Gathers (anyMember (nested depth)) seen (members.map fun m => (m.1, m.2.print.toList))
      (seen ++ members) := by
  induction members generalizing seen with
  | nil =>
    rw [List.append_nil]
    exact .nil seen
  | cons m members ih =>
    obtain ⟨first, others⟩ := List.forall_mem_cons.mp each
    have taken : Reads (anyMember (nested depth) seen m.1) (':' :: m.2.print.toList)
        (seen ++ [m]) := by
      intro fuel rest enough stops
      have read := first.reads fuel rest (Nat.le_of_succ_le enough) stops
      simp [anyMember, read]
    rw [List.append_cons]
    exact .cons taken (ih others _)

/-- A value is read from its print, at any depth that is enough for the length of the text. -/
theorem nested_spells {v : Value} (finite : v.Finite) {depth : Nat}
    (deep : v.print.toList.length ≤ depth) : Spells (nested (depth + 1)) v.print.toList v := by
  induction finite generalizing depth with
  | null =>
    refine ⟨⟨'n', _, rfl, by decide, by decide⟩, ?_⟩
    intro fuel rest _ _
    simp [nested, Value.print, expect]
  | bool b =>
    cases b with
    | true =>
      refine ⟨⟨'t', _, rfl, by decide, by decide⟩, ?_⟩
      intro fuel rest _ _
      simp [nested, Value.print, expect]
    | false =>
      refine ⟨⟨'f', _, rfl, by decide, by decide⟩, ?_⟩
      intro fuel rest _ _
      simp [nested, Value.print, expect]
  | natural small => exact (counts_print (.natural small)).nested depth
  | negative positive small => exact (counts_print (.negative positive small)).nested depth
  | float finite => exact (counts_print (.float finite)).nested depth
  | text s => exact Spells.nested_text s
  | @array items known ih =>
    rw [Value.print_array] at deep ⊢
    have each : ∀ v ∈ items, Spells (nested depth) v.print.toList v := by
      intro v member
      have inside : v.print.toList ∈ items.map fun v => v.print.toList :=
        List.mem_map.mpr ⟨v, member, rfl⟩
      have shorter := length_le_intercalate inside
      simp only [listText, List.length_cons, List.length_append] at deep
      obtain ⟨depth, rfl⟩ := Nat.exists_eq_add_of_le' (show 1 ≤ depth by omega)
      exact ih v member (by omega)
    refine Spells.nested_list ?_
    rw [List.forall₂_map_left_iff]
    exact List.forall₂_same.mpr each
  | @object members known ih =>
    rw [Value.print_object] at deep ⊢
    have each : ∀ m ∈ members, Spells (nested depth) m.2.print.toList m.2 := by
      intro m member
      have inside : memberText (m.1, m.2.print.toList) ∈
          (members.map fun m => (m.1, m.2.print.toList)).map memberText :=
        List.mem_map.mpr ⟨_, List.mem_map.mpr ⟨m, member, rfl⟩, rfl⟩
      have shorter := length_le_intercalate inside
      simp only [objectText, memberText, List.length_cons, List.length_append] at deep shorter
      obtain ⟨depth, rfl⟩ := Nat.exists_eq_add_of_le' (show 1 ≤ depth by omega)
      exact ih m member (by omega)
    exact Spells.nested_object (gathers_any each [])

theorem value_spells {v : Value} (finite : v.Finite) : Spells Json.value v.print.toList v where
  start := (nested_spells finite (Nat.le_refl _)).start
  reads := by
    intro fuel rest enough stops
    have read := (nested_spells finite enough).reads fuel rest enough stops
    simp [Json.value, read]

theorem Spells.kept {α : Type} {keep : Value → Option α} {v : Value} {a : α} (finite : v.Finite)
    (keeps : keep v = some a) : Spells (Json.kept keep) v.print.toList a where
  start := (value_spells finite).start
  reads := by
    intro fuel rest enough stops
    have read := (value_spells finite).reads fuel rest enough stops
    simp [Json.kept, read, keeps]

theorem Spells.map {α β : Type} {one : Reader α} {text : List Char} {a : α}
    (spells : Spells one text a) (make : α → β) : Spells (make <$> one) text (make a) where
  start := spells.start
  reads := by
    intro fuel rest enough stops
    have read := spells.reads fuel rest enough stops
    simp [read]

theorem Spells.printed {α : Type} {keep : Number → Option α} {v : Value} {a : α} (finite : v.Finite)
    (keeps : v.number?.bind keep = some a) : Spells (numeral keep) v.print.toList a := by
  cases v with
  | number n => exact (counts_print finite).numeral keeps
  | null | bool _ | text _ | array _ | object _ => cases keeps

theorem Spells.choice {α : Type} {all : List α} {name : α → String} {s : String} {a : α}
    (found : all.find? (name · == s) = some a) :
    Spells (variant (pick all name)) (writeText s).toList a where
  start := (Spells.string s).start
  reads := by
    intro fuel rest _ _
    simp [variant, named, pick, writeText_toList, found]

/-! Schemas. -/

theorem Schema.decode_null {α : Type} (schema : Schema α) : schema.decode .null = none := by
  cases schema with
  | text | signed | unsigned | real | choice _ _ | list _ | record _ _ => rfl
  | oneOrMany item => simp [decode, item.decode_null, Value.items?]
  | untagged first second => simp [decode, first.decode_null, second.decode_null]
  | made _ _ layout => simp [decode, layout.decode_null]

theorem print_head {v : Value} (finite : v.Finite) (some_value : v ≠ .null) :
    v.print.toList.head? ≠ some 'n' := by
  have digits : ∀ n : Number, (Value.number n).Finite → n.print.toList.head? ≠ some 'n' := by
    intro n finite
    obtain ⟨c, more, text, start⟩ := (counts_print finite).start
    rw [text, List.head?_cons]
    exact fun same => numberStart_ne start (by decide) (Option.some.inj same)
  cases finite with
  | null => exact absurd rfl some_value
  | bool b => cases b <;> decide
  | natural small => exact digits _ (.natural small)
  | negative positive small => exact digits _ (.negative positive small)
  | float finite => exact digits _ (.float finite)
  | text s =>
    rw [Value.print, writeText_toList]
    simp
  | array known =>
    rw [Value.print_array]
    simp [listText]
  | object known =>
    rw [Value.print_object]
    simp [objectText]

namespace Fields

variable {names : List String} {α β : Type} {name key : String} {field : Schema α}
  {rest : Fields names β} {v : Value} {more : List (String × Value)}

theorem decode_required {data : α × β}
    (decodes : (Fields.required name field rest).decode ((key, v) :: more) = some data) :
    key = name ∧ field.decode v = some data.1 ∧ rest.decode more = some data.2 := by
  rw [decode] at decodes
  split at decodes
  · obtain ⟨a, first, decodes⟩ := Option.bind_eq_some_iff.mp decodes
    obtain ⟨b, others, decodes⟩ := Option.bind_eq_some_iff.mp decodes
    cases decodes
    exact ⟨‹_›, first, others⟩
  · cases decodes

theorem decode_optional {data : Option α × β}
    (decodes : (Fields.optional name field rest).decode ((key, v) :: more) = some data) :
    (key = name ∧ ∃ a, data.1 = some a ∧ field.decode v = some a ∧ rest.decode more = some data.2) ∨
      data.1 = none ∧ rest.decode ((key, v) :: more) = some data.2 := by
  rw [decode] at decodes
  split at decodes
  · obtain ⟨a, first, decodes⟩ := Option.bind_eq_some_iff.mp decodes
    obtain ⟨b, others, decodes⟩ := Option.bind_eq_some_iff.mp decodes
    cases decodes
    exact .inl ⟨‹_›, a, rfl, first, others⟩
  · obtain ⟨b, others, same⟩ := Option.map_eq_some_iff.mp decodes
    cases same
    exact .inr ⟨rfl, others⟩

theorem decode_names : {names : List String} → {α : Type} → (fields : Fields names α) →
    (members : List (String × Value)) → (data : α) → fields.decode members = some data →
      ∀ m ∈ members, m.1 ∈ names
  | _, _, .nil, [], _, _ => List.forall_mem_nil _
  | _, _, .required name field rest, (key, v) :: more, data, decodes => by
    obtain ⟨same, _, others⟩ := decode_required decodes
    refine List.forall_mem_cons.mpr ⟨List.mem_cons.mpr (.inl same), fun m member => ?_⟩
    exact List.mem_cons_of_mem name (rest.decode_names more data.2 others m member)
  | _, _, .optional name field rest, [], data, decodes => List.forall_mem_nil _
  | _, _, .optional name field rest, (key, v) :: more, data, decodes => by
    obtain ⟨same, _, _, _, others⟩ | ⟨_, others⟩ := decode_optional decodes
    · refine List.forall_mem_cons.mpr ⟨List.mem_cons.mpr (.inl same), fun m member => ?_⟩
      exact List.mem_cons_of_mem name (rest.decode_names more data.2 others m member)
    · intro m member
      exact List.mem_cons_of_mem name (rest.decode_names _ data.2 others m member)

/-- The members of a record as its reader meets them. -/
def entries (members : List (String × Value)) : List (String × List Char) :=
  members.map fun m => (m.1, m.2.print.toList)

/-- Members of the other fields pass by a slot for the first one. -/
theorem gathers_beside {σ : Type} {wide : σ × rest.Seen → String → Reader (σ × rest.Seen)}
    (passes : ∀ slot seen key, key ≠ name →
      wide (slot, seen) key = (slot, ·) <$> rest.member seen key)
    (distinct : (name :: names).Nodup) {members : List (String × Value)} {data : β}
    (decodes : rest.decode members = some data) {last : rest.Seen}
    (gathers : Gathers rest.member rest.unseen (entries members) last) (slot : σ) :
    Gathers wide (slot, rest.unseen) (entries members) (slot, last) := by
  refine gathers.lift (slot, ·) fun entry member seen => passes slot seen entry.1 ?_
  intro same
  obtain ⟨m, inside, rfl⟩ := List.mem_map.mp member
  exact (List.nodup_cons.mp distinct).1 (same ▸ rest.decode_names members data decodes m inside)

theorem gathers_first {σ : Type}
    {wide : Option σ × rest.Seen → String → Reader (Option σ × rest.Seen)} {one : Reader σ}
    (takes : ∀ seen, wide (none, seen) name = do pure (← once name none one, seen))
    (passes : ∀ slot seen key, key ≠ name →
      wide (slot, seen) key = (slot, ·) <$> rest.member seen key)
    (distinct : (name :: names).Nodup) {data : β} (decodes : rest.decode more = some data)
    {last : rest.Seen} (gathers : Gathers rest.member rest.unseen (entries more) last) {x : σ}
    (reads : Reads one v.print.toList x) :
    Gathers wide (none, rest.unseen) (entries ((name, v) :: more)) (some x, last) := by
  refine .cons ?_ (gathers_beside passes distinct decodes gathers (some x))
  rw [takes]
  exact reads.field name fun slot => (slot, rest.unseen)

def Closes (fields : Fields names α) (seen : fields.Seen) (data : α) : Prop :=
  ∀ fuel rest, (fields.close seen).on fuel rest = .ok (data, rest)

theorem gathers_absent (distinct : (name :: names).Nodup) {members : List (String × Value)}
    {data : β} (decodes : rest.decode members = some data)
    (found : ∃ last, Gathers rest.member rest.unseen (entries members) last ∧
      rest.Closes last data) :
    ∃ last,
      Gathers (Fields.optional name field rest).member (Fields.optional name field rest).unseen
        (entries members) last ∧ (Fields.optional name field rest).Closes last (none, data) := by
  obtain ⟨last, gathered, closes⟩ := found
  refine ⟨(none, last), gathers_beside ?_ distinct decodes gathered none, ?_⟩
  · exact fun slot seen key apart => if_neg apart
  · intro fuel left
    simp [close, closes fuel left]

end Fields

mutual

theorem Schema.spells : {α : Type} → (schema : Schema α) → (v : Value) → (data : α) → v.Finite →
    schema.decode v = some data → Spells schema.reader v.print.toList data
  | _, .text, v, data, finite, decodes => by
    cases v with
    | text s =>
      cases decodes
      exact Spells.string _
    | null | bool _ | number _ | array _ | object _ => cases decodes
  | _, .signed, v, data, finite, decodes => Spells.printed finite decodes
  | _, .unsigned, v, data, finite, decodes => Spells.printed finite decodes
  | _, .real, v, data, finite, decodes => by
    rw [Schema.decode, Option.map_eq_bind] at decodes
    exact Spells.printed finite decodes
  | _, .choice all name, v, data, finite, decodes => by
    cases v with
    | text s => exact Spells.choice decodes
    | null | bool _ | number _ | array _ | object _ => cases decodes
  | _, .list item, v, values, finite, decodes => by
    obtain ⟨items, listed, items_decode⟩ := Option.bind_eq_some_iff.mp decodes
    rw [eq_array_of_items listed] at finite ⊢
    cases finite with
    | array known =>
      rw [Value.print_array]
      refine Spells.list (List.forall₂_map_left_iff.mpr ?_)
      refine ((List.forall₂_and_left ..).mpr ⟨known, mapM_eq_some_iff.mp items_decode⟩).imp ?_
      exact fun part a holds => item.spells part a holds.1 holds.2
  | _, .oneOrMany item, v, data, finite, decodes => Spells.kept finite decodes
  | _, .untagged first second, v, data, finite, decodes => Spells.kept finite decodes
  | _, .record fields distinct, v, data, finite, decodes => by
    cases v with
    | object members =>
      cases finite with
      | object known =>
        obtain ⟨last, gathered, closes⟩ := fields.gathers distinct members data known decodes
        rw [Value.print_object]
        exact gathered.record closes
    | null | bool _ | number _ | text _ | array _ => cases decodes
  | _, .made make _ layout, v, data, finite, decodes => by
    obtain ⟨a, layout_decodes, rfl⟩ := Option.map_eq_some_iff.mp decodes
    exact (layout.spells v a finite layout_decodes).map make

theorem Fields.gathers : {names : List String} → {α : Type} → (fields : Fields names α) →
    names.Nodup → (members : List (String × Value)) → (data : α) → (∀ m ∈ members, m.2.Finite) →
      fields.decode members = some data →
        ∃ last, Gathers fields.member fields.unseen (Fields.entries members) last ∧
        fields.Closes last data
  | _, _, .nil, _, [], _, _, _ => ⟨(), .nil _, fun _ _ => rfl⟩
  | _, _, .required name field rest, distinct, (key, v) :: more, (a, b), finite, decodes => by
    obtain ⟨rfl, first, others⟩ := Fields.decode_required decodes
    obtain ⟨v_finite, more_finite⟩ := List.forall_mem_cons.mp finite
    obtain ⟨last, gathered, closes⟩ := rest.gathers distinct.of_cons more b more_finite others
    refine ⟨(some a, last), Fields.gathers_first ?_ ?_ distinct others gathered
      (field.spells v a v_finite first).reads, ?_⟩
    · exact fun seen => if_pos rfl
    · exact fun slot seen key apart => if_neg apart
    · intro fuel left
      simp [Fields.close, Json.required, closes fuel left]
  | _, _, .optional name field rest, distinct, [], (a, b), finite, decodes => by
    obtain ⟨_, others, same⟩ := Option.map_eq_some_iff.mp decodes
    cases same
    exact Fields.gathers_absent distinct others (rest.gathers distinct.of_cons [] b finite others)
  | _, _, .optional name field rest, distinct, (key, v) :: more, (a, b), finite, decodes => by
    obtain ⟨rfl, x, rfl, first, others⟩ | ⟨rfl, others⟩ := Fields.decode_optional decodes
    · obtain ⟨v_finite, more_finite⟩ := List.forall_mem_cons.mp finite
      obtain ⟨last, gathered, closes⟩ := rest.gathers distinct.of_cons more b more_finite others
      have some_value : v ≠ .null := by
        intro null
        rw [null, field.decode_null] at first
        cases first
      have spells := (field.spells v x v_finite first).optional (print_head v_finite some_value)
      refine ⟨(some (some x), last),
        Fields.gathers_first ?_ ?_ distinct others gathered spells.reads, ?_⟩
      · exact fun seen => if_pos rfl
      · exact fun slot seen key apart => if_neg apart
      · intro fuel left
        simp [Fields.close, closes fuel left]
    · exact Fields.gathers_absent distinct others (rest.gathers distinct.of_cons _ b finite others)

end

/-! The laws. -/

theorem Fields.decode_each {kind : Double → Prop} : {names : List String} → {α : Type} →
    (fields : Fields names α) → (members : List (String × Value)) → (data : α) →
    (∀ m ∈ members, m.2.Holds kind) → fields.decode members = some data →
      fields.Each (fun field x => ∃ part : Value, part.Holds kind ∧ field.decode part = some x) data
  | _, _, .nil, _, _, _, _ => trivial
  | _, _, .required name field rest, (key, v) :: more, (a, b), holds, decodes => by
    obtain ⟨_, first, others⟩ := Fields.decode_required decodes
    obtain ⟨v_holds, more_hold⟩ := List.forall_mem_cons.mp holds
    exact ⟨⟨v, v_holds, first⟩, rest.decode_each more b more_hold others⟩
  | _, _, .optional name field rest, [], (a, b), holds, decodes => by
    obtain ⟨_, others, same⟩ := Option.map_eq_some_iff.mp decodes
    cases same
    exact ⟨nofun, rest.decode_each [] b holds others⟩
  | _, _, .optional name field rest, (key, v) :: more, (a, b), holds, decodes => by
    obtain ⟨_, x, rfl, first, others⟩ | ⟨rfl, others⟩ := Fields.decode_optional decodes
    · obtain ⟨v_holds, more_hold⟩ := List.forall_mem_cons.mp holds
      refine ⟨?_, rest.decode_each more b more_hold others⟩
      intro y same
      rw [← Option.some.inj same]
      exact ⟨v, v_holds, first⟩
    · exact ⟨nofun, rest.decode_each _ b holds others⟩

theorem standard_encodeFields : {names : List String} → {α : Type} → (fields : Fields names α) →
    (data : α) → standard.encodeFields fields data = fields.encode data
  | _, _, .nil, _ => rfl
  | _, _, .required name field rest, (a, b) =>
    congrArg ((name, field.encode a) :: ·) (standard_encodeFields rest b)
  | _, _, .optional name field rest, (some a, b) =>
    congrArg ((name, field.encode a) :: ·) (standard_encodeFields rest b)
  | _, _, .optional _ _ rest, (none, b) => standard_encodeFields rest b

theorem standard_decodeFields : {names : List String} → {α : Type} → (fields : Fields names α) →
    (members : List (String × Value)) → standard.decodeFields fields members = fields.decode members
  | _, _, .nil, [] => rfl
  | _, _, .nil, _ :: _ => rfl
  | _, _, .required _ _ _, [] => rfl
  | _, _, .required name field rest, (key, v) :: more => by
    rw [Library.decodeFields, Fields.decode, standard_decodeFields rest more]
    rfl
  | _, _, .optional _ _ rest, [] => congrArg (Option.map (none, ·)) (standard_decodeFields rest [])
  | _, _, .optional name field rest, (key, v) :: more => by
    rw [Library.decodeFields, Fields.decode, standard_decodeFields rest more,
      standard_decodeFields rest]
    rfl

theorem whole_of_spells {α : Type} {one : Reader α} {text : String} {a : α}
    (spells : Spells one text.toList a) : whole one text = .ok a := by
  have read :=
    spells.reads text.length [] (Nat.le_of_eq String.length_toList) (by intro c first; cases first)
  rw [List.append_nil] at read
  have run : (one.run text.length).run text.toList = .ok (a, []) := read
  simp only [whole, run]
  rfl

theorem Gives.whole {α : Type} {one : Reader α} {kind : α → Prop} (gives : Gives one kind)
    {text : String} {a : α} (read : Json.whole one text = .ok a) : kind a := by
  unfold Json.whole at read
  split at read
  · cases read
  · rename_i value rest found
    split at read
    · cases read
      exact gives _ _ _ _ found
    · cases read

theorem decode_real_finite {v : Value} {x : Double} (decodes : Schema.real.decode v = some x)
    (finite : v.Finite) : x.isFinite = true := by
  cases v with
  | number n =>
    cases decodes
    exact Number.toDouble_finite finite
  | null | bool _ | text _ | array _ | object _ => cases decodes

theorem standard_readsBack {x : Double} : standard.ReadsBack x ↔ x.isFinite = true := by
  constructor
  · intro back
    obtain ⟨v, finite, decodes⟩ := Schema.real.gives.whole back
    exact decode_real_finite decodes finite
  · intro finite
    exact whole_of_spells (Schema.real.spells _ x (.float finite) rfl)

theorem encode_many {α : Type} (item : Schema α) {values : List α} (many : values.length ≠ 1) :
    (Schema.oneOrMany item).encode values = (Schema.list item).encode values := by
  match values, many with
  | [], _ => rfl
  | [_], many => exact absurd rfl many
  | _ :: _ :: _, _ => rfl

theorem record_parts {names : List String} {α : Type} {fields : Fields names α}
    {distinct : names.Nodup} {v : Value} {data : α} {kind : Double → Prop}
    (decodes : (Schema.record fields distinct).decode v = some data) (holds : v.Holds kind) :
    fields.Each (fun field x => ∃ part : Value, part.Holds kind ∧
      field.decode part = some x) data := by
  cases holds with
  | object known => exact fields.decode_each _ data known decodes
  | null | bool _ | natural _ | negative _ _ | float _ | text _ | array _ => cases decodes

theorem standard_lawful : standard.Lawful where
  read_print holds _ decodes :=
    whole_of_spells (Schema.spells _ _ _ (holds.imp fun _ => standard_readsBack.mp) decodes)
  read_decode read := (Schema.gives _).whole read
  encode_text _ := rfl
  decode_text _ := rfl
  decode_text_number _ := rfl
  encode_signed _ := rfl
  decode_signed _ := rfl
  encode_unsigned _ := rfl
  decode_unsigned _ := rfl
  encode_real _ := rfl
  decode_real _ := rfl
  decode_real_array _ := rfl
  decode_real_finite := decode_real_finite
  encode_choice _ _ _ := rfl
  decode_choice _ _ _ := rfl
  encode_list _ _ := rfl
  decode_list _ _ := rfl
  encode_one _ _ := rfl
  encode_many _ := encode_many _
  decode_oneOrMany _ _ := rfl
  encode_untagged _ _ data := by cases data <;> rfl
  decode_untagged _ _ _ := rfl
  encode_made _ _ _ _ := rfl
  decode_made _ _ _ _ := rfl
  encode_record fields _ data := congrArg Value.object (standard_encodeFields fields data).symm
  decode_record decodes := (standard_decodeFields _ _).symm.trans decodes
  record_parts := record_parts

end DecisionTreeC.Json
