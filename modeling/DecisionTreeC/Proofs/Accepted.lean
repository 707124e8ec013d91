import DecisionTreeC.Json.Codec
import DecisionTreeC.Proofs.JsonLaws
import DecisionTreeC.Proofs.Numeral

/-!
What readers give. A reader gives values of some kind when every text that it accepts leads to one.
Numbers are finite however large they are written, and what the reader of a schema gives stands for
some value under it.
-/
namespace DecisionTreeC

open Json Json.Reader

namespace Json

def Gives {α : Type} (one : Reader α) (kind : α → Prop) : Prop :=
  ∀ fuel text value rest, one.on fuel text = .ok (value, rest) → kind value

namespace Gives

variable {α β : Type} {one : Reader α} {kind : α → Prop}

theorem pure {value : α} (known : kind value) : Gives (Pure.pure value) kind := by
  intro fuel text given rest read
  rw [on_pure] at read
  cases read
  exact known

theorem throw (fault : Fault) : Gives (MonadExcept.throw fault : Reader α) kind := by
  intro fuel text given rest read
  rw [on_throw] at read
  cases read

theorem bind {next : α → Reader β} {other : β → Prop} (first : Gives one kind)
    (then_give : ∀ value, kind value → Gives (next value) other) : Gives (one >>= next) other := by
  intro fuel text given rest read
  rw [on_bind] at read
  split at read
  · rename_i value middle found
    exact then_give value (first fuel text value middle found) fuel middle given rest read
  · cases read

theorem after {next : α → Reader β} {other : β → Prop}
    (then_give : ∀ value, Gives (next value) other) : Gives (one >>= next) other := by
  intro fuel text given rest read
  rw [on_bind] at read
  split at read
  · exact then_give _ fuel _ given rest read
  · cases read

theorem imp {other : α → Prop} (gives : Gives one kind)
    (implies : ∀ value, kind value → other value) : Gives one other :=
  fun fuel text value rest read => implies value (gives fuel text value rest read)

theorem map {g : α → β} {other : β → Prop} (gives : Gives one fun value => other (g value)) :
    Gives (g <$> one) other := by
  intro fuel text given rest read
  rw [on_map] at read
  split at read
  · rename_i value middle found
    cases read
    exact gives fuel text value _ found
  · cases read

theorem item (gives : Gives one kind) : Gives (Json.item one) kind := by
  refine after fun next => ?_
  split
  · exact throw _
  · exact throw _
  · exact gives

theorem moreItems (gives : Gives one kind) (room : Nat) :
    Gives (Json.moreItems one room) fun values => ∀ value ∈ values, kind value := by
  induction room with
  | zero => exact throw _
  | succ room ih =>
    refine after fun next => ?_
    split
    · exact throw _
    · exact after fun _ => pure (by simp)
    · refine after fun _ => bind (item gives) fun first known => ?_
      refine bind ih fun others known_others => pure ?_
      exact List.forall_mem_cons.mpr ⟨known, known_others⟩
    · exact throw _

theorem items (gives : Gives one kind) :
    Gives (Json.items one) fun values => ∀ value ∈ values, kind value := by
  refine after fun next => ?_
  split
  · exact throw _
  · exact after fun _ => pure (by simp)
  · refine bind gives fun first known => after fun room => ?_
    refine bind (moreItems gives room) fun others known_others => pure ?_
    exact List.forall_mem_cons.mpr ⟨known, known_others⟩

theorem nextItem (gives : Gives one kind) : Gives (Json.nextItem one) kind := by
  refine after fun next => ?_
  split
  · exact throw _
  · exact throw _
  · exact after fun _ => item gives
  · exact throw _

theorem firstItem (gives : Gives one kind) : Gives (Json.firstItem one) kind := by
  refine after fun next => ?_
  split
  · exact throw _
  · exact throw _
  · exact gives

theorem mismatched : Gives (Json.mismatched : Reader α) kind := by
  refine after fun next => ?_
  split
  · exact throw _
  · exact throw _
  · exact after fun _ => throw _

theorem list (gives : Gives one kind) :
    Gives (Json.list one) fun values => ∀ value ∈ values, kind value := by
  refine after fun next => ?_
  split
  · exact after fun _ => items gives
  · exact mismatched

theorem record {listed named : Reader α} (gives_listed : Gives listed kind)
    (gives_named : Gives named kind) : Gives (Json.record listed named) kind := by
  refine after fun next => ?_
  split
  · exact after fun _ => bind gives_listed fun value known => after fun _ => pure known
  · exact after fun _ => gives_named
  · exact mismatched

theorem once {name : String} {known : Option α} (gives : Gives one kind) :
    Gives (Json.once name known one) fun field => ∀ value ∈ field, kind value := by
  unfold Json.once
  split
  · exact throw _
  · refine after fun _ => map (gives.imp ?_)
    rintro value known _ ⟨⟩
    exact known

theorem required {name : String} {field : Option α} (known : ∀ value ∈ field, kind value) :
    Gives (Json.required name field) kind := by
  cases field with
  | none => exact throw _
  | some value => exact pure (known value rfl)

section Objects

variable {σ κ : Type} {key : Reader κ} {member : σ → κ → Reader σ} {holds : σ → Prop}

theorem moreMembers (step : ∀ state name, holds state → Gives (member state name) holds)
    (room : Nat) {state : σ} (known : holds state) :
    Gives (Json.moreMembers key member room state) holds := by
  induction room generalizing state with
  | zero => exact throw _
  | succ room ih =>
    refine after fun next => ?_
    split
    · exact throw _
    · exact after fun _ => pure known
    · refine after fun _ => after fun quote => ?_
      split
      · exact throw _
      · exact after fun _ => after fun name =>
          bind (step state name known) fun state known => ih known
      · exact throw _
    · exact throw _

theorem members (step : ∀ state name, holds state → Gives (member state name) holds) {state : σ}
    (known : holds state) : Gives (Json.members key member state) holds := by
  refine after fun next => ?_
  split
  · exact throw _
  · exact after fun _ => pure known
  · exact after fun _ => after fun name => bind (step state name known) fun state known =>
      after fun room => moreMembers step room known
  · exact throw _

end Objects

end Gives

end Json

/-! Numbers. -/

theorem Format.nearest_lt_infinity {f : Format} (wide : 0 < f.fraction) {num den : Nat}
    (positive : 0 < den) (small : 2 * num < f.units f.infinity * den) :
    f.nearest num den < f.infinity := by
  have within := within_nearest wide num positive
  refine Nat.lt_of_le_of_ne within.bounded ?_
  intro top
  rw [top] at within
  have nonzero : f.infinity ≠ 0 := by
    intro zero
    simp [zero, units] at small
  obtain ⟨below, next⟩ := Nat.exists_eq_succ_of_ne_zero nonzero
  have low := within.low below next.symm
  rw [Nat.add_mul] at low
  omega

def Format.Roomy (f : Format) : Prop := 2 ^ 66 * 2 ^ f.scale ≤ f.units f.infinity

theorem Format.double_roomy : Format.double.Roomy := by
  unfold Roomy
  decide +kernel

theorem Binary.ofDecimal_isFinite {f : Format} (wide : 0 < f.fraction) (roomy : f.Roomy)
    (negative : Bool) {n : Nat} (small : n ≤ 2 ^ 64) :
    (ofDecimal negative n (.ofNat 0) : Binary f).isFinite = true := by
  have finite : ∀ num, num ≤ 2 ^ 64 * 2 ^ f.scale →
      (ofUnits negative num 1 : Binary f).isFinite = true := by
    intro num most
    have limit : 2 ^ 66 * 2 ^ f.scale ≤ f.units f.infinity := roomy
    have positive : 0 < 2 ^ f.scale := Nat.two_pow_pos _
    exact decide_eq_true (Format.nearest_lt_infinity wide (by decide) (by omega))
  rw [ofDecimal]
  split
  · exact finite 0 (Nat.zero_le _)
  · split
    · rename_i large
      cases large
    · refine finite _ ?_
      simp only [Nat.pow_eq, pow_zero, Nat.mul_one]
      exact Nat.mul_le_mul_right _ small

namespace Json

abbrev Value.Finite (v : Value) : Prop := v.Holds fun x => x.isFinite = true

theorem Number.toDouble_finite {n : Number} (finite : (Value.number n).Finite) :
    n.toDouble.isFinite = true := by
  cases finite with
  | natural small =>
    exact Binary.ofDecimal_isFinite Format.double_wide Format.double_roomy false
      (Nat.le_of_lt small)
  | negative positive small =>
    exact Binary.ofDecimal_isFinite Format.double_wide Format.double_roomy true
      (Nat.le_trans small (by decide))
  | float finite => exact finite

theorem Literal.number_finite {l : Literal} {n : Number} (known : l.number = .ok n) :
    (Value.number n).Finite := by
  unfold Literal.number at known
  split at known
  · rename_i small
    cases known
    simp only [Bool.and_eq_true, decide_eq_true_eq] at small
    exact .natural small.2
  · split at known
    · rename_i small
      cases known
      simp only [Bool.and_eq_true, decide_eq_true_eq] at small
      exact .negative small.1.2 small.2
    · dsimp only at known
      split at known
      · rename_i finite
        cases known
        exact .float finite
      · cases known

namespace Gives

theorem number : Gives Json.number fun n => (Value.number n).Finite := by
  refine after fun text => ?_
  split
  · exact throw _
  · refine after fun _ => ?_
    split
    · exact throw _
    · exact pure (Literal.number_finite ‹_›)

theorem numeral {α : Type} {keep : Number → Option α} {kind : α → Prop}
    (known : ∀ n value, (Value.number n).Finite → keep n = some value → kind value) :
    Gives (Json.numeral keep) kind := by
  refine after fun next => ?_
  split
  · split
    · refine bind number fun n finite => ?_
      split
      · exact pure (known n _ finite ‹_›)
      · exact throw _
    · exact mismatched
  · exact throw _

theorem anyMember {depth : Nat} (gives : Gives (Json.nested depth) Value.Finite)
    (seen : List (String × Value)) (key : String) (known : ∀ m ∈ seen, m.2.Finite) :
    Gives (Json.anyMember (Json.nested depth) seen key)
      fun members => ∀ m ∈ members, m.2.Finite := by
  refine after fun _ => bind gives fun v finite => pure ?_
  intro m member
  rcases List.mem_append.mp member with earlier | last
  · exact known m earlier
  · rw [List.mem_singleton.mp last]
    exact finite

theorem nested (depth : Nat) : Gives (Json.nested depth) Value.Finite := by
  induction depth with
  | zero => exact throw _
  | succ depth ih =>
    refine after fun next => ?_
    split
    · exact throw _
    · exact after fun _ => pure .null
    · exact after fun _ => pure (.bool true)
    · exact after fun _ => pure (.bool false)
    · exact after fun _ => map fun _ _ s _ _ => .text s
    · exact after fun _ => map ((items ih).imp fun _ => .array)
    · exact after fun _ => map ((members (anyMember ih) (List.forall_mem_nil _)).imp fun _ => .object)
    · split
      · exact map number
      · exact throw _

theorem value : Gives Json.value Value.Finite := after fun room => nested (room + 1)

theorem kept {α : Type} (keep : Value → Option α) :
    Gives (Json.kept keep) fun a => ∃ v : Value, v.Finite ∧ keep v = some a := by
  refine bind value fun v finite => ?_
  split
  · exact pure ⟨v, finite, ‹_›⟩
  · exact throw _

theorem variant {α : Type} (pick : String → Except Fault α) :
    Gives (Json.variant pick) fun a => ∃ s, pick s = .ok a := by
  have named : Gives (Json.named pick) fun a => ∃ s, pick s = .ok a := by
    refine after fun s => ?_
    split
    · exact throw _
    · exact pure ⟨s, ‹_›⟩
  refine after fun next => ?_
  split
  · exact throw _
  · exact after fun _ => named
  · refine after fun _ => after fun _ => bind named fun a known => ?_
    exact after fun _ => after fun _ => after fun _ => pure known
  · exact throw _

theorem optional {α : Type} {one : Reader α} {kind : α → Prop} (gives : Gives one kind) :
    Gives (Json.optional one) fun found => ∀ a ∈ found, kind a := by
  refine after fun next => ?_
  split
  · exact after fun _ => pure nofun
  · refine map (gives.imp ?_)
    rintro value known _ ⟨⟩
    exact known

theorem fieldItem {α : Type} {one : Reader α} {kind : α → Prop} (first : Bool)
    (gives : Gives one kind) : Gives (Json.fieldItem first one) kind := by
  cases first with
  | true => exact firstItem gives
  | false => exact nextItem gives

end Gives

theorem find_of_pick {α : Type} {all : List α} {name : α → String} {s : String} {a : α}
    (picked : pick all name s = .ok a) : all.find? (name · == s) = some a := by
  unfold pick at picked
  split at picked
  · rename_i found
    rw [found, Except.ok.inj picked]
  · cases picked

/-- The data is what some value stands for. -/
def Schema.Has {α : Type} (schema : Schema α) (data : α) : Prop :=
  ∃ v : Value, v.Finite ∧ schema.decode v = some data

theorem Schema.list_has {α : Type} {item : Schema α} {values : List α}
    (each : ∀ a ∈ values, item.Has a) : (Schema.list item).Has values := by
  have found : ∃ items : List Value,
      List.Forall₂ (fun v a => v.Finite ∧ item.decode v = some a) items values := by
    induction values with
    | nil => exact ⟨[], .nil⟩
    | cons a more ih =>
      obtain ⟨⟨v, known⟩, others⟩ := List.forall_mem_cons.mp each
      obtain ⟨items, all_known⟩ := ih others
      exact ⟨v :: items, .cons known all_known⟩
  obtain ⟨items, known⟩ := found
  obtain ⟨finite, decodes⟩ := (List.forall₂_and_left ..).mp known
  exact ⟨.array items, .array finite, mapM_eq_some_iff.mpr decodes⟩

namespace Fields

def SeenHas : {names : List String} → {α : Type} → (fields : Fields names α) → fields.Seen → Prop
  | _, _, .nil, _ => True
  | _, _, .required _ field rest, seen => (∀ a ∈ seen.1, field.Has a) ∧ rest.SeenHas seen.2
  | _, _, .optional _ field rest, seen =>
    (∀ found ∈ seen.1, ∀ a ∈ found, field.Has a) ∧ rest.SeenHas seen.2

theorem unseen_has : {names : List String} → {α : Type} → (fields : Fields names α) →
    fields.SeenHas fields.unseen
  | _, _, .nil => trivial
  | _, _, .required _ _ rest => ⟨nofun, rest.unseen_has⟩
  | _, _, .optional _ _ rest => ⟨nofun, rest.unseen_has⟩

theorem close_gives : {names : List String} → {α : Type} → (fields : Fields names α) →
    (seen : fields.Seen) → fields.SeenHas seen → Gives (fields.close seen) (fields.Each Schema.Has)
  | _, _, .nil, _, _ => Gives.pure trivial
  | _, _, .required _ _ rest, seen, known => by
    refine Gives.bind (Gives.required known.1) fun a has => ?_
    exact Gives.bind (rest.close_gives seen.2 known.2) fun b others => Gives.pure ⟨has, others⟩
  | _, _, .optional _ field rest, seen, known => by
    have joined : ∀ a ∈ Option.join seen.1, field.Has a := by
      intro a member
      exact known.1 (some a) (Option.join_eq_some_iff.mp member) a rfl
    exact Gives.bind (rest.close_gives seen.2 known.2) fun b others => Gives.pure ⟨joined, others⟩

theorem mem_named {names : List String} {name : String} {v : Value} (finite : v.Finite)
    {members : List (String × Value)} (known : ∀ m ∈ members, m.1 ∈ names ∧ m.2.Finite) :
    ∀ m ∈ (name, v) :: members, m.1 ∈ name :: names ∧ m.2.Finite := by
  refine List.forall_mem_cons.mpr ⟨⟨List.mem_cons_self .., finite⟩, fun m member => ?_⟩
  exact ⟨List.mem_cons_of_mem name (known m member).1, (known m member).2⟩

theorem exists_members : {names : List String} → {α : Type} → (fields : Fields names α) →
    names.Nodup → (data : α) → fields.Each Schema.Has data →
    ∃ members : List (String × Value), (∀ m ∈ members, m.1 ∈ names ∧ m.2.Finite) ∧
      fields.decode members = some data
  | _, _, .nil, _, _, _ => ⟨[], List.forall_mem_nil _, rfl⟩
  | _, _, .required name field rest, distinct, (a, b), each => by
    obtain ⟨⟨v, finite, decodes⟩, others⟩ := each
    obtain ⟨members, known, rest_decodes⟩ := rest.exists_members distinct.of_cons b others
    refine ⟨(name, v) :: members, mem_named finite known, ?_⟩
    simp [decode, decodes, rest_decodes]
  | _, _, .optional name field rest, distinct, (some a, b), each => by
    obtain ⟨has, others⟩ := each
    obtain ⟨v, finite, decodes⟩ := has a rfl
    obtain ⟨members, known, rest_decodes⟩ := rest.exists_members distinct.of_cons b others
    refine ⟨(name, v) :: members, mem_named finite known, ?_⟩
    simp [decode, decodes, rest_decodes]
  | _, _, .optional name field rest, distinct, (none, b), each => by
    obtain ⟨_, others⟩ := each
    obtain ⟨members, known, rest_decodes⟩ := rest.exists_members distinct.of_cons b others
    refine ⟨members, fun m member =>
      ⟨List.mem_cons_of_mem name (known m member).1, (known m member).2⟩, ?_⟩
    cases members with
    | nil => simp [decode, rest_decodes]
    | cons first more =>
      -- The field is left out, and the next member has another name.
      have other : first.1 ≠ name := by
        intro same
        exact (List.nodup_cons.mp distinct).1 (same ▸ (known first (List.mem_cons_self ..)).1)
      simp [decode, other, rest_decodes]

end Fields

theorem Gives.real : Gives Json.real Schema.real.Has := by
  unfold Json.real
  exact Gives.numeral fun n x finite known => ⟨.number n, finite, known⟩

mutual

/-- Whatever the reader of a schema gives stands for a value under it. -/
theorem Schema.gives : {α : Type} → (schema : Schema α) → Gives schema.reader schema.Has
  | _, .text => fun _ _ s _ _ => ⟨.text s, .text s, rfl⟩
  | _, .signed => Gives.numeral fun n _ finite known => ⟨.number n, finite, known⟩
  | _, .unsigned => Gives.numeral fun n _ finite known => ⟨.number n, finite, known⟩
  | _, .real => Gives.real
  | _, .choice all name => by
    refine (Gives.variant _).imp ?_
    rintro a ⟨s, picked⟩
    exact ⟨.text s, .text s, find_of_pick picked⟩
  | _, .list item => (Gives.list item.gives).imp fun _ => Schema.list_has
  | _, .oneOrMany item => Gives.kept _
  | _, .untagged first second => Gives.kept _
  | _, .record fields distinct => by
    have named : Gives (members Json.text fields.member fields.unseen >>= fields.close)
        (fields.Each Schema.Has) :=
      Gives.bind (Gives.members fields.member_gives fields.unseen_has) fields.close_gives
    refine (Gives.record (fields.listed_gives true) named).imp fun data each => ?_
    obtain ⟨members, finite, decodes⟩ := fields.exists_members distinct data each
    exact ⟨.object members, .object fun m member => (finite m member).2, decodes⟩
  | _, .made make parts layout => by
    refine Gives.map (layout.gives.imp ?_)
    rintro a ⟨v, finite, decodes⟩
    exact ⟨v, finite, congrArg (Option.map make) decodes⟩

theorem Fields.member_gives : {names : List String} → {α : Type} → (fields : Fields names α) →
    (seen : fields.Seen) → (key : String) → fields.SeenHas seen →
      Gives (fields.member seen key) fields.SeenHas
  | _, _, .nil, seen, key, known => Gives.after fun _ => Gives.after fun _ => Gives.pure known
  | _, _, .required name field rest, seen, key, known => by
    unfold Fields.member
    split
    · exact Gives.bind (Gives.once field.gives) fun _ has => Gives.pure ⟨has, known.2⟩
    · exact Gives.map ((rest.member_gives seen.2 key known.2).imp fun _ others => ⟨known.1, others⟩)
  | _, _, .optional name field rest, seen, key, known => by
    unfold Fields.member
    split
    · exact Gives.bind (Gives.once (Gives.optional field.gives)) fun _ has =>
        Gives.pure ⟨has, known.2⟩
    · exact Gives.map ((rest.member_gives seen.2 key known.2).imp fun _ others => ⟨known.1, others⟩)

theorem Fields.listed_gives : {names : List String} → {α : Type} → (first : Bool) →
    (fields : Fields names α) → Gives (fields.listed first) (fields.Each Schema.Has)
  | _, _, _, .nil => Gives.pure trivial
  | _, _, first, .required _ field rest => by
    refine Gives.bind (Gives.fieldItem first field.gives) fun a has => ?_
    exact Gives.bind (rest.listed_gives false) fun b others => Gives.pure ⟨has, others⟩
  | _, _, first, .optional _ field rest => by
    refine Gives.bind (Gives.fieldItem first (Gives.optional field.gives)) fun a has => ?_
    exact Gives.bind (rest.listed_gives false) fun b others => Gives.pure ⟨has, others⟩

end

end Json

end DecisionTreeC
