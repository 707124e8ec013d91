import DecisionTreeC.Dump.Convert
import DecisionTreeC.Proofs.Explore
import DecisionTreeC.Proofs.References
import DecisionTreeC.Source.Body

/-!
Classifiers converted from dumps. The entries of a dump fill the rows of the table in order, and the
feature names keep their positions. A feature index is cut to a word of 32 bits on its way into the
table, before it is compared with the names: below that limit the tested feature is the one the dump
asks for, and beyond it another one is tested.
-/
namespace DecisionTreeC

theorem lookup_cons_pair (index key : Nat) (name : String) (rest : List (Nat × String)) :
    ((key, name) :: rest).lookup index = if index = key then some name else rest.lookup index := by
  by_cases here : index = key
  · simp [here]
  · simp [List.lookup_cons, here, beq_false_of_ne here]

namespace FeatureSet

theorem lookup_place {key : Nat} {name : String} {entries : List (Nat × String)}
    (fresh : key ∉ entries.map Prod.fst) (index : Nat) :
    (place (key, name) entries).lookup index =
      if index = key then some name else entries.lookup index := by
  induction entries with
  | nil => exact lookup_cons_pair index key name []
  | cons head rest ih =>
    obtain ⟨first, named⟩ := head
    simp only [List.map_cons, List.mem_cons, not_or] at fresh
    unfold place
    split
    · rw [lookup_cons_pair]
    · rw [lookup_cons_pair, ih fresh.2, lookup_cons_pair]
      by_cases here : index = key
      · have other : index ≠ first := fun same => fresh.1 (here.symm.trans same)
        rw [if_neg other, if_pos here]
        simp [here]
      · rw [if_neg here, if_neg here]

theorem name_insert {set bigger : FeatureSet} {key : Nat} {name : String}
    (added : set.insert (key, name) = .ok bigger) (index : Nat) :
    bigger.name? index = if index = key then some name else set.name? index := by
  unfold insert at added
  split at added
  · split at added
    · cases added
    · split at added
      · cases added
      · rename_i indexed
        cases added
        exact lookup_place indexed index
  · cases added

theorem insert_fresh {set bigger : FeatureSet} {key : Nat} {name : String}
    (added : set.insert (key, name) = .ok bigger) : set.name? key = none := by
  unfold insert at added
  split at added
  · split at added
    · cases added
    · split at added
      · cases added
      · rename_i indexed
        refine List.lookup_eq_none_iff.mpr fun entry member => ?_
        rw [bne_iff_ne]
        rintro same
        exact indexed (List.mem_map.mpr ⟨entry, member, same.symm⟩)
  · cases added

theorem name_foldlM {pairs : List (Nat × String)} {set bigger : FeatureSet}
    (added : pairs.foldlM insert set = .ok bigger) (index : Nat) (name : String) :
    bigger.name? index = some name ↔ set.name? index = some name ∨ (index, name) ∈ pairs := by
  induction pairs generalizing set with
  | nil =>
    cases added
    simp
  | cons pair rest ih =>
    obtain ⟨key, first⟩ := pair
    rw [List.foldlM_cons] at added
    cases step : set.insert (key, first) with
    | error e =>
      rw [step] at added
      cases added
    | ok middle =>
      rw [step] at added
      rw [ih added, name_insert step, List.mem_cons, Prod.mk.injEq, ← or_assoc]
      refine or_congr_left ?_
      by_cases here : index = key
      · rw [if_pos here, here, insert_fresh step]
        simp [eq_comm]
      · simp [here]

theorem name_ofNames {names : List String} {set : FeatureSet} (made : ofNames names = .ok set)
    (index : Nat) : set.name? index = names[index]? := by
  refine Option.ext fun name => ?_
  rw [name_foldlM made]
  have unnamed : empty.name? index = none := rfl
  rw [unnamed, List.mem_map]
  constructor
  · rintro (known | ⟨⟨other, place⟩, member, same⟩)
    · cases known
    · cases same
      exact List.mk_mem_zipIdx_iff_getElem?.mp member
  · intro found
    exact .inr ⟨(name, index), List.mk_mem_zipIdx_iff_getElem?.mpr found, rfl⟩

end FeatureSet

theorem cleanAfter_eq_map {lead : String} {seen : List (String × String)}
    {names clean : List String} (done : cleanAfter lead seen names = .ok clean) :
    clean = names.map (cleaned lead) := by
  induction names generalizing seen clean with
  | nil =>
    cases done
    rfl
  | cons name rest ih =>
    simp only [cleanAfter] at done
    split at done
    · split at done <;> cases done
    · cases later : cleanAfter lead ((cleaned lead name, name) :: seen) rest with
      | error e =>
        rw [later] at done
        cases done
      | ok more =>
        rw [later] at done
        cases done
        rw [ih later, List.map_cons]

theorem FeatureSet.name_sanitized {names : List String} {set : FeatureSet}
    (made : sanitized names = .ok set) (index : Nat) :
    set.name? index = names[index]?.map (cleaned "feature_") := by
  unfold sanitized cleanAll at made
  cases done : cleanAfter "feature_" [] names with
  | error e =>
    rw [done] at made
    cases made
  | ok clean =>
    rw [done] at made
    rw [name_ofNames made, cleanAfter_eq_map done, List.getElem?_map]

namespace TreeDump

def Entry.slot (count : Nat) (node : NodeId) (e : Entry) : Except ConversionError Slot :=
  match e.outputs with
  | [weights] =>
    if e.isLeaf then
      if e.left ≠ -1 ∨ e.right ≠ -1 then .error (.leafWithChildren node)
      else .ok ⟨0, .zero, .leaf (.ofWeights weights)⟩
    else do
      let left ← childId count node e.left
      let right ← childId count node e.right
      pure ⟨e.feature.toInt.toNat % Nat.pow 2 32, e.threshold, .split left right⟩
  | outputs => .error (.unsupportedOutputs node outputs.length)

theorem change_next {b : TableBuilder} (f : Slot → Slot) :
    b.change b.size f = ⟨b.slots.push (f .vacant)⟩ := by
  unfold TableBuilder.change TableBuilder.ensure
  rw [Nat.add_sub_cancel_left]
  congr 1
  apply Array.ext_getElem?
  intro i
  simp only [Array.getElem?_modify, Array.getElem?_append, Array.getElem?_push, TableBuilder.size]
  by_cases here : i = b.slots.size
  · subst here
    simp
  · have other : ¬ b.slots.size = i := fun same => here same.symm
    rw [if_neg other, if_neg here]
    split
    · rfl
    · rename_i above
      simp only [Array.getElem?_replicate]
      rw [if_neg (by omega), Array.getElem?_eq_none (by omega)]

theorem Entry.place_next (count : Nat) (b : TableBuilder) (e : Entry) :
    e.place count b b.size = (e.slot count b.size).map fun slot => ⟨b.slots.push slot⟩ := by
  obtain ⟨left, right, feature, threshold, outputs⟩ := e
  rcases outputs with _ | ⟨weights, _ | ⟨second, more⟩⟩
  · rfl
  · simp only [Entry.place, Entry.slot]
    split
    · split
      · rfl
      · rw [TableBuilder.setLeaf, change_next]
        rfl
    · cases childId count b.size left with
      | error fault => rfl
      | ok left =>
        cases childId count b.size right with
        | error fault => rfl
        | ok right =>
          simp only [bind, Except.bind, TableBuilder.setSplit, change_next]
          rfl
  · rfl

theorem foldlM_place {count : Nat} {es : List Entry} {b filled : TableBuilder}
    (done : (es.zipIdx b.size).foldlM (fun b (e, node) => e.place count b node) b = .ok filled) :
    ∃ slots : List Slot, filled.slots = b.slots ++ slots ∧ slots.length = es.length ∧
      ∀ (i : Nat) (e : Entry), es[i]? = some e →
        ∃ slot, slots[i]? = some slot ∧ e.slot count (b.size + i) = .ok slot := by
  induction es generalizing b with
  | nil =>
    cases done
    exact ⟨[], by simp, rfl, by simp⟩
  | cons e rest ih =>
    rw [List.zipIdx_cons, List.foldlM_cons] at done
    change (e.place count b b.size >>= _) = _ at done
    rw [Entry.place_next] at done
    cases first : e.slot count b.size with
    | error fault =>
      rw [first] at done
      cases done
    | ok slot =>
      rw [first] at done
      have size : (⟨b.slots.push slot⟩ : TableBuilder).size = b.size + 1 := by
        simp [TableBuilder.size]
      obtain ⟨slots, filled_eq, length, each⟩ := @ih ⟨b.slots.push slot⟩ (by rw [size]; exact done)
      refine ⟨slot :: slots, ?_, by simp [length], ?_⟩
      · rw [filled_eq]
        apply Array.toList_inj.mp
        simp
      · intro i other found
        cases i with
        | zero =>
          cases found
          exact ⟨slot, rfl, first⟩
        | succ i =>
          obtain ⟨later, there, made⟩ := each i other found
          rw [size, Nat.add_assoc, Nat.add_comm 1] at made
          exact ⟨later, there, made⟩

theorem entries_go_getElem? {ls rs fs : List Int64} {ts : List Double}
    {vs : List (List (List Double))} {i : Nat} {e : Entry} (left : ls[i]? = some e.left)
    (right : rs[i]? = some e.right) (feature : fs[i]? = some e.feature)
    (threshold : ts[i]? = some e.threshold) (outputs : vs[i]? = some e.outputs) :
    (entries.go ls rs fs ts vs)[i]? = some e := by
  induction ls generalizing rs fs ts vs i with
  | nil => simp at left
  | cons l ls ih =>
    obtain ⟨r, rs, rfl⟩ :=
      List.exists_cons_of_ne_nil (List.ne_nil_of_mem (List.mem_of_getElem? right))
    obtain ⟨f, fs, rfl⟩ :=
      List.exists_cons_of_ne_nil (List.ne_nil_of_mem (List.mem_of_getElem? feature))
    obtain ⟨t, ts, rfl⟩ :=
      List.exists_cons_of_ne_nil (List.ne_nil_of_mem (List.mem_of_getElem? threshold))
    obtain ⟨v, vs, rfl⟩ :=
      List.exists_cons_of_ne_nil (List.ne_nil_of_mem (List.mem_of_getElem? outputs))
    cases i with
    | zero =>
      cases left
      cases right
      cases feature
      cases threshold
      cases outputs
      rfl
    | succ i => exact ih left right feature threshold outputs

theorem checkLengths_ok {t : TreeDump} (checked : t.checkLengths = .ok ()) :
    ∀ field ∈ t.lengths, field.2 = t.nodeCount.toNat := by
  unfold checkLengths at checked
  split at checked
  · cases checked
  · rename_i none_wrong
    intro field member
    simpa using List.find?_eq_none.mp none_wrong field member

structure HasEntry (t : TreeDump) (node : Nat) (e : Entry) : Prop where
  left : t.childrenLeft[node]? = some e.left
  right : t.childrenRight[node]? = some e.right
  feature : t.feature[node]? = some e.feature
  threshold : t.threshold[node]? = some e.threshold
  outputs : t.value[node]? = some e.outputs

theorem HasEntry.getElem? {t : TreeDump} {node : Nat} {e : Entry} (entry : t.HasEntry node e) :
    t.entries[node]? = some e :=
  entries_go_getElem? entry.left entry.right entry.feature entry.threshold entry.outputs

def Even (t : TreeDump) : Prop := ∀ field ∈ t.lengths, field.2 = t.nodeCount.toNat

theorem Even.hasEntry {t : TreeDump} (even : t.Even) {node : Nat}
    (inside : node < t.nodeCount.toNat) : ∃ e, t.HasEntry node e := by
  simp only [Even, lengths, List.forall_mem_cons] at even
  obtain ⟨left, right, feature, threshold, value, _⟩ := even
  exact ⟨⟨_, _, _, _, _⟩, List.getElem?_eq_getElem (left ▸ inside),
    List.getElem?_eq_getElem (right ▸ inside), List.getElem?_eq_getElem (feature ▸ inside),
    List.getElem?_eq_getElem (threshold ▸ inside),
    List.getElem?_eq_getElem (value ▸ inside)⟩

theorem entry_of_feature {t : TreeDump} (checked : t.checkLengths = .ok ()) {node : Nat} {f : Int64}
    (found : t.feature[node]? = some f) : ∃ e, t.entries[node]? = some e ∧ e.feature = f := by
  have even : t.Even := checkLengths_ok checked
  have feature : t.feature.length = t.nodeCount.toNat := even ("feature", _) (by simp [lengths])
  have inside : node < t.nodeCount.toNat := feature ▸ (List.getElem?_eq_some_iff.mp found).1
  obtain ⟨e, entry⟩ := even.hasEntry inside
  exact ⟨e, entry.getElem?, Option.some.inj (entry.feature.symm.trans found)⟩

theorem toTable_slot {t : TreeDump} {table : NodeTable} (made : t.toTable = .ok table) {node : Nat}
    {f : Int64} (found : t.feature[node]? = some f) :
    ∃ (slots : Array Slot) (slot : Slot) (e : Entry), table = TableBuilder.build ⟨slots⟩ ∧
      slots[node]? = some slot ∧ e.feature = f ∧ e.slot t.nodeCount.toNat node = .ok slot := by
  obtain ⟨_, checked, filling⟩ := except_bind_eq_ok.mp made
  obtain ⟨b, filled, built⟩ := except_bind_eq_ok.mp filling
  cases built
  obtain ⟨e, there, same⟩ := entry_of_feature checked found
  obtain ⟨slots, slots_eq, _, each⟩ := foldlM_place filled
  obtain ⟨slot, at_node, slot_eq⟩ := each node e there
  have empty_size : TableBuilder.empty.size = 0 := rfl
  rw [empty_size, Nat.zero_add] at slot_eq
  refine ⟨b.slots, slot, e, rfl, ?_, same, slot_eq⟩
  rw [slots_eq]
  simpa [TableBuilder.empty] using at_node

theorem splitFeature_of_toTable {t : TreeDump} {table : NodeTable} (made : t.toTable = .ok table)
    {node : Nat} {f : Int64} (found : t.feature[node]? = some f) (tested : 0 ≤ f.toInt) :
    table.splitFeature? node = some (some (f.toInt.toNat % Nat.pow 2 32)) := by
  obtain ⟨slots, slot, e, rfl, there, rfl, slot_eq⟩ := toTable_slot made found
  have inner : e.isLeaf = false := by
    rw [Entry.isLeaf, decide_eq_false_iff_not, Int64.lt_iff_toInt_lt, Int64.toInt_zero]
    omega
  unfold Entry.slot at slot_eq
  split at slot_eq
  · rw [inner] at slot_eq
    obtain ⟨left, _, slot_eq⟩ := except_bind_eq_ok.mp slot_eq
    obtain ⟨right, _, slot_eq⟩ := except_bind_eq_ok.mp slot_eq
    cases slot_eq
    simp [NodeTable.splitFeature?, TableBuilder.build, there, Role.leaf?]
  · cases slot_eq

end TreeDump

theorem NodeTable.Represents.tested_known {t : NodeTable} {tree : DecisionTree}
    {features : FeatureSet} {labels : LabelSet} (represents : t.Represents tree)
    (refers : tree.Refers features labels) {node feature : Nat}
    (tested : t.splitFeature? node = some (some feature)) : features.contains feature = true := by
  have inside : node < t.size := by
    unfold splitFeature? at tested
    obtain ⟨kind, found, _⟩ := Option.bind_eq_some_iff.mp tested
    exact (Array.getElem?_eq_some_iff.mp found).1
  have checked :=
    represents.unfolds.references_ok_iff.mpr refers node (represents.covers node inside)
  unfold checkReference at checked
  rw [tested, run_lift_bind] at checked
  by_cases known : features.contains feature = true
  · exact known
  · dsimp only at checked
    rw [if_neg known] at checked
    cases checked

theorem Plan.split_name {plan : Plan} {node : NodeId} {parts : Split}
    (made : (plan.split node).run = some (.ok parts)) :
    ∃ feature, plan.table.feature[node]? = some feature ∧
    plan.features.name? feature = some parts.name := by
  unfold split at made
  obtain ⟨left, _, made⟩ := run_bind_eq_ok.mp made
  obtain ⟨right, _, made⟩ := run_bind_eq_ok.mp made
  cases left with
  | none => cases made
  | some left =>
    cases right with
    | none => cases made
    | some right =>
      obtain ⟨feature, found, made⟩ := run_bind_eq_ok.mp made
      refine ⟨feature, run_lift_eq_ok.mp found, ?_⟩
      cases named : plan.features.name? feature with
      | none =>
        rw [named] at made
        cases made
      | some name =>
        rw [named] at made
        obtain ⟨threshold, _, made⟩ := run_bind_eq_ok.mp made
        obtain ⟨literal, _, made⟩ := run_bind_eq_ok.mp made
        cases made
        rfl

namespace Dump

def symbol (sanitize : Bool) (name : String) : String :=
  if sanitize then cleaned "feature_" name else name

theorem name_of_converted {dump : Dump} {sanitize : Bool} {c : Classifier}
    (converted : dump.toClassifier sanitize = .ok c) (index : Nat) :
    c.features.name? index = dump.featureNames[index]?.map (symbol sanitize) := by
  obtain ⟨features, named, rest⟩ := except_bind_eq_ok.mp converted
  obtain ⟨labels, _, rest⟩ := except_bind_eq_ok.mp rest
  obtain ⟨table, _, made⟩ := except_bind_eq_ok.mp rest
  cases made
  rw [except_mapError_eq_ok] at named
  cases sanitize with
  | false =>
    have kept : symbol false = id := rfl
    rw [kept, Option.map_id]
    exact FeatureSet.name_ofNames named index
  | true => exact FeatureSet.name_sanitized named index

theorem table_of_converted {dump : Dump} {sanitize : Bool} {c : Classifier}
    (converted : dump.toClassifier sanitize = .ok c) : dump.tree.toTable = .ok c.table := by
  obtain ⟨_, _, rest⟩ := except_bind_eq_ok.mp converted
  obtain ⟨_, _, rest⟩ := except_bind_eq_ok.mp rest
  obtain ⟨table, tabled, made⟩ := except_bind_eq_ok.mp rest
  cases made
  exact tabled

/-- A split of a checked classifier tests the feature in the low 32 bits of the index its dump
gives, which has a name. It is the feature of that index exactly when the index fits 32 bits. -/
theorem split_tests_low_word {dump : Dump} {sanitize : Bool} {c : Classifier}
    (converted : dump.toClassifier sanitize = .ok c)
    (valid : c.table.validate.run = some (.ok ()))
    (refers : (c.table.validateReferences c.features c.labels).run = some (.ok ()))
    {node : NodeId} {f : Int64} (found : dump.tree.feature[node]? = some f) (tested : 0 ≤ f.toInt) :
    ∃ name, dump.featureNames[f.toInt.toNat % Nat.pow 2 32]? = some name ∧
      c.table.splitFeature? node = some (some (f.toInt.toNat % Nat.pow 2 32)) ∧
      (∀ config parts, (Plan.split ⟨c.table, c.features, c.labels, config⟩ node).run =
        some (.ok parts) →
        parts.name = symbol sanitize name) ∧
      ((f.toInt.toNat < dump.featureNames.length ∧
        c.table.splitFeature? node = some (some f.toInt.toNat)) ↔ f.toInt < 4294967296) := by
  have feature := TreeDump.splitFeature_of_toTable (table_of_converted converted) found tested
  obtain ⟨tree, represents⟩ := NodeTable.validate_ok_iff.mp valid
  have known := represents.tested_known (represents.validateReferences_ok_iff.mp refers) feature
  obtain ⟨symbol_eq, there⟩ := Option.isSome_iff_exists.mp known
  rw [name_of_converted converted] at there
  obtain ⟨name, named, rfl⟩ := Option.map_eq_some_iff.mp there
  refine ⟨name, named, feature, ?_, ?_⟩
  · intro config parts made
    obtain ⟨other, row, named'⟩ := Plan.split_name made
    have same : other = f.toInt.toNat % Nat.pow 2 32 := by
      unfold NodeTable.splitFeature? at feature
      obtain ⟨kind, _, feature⟩ := Option.bind_eq_some_iff.mp feature
      cases kind with
      | true => cases feature
      | false =>
        change some <$> c.table.feature[node]? = _ at feature
        rw [show c.table.feature[node]? = some other from row] at feature
        simpa using feature
    rw [same, name_of_converted converted, named] at named'
    exact (Option.some.inj named').symm
  · have limit : Nat.pow 2 32 = 4294967296 := rfl
    rw [limit] at feature named
    rw [feature]
    constructor
    · rintro ⟨_, kept⟩
      have kept := Option.some.inj (Option.some.inj kept)
      omega
    · intro narrow
      have kept : f.toInt.toNat % 4294967296 = f.toInt.toNat := Nat.mod_eq_of_lt (by omega)
      rw [kept] at named ⊢
      exact ⟨(List.getElem?_eq_some_iff.mp named).1, rfl⟩

/-- A model with one feature, whose dump tests feature `2 ^ 32` at the root. -/
def wideFeature : Dump :=
  let two (negative : Bool) : Double := ⟨negative, 0x4000000000000000, by decide⟩
  { classes := [.text "low", .text "high"]
    featureNames := ["x0"]
    provenance := none
    tree :=
      { nodeCount := 3
        childrenLeft := [1, -1, -1]
        childrenRight := [2, -1, -1]
        feature := [4294967296, -2, -2]
        threshold := [⟨false, 0x3FF0000000000000, by decide⟩, two true, two true]
        value := [[[two false, two false]], [[two false, .zero]], [[.zero, two false]]] } }

theorem wideFeature_accepted : ∃ c, wideFeature.toClassifier false = .ok c ∧
    c.table.validate.run = some (.ok ()) ∧
    (c.table.validateReferences c.features c.labels).run = some (.ok ()) := by
  have accepted : (wideFeature.toClassifier false).toOption.any (fun c =>
      decide (c.table.validate.run = some (.ok ())) &&
      decide ((c.table.validateReferences c.features c.labels).run = some (.ok ()))) = true := by
    decide +kernel
  cases converted : wideFeature.toClassifier false with
  | error fault =>
    rw [converted] at accepted
    cases accepted
  | ok c =>
    rw [converted] at accepted
    simp only [Except.toOption, Option.any_some, Bool.and_eq_true, decide_eq_true_eq] at accepted
    exact ⟨c, rfl, accepted⟩

theorem wideFeature_tests_first : ∃ c, wideFeature.toClassifier false = .ok c ∧
    c.table.validate.run = some (.ok ()) ∧
    (c.table.validateReferences c.features c.labels).run = some (.ok ()) ∧
    wideFeature.tree.feature[0]? = some 4294967296 ∧ c.table.splitFeature? 0 = some (some 0) := by
  obtain ⟨c, converted, valid, refers⟩ := wideFeature_accepted
  obtain ⟨_, _, feature, _⟩ :=
    @split_tests_low_word _ _ _ converted valid refers 0 4294967296 rfl (by decide)
  exact ⟨c, converted, valid, refers, rfl, feature⟩

/-- An index beyond the names may be accepted, and then another feature is tested. -/
theorem feature_not_kept : ¬ ∀ (dump : Dump) (sanitize : Bool) (c : Classifier),
    dump.toClassifier sanitize = .ok c → c.table.validate.run = some (.ok ()) →
    (c.table.validateReferences c.features c.labels).run = some (.ok ()) →
    ∀ (node : NodeId) (f : Int64), dump.tree.feature[node]? = some f → 0 ≤ f.toInt →
      f.toInt.toNat < dump.featureNames.length ∧
        c.table.splitFeature? node = some (some f.toInt.toNat) := by
  intro kept
  obtain ⟨c, converted, valid, refers⟩ := wideFeature_accepted
  obtain ⟨inside, _⟩ := kept wideFeature false c converted valid refers 0 4294967296 rfl (by decide)
  revert inside
  decide

end Dump

end DecisionTreeC
