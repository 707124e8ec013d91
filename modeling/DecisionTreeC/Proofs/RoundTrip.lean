import DecisionTreeC.Dump.Schema
import DecisionTreeC.Proofs.Standard

/-!
Dumps written and read back through any JSON library. Every dump of floats that the library reads
back, and in which each node has an output, is the one that its text is read as, whether a single
output stands in brackets of its own or not. Reading gives no other dumps, so writing and reading
again changes nothing from then on.
-/
namespace DecisionTreeC

open Json

def ClassName.IsFinite : ClassName → Prop
  | .float x => x.isFinite = true
  | _ => True

instance (name : ClassName) : Decidable name.IsFinite :=
  match name with
  | .float x => inferInstanceAs (Decidable (x.isFinite = true))
  | .text _ => inferInstanceAs (Decidable True)
  | .integer _ => inferInstanceAs (Decidable True)

def ClassName.floats : ClassName → List Double
  | .float x => [x]
  | _ => []

namespace TreeDump

/-- Weights of a node that can be written: at least one output, all of finite numbers. -/
def IsWeighted (outputs : List (List Double)) : Prop :=
  outputs ≠ [] ∧ ∀ weights ∈ outputs, ∀ x ∈ weights, x.isFinite = true

instance (outputs : List (List Double)) : Decidable (IsWeighted outputs) :=
  inferInstanceAs (Decidable (_ ∧ _))

structure Regular (t : TreeDump) : Prop where
  threshold : ∀ x ∈ t.threshold, x.isFinite = true
  value : ∀ outputs ∈ t.value, IsWeighted outputs

end TreeDump

namespace Dump

structure Regular (dump : Dump) : Prop where
  classes : ∀ name ∈ dump.classes, name.IsFinite
  tree : dump.tree.Regular

def floats (dump : Dump) : List Double :=
  dump.classes.flatMap ClassName.floats ++ dump.tree.threshold ++ dump.tree.value.flatten.flatten

end Dump

section AnyLibrary

variable {library : Library} (lawful : library.Lawful)
include lawful

/-! What is written. -/

theorem Provenance.depicted (p : Provenance) :
    library.Depicts Provenance.schema 1 (library.encode Provenance.schema p) p := by
  have kind : library.Depicts BlockType.schema 0
      (library.encode BlockType.schema p.blockType) p.blockType := by
    refine lawful.depicts_choice ?_
    cases p.blockType <;> rfl
  rw [schema, lawful.encode_made, lawful.encode_record]
  refine lawful.depicts_made rfl (lawful.depicts_record _ ?_)
  exact (Library.DepictsFields.nil.required "block_type" kind).required "block_size"
    (lawful.depicts_unsigned p.blockSize)

/-- Strings, integers and floats are told apart by their values. -/
theorem ClassName.depicted {name : ClassName} (back : ∀ x ∈ name.floats, library.ReadsBack x) :
    library.Depicts ClassName.schema 0 (library.encode ClassName.schema name) name := by
  rw [schema, lawful.encode_made, lawful.encode_untagged]
  cases name with
  | text s => exact lawful.depicts_made rfl (lawful.depicts_first _ (lawful.depicts_text s))
  | integer n =>
    have depicts := lawful.depicts_signed n
    have no_text : library.decode .text (library.encode .signed n) = none := by
      rw [lawful.encode_signed, lawful.decode_text_number]
    rw [toSum, Sum.elim_inr, lawful.encode_untagged, Sum.elim_inl]
    exact lawful.depicts_made rfl (lawful.depicts_second no_text (lawful.depicts_first _ depicts))
  | float x =>
    have depicts := lawful.depicts_real (back x (List.mem_singleton.mpr rfl))
    have no_text : library.decode .text (library.encode .real x) = none := by
      rw [lawful.encode_real, lawful.decode_text_number]
    have no_integer : library.decode .signed (library.encode .real x) = none := by
      rw [lawful.encode_real, lawful.decode_signed, Number.toInt64?]
    rw [toSum, Sum.elim_inr, lawful.encode_untagged, Sum.elim_inr]
    exact lawful.depicts_made rfl
      (lawful.depicts_second no_text (lawful.depicts_second no_integer depicts))

namespace TreeDump

def Restores (library : Library) (layout : Schema (List (List Double))) : Prop :=
  ∀ weights : List (List Double), weights ≠ [] → (∀ x ∈ weights.flatten, library.ReadsBack x) →
    library.Depicts outputs 2 (library.encode layout weights) weights

theorem depicts_reals {weights : List Double} (back : ∀ x ∈ weights, library.ReadsBack x) :
    library.Depicts (.list .real) 1 (library.encode (.list .real) weights) weights :=
  lawful.depicts_list fun x member => lawful.depicts_real (back x member)

/-- A list of lists of numbers is not taken for one of them. -/
theorem lists_restore : Restores library (.list (.list .real)) := by
  intro weights some_output back
  refine lawful.depicts_many ?_ (lawful.depicts_list fun entries member => ?_)
  · obtain ⟨first, more, rfl⟩ := List.exists_cons_of_ne_nil some_output
    rw [lawful.encode_list, lawful.decode_list, List.map_cons]
    change List.mapM _ (_ :: _) = none
    rw [List.mapM_cons, lawful.encode_list, lawful.decode_real_array]
    rfl
  · exact depicts_reals lawful fun x inside =>
      back x (List.mem_flatten.mpr ⟨entries, member, inside⟩)

theorem outputs_restore : Restores library outputs := by
  intro weights some_output back
  by_cases single : weights.length = 1
  · obtain ⟨entries, rfl⟩ := List.length_eq_one_iff.mp single
    rw [outputs, lawful.encode_one]
    refine (lawful.depicts_one ?_).mono (Nat.le_succ 1)
    exact depicts_reals lawful fun x inside =>
      back x (List.mem_flatten.mpr ⟨entries, by simp, inside⟩)
  · rw [outputs, lawful.encode_many _ single]
    exact lists_restore lawful weights some_output back

theorem depicted {layout : Schema (List (List Double))} (restores : Restores library layout)
    {t : TreeDump} (regular : t.Regular) (thresholds : ∀ x ∈ t.threshold, library.ReadsBack x)
    (weights : ∀ x ∈ t.value.flatten.flatten, library.ReadsBack x) :
    library.Depicts (schemaWith outputs) 4 (library.encode (schemaWith layout) t) t := by
  have integers : ∀ entries : List Int64,
      library.Depicts (.list .signed) 3 (library.encode (.list .signed) entries) entries := by
    intro entries
    exact (lawful.depicts_list fun n _ => lawful.depicts_signed n).mono (by decide)
  have reals := (depicts_reals lawful thresholds).mono (show 1 ≤ 3 by decide)
  have values : library.Depicts (.list outputs) 3
      (library.encode (.list layout) t.value) t.value := by
    rw [lawful.encode_list]
    refine lawful.depicts_array fun entries member =>
      restores entries (regular.value entries member).1 ?_
    intro x inside
    obtain ⟨row, row_inside, inside⟩ := List.mem_flatten.mp inside
    exact weights x
      (List.mem_flatten.mpr ⟨row, List.mem_flatten.mpr ⟨entries, member, row_inside⟩, inside⟩)
  rw [schemaWith, schemaWith, lawful.encode_made, lawful.encode_record]
  refine lawful.depicts_made rfl (lawful.depicts_record _ ?_)
  exact (((((Library.DepictsFields.nil.required "value" values).required "threshold" reals).required
    "feature" (integers t.feature)).required "children_right" (integers t.childrenRight)).required
    "children_left" (integers t.childrenLeft)).required "node_count"
    ((lawful.depicts_unsigned t.nodeCount).mono (by decide))

end TreeDump

namespace Dump

theorem depicted {layout : Schema (List (List Double))}
    (restores : TreeDump.Restores library layout) {dump : Dump} (regular : dump.Regular)
    (back : ∀ x ∈ dump.floats, library.ReadsBack x) :
    library.Depicts schema 5 (library.encode (schemaWith layout) dump) dump := by
  obtain ⟨classList, nameList, recorded, tree⟩ := dump
  simp only [floats, List.mem_append, or_imp, forall_and] at back
  obtain ⟨⟨named, thresholds⟩, weights⟩ := back
  have classes : library.Depicts (.list ClassName.schema) 4
      (library.encode (.list ClassName.schema) classList) classList := by
    refine (lawful.depicts_list fun name member =>
      ClassName.depicted lawful fun x inside => ?_).mono (show 1 ≤ 4 by decide)
    exact named x (List.mem_flatMap.mpr ⟨name, member, inside⟩)
  have names : library.Depicts (.list .text) 4 (library.encode (.list .text) nameList) nameList :=
    (lawful.depicts_list fun s _ => lawful.depicts_text s).mono (by decide)
  have trees := Library.DepictsFields.nil.required "tree"
    (TreeDump.depicted lawful restores regular.tree thresholds weights)
  rw [schema, schemaWith, schemaWith, lawful.encode_made, lawful.encode_record]
  refine lawful.depicts_made rfl (lawful.depicts_record _ ?_)
  refine Library.DepictsFields.required "classes" classes (.required "feature_names" names ?_)
  cases recorded with
  | none => exact trees.absent _ (by decide)
  | some p => exact trees.present "provenance" ((p.depicted lawful).mono (by decide))

end Dump

/-! What is read. -/

section Reading

variable {v : Value} (finite : v.Holds fun x => x.isFinite = true)
include finite

theorem ClassName.finite_of_decode {name : ClassName}
    (decodes : library.decode ClassName.schema v = some name) : name.IsFinite := by
  obtain ⟨data, data_decodes, rfl⟩ := lawful.made_parts decodes
  obtain ⟨s, rfl, _⟩ | ⟨number, rfl, number_decodes⟩ := lawful.untagged_parts data_decodes
  · trivial
  · obtain ⟨n, rfl, _⟩ | ⟨x, rfl, float_decodes⟩ := lawful.untagged_parts number_decodes
    · trivial
    · exact lawful.decode_real_finite float_decodes finite

namespace TreeDump

theorem reals_finite {weights : List Double}
    (decodes : library.decode (.list .real) v = some weights) :
    ∀ x ∈ weights, x.isFinite = true := by
  intro x member
  obtain ⟨part, part_finite, part_decodes⟩ := lawful.list_parts decodes finite x member
  exact lawful.decode_real_finite part_decodes part_finite

/-- An empty list of outputs would have been read as one output without weights. -/
theorem weighted_of_decode {weights : List (List Double)}
    (decodes : library.decode outputs v = some weights) : IsWeighted weights := by
  obtain ⟨entries, rfl, single⟩ | ⟨refused, several⟩ := lawful.oneOrMany_parts decodes
  · constructor
    · exact List.cons_ne_nil _ _
    · intro row member
      rw [List.mem_singleton.mp member]
      exact reals_finite lawful finite single
  · constructor
    · intro none_left
      rw [none_left] at several
      rw [lawful.decode_list_nil several .real] at refused
      cases refused
    · intro row member
      obtain ⟨part, part_finite, part_decodes⟩ := lawful.list_parts several finite row member
      exact reals_finite lawful part_finite part_decodes

theorem regular_of_decode {t : TreeDump}
    (decodes : library.decode (schemaWith outputs) v = some t) : t.Regular := by
  obtain ⟨data, data_decodes, rfl⟩ := lawful.made_parts decodes
  obtain ⟨_, _, _, _, ⟨thresholds, thresholds_finite, thresholds_decode⟩,
    ⟨values, values_finite, values_decode⟩, _⟩ := lawful.record_parts data_decodes finite
  constructor
  · exact reals_finite lawful thresholds_finite thresholds_decode
  · intro weights member
    obtain ⟨part, part_finite, part_decodes⟩ :=
      lawful.list_parts values_decode values_finite weights member
    exact weighted_of_decode lawful part_finite part_decodes

end TreeDump

theorem Dump.regular_of_decode {dump : Dump} (decodes : library.decode schema v = some dump) :
    dump.Regular := by
  obtain ⟨data, data_decodes, rfl⟩ := lawful.made_parts decodes
  obtain ⟨⟨classes, classes_finite, classes_decode⟩, _, _, ⟨tree, tree_finite, tree_decodes⟩, _⟩ :=
    lawful.record_parts data_decodes finite
  constructor
  · intro name member
    obtain ⟨part, part_finite, part_decodes⟩ :=
      lawful.list_parts classes_decode classes_finite name member
    exact ClassName.finite_of_decode lawful part_finite part_decodes
  · exact TreeDump.regular_of_decode lawful tree_finite tree_decodes

end Reading

namespace Dump

/-- A dump with every output in brackets of its own, also where a node has only one. -/
def keptSchema : Schema Dump := schemaWith (.list (.list .real))

theorem read_written {dump : Dump} (regular : dump.Regular)
    (back : ∀ x ∈ dump.floats, library.ReadsBack x) :
    library.read schema (library.write schema dump) = .ok dump :=
  (depicted lawful (TreeDump.outputs_restore lawful) regular back).read lawful (by decide)

theorem read_kept {dump : Dump} (regular : dump.Regular)
    (back : ∀ x ∈ dump.floats, library.ReadsBack x) :
    library.read schema (library.write keptSchema dump) = .ok dump :=
  (depicted lawful (TreeDump.lists_restore lawful) regular back).read lawful (by decide)

/-- Writing a dump and reading it back is the identity, as long as the library reads the floats of
the dump back; and every dump that is read at all is one that can be written. -/
theorem json_round_trip (dump : Dump) :
    (dump.Regular → (∀ x ∈ dump.floats, library.ReadsBack x) →
      library.read schema (library.write schema dump) = .ok dump ∧
        library.read schema (library.write keptSchema dump) = .ok dump) ∧
    ∀ text, library.read schema text = .ok dump →
      dump.Regular ∧ ((∀ x ∈ dump.floats, library.ReadsBack x) →
        library.read schema (library.write schema dump) = .ok dump) := by
  constructor
  · intro regular back
    exact ⟨read_written lawful regular back, read_kept lawful regular back⟩
  · intro text read
    obtain ⟨v, finite, decodes⟩ := lawful.read_decode read
    have regular := regular_of_decode lawful finite decodes
    exact ⟨regular, read_written lawful regular⟩

end Dump

end AnyLibrary

namespace Dump

/-- Names that look alike, extreme numbers, columns of different lengths, and nodes with one output,
with several and with no weights. -/
def oddDump : Dump :=
  { classes := [.text "3", .integer 3, .float ⟨false, 0x4008000000000000, by decide⟩,
    .integer Int64.minValue,
      .float ⟨true, 0, by decide⟩, .float ⟨false, 0x7FEFFFFFFFFFFFFF, by decide⟩]
    featureNames := ["", "a \"b\\\n\x1f\u00e9"]
    provenance := some ⟨UInt64.ofNat (2 ^ 64 - 1), .sliding⟩
    tree :=
      { nodeCount := 7
        childrenLeft := [1, Int64.minValue]
        childrenRight := []
        feature := [-2, 0, 5]
        threshold := [⟨false, 1, by decide⟩, ⟨true, 0x3FB999999999999A, by decide⟩]
        value := [[[]], [[], [.zero]], [[.zero, .zero]], [[.zero], [.zero]], [[], []]] } }

theorem oddDump_round_trip :
    standard.Lawful ∧ oddDump.Regular ∧ (∀ x ∈ oddDump.floats, standard.ReadsBack x) ∧
      standard.read schema (standard.write schema oddDump) = .ok oddDump ∧
      standard.read schema (standard.write keptSchema oddDump) = .ok oddDump ∧
      standard.write schema oddDump ≠ standard.write keptSchema oddDump := by
  have regular : oddDump.Regular := ⟨by decide, ⟨by decide, by decide⟩⟩
  have back : ∀ x ∈ oddDump.floats, standard.ReadsBack x := by
    simp only [standard_readsBack]
    decide
  obtain ⟨dropped, kept⟩ := (json_round_trip standard_lawful oddDump).1 regular back
  exact ⟨standard_lawful, regular, back, dropped, kept, by decide +kernel⟩

end Dump

end DecisionTreeC
