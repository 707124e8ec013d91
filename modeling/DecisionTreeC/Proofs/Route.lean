import DecisionTreeC.Proofs.References
import DecisionTreeC.Proofs.Traversal

/-!
The route of a sample through an accepted table. A trail is a path down on which every split tests a
value that the sample has, and goes to the side that the comparison asks for. The trail of a sample
ends in a leaf, or at a split that tests a value beyond the sample; the route is the leaf in the one
case and missing in the other. It takes fewer comparisons than the table is deep, so it never runs
out of its budget.
-/
namespace DecisionTreeC

namespace Binary

variable {f : Format}

theorem le_of_isNaN {x y : Binary f} (undefined : x.isNaN = true ∨ y.isNaN = true) :
    x.le y = false := by
  rcases undefined with h | h <;> simp [le, h]

theorem isNaN_toSingle {x : Double} (undefined : x.isNaN = true) : x.toSingle.isNaN = true := by
  unfold Double.toSingle convert
  rw [if_pos undefined]
  rfl

end Binary

namespace NodeTable

variable {t : NodeTable} {sample : Array Single}

/-- One comparison: the node is a split, the sample has the value it tests, and the next node is the
left child exactly when that value is at most the threshold, both in single precision. -/
structure Turns (t : NodeTable) (sample : Array Single) (node : NodeId) (side : Side)
    (next : NodeId) : Prop where
  isSplit : t.isLeaf[node]? = some false
  edge : t.child node side = some next
  compared : ∃ feature threshold value, t.feature[node]? = some feature ∧
    t.threshold[node]? = some threshold ∧ sample[feature]? = some value ∧
    (side = .left ↔ value.le threshold.toSingle = true)

inductive Trail (t : NodeTable) (sample : Array Single) : NodeId → List Side → NodeId → Prop where
  | stay (node : NodeId) : Trail t sample node [] node
  | turn {node next last : NodeId} {side : Side} {path : List Side}
      (first : t.Turns sample node side next) (rest : Trail t sample next path last) :
      Trail t sample node (side :: path) last

def Beyond (t : NodeTable) (sample : Array Single) (node : NodeId) : Prop :=
  t.isLeaf[node]? = some false ∧ ∃ feature, t.feature[node]? = some feature ∧ sample.size ≤ feature

def countedFrom (t : NodeTable) (sample : Array Single) : Nat → NodeId → Nat × Option NodeId
  | 0, _ => (0, none)
  | steps + 1, node =>
    match t.children? node with
    | none => (0, none)
    | some none => (0, some node)
    | some (some (left, right)) =>
      match t.turn sample node left right with
      | none => (0, none)
      | some next =>
        let (count, outcome) := t.countedFrom sample steps next
        (count + 1, outcome)

theorem countedFrom_outcome (t : NodeTable) (sample : Array Single) (budget : Nat) (node : NodeId) :
    (t.countedFrom sample budget node).2 = t.routeFrom sample budget node := by
  induction budget generalizing node with
  | zero => rfl
  | succ budget ih =>
    rw [countedFrom, routeFrom]
    rcases t.children? node with _ | _ | ⟨left, right⟩
    · rfl
    · rfl
    · cases taken : t.turn sample node left right with
      | none => simp [taken]
      | some next => simp [taken, ih]

theorem SplitRow.turn_eq {node l r feature next : Nat} {threshold : Double} {side : Side}
    (row : t.SplitRow node feature threshold l r) (turns : t.Turns sample node side next) :
    t.turn sample node l r = some next := by
  obtain ⟨tested, against, value, tests, limit, found, chosen⟩ := turns.compared
  obtain rfl : feature = tested := Option.some.inj (row.feature.symm.trans tests)
  obtain rfl : threshold = against := Option.some.inj (row.threshold.symm.trans limit)
  have edge := turns.edge
  cases side with
  | left =>
    rw [row.child_left] at edge
    simp [turn, row.feature, row.threshold, found, chosen.mp rfl, Option.some.inj edge]
  | right =>
    rw [row.child_right] at edge
    have refused : value.le threshold.toSingle = false := by simpa using chosen
    simp [turn, row.feature, row.threshold, found, refused, Option.some.inj edge]

theorem SplitRow.turns {node l r feature : Nat} {threshold : Double} {value : Single}
    (row : t.SplitRow node feature threshold l r) (found : sample[feature]? = some value) :
    t.Turns sample node .left l ∨ t.Turns sample node .right r := by
  cases test : value.le threshold.toSingle with
  | true =>
    exact .inl ⟨row.isLeaf, row.child_left, feature, threshold, value, row.feature, row.threshold,
      found, by simp [test]⟩
  | false =>
    exact .inr ⟨row.isLeaf, row.child_right, feature, threshold, value, row.feature, row.threshold,
      found, by simp [test]⟩

theorem LeafRow.routeFrom_succ {node : NodeId} {payload : Leaf} (row : t.LeafRow node payload)
    (steps : Nat) : t.routeFrom sample (steps + 1) node = some node := by
  simp [routeFrom, row.children]

theorem SplitRow.routeFrom_succ {node l r feature next : Nat} {threshold : Double} {side : Side}
    (row : t.SplitRow node feature threshold l r) (turns : t.Turns sample node side next)
    (steps : Nat) : t.routeFrom sample (steps + 1) node = t.routeFrom sample steps next := by
  simp [routeFrom, row.children, row.turn_eq turns]

/-- No value, no comparison: the route is missing, whatever its budget. -/
theorem SplitRow.routeFrom_beyond {node l r feature : Nat} {threshold : Double}
    (row : t.SplitRow node feature threshold l r) (short : sample.size ≤ feature) (steps : Nat) :
    t.routeFrom sample steps node = none := by
  cases steps with
  | zero => rfl
  | succ steps => simp [routeFrom, row.children, turn, row.feature, Array.getElem?_eq_none short]

theorem Trail.follow {node last : NodeId} {path : List Side}
    (trail : t.Trail sample node path last) : t.follow node path = some last := by
  induction trail with
  | stay node => rfl
  | turn first rest ih => rw [NodeTable.follow, first.edge, Option.bind_some, ih]

theorem Trail.routeFrom_eq {node last : NodeId} {path : List Side}
    (trail : t.Trail sample node path last) {tree : DecisionTree} (unfolds : t.Unfolds node tree)
    (budget : Nat) :
    t.routeFrom sample (path.length + budget) node = t.routeFrom sample budget last := by
  induction trail generalizing tree with
  | stay node => rw [List.length_nil, Nat.zero_add]
  | @turn node next last side path first rest ih =>
    obtain ⟨below, unfolds_next⟩ := unfolds.unfolds_below (Trail.turn first (.stay next)).follow
    cases unfolds with
    | leaf row =>
      have split := first.isSplit
      rw [row.isLeaf] at split
      cases split
    | split row left right =>
      have length : (side :: path).length + budget = path.length + budget + 1 := by
        rw [List.length_cons]
        omega
      rw [length, row.routeFrom_succ first, ih unfolds_next]

theorem Unfolds.trail_ends {node : NodeId} {tree : DecisionTree} (h : t.Unfolds node tree)
    (sample : Array Single) :
    ∃ path last, t.Trail sample node path last ∧
    (t.isLeaf[last]? = some true ∨ t.Beyond sample last) := by
  induction h with
  | @leaf node payload row => exact ⟨[], node, .stay node, .inl row.isLeaf⟩
  | @split node l r feature threshold left right row first second ihl ihr =>
    cases found : sample[feature]? with
    | none =>
      have short : sample.size ≤ feature := Array.getElem?_eq_none_iff.mp found
      exact ⟨[], node, .stay node, .inr ⟨row.isLeaf, feature, row.feature, short⟩⟩
    | some value =>
      rcases row.turns found with goes_left | goes_right
      · obtain ⟨path, last, trail, ends⟩ := ihl
        exact ⟨.left :: path, last, .turn goes_left trail, ends⟩
      · obtain ⟨path, last, trail, ends⟩ := ihr
        exact ⟨.right :: path, last, .turn goes_right trail, ends⟩

theorem turn_child {node l r next : NodeId} (taken : t.turn sample node l r = some next) :
    next = l ∨ next = r := by
  simp only [turn, Option.bind_eq_bind, Option.bind_eq_some_iff] at taken
  obtain ⟨_, _, _, _, _, _, chosen⟩ := taken
  cases chosen
  split
  · exact .inl rfl
  · exact .inr rfl

theorem Unfolds.count_lt {node : NodeId} {tree : DecisionTree} (h : t.Unfolds node tree)
    (sample : Array Single) (budget : Nat) :
    (t.countedFrom sample budget node).1 < tree.height := by
  induction h generalizing budget with
  | leaf row =>
    cases budget with
    | zero => exact Nat.one_pos
    | succ budget =>
      rw [countedFrom, row.children]
      exact Nat.one_pos
  | @split node l r feature threshold left right row first second ihl ihr =>
    rw [DecisionTree.height]
    cases budget with
    | zero =>
      rw [countedFrom]
      omega
    | succ budget =>
      rw [countedFrom, row.children]
      dsimp only
      cases taken : t.turn sample node l r with
      | none =>
        dsimp only
        omega
      | some next =>
        dsimp only
        rcases turn_child taken with rfl | rfl
        · have fewer := ihl budget
          omega
        · have fewer := ihr budget
          omega

/-- With a budget of as many nodes as the tree has levels, a trail to a leaf is gone to its end. -/
theorem Trail.routeFrom_leaf {node last : NodeId} {path : List Side}
    (trail : t.Trail sample node path last) {tree : DecisionTree} (unfolds : t.Unfolds node tree)
    (isLeaf : t.isLeaf[last]? = some true) {budget : Nat} (enough : tree.height ≤ budget) :
    t.routeFrom sample budget node = some last := by
  have short := unfolds.path_lt_height trail.follow
  have reached : last ∈ tree.nodes := unfolds.mem_nodes_iff.mpr ⟨path, trail.follow⟩
  obtain ⟨payload, row⟩ := unfolds.leafRow_of_mem reached isLeaf
  have parts : budget = path.length + (budget - path.length - 1 + 1) := by omega
  rw [parts, trail.routeFrom_eq unfolds, row.routeFrom_succ]

theorem Trail.routeFrom_beyond {node last : NodeId} {path : List Side}
    (trail : t.Trail sample node path last) {tree : DecisionTree} (unfolds : t.Unfolds node tree)
    (beyond : t.Beyond sample last) {budget : Nat} (enough : tree.height ≤ budget) :
    t.routeFrom sample budget node = none := by
  have short := unfolds.path_lt_height trail.follow
  have reached : last ∈ tree.nodes := unfolds.mem_nodes_iff.mpr ⟨path, trail.follow⟩
  obtain ⟨isSplit, feature, tests, outside⟩ := beyond
  obtain ⟨tested, threshold, l, r, row⟩ := unfolds.splitRow_of_mem reached isSplit
  obtain rfl : tested = feature := Option.some.inj (row.feature.symm.trans tests)
  have parts : budget = path.length + (budget - path.length) := by omega
  rw [parts, trail.routeFrom_eq unfolds, row.routeFrom_beyond outside]

theorem Unfolds.routeFrom_none_iff {node : NodeId} {tree : DecisionTree} (h : t.Unfolds node tree)
    {budget : Nat} (enough : tree.height ≤ budget) :
    t.routeFrom sample budget node = none ↔
      ∃ path last, t.Trail sample node path last ∧ t.Beyond sample last := by
  constructor
  · intro missing
    obtain ⟨path, last, trail, isLeaf | beyond⟩ := h.trail_ends sample
    · rw [trail.routeFrom_leaf h isLeaf enough] at missing
      cases missing
    · exact ⟨path, last, trail, beyond⟩
  · rintro ⟨path, last, trail, beyond⟩
    exact trail.routeFrom_beyond h beyond enough

theorem Unfolds.routeFrom_some_iff {node leaf : NodeId} {tree : DecisionTree}
    (h : t.Unfolds node tree) {budget : Nat} (enough : tree.height ≤ budget) :
    t.routeFrom sample budget node = some leaf ↔
      ∃ path, t.Trail sample node path leaf ∧ t.isLeaf[leaf]? = some true := by
  constructor
  · intro found
    obtain ⟨path, last, trail, isLeaf | beyond⟩ := h.trail_ends sample
    · rw [trail.routeFrom_leaf h isLeaf enough] at found
      cases found
      exact ⟨path, trail, isLeaf⟩
    · rw [trail.routeFrom_beyond h beyond enough] at found
      cases found
  · rintro ⟨path, trail, isLeaf⟩
    exact trail.routeFrom_leaf h isLeaf enough

theorem Turns.right_of_isNaN {node next : NodeId} {side : Side}
    (turns : t.Turns sample node side next) {feature : Nat} {threshold : Double} {value : Single}
    (tests : t.feature[node]? = some feature) (limit : t.threshold[node]? = some threshold)
    (found : sample[feature]? = some value)
    (undefined : value.isNaN = true ∨ threshold.isNaN = true) : side = .right := by
  obtain ⟨tested, against, compared, tests', limit', found', chosen⟩ := turns.compared
  obtain rfl : feature = tested := Option.some.inj (tests.symm.trans tests')
  obtain rfl : threshold = against := Option.some.inj (limit.symm.trans limit')
  obtain rfl : value = compared := Option.some.inj (found.symm.trans found')
  have refused := Binary.le_of_isNaN (undefined.imp_right Binary.isNaN_toSingle)
  cases side with
  | left =>
    rw [chosen.mp rfl] at refused
    cases refused
  | right => rfl

theorem Represents.resolves {tree : DecisionTree} (h : t.Represents tree) {features : FeatureSet}
    {labels : LabelSet} (referred : (t.validateReferences features labels).run = some (.ok ()))
    {leaf : NodeId} (member : leaf ∈ tree.nodes) {payload : Leaf} (row : t.LeafRow leaf payload) :
    ∃ position, payload.resolve? labels = some position ∧ position < labels.size := by
  have refers := h.validateReferences_ok_iff.mp referred
  have checked := h.unfolds.references_ok_iff.mpr refers leaf member
  rw [row.checkReference_run, Option.some.injEq, Leaf.check_ok_iff] at checked
  obtain ⟨position, resolved⟩ := Option.isSome_iff_exists.mp checked.resolves
  exact ⟨position, resolved, Leaf.resolve_lt resolved⟩

/-- The route of a sample through an accepted table makes fewer comparisons than the table is deep,
and no larger budget changes it. It is missing exactly when the way of the sample comes to a split
that tests a value beyond the sample; otherwise it is the leaf at the end of that way. What is not a
number goes right. If the references are in order too, then a sample with a route has a class. -/
theorem route_exact {t : NodeTable} (valid : t.validate.run = some (.ok ()))
    (sample : Array Single) :
    ∃ depth, t.depth = some depth ∧
      (∀ budget, ∃ count, t.countedFrom sample budget 0 = (count, t.routeFrom sample budget 0) ∧
        count < depth) ∧
      (∀ budget, depth ≤ budget → t.routeFrom sample budget 0 = t.route sample) ∧
      (t.route sample = none ↔ ∃ path node, t.Trail sample 0 path node ∧ t.Beyond sample node) ∧
      (∀ leaf, t.route sample = some leaf ↔
        ∃ path, t.Trail sample 0 path leaf ∧ t.isLeaf[leaf]? = some true) ∧
      (∀ node side next feature threshold value, t.Turns sample node side next →
        t.feature[node]? = some feature → t.threshold[node]? = some threshold →
        sample[feature]? = some value → value.isNaN = true ∨ threshold.isNaN = true →
        side = .right) ∧
      ∀ features labels, (t.validateReferences features labels).run = some (.ok ()) →
        t.route sample ≠ none →
        ∃ position, t.predict sample labels = some (some position) ∧ position < labels.size := by
  obtain ⟨tree, represents⟩ := validate_ok_iff.mp valid
  have unfolds := represents.unfolds
  have whole : tree.height ≤ t.size := represents.height_le
  refine ⟨tree.height, represents.depth_eq, ?_, ?_, unfolds.routeFrom_none_iff whole,
    fun leaf => unfolds.routeFrom_some_iff whole, ?_, ?_⟩
  · intro budget
    exact ⟨_, Prod.ext rfl (t.countedFrom_outcome sample budget 0), unfolds.count_lt sample budget⟩
  · intro budget enough
    obtain ⟨path, last, trail, isLeaf | beyond⟩ := unfolds.trail_ends sample
    · rw [route, trail.routeFrom_leaf unfolds isLeaf enough,
        trail.routeFrom_leaf unfolds isLeaf whole]
    · rw [route, trail.routeFrom_beyond unfolds beyond enough,
        trail.routeFrom_beyond unfolds beyond whole]
  · intro node side next feature threshold value turns tests limit found undefined
    exact turns.right_of_isNaN tests limit found undefined
  · intro features labels referred present
    obtain ⟨leaf, routed⟩ := Option.ne_none_iff_exists'.mp present
    obtain ⟨path, trail, isLeaf⟩ := (unfolds.routeFrom_some_iff whole).mp routed
    have reached : leaf ∈ tree.nodes := unfolds.mem_nodes_iff.mpr ⟨path, trail.follow⟩
    obtain ⟨payload, row⟩ := unfolds.leafRow_of_mem reached isLeaf
    obtain ⟨position, resolved, inside⟩ := represents.resolves referred reached row
    refine ⟨position, ?_, inside⟩
    simp [predict, routed, row.leaf?, resolved]

def backwardFeatures : FeatureSet := ⟨[(2, "slope"), (5, "height")], by decide, by decide⟩

def backwardLabels : LabelSet := ⟨["flat", "steep"], by decide, by decide⟩

/-- A sample of six values; the last one, which two splits on its way test, is not a number. -/
def undefinedHeight : Array Single := (Array.replicate 5 .zero).push (.nan true)

theorem backward_routed :
    backward.validate.run = some (.ok ()) ∧
      (backward.validateReferences backwardFeatures backwardLabels).run = some (.ok ()) ∧
      backward.route undefinedHeight = some 5 ∧
      (∃ path, backward.Trail undefinedHeight 0 path 5) ∧
      (∃ position, backward.predict undefinedHeight backwardLabels = some (some position) ∧
        position < 2) ∧
      backward.route #[.zero] = none ∧
      ∃ path node, backward.Trail #[.zero] 0 path node ∧ backward.Beyond #[.zero] node := by
  have valid : backward.validate.run = some (.ok ()) := by decide +kernel
  have referred : (backward.validateReferences backwardFeatures backwardLabels).run =
      some (.ok ()) := by
    decide +kernel
  have routed : backward.route undefinedHeight = some 5 := by decide +kernel
  have missing : backward.route #[.zero] = none := by decide +kernel
  obtain ⟨_, _, _, _, _, reached, _, predicted⟩ := route_exact valid undefinedHeight
  obtain ⟨_, _, _, _, beyond, _⟩ := route_exact valid #[.zero]
  obtain ⟨path, trail, _⟩ := (reached 5).mp routed
  exact ⟨valid, referred, routed, ⟨path, trail⟩, predicted _ _ referred (by simp [routed]), missing,
    beyond.mp missing⟩

end NodeTable

end DecisionTreeC
