import DecisionTreeC.Proofs.Outcome
import DecisionTreeC.Proofs.Unfold
import DecisionTreeC.Tree.Validate

/-!
What the depth-first check accepts. Entering a node with a given rest of tasks succeeds exactly when
the table unfolds at that node to a tree of fresh, distinct rows and the rest succeeds once all of
them are finished. From this the whole check accepts exactly the tables that represent a tree.
-/
namespace DecisionTreeC
namespace NodeTable

variable {t : NodeTable}

theorem checkLengths_ok_iff : t.checkLengths = .ok () ↔ t.Aligned := by
  have none_iff : t.lengths.find? (·.2 != t.size) = none ↔ t.Aligned := by
    simp only [lengths, List.find?_eq_none, List.mem_cons, List.not_mem_nil, or_false,
      forall_eq_or_imp, forall_eq, bne_iff_ne, ne_eq, Decidable.not_not]
    exact ⟨fun ⟨f, x, l, r, p⟩ => ⟨f, x, l, r, p⟩, fun ⟨f, x, l, r, p⟩ => ⟨f, x, l, r, p⟩⟩
  rw [← none_iff]
  unfold checkLengths
  split
  · rename_i found
    simp [found]
  · rename_i absent
    simp [absent]

theorem checkChild_ok_iff {node l : Fin t.size} {child : NodeId} (side : Side) :
    t.checkChild node side child = .ok l ↔ child = l ∧ l ≠ node := by
  unfold checkChild
  split
  · rename_i same
    simp only [reduceCtorEq, false_iff, not_and, ne_eq, Decidable.not_not]
    intro here
    exact Fin.ext (here ▸ same)
  · rename_i other
    split
    · simp only [Except.ok.injEq]
      constructor
      · rintro rfl
        exact ⟨rfl, fun same => other (congrArg Fin.val same)⟩
      · rintro ⟨rfl, _⟩
        rfl
    · rename_i outside
      simp only [reduceCtorEq, false_iff, not_and]
      rintro rfl
      exact absurd l.isLt outside

theorem checkChildren_ok_iff {node l r : Fin t.size} {left right : Option NodeId} :
    t.checkChildren node left right = .ok (l, r) ↔
      left = some l.val ∧ right = some r.val ∧ l ≠ node ∧ r ≠ node := by
  match left, right with
  | none, _ => simp [checkChildren]
  | some _, none => simp [checkChildren]
  | some left, some right =>
    simp only [checkChildren, bind, Except.bind, pure, Except.pure, Option.some.injEq]
    cases first : t.checkChild node .left left with
    | error fault =>
      simp only [reduceCtorEq, false_iff]
      rintro ⟨here, _, other, _⟩
      have accepted := (checkChild_ok_iff .left).mpr ⟨here, other⟩
      rw [first] at accepted
      cases accepted
    | ok a =>
      cases second : t.checkChild node .right right with
      | error fault =>
        simp only [reduceCtorEq, false_iff]
        rintro ⟨_, here, _, other⟩
        have accepted := (checkChild_ok_iff .right).mpr ⟨here, other⟩
        rw [second] at accepted
        cases accepted
      | ok b =>
        obtain ⟨rfl, left_other⟩ := (checkChild_ok_iff .left).mp first
        obtain ⟨rfl, right_other⟩ := (checkChild_ok_iff .right).mp second
        simp only [Except.ok.injEq, Prod.mk.injEq, Fin.val_inj]
        constructor
        · rintro ⟨rfl, rfl⟩
          exact ⟨rfl, rfl, left_other, right_other⟩
        · rintro ⟨rfl, rfl, _⟩
          exact ⟨rfl, rfl⟩

theorem checkNode_isSome (aligned : t.Aligned) (node : Fin t.size) :
    ∃ outcome, t.checkNode node = some outcome := by
  have inside := node.isLt
  have left : node.val < t.left.size := by rw [aligned.left]; exact inside
  have right : node.val < t.right.size := by rw [aligned.right]; exact inside
  have leaf : node.val < t.leaf.size := by rw [aligned.leaf]; exact inside
  have kind : node.val < t.isLeaf.size := inside
  simp only [checkNode, Array.getElem?_eq_getElem left, Array.getElem?_eq_getElem right,
    Array.getElem?_eq_getElem leaf, Array.getElem?_eq_getElem kind, bind, Option.bind, pure]
  split
  · split
    · exact ⟨_, rfl⟩
    · split <;> exact ⟨_, rfl⟩
  · exact ⟨_, rfl⟩

theorem checkNode_leaf_iff {node : Fin t.size} :
    t.checkNode node = some (.ok none) ↔ ∃ payload, t.LeafRow node payload := by
  constructor
  · intro checked
    simp only [checkNode, Option.bind_eq_bind, Option.bind_eq_some_iff] at checked
    obtain ⟨left, hl, right, hr, kind, hk, checked⟩ := checked
    cases kind with
    | true =>
      cases left <;> cases right <;> simp [Option.bind_eq_some_iff] at checked
      obtain ⟨leaf, hp, present⟩ := checked
      cases leaf with
      | none => simp at present
      | some payload => exact ⟨payload, hk, hl, hr, hp⟩
    | false =>
      simp only [Bool.false_eq_true, if_false, Option.pure_def, Option.some.injEq] at checked
      cases children : t.checkChildren node left right <;> rw [children] at checked <;>
        cases checked
  · rintro ⟨payload, row⟩
    simp [checkNode, row.isLeaf, row.left, row.right, row.leaf]

theorem checkNode_split_iff (aligned : t.Aligned) {node l r : Fin t.size} :
    t.checkNode node = some (.ok (some (l, r))) ↔
      (∃ feature threshold, t.SplitRow node feature threshold l r) ∧ l ≠ node ∧ r ≠ node := by
  constructor
  · intro checked
    simp only [checkNode, Option.bind_eq_bind, Option.bind_eq_some_iff] at checked
    obtain ⟨left, hl, right, hr, kind, hk, checked⟩ := checked
    cases kind with
    | true =>
      cases left <;> cases right <;> simp [Option.bind_eq_some_iff] at checked
      obtain ⟨leaf, _, checked⟩ := checked
      split at checked <;> cases checked
    | false =>
      simp only [Bool.false_eq_true, if_false, Option.pure_def, Option.some.injEq] at checked
      cases children : t.checkChildren node left right with
      | error fault => rw [children] at checked; cases checked
      | ok pair =>
        rw [children] at checked
        cases checked
        obtain ⟨rfl, rfl, others⟩ := checkChildren_ok_iff.mp children
        have feature : node.val < t.feature.size := by rw [aligned.feature]; exact node.isLt
        have threshold : node.val < t.threshold.size := by rw [aligned.threshold]; exact node.isLt
        exact ⟨⟨_, _, hk, hl, hr, Array.getElem?_eq_getElem feature,
          Array.getElem?_eq_getElem threshold⟩, others⟩
  · rintro ⟨⟨feature, threshold, row⟩, others⟩
    have children := checkChildren_ok_iff.mpr ⟨rfl, rfl, others⟩
    simp only [checkNode, row.isLeaf, row.left, row.right, children, Option.bind_eq_bind,
      Option.bind_some]
    rfl

theorem VacantRow.checkNode {node : Fin t.size} (row : t.VacantRow node) :
    t.checkNode node = some (.error (.missingChild node .left)) := by
  simp only [NodeTable.checkNode, row.isLeaf, row.left, row.right, Option.bind_eq_bind,
    Option.bind_some]
  rfl

theorem SplitRow.checkNode_error {node : Fin t.size} {l r feature : Nat} {threshold : Double}
    {e : TreeError} (row : t.SplitRow node feature threshold l r)
    (found : t.checkNode node = some (.error e)) :
    t.checkChild node .left l = .error e ∨ t.checkChild node .right r = .error e := by
  simp only [NodeTable.checkNode, row.isLeaf, row.left, row.right, checkChildren,
    Option.bind_eq_bind, Option.bind_some] at found
  cases first : t.checkChild node .left l with
  | error fault =>
    rw [first] at found
    cases found
    exact .inl rfl
  | ok left =>
    cases second : t.checkChild node .right r with
    | error fault =>
      rw [first, second] at found
      cases found
      exact .inr rfl
    | ok right =>
      rw [first, second] at found
      cases found

section Marks

variable {size : Nat}

theorem marks_ext {marks others : Vector Mark size} (same : ∀ i, marks.get i = others.get i) :
    marks = others :=
  Vector.ext fun i inside => same ⟨i, inside⟩

@[simp] theorem replicate_get (mark : Mark) (i : Fin size) :
    (Vector.replicate size mark).get i = mark :=
  Vector.getElem_replicate i.isLt

@[simp] theorem setMark_get_self (marks : Vector Mark size) (node : Fin size) (mark : Mark) :
    (setMark marks node mark).get node = mark :=
  Vector.getElem_set_self node.isLt

theorem setMark_get_other (marks : Vector Mark size) {node i : Fin size} (mark : Mark)
    (other : node ≠ i) : (setMark marks node mark).get i = marks.get i :=
  Vector.getElem_set_ne node.isLt i.isLt fun same => other (Fin.ext same)

def settle (marks : Vector Mark size) (nodes : List NodeId) : Vector Mark size :=
  Vector.ofFn fun i => if i.val ∈ nodes then .finished else marks.get i

theorem settle_get (marks : Vector Mark size) (nodes : List NodeId) (i : Fin size) :
    (settle marks nodes).get i = if i.val ∈ nodes then .finished else marks.get i :=
  Vector.getElem_ofFn i.isLt

def AllFresh (marks : Vector Mark size) (nodes : List NodeId) : Prop :=
  ∀ i : Fin size, i.val ∈ nodes → marks.get i = .fresh

theorem settle_leaf (marks : Vector Mark size) (node : Fin size) :
    setMark (setMark marks node .opened) node .finished = settle marks [node.val] := by
  refine marks_ext fun i => ?_
  rw [settle_get]
  by_cases same : node = i
  · subst same
    simp
  · have apart : i.val ∉ [node.val] := by simpa [Fin.ext_iff, eq_comm] using same
    rw [if_neg apart, setMark_get_other _ _ same, setMark_get_other _ _ same]

theorem settle_split (marks : Vector Mark size) (node : Fin size) (left right : List NodeId) :
    setMark (settle (settle (setMark marks node .opened) left) right) node .finished =
      settle marks (node.val :: (left ++ right)) := by
  refine marks_ext fun i => ?_
  rw [settle_get]
  by_cases same : node = i
  · subst same
    simp
  · have apart : i.val ≠ node.val := fun eq => same (Fin.ext eq.symm)
    rw [setMark_get_other _ _ same, settle_get, settle_get, setMark_get_other _ _ same]
    simp only [List.mem_cons, List.mem_append, apart, false_or]
    by_cases in_left : i.val ∈ left <;> by_cases in_right : i.val ∈ right <;>
      simp [in_left, in_right]

end Marks

theorem explore_fresh {marks : Vector Mark t.size} {node : Fin t.size} {rest : List (Task t.size)}
    (fresh : marks.get node = .fresh) :
    t.explore marks (.enter node :: rest) =
      match t.checkNode node with
      | none => none
      | some (.error fault) => some (.error fault)
      | some (.ok none) => t.explore (setMark marks node .opened) (.finish node :: rest)
      | some (.ok (some (left, right))) =>
        t.explore (setMark marks node .opened)
          (.enter left :: .enter right :: .finish node :: rest) := by
  conv => lhs; rw [explore]
  split
  · rename_i opened
    rw [fresh] at opened
    cases opened
  · rename_i finished
    rw [fresh] at finished
    cases finished
  · rfl

section Steps

variable {marks : Vector Mark t.size} {node : Fin t.size} {rest : List (Task t.size)}

theorem explore_nil : t.explore marks [] = some (.ok marks) := by
  rw [explore]

theorem explore_finish : t.explore marks (.finish node :: rest) =
    t.explore (setMark marks node .finished) rest := by
  rw [explore]

theorem explore_opened (mark : marks.get node = .opened) :
    t.explore marks (.enter node :: rest) = some (.error (.cycle node)) := by
  rw [explore]
  split <;> simp_all

theorem explore_finished (mark : marks.get node = .finished) :
    t.explore marks (.enter node :: rest) = some (.error (.sharedNode node)) := by
  rw [explore]
  split <;> simp_all

theorem explore_missing (mark : marks.get node = .fresh) (missing : t.checkNode node = none) :
    t.explore marks (.enter node :: rest) = none := by
  rw [explore_fresh mark, missing]

theorem explore_fault {fault : TreeError} (mark : marks.get node = .fresh)
    (checked : t.checkNode node = some (.error fault)) :
    t.explore marks (.enter node :: rest) = some (.error fault) := by
  rw [explore_fresh mark, checked]

theorem explore_leaf (mark : marks.get node = .fresh)
    (checked : t.checkNode node = some (.ok none)) :
    t.explore marks (.enter node :: rest) =
      t.explore (setMark marks node .opened) (.finish node :: rest) := by
  rw [explore_fresh mark, checked]

theorem explore_children {left right : Fin t.size} (mark : marks.get node = .fresh)
    (checked : t.checkNode node = some (.ok (some (left, right)))) :
    t.explore marks (.enter node :: rest) =
      t.explore (setMark marks node .opened)
        (.enter left :: .enter right :: .finish node :: rest) := by
  rw [explore_fresh mark, checked]

end Steps

/-- What a list of tasks needs to succeed: each node to enter unfolds to fresh, distinct rows. -/
inductive Clears (t : NodeTable) :
    Vector Mark t.size → List (Task t.size) → Vector Mark t.size → Prop where
  | nil {marks} : Clears t marks [] marks
  | finish {marks node rest out} (later : Clears t (setMark marks node .finished) rest out) :
      Clears t marks (.finish node :: rest) out
  | enter {marks node rest out} {tree : DecisionTree} (unfolds : t.Unfolds node.val tree)
      (nodup : tree.nodes.Nodup) (fresh : AllFresh marks tree.nodes)
      (later : Clears t (settle marks tree.nodes) rest out) :
      Clears t marks (.enter node :: rest) out

/-- Entering a split above two lists of fresh rows: they are still fresh when their turn comes. -/
theorem explore_split (aligned : t.Aligned) {node l r feature : Nat} {threshold : Double}
    (row : t.SplitRow node feature threshold l r) (inside : node < t.size) (l_inside : l < t.size)
    (r_inside : r < t.size) {left right : List NodeId} (l_mem : l ∈ left) (r_mem : r ∈ right)
    (nodup : (node :: (left ++ right)).Nodup) {marks : Vector Mark t.size}
    (fresh : AllFresh marks (node :: (left ++ right))) (rest : List (Task t.size)) :
    t.explore marks (.enter ⟨node, inside⟩ :: rest) =
        t.explore (setMark marks ⟨node, inside⟩ .opened)
          (.enter ⟨l, l_inside⟩ :: .enter ⟨r, r_inside⟩ :: .finish ⟨node, inside⟩ :: rest) ∧
      AllFresh (setMark marks ⟨node, inside⟩ .opened) left ∧
      AllFresh (settle (setMark marks ⟨node, inside⟩ .opened) left) right := by
  simp only [List.nodup_cons, List.mem_append, not_or, List.nodup_append] at nodup
  obtain ⟨⟨not_left, not_right⟩, _, _, apart⟩ := nodup
  have here : marks.get ⟨node, inside⟩ = .fresh := fresh _ (List.mem_cons_self ..)
  have checked : t.checkNode ⟨node, inside⟩ = some (.ok (some (⟨l, l_inside⟩, ⟨r, r_inside⟩))) := by
    refine (checkNode_split_iff aligned).mpr ⟨⟨feature, threshold, row⟩, ?_, ?_⟩
    · intro same
      exact not_left (Fin.mk.inj same ▸ l_mem)
    · intro same
      exact not_right (Fin.mk.inj same ▸ r_mem)
  refine ⟨explore_children here checked, ?_, ?_⟩
  · intro i member
    have other : ⟨node, inside⟩ ≠ i := by rintro rfl; exact not_left member
    rw [setMark_get_other _ _ other]
    exact fresh i (List.mem_cons_of_mem _ (List.mem_append_left _ member))
  · intro i member
    have other : ⟨node, inside⟩ ≠ i := by rintro rfl; exact not_right member
    have elsewhere : i.val ∉ left := fun both => apart _ both _ member rfl
    rw [settle_get, if_neg elsewhere, setMark_get_other _ _ other]
    exact fresh i (List.mem_cons_of_mem _ (List.mem_append_right _ member))

/-- Entering a node above fresh rows that outline a tree: the first vacant row in pre-order stops
the search, and without one all rows are finished. -/
theorem explore_outlines (aligned : t.Aligned) {node : NodeId} {tree : DecisionTree}
    (outlines : t.Outlines node tree) (inside : node < t.size) (nodup : tree.nodes.Nodup)
    (marks : Vector Mark t.size) (fresh : AllFresh marks tree.nodes) (rest : List (Task t.size)) :
    t.explore marks (.enter ⟨node, inside⟩ :: rest) =
      match tree.nodes.find? (t.VacantRow ·) with
      | none => t.explore (settle marks tree.nodes) rest
      | some first => some (.error (.missingChild first .left)) := by
  induction outlines generalizing marks rest with
  | @vacant node row payload =>
    have here : marks.get ⟨node, inside⟩ = .fresh := fresh _ (List.mem_singleton_self _)
    have found : (DecisionTree.leaf node payload).nodes.find? (t.VacantRow ·) = some node := by
      simp [DecisionTree.nodes, row]
    rw [explore_fresh here, VacantRow.checkNode row, found]
  | @leaf node payload row =>
    have here : marks.get ⟨node, inside⟩ = .fresh := fresh _ (List.mem_singleton_self _)
    have found : (DecisionTree.leaf node payload).nodes.find? (t.VacantRow ·) = none := by
      simp [DecisionTree.nodes, row.not_vacant]
    rw [explore_fresh here, checkNode_leaf_iff.mpr ⟨payload, row⟩, found]
    dsimp only
    rw [explore]
    exact congrArg (t.explore · rest) (settle_leaf marks ⟨node, inside⟩)
  | @split node l r feature threshold left right row first second ihl ihr =>
    have l_inside := first.nodes_lt l first.node_mem
    have r_inside := second.nodes_lt r second.node_mem
    obtain ⟨entered, left_fresh, right_fresh⟩ := explore_split aligned row inside l_inside r_inside
      first.node_mem second.node_mem nodup fresh rest
    obtain ⟨_, below⟩ := List.nodup_cons.mp nodup
    obtain ⟨left_nodup, right_nodup, _⟩ := List.nodup_append.mp below
    rw [entered, ihl l_inside left_nodup _ left_fresh, DecisionTree.nodes,
      List.find?_cons_of_neg (by simpa using row.not_vacant), List.find?_append]
    cases left.nodes.find? (t.VacantRow ·) with
    | some stop => rfl
    | none =>
      dsimp only
      rw [ihr r_inside right_nodup _ right_fresh, Option.none_or]
      cases right.nodes.find? (t.VacantRow ·) with
      | some stop => rfl
      | none =>
        dsimp only
        rw [explore]
        exact congrArg (t.explore · rest) (settle_split marks ⟨node, inside⟩ left.nodes right.nodes)

theorem explore_unfolds (aligned : t.Aligned) {node : NodeId} {tree : DecisionTree}
    (unfolds : t.Unfolds node tree) (inside : node < t.size) (nodup : tree.nodes.Nodup)
    (marks : Vector Mark t.size) (fresh : AllFresh marks tree.nodes) (rest : List (Task t.size)) :
    t.explore marks (.enter ⟨node, inside⟩ :: rest) = t.explore (settle marks tree.nodes) rest := by
  have occupied : tree.nodes.find? (t.VacantRow ·) = none := by
    simpa using unfolds.not_vacant
  rw [explore_outlines aligned unfolds.outlines inside nodup marks fresh rest, occupied]

/-- Rows met fresh below an open node are distinct from it, and the right ones from the finished
left ones; all of them were fresh before. -/
theorem split_fresh {size : Nat} {marks : Vector Mark size} {node : Fin size}
    {left right : List NodeId} (fresh : marks.get node = .fresh)
    (left_inside : ∀ n ∈ left, n < size) (left_nodup : left.Nodup) (right_nodup : right.Nodup)
    (left_fresh : AllFresh (setMark marks node .opened) left)
    (right_fresh : AllFresh (settle (setMark marks node .opened) left) right) :
    (node.val :: (left ++ right)).Nodup ∧ AllFresh marks (node.val :: (left ++ right)) := by
  have not_left : node.val ∉ left := by
    intro member
    have found := left_fresh node member
    simp at found
  have apart : ∀ n ∈ left, n ∉ right := by
    intro n in_left in_right
    have found := right_fresh ⟨n, left_inside n in_left⟩ in_right
    rw [settle_get, if_pos in_left] at found
    cases found
  have not_right : node.val ∉ right := by
    intro member
    have found := right_fresh node member
    rw [settle_get, if_neg not_left] at found
    simp at found
  constructor
  · refine List.nodup_cons.mpr ⟨by simp [not_left, not_right], ?_⟩
    refine List.nodup_append.mpr ⟨left_nodup, right_nodup, ?_⟩
    rintro a in_left b in_right rfl
    exact apart a in_left in_right
  · intro i member
    simp only [List.mem_cons, List.mem_append] at member
    by_cases same : node = i
    · rw [← same]
      exact fresh
    · rcases member with here | in_left | in_right
      · exact absurd (Fin.ext here.symm) same
      · have found := left_fresh i in_left
        rwa [setMark_get_other _ _ same] at found
      · have found := right_fresh i in_right
        rwa [settle_get, if_neg fun in_left => apart _ in_left in_right,
          setMark_get_other _ _ same] at found

theorem clears_of_explore (aligned : t.Aligned) {marks : Vector Mark t.size}
    {tasks : List (Task t.size)} {out : Vector Mark t.size}
    (accepted : t.explore marks tasks = some (.ok out)) : Clears t marks tasks out := by
  fun_induction explore t marks tasks with
  | case1 marks =>
    cases accepted
    exact .nil
  | case2 marks node rest ih => exact .finish (ih accepted)
  | case3 marks node rest mark => cases accepted
  | case4 marks node rest mark => cases accepted
  | case5 marks node rest mark checked => cases accepted
  | case6 marks node rest mark fault checked => cases accepted
  | case7 marks node rest mark checked ih =>
    obtain ⟨payload, row⟩ := checkNode_leaf_iff.mp checked
    cases ih accepted with
    | finish later =>
      rw [settle_leaf] at later
      refine .enter (.leaf row) (by simp [DecisionTree.nodes]) ?_ later
      intro i member
      rw [Fin.ext (List.mem_singleton.mp member)]
      exact mark
  | case8 marks node rest mark left right checked ih =>
    obtain ⟨⟨feature, threshold, row⟩, _⟩ := (checkNode_split_iff aligned).mp checked
    cases ih accepted with
    | enter first left_nodup left_fresh later =>
      cases later with
      | enter second right_nodup right_fresh later =>
        cases later with
        | finish later =>
          rw [settle_split] at later
          obtain ⟨nodup, fresh⟩ := split_fresh mark first.nodes_lt left_nodup right_nodup
            left_fresh right_fresh
          exact .enter (.split row first second) nodup fresh later

theorem explore_of_clears (aligned : t.Aligned) {marks out : Vector Mark t.size}
    {tasks : List (Task t.size)} (clears : Clears t marks tasks out) :
    t.explore marks tasks = some (.ok out) := by
  induction clears with
  | nil => rw [explore]
  | finish later ih => rw [explore, ih]
  | enter unfolds nodup fresh later ih =>
    rw [explore_unfolds aligned unfolds _ nodup _ fresh, ih]

theorem explore_isSome (aligned : t.Aligned) (marks : Vector Mark t.size)
    (tasks : List (Task t.size)) : ∃ outcome, t.explore marks tasks = some outcome := by
  fun_induction explore t marks tasks with
  | case1 marks => exact ⟨_, rfl⟩
  | case2 marks node rest ih => exact ih
  | case3 marks node rest mark => exact ⟨_, rfl⟩
  | case4 marks node rest mark => exact ⟨_, rfl⟩
  | case5 marks node rest mark missing =>
    obtain ⟨outcome, found⟩ := checkNode_isSome aligned node
    rw [missing] at found
    cases found
  | case6 marks node rest mark fault checked => exact ⟨_, rfl⟩
  | case7 marks node rest mark checked ih => exact ih
  | case8 marks node rest mark left right checked ih => exact ih

theorem validate_isSome (t : NodeTable) : ∃ outcome, t.validate.run = some outcome := by
  unfold validate
  cases lengths : t.checkLengths with
  | error fault => exact ⟨_, run_bind_error rfl _⟩
  | ok done =>
    have aligned := checkLengths_ok_iff.mp lengths
    rw [run_mk_bind_ok rfl]
    split
    · rename_i root
      obtain ⟨outcome, explored⟩ :=
        explore_isSome aligned (Vector.replicate t.size .fresh) [.enter ⟨0, root⟩]
      cases outcome with
      | error fault => exact ⟨_, run_bind_error explored _⟩
      | ok marks =>
        rw [run_mk_bind_ok explored]
        split <;> exact ⟨_, rfl⟩
    · exact ⟨_, rfl⟩

theorem no_fresh_iff {size : Nat} (marks : Vector Mark size) :
    marks.toList.findIdx? (· == .fresh) = none ↔ ∀ i : Fin size, marks.get i ≠ .fresh := by
  rw [List.findIdx?_eq_none_iff]
  constructor
  · intro absent i
    have member : marks.get i ∈ marks.toList :=
      Vector.mem_toList_iff.mpr (Vector.getElem_mem i.isLt)
    simpa using absent (marks.get i) member
  · intro absent mark member
    obtain ⟨i, inside, rfl⟩ := Vector.mem_iff_getElem.mp (Vector.mem_toList_iff.mp member)
    have stale : marks[i] ≠ .fresh := absent ⟨i, inside⟩
    simpa using stale

theorem explored_tree (aligned : t.Aligned) {root : 0 < t.size} {marks : Vector Mark t.size}
    (explored : t.explore (Vector.replicate t.size .fresh) [.enter ⟨0, root⟩] = some (.ok marks)) :
    ∃ tree, t.Unfolds 0 tree ∧ tree.nodes.Nodup ∧
      ∀ i : Fin t.size, marks.get i = if i.val ∈ tree.nodes then .finished else .fresh := by
  cases clears_of_explore aligned explored with
  | @enter _ _ _ _ tree unfolds nodup fresh later =>
    cases later with
    | nil =>
      refine ⟨tree, unfolds, nodup, ?_⟩
      intro i
      rw [settle_get, replicate_get]

theorem validate_ok_iff : t.validate.run = some (.ok ()) ↔ ∃ tree, t.Represents tree := by
  constructor
  · intro accepted
    obtain ⟨_, lengths, accepted⟩ := run_bind_eq_ok.mp accepted
    have aligned := checkLengths_ok_iff.mp (Option.some.inj lengths)
    split at accepted
    · rename_i root
      obtain ⟨marks, explored, accepted⟩ := run_bind_eq_ok.mp accepted
      obtain ⟨tree, unfolds, nodup, marked⟩ := explored_tree aligned explored
      refine ⟨tree, aligned, unfolds, nodup, ?_⟩
      intro node inside
      split at accepted
      · cases accepted
      · rename_i absent
        have settled := (no_fresh_iff _).mp absent ⟨node, inside⟩
        rw [marked] at settled
        by_cases member : node ∈ tree.nodes
        · exact member
        · exact absurd (if_neg member) settled
    · cases accepted
  · rintro ⟨tree, aligned, unfolds, nodup, covers⟩
    have root := unfolds.nodes_lt 0 unfolds.node_mem
    have fresh : AllFresh (Vector.replicate t.size .fresh) tree.nodes := by
      intro i member
      simp
    have explored :=
      explore_of_clears aligned (@Clears.enter t _ ⟨0, root⟩ _ _ _ unfolds nodup fresh .nil)
    unfold validate
    rw [run_mk_bind_ok (congrArg some (checkLengths_ok_iff.mpr aligned)), dif_pos root,
      run_mk_bind_ok explored]
    have absent : ∀ i : Fin t.size,
        (settle (Vector.replicate t.size .fresh) tree.nodes).get i ≠ .fresh := by
      intro i
      rw [settle_get, if_pos (covers i i.isLt)]
      simp
    rw [(no_fresh_iff _).mpr absent]
    rfl

theorem refused_of_unrepresented (unrepresented : ∀ tree, ¬ t.Represents tree) :
    ∃ e, t.validate.run = some (.error e) := by
  obtain ⟨outcome, checked⟩ := t.validate_isSome
  cases outcome with
  | error e => exact ⟨e, checked⟩
  | ok done =>
    obtain ⟨tree, represents⟩ := validate_ok_iff.mp checked
    exact absurd represents (unrepresented tree)

inductive Refusal (t : NodeTable) : TreeError → Prop where
  | lengths {e : TreeError} (found : t.checkLengths = .error e) : Refusal t e
  | empty : Refusal t .emptyTree
  | row {e : TreeError} (node : Fin t.size) (found : t.checkNode node = some (.error e)) :
      Refusal t e
  | cycle (node : NodeId) : Refusal t (.cycle node)
  | shared (node : NodeId) : Refusal t (.sharedNode node)
  | unreachable (node : NodeId) : Refusal t (.unreachable node)

theorem explore_refusal {marks : Vector Mark t.size} {tasks : List (Task t.size)} {e : TreeError}
    (refused : t.explore marks tasks = some (.error e)) : t.Refusal e := by
  fun_induction explore t marks tasks with
  | case1 marks => cases refused
  | case2 marks node rest ih => exact ih refused
  | case3 marks node rest mark =>
    cases refused
    exact .cycle node
  | case4 marks node rest mark =>
    cases refused
    exact .shared node
  | case5 marks node rest mark missing => cases refused
  | case6 marks node rest mark fault checked =>
    cases refused
    exact .row node checked
  | case7 marks node rest mark checked ih => exact ih refused
  | case8 marks node rest mark left right checked ih => exact ih refused

/-- The stages of the check, and the errors that each of them gives. -/
inductive Rejects (t : NodeTable) : TreeError → Prop where
  | lengths {e : TreeError} (found : t.checkLengths = .error e) : Rejects t e
  | empty (none : t.size = 0) : Rejects t .emptyTree
  | search {e : TreeError} (aligned : t.Aligned) (root : 0 < t.size)
      (found : t.explore (Vector.replicate t.size .fresh) [.enter ⟨0, root⟩] =
        some (.error e)) : Rejects t e
  | orphan {node : NodeId} {marks : Vector Mark t.size} (aligned : t.Aligned) (root : 0 < t.size)
      (explored : t.explore (Vector.replicate t.size .fresh) [.enter ⟨0, root⟩] = some (.ok marks))
      (first : marks.toList.findIdx? (· == .fresh) = some node) : Rejects t (.unreachable node)

theorem validate_rejects {e : TreeError} (refused : t.validate.run = some (.error e)) :
    t.Rejects e := by
  unfold validate at refused
  cases lengths : t.checkLengths with
  | error fault =>
    rw [lengths] at refused
    cases refused
    exact .lengths lengths
  | ok done =>
    have aligned := checkLengths_ok_iff.mp lengths
    rw [run_mk_bind_ok (congrArg some lengths)] at refused
    split at refused
    · rename_i root
      obtain ⟨outcome, explored⟩ :=
        explore_isSome aligned (Vector.replicate t.size .fresh) [.enter ⟨0, root⟩]
      cases outcome with
      | error fault =>
        have same := (run_bind_error explored _).symm.trans refused
        cases same
        exact .search aligned root explored
      | ok marks =>
        rw [run_mk_bind_ok explored] at refused
        split at refused
        · rename_i first
          cases refused
          exact .orphan aligned root explored first
        · cases refused
    · rename_i rootless
      cases refused
      exact .empty (Nat.eq_zero_of_not_pos rootless)

theorem validate_refusal {e : TreeError} (refused : t.validate.run = some (.error e)) :
    t.Refusal e := by
  cases validate_rejects refused with
  | lengths found => exact .lengths found
  | empty => exact .empty
  | search _ _ found => exact explore_refusal found
  | orphan _ _ _ _ => exact .unreachable _

end NodeTable

end DecisionTreeC
