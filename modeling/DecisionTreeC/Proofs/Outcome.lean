/-!
Computations that read a table and may refuse it. Their outcome is `none` where an entry is missing,
otherwise a result or an error. These are the laws for taking a sequence of such steps apart.
-/
namespace DecisionTreeC

variable {ε ε' α β : Type}

theorem except_bind_eq_ok {x : Except ε α} {next : α → Except ε β} {b : β} :
    x >>= next = .ok b ↔ ∃ a, x = .ok a ∧ next a = .ok b := by
  cases x with
  | error e => exact ⟨nofun, nofun⟩
  | ok a => exact ⟨fun done => ⟨a, rfl, done⟩, fun ⟨_, same, done⟩ => Except.ok.inj same ▸ done⟩

theorem except_map_eq_map {x y : Except ε α} {f : α → β} (same : x.map f = y.map f) :
    (∃ e, x = .error e ∧ y = .error e) ∨ ∃ a b, x = .ok a ∧ y = .ok b ∧ f a = f b := by
  cases x with
  | error e =>
    cases y with
    | error e' => exact .inl ⟨e, rfl, congrArg Except.error (Except.error.inj same).symm⟩
    | ok b => cases same
  | ok a =>
    cases y with
    | error e => cases same
    | ok b => exact .inr ⟨a, b, rfl, rfl, Except.ok.inj same⟩

theorem except_mapError_eq_ok {x : Except ε α} {f : ε → ε'} {a : α} :
    x.mapError f = .ok a ↔ x = .ok a := by
  cases x with
  | error e => exact ⟨nofun, nofun⟩
  | ok b =>
    exact ⟨fun done => congrArg _ (Except.ok.inj done), fun done => congrArg _ (Except.ok.inj done)⟩

theorem run_bind_ok {x : ExceptT ε Option α} {a : α} (first : x.run = some (.ok a))
    (next : α → ExceptT ε Option β) : (x >>= next).run = (next a).run := by
  rw [ExceptT.run_bind, first]
  rfl

theorem run_lift_bind (a : α) (next : α → ExceptT ε Option β) :
    ((liftM (some a) : ExceptT ε Option α) >>= next).run = (next a).run := rfl

theorem run_lift_eq_ok {x : Option α} {a : α} :
    (liftM x : ExceptT ε Option α).run = some (.ok a) ↔ x = some a := by
  cases x with
  | none => exact ⟨nofun, nofun⟩
  | some b => exact ⟨fun done => by cases done; rfl, fun done => by cases done; rfl⟩

theorem run_mk_bind_ok {x : Option (Except ε α)} {a : α} (first : x = some (.ok a))
    (next : α → ExceptT ε Option β) : (ExceptT.mk x >>= next).run = (next a).run :=
  run_bind_ok first next

theorem run_bind_error {x : ExceptT ε Option α} {e : ε} (first : x.run = some (.error e))
    (next : α → ExceptT ε Option β) : (x >>= next).run = some (.error e) := by
  rw [ExceptT.run_bind, first]
  rfl

theorem run_bind_eq_ok {x : ExceptT ε Option α} {next : α → ExceptT ε Option β} {b : β} :
    (x >>= next).run = some (.ok b) ↔ ∃ a, x.run = some (.ok a) ∧ (next a).run = some (.ok b) := by
  constructor
  · intro done
    rw [ExceptT.run_bind] at done
    cases first : x.run with
    | none => rw [first] at done; cases done
    | some outcome =>
      rw [first] at done
      cases outcome with
      | error e => cases done
      | ok a => exact ⟨a, rfl, done⟩
  · rintro ⟨a, first, second⟩
    rw [run_bind_ok first, second]

theorem run_map_eq_ok {x : ExceptT ε Option α} {f : α → β} {b : β} :
    (f <$> x).run = some (.ok b) ↔ ∃ a, x.run = some (.ok a) ∧ f a = b := by
  rw [map_eq_pure_bind, run_bind_eq_ok]
  simp

theorem run_map_error {x : ExceptT ε Option α} (f : α → β) {e : ε}
    (refused : x.run = some (.error e)) : (f <$> x).run = some (.error e) := by
  rw [map_eq_pure_bind, run_bind_error refused]

theorem run_adapt_ok {x : ExceptT ε Option α} {f : ε → ε'} {a : α} :
    (x.adapt f).run = some (.ok a) ↔ x.run = some (.ok a) := by
  rw [ExceptT.run_adapt]
  rcases x.run with _ | _ | b
  · exact ⟨nofun, nofun⟩
  · exact ⟨nofun, nofun⟩
  · exact ⟨fun done => by cases done; rfl, fun done => by cases done; rfl⟩

theorem run_adapt_error {x : ExceptT ε Option α} (f : ε → ε') {e : ε}
    (refused : x.run = some (.error e)) : (x.adapt f).run = some (.error (f e)) := by
  rw [ExceptT.run_adapt, refused]
  rfl

theorem run_mapM_ok {f : α → ExceptT ε Option β} {g : α → β} {xs : List α}
    (each : ∀ x ∈ xs, (f x).run = some (.ok (g x))) : (xs.mapM f).run = some (.ok (xs.map g)) := by
  induction xs with
  | nil => rfl
  | cons x rest ih =>
    rw [List.mapM_cons, run_bind_ok (each x (List.mem_cons_self ..)),
      run_bind_ok (ih fun y member => each y (List.mem_cons_of_mem x member))]
    rfl

theorem run_forM_cons_ok {f : α → ExceptT ε Option Unit} {x : α} (rest : List α)
    (first : (f x).run = some (.ok ())) : ((x :: rest).forM f).run = (rest.forM f).run :=
  run_bind_ok first fun _ => rest.forM f

theorem run_forM_cons_error {f : α → ExceptT ε Option Unit} {x : α} {e : ε} (rest : List α)
    (first : (f x).run = some (.error e)) : ((x :: rest).forM f).run = some (.error e) :=
  run_bind_error first fun _ => rest.forM f

theorem run_forM_ok_iff {f : α → ExceptT ε Option Unit} {xs : List α} :
    (xs.forM f).run = some (.ok ()) ↔ ∀ x ∈ xs, (f x).run = some (.ok ()) := by
  induction xs with
  | nil => exact ⟨fun _ x member => by simp at member, fun _ => rfl⟩
  | cons x rest ih =>
    rw [List.forall_mem_cons, ← ih]
    constructor
    · intro done
      obtain ⟨_, first, later⟩ := run_bind_eq_ok.mp done
      exact ⟨first, later⟩
    · rintro ⟨first, later⟩
      rw [run_forM_cons_ok rest first, later]

/-- Over a list, an error is that of the first member that does not succeed. -/
theorem run_forM_error_iff {f : α → ExceptT ε Option Unit} {xs : List α} {e : ε} :
    (xs.forM f).run = some (.error e) ↔ ∃ before x after, xs = before ++ x :: after ∧
      (∀ y ∈ before, (f y).run = some (.ok ())) ∧ (f x).run = some (.error e) := by
  constructor
  · intro stopped
    induction xs with
    | nil => cases stopped
    | cons x rest ih =>
      cases first : (f x).run with
      | none =>
        have missing : ((x :: rest).forM f).run = none := by
          change (f x >>= fun _ => rest.forM f).run = none
          rw [ExceptT.run_bind, first]
          rfl
        rw [missing] at stopped
        cases stopped
      | some outcome =>
        cases outcome with
        | error fault =>
          rw [run_forM_cons_error rest first] at stopped
          exact ⟨[], x, rest, rfl, by simp, by rw [first, stopped]⟩
        | ok done =>
          rw [run_forM_cons_ok rest first] at stopped
          obtain ⟨before, y, after, rfl, passed, fails⟩ := ih stopped
          exact ⟨x :: before, y, after, rfl, List.forall_mem_cons.mpr ⟨first, passed⟩, fails⟩
  · rintro ⟨before, x, after, rfl, passed, fails⟩
    induction before with
    | nil => exact run_forM_cons_error after fails
    | cons y before ih =>
      obtain ⟨first, later⟩ := List.forall_mem_cons.mp passed
      rw [List.cons_append, run_forM_cons_ok _ first]
      exact ih later

theorem run_forM_isSome {f : α → ExceptT ε Option Unit} {xs : List α}
    (each : ∀ x ∈ xs, ∃ outcome, (f x).run = some outcome) :
    ∃ outcome, (xs.forM f).run = some outcome := by
  induction xs with
  | nil => exact ⟨_, rfl⟩
  | cons x rest ih =>
    obtain ⟨outcome, first⟩ := each x (List.mem_cons_self ..)
    cases outcome with
    | error fault => exact ⟨_, run_forM_cons_error rest first⟩
    | ok done =>
      rw [run_forM_cons_ok rest first]
      exact ih fun y member => each y (List.mem_cons_of_mem x member)

end DecisionTreeC
