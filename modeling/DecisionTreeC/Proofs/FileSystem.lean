import DecisionTreeC.File.Tree
import DecisionTreeC.Proofs.Outcome
import Mathlib.Data.List.DropRight
import Mathlib.Logic.Function.Basic

/-!
Disks and terminals that can be looked at. A view tells what the regular files hold and what the
channels have shown. Reading and making directories change nothing in it, a write changes one file
or goes to a device, and printing adds to a channel; what fails changes no file and shows a part at
most. The machine in memory is such a file system.
-/
namespace DecisionTreeC

structure View (π : Type) where
  contents : π → Option ByteArray
  shown : Channel → ByteArray

namespace View

variable {π : Type}

def print (view : View π) (channel : Channel) (bytes : ByteArray) : View π :=
  { view with shown := Function.update view.shown channel (view.shown channel ++ bytes) }

def write [DecidableEq π] (view : View π) (target : Target π) (bytes : ByteArray) : View π :=
  match target with
  | .file place => { view with contents := Function.update view.contents place (some bytes) }
  | .device none => view
  | .device (some channel) => view.print channel bytes

theorem print_empty (view : View π) (channel : Channel) : view.print channel .empty = view := by
  simp [print]

theorem print_print (view : View π) (channel : Channel) (first second : ByteArray) :
    (view.print channel first).print channel second = view.print channel (first ++ second) := by
  simp [print, ByteArray.append_assoc]

end View

def Starts (part whole : ByteArray) : Prop := ∃ rest, whole = part ++ rest

theorem Starts.append_right {part whole : ByteArray} (starts : Starts part whole)
    (more : ByteArray) : Starts part (whole ++ more) := by
  obtain ⟨rest, rfl⟩ := starts
  exact ⟨rest ++ more, ByteArray.append_assoc⟩

theorem Starts.append_left {part whole : ByteArray} (starts : Starts part whole)
    (first : ByteArray) : Starts (first ++ part) (first ++ whole) := by
  obtain ⟨rest, rfl⟩ := starts
  exact ⟨rest, ByteArray.append_assoc.symm⟩

/-- A disk and a terminal with states in `σ` and regular files at the places in `π`. The channels
are no regular files. -/
structure FileSystem (σ π : Type) [DecidableEq π] where
  disk : Disk (StateM σ)
  terminal : Terminal (StateM σ)
  view : σ → View π
  leads : σ → String → Option (Target π)
  read_keeps (path : String) (s : σ) : view ((disk.read path).run s).2 = view s
  read_ok {path : String} {s : σ} {bytes : ByteArray} :
    ((disk.read path).run s).1 = .ok bytes →
      ∃ target, leads s path = some target ∧
        ∀ place, target = .file place → (view s).contents place = some bytes
  isDirectory_keeps (path : String) (s : σ) : view ((disk.isDirectory path).run s).2 = view s
  makeDirectory_keeps (path : String) (s : σ) : view ((disk.makeDirectory path).run s).2 = view s
  write_error {path : String} {bytes : ByteArray} {s : σ} {fault : FileError} :
    ((disk.write path bytes).run s).1 = .error fault →
      view ((disk.write path bytes).run s).2 = view s ∨
        ∃ channel part, leads s path = some (.device (some channel)) ∧ Starts part bytes ∧
          view ((disk.write path bytes).run s).2 = (view s).print channel part
  write_ok {path : String} {bytes : ByteArray} {s : σ} :
    ((disk.write path bytes).run s).1 = .ok () →
      ∃ target, leads ((disk.write path bytes).run s).2 path = some target ∧
        view ((disk.write path bytes).run s).2 = (view s).write target bytes
  print_leads (channel : Channel) (text : String) (s : σ) :
    leads ((terminal.print channel text).run s).2 = leads s
  print_error {channel : Channel} {text : String} {s : σ} {fault : FileError} :
    ((terminal.print channel text).run s).1 = .error fault →
      ∃ part, Starts part text.toUTF8 ∧
        view ((terminal.print channel text).run s).2 = (view s).print channel part
  print_ok {channel : Channel} {text : String} {s : σ} :
    ((terminal.print channel text).run s).1 = .ok () →
      view ((terminal.print channel text).run s).2 = (view s).print channel text.toUTF8

variable {σ π α β : Type}

theorem run_bind_state (action : StateM σ α) (next : α → StateM σ β) (s : σ) :
    (action >>= next).run s = (next (action.run s).1).run (action.run s).2 := rfl

namespace FileSystem

variable [DecidableEq π] (system : FileSystem σ π)

def Keeps (action : StateM σ α) : Prop := ∀ s, system.view (action.run s).2 = system.view s

inductive Prints (s : σ) (channel : Channel) (bytes : ByteArray) :
    Except FileError Unit × σ → Prop where
  | all {after : σ} (leads : system.leads after = system.leads s)
      (view : system.view after = (system.view s).print channel bytes) :
      Prints s channel bytes (.ok (), after)
  | part {fault : FileError} {part : ByteArray} {after : σ}
      (leads : system.leads after = system.leads s)
      (starts : Starts part bytes) (view : system.view after = (system.view s).print channel part) :
      Prints s channel bytes (.error fault, after)

variable {system}

theorem Keeps.pure (a : α) : system.Keeps (Pure.pure a) := fun _ => rfl

theorem Keeps.bind {action : StateM σ α} {next : α → StateM σ β} (first : system.Keeps action)
    (later : ∀ a, system.Keeps (next a)) : system.Keeps (action >>= next) :=
  fun s => (later (action.run s).1 (action.run s).2).trans (first s)

theorem Prints.nothing (s : σ) (channel : Channel) : system.Prints s channel .empty (.ok (), s) :=
  .all rfl (View.print_empty ..).symm

theorem Prints.after {s t : σ} {channel : Channel} {first second : ByteArray}
    {result : Except FileError Unit × σ} (leads : system.leads t = system.leads s)
    (view : system.view t = (system.view s).print channel first)
    (prints : system.Prints t channel second result) :
    system.Prints s channel (first ++ second) result := by
  cases prints with
  | all led shown =>
    rw [view, View.print_print] at shown
    exact .all (led.trans leads) shown
  | part led starts shown =>
    rw [view, View.print_print] at shown
    exact .part (led.trans leads) (starts.append_left first) shown

variable (system)

theorem ensureDirectory_keeps (path : String) :
    system.Keeps (system.disk.ensureDirectory path) := by
  refine Keeps.bind (system.makeDirectory_keeps path) fun result => ?_
  split
  · exact .pure _
  · refine Keeps.bind (system.isDirectory_keeps path) fun standing => ?_
    split <;> exact .pure _

theorem makeAbove_keeps (levels : Nat) (path : String) :
    system.Keeps (system.disk.makeAbove levels path) := by
  induction levels generalizing path with
  | zero => exact system.ensureDirectory_keeps path
  | succ levels ih =>
    refine Keeps.bind (system.ensureDirectory_keeps path) fun result => ?_
    split
    · split
      · exact .pure _
      · exact system.ensureDirectory_keeps path
      · refine Keeps.bind (ih _) fun made => ?_
        split
        · exact .pure _
        · exact system.ensureDirectory_keeps path
    · exact .pure _

theorem makeDirectories_keeps (path : String) : system.Keeps (system.disk.makeDirectories path) :=
  system.makeAbove_keeps path.length path

theorem print_prints (s : σ) (channel : Channel) (text : String) :
    system.Prints s channel text.toUTF8 ((system.terminal.print channel text).run s) := by
  have leads := system.print_leads channel text s
  cases result : (system.terminal.print channel text).run s with
  | mk ended after =>
    rw [result] at leads
    cases ended with
    | ok done =>
      have view := system.print_ok (congrArg Prod.fst result)
      rw [result] at view
      exact .all leads view
    | error fault =>
      obtain ⟨part, starts, view⟩ := system.print_error (congrArg Prod.fst result)
      rw [result] at view
      exact .part leads starts view

/-- The texts are shown as one, up to where the first of them is refused. -/
theorem printAll_prints (s : σ) (channel : Channel) (texts : List String) :
    system.Prints s channel (String.join texts).toUTF8
      ((system.terminal.printAll channel texts).run s) := by
  induction texts generalizing s with
  | nil => exact .nothing s channel
  | cons text rest ih =>
    have joined : (String.join (text :: rest)).toUTF8 =
        text.toUTF8 ++ (String.join rest).toUTF8 := by
      rw [String.join_cons]
      exact String.toByteArray_append
    have first := system.print_prints s channel text
    rw [joined, Terminal.printAll, run_bind_state]
    generalize (system.terminal.print channel text).run s = result at first ⊢
    cases first with
    | all leads view => exact (ih _).after leads view
    | part leads starts view => exact .part leads (starts.append_right _) view

end FileSystem

def FileEntry.bytes? : FileEntry → Option ByteArray
  | .file bytes => some bytes
  | _ => none

def FileEntry.target? (place : Place) : FileEntry → Option (Target Place)
  | .directory => none
  | .file _ => some (.file place)
  | .device channel => some (.device channel)

namespace FileTree

def leads (tree : FileTree) (path : String) : Option (Target Place) :=
  (tree.resolve path).toOption.bind fun place => (tree.entryAt place).bind (·.target? place)

def contents (tree : FileTree) (place : Place) : Option ByteArray :=
  (tree.entryAt place).bind (·.bytes?)

variable {tree : FileTree} {path : String} {place : Place}

theorem leads_of_resolve {entry : FileEntry} (resolved : tree.resolve path = .ok place)
    (found : tree.entryAt place = some entry) : tree.leads path = entry.target? place := by
  rw [leads, resolved]
  change (tree.entryAt place).bind _ = _
  rw [found, Option.bind_some]

theorem lookup_filter_ne {entries : List (Place × FileEntry)} {q : Place} (other : q ≠ place) :
    (entries.filter (·.1 != place)).lookup q = entries.lookup q := by
  induction entries with
  | nil => rfl
  | cons first rest ih =>
    obtain ⟨p, entry⟩ := first
    by_cases same : p = place
    · have passed : (q == p) = false := by simp [same, other]
      rw [List.lookup_cons, passed, ← ih]
      simp [same]
    · simp [same, List.lookup_cons, ih]

theorem entryAt_put (below : place ≠ []) (entry : FileEntry) (q : Place) :
    (tree.put place entry).entryAt q = if q = place then some entry else tree.entryAt q := by
  by_cases same : q = place
  · simp [entryAt, put, same, below]
  · have passed : (q == place) = false := by simp [same]
    simp [entryAt, put, same, List.lookup_cons, passed, lookup_filter_ne same]

/-- How a path comes to a name in a directory: all its other names lead to the directory. -/
structure Opens (tree : FileTree) (path : String) (slash : Bool) (first : Place)
    (names : List (List Char)) (above : Place) (last : List Char) : Prop where
  named : ¬ (last = [] ∨ last = ['.']) ∧ last ≠ ['.', '.']
  reached : names.foldlM tree.step first = .ok above
  directory : tree.entryAt above = some .directory
  started : slash = false → tree.start path = .ok (first, names ++ [last])

theorem directory_of_step {here there : Place} {name : List Char}
    (done : tree.step here name = .ok there) : tree.entryAt here = some .directory := by
  unfold step at done
  split at done
  · assumption
  · cases done
  · cases done

theorem site_within {slash : Bool} (found : tree.site path = .ok (.within place slash)) :
    ∃ first names above last, place = above ++ [last] ∧
    tree.Opens path slash first names above last := by
  obtain ⟨⟨first, names⟩, started, found⟩ := except_bind_eq_ok.mp found
  have trimmed : (names.reverse.dropWhile (· == [])).reverse = names.rdropWhile (· == []) := rfl
  simp only [trimmed] at found
  split at found
  · cases found
  · rename_i last ending
    obtain ⟨before, kept⟩ := List.getLast?_eq_some_iff.mp ending
    obtain ⟨above, reached, found⟩ := except_bind_eq_ok.mp found
    rw [kept, List.dropLast_concat] at reached
    split at found
    · obtain ⟨_, _, found⟩ := except_bind_eq_ok.mp found
      cases found
    · rename_i plain
      obtain ⟨_, stepped, found⟩ := except_bind_eq_ok.mp found
      cases found
      refine ⟨first, before, above, last, rfl, ?_, reached, directory_of_step stepped, ?_⟩
      · have some_name : names.rdropWhile (· == []) ≠ [] := kept ▸ List.concat_ne_nil last before
        have filled := List.rdropWhile_last_not (· == []) names some_name
        simp only [kept, List.getLast_append_singleton] at filled
        simp_all
      · intro whole
        have same := (List.rdropWhile_prefix (· == []) names).eq_of_length (by simpa using whole)
        rw [started, ← kept, same]

theorem step_of_directory {here : Place} (directory : tree.entryAt here = some .directory)
    (name : List Char) :
    tree.step here name =
      if name = [] ∨ name = ['.'] then .ok here
      else if name = ['.', '.'] then .ok here.dropLast
      else if (tree.entryAt (here ++ [name])).isSome then .ok (here ++ [name])
      else .error .notFound := by
  rw [step, directory]

/-- A new entry hides no directory, so every path that led somewhere still leads there. -/
theorem step_put {entry : FileEntry} (below : place ≠ [])
    (free : tree.entryAt place ≠ some .directory) {here there : Place} {name : List Char}
    (done : tree.step here name = .ok there) :
    (tree.put place entry).step here name = .ok there := by
  have directory := directory_of_step done
  have other : here ≠ place := fun same => free (same ▸ directory)
  have still : (tree.put place entry).entryAt here = some .directory := by
    rw [entryAt_put below, if_neg other, directory]
  rw [step_of_directory directory] at done
  rw [step_of_directory still]
  by_cases stays : name = [] ∨ name = ['.']
  · rw [if_pos stays] at done ⊢
    exact done
  rw [if_neg stays] at done ⊢
  by_cases leaves : name = ['.', '.']
  · rw [if_pos leaves] at done ⊢
    exact done
  rw [if_neg leaves] at done ⊢
  by_cases known : (tree.entryAt (here ++ [name])).isSome
  · have known' : ((tree.put place entry).entryAt (here ++ [name])).isSome := by
      rw [entryAt_put below]
      split
      · rfl
      · exact known
    rw [if_pos known] at done
    rw [if_pos known']
    exact done
  · rw [if_neg known] at done
    cases done

theorem foldlM_step_put {entry : FileEntry} (below : place ≠ [])
    (free : tree.entryAt place ≠ some .directory) {names : List (List Char)} {here there : Place}
    (done : names.foldlM tree.step here = .ok there) :
    names.foldlM (tree.put place entry).step here = .ok there := by
  induction names generalizing here with
  | nil => exact done
  | cons name rest ih =>
    obtain ⟨next, stepped, done⟩ := except_bind_eq_ok.mp done
    exact except_bind_eq_ok.mpr ⟨next, step_put below free stepped, ih done⟩

section Opens

variable {first above : Place} {names : List (List Char)} {last : List Char}

/-- What stands where a path opens is found by that path, unless a slash stands behind
the last name. -/
theorem Opens.leads (opens : tree.Opens path false first names above last) {entry : FileEntry}
    (found : tree.entryAt (above ++ [last]) = some entry) :
    tree.leads path = entry.target? (above ++ [last]) := by
  have stepped : tree.step above last = .ok (above ++ [last]) := by
    rw [step_of_directory opens.directory, if_neg opens.named.1, if_neg opens.named.2, found]
    rfl
  have resolved : tree.resolve path = .ok (above ++ [last]) := by
    refine except_bind_eq_ok.mpr ⟨(first, names ++ [last]), opens.started rfl, ?_⟩
    refine List.foldlM_append.trans (except_bind_eq_ok.mpr ⟨above, opens.reached, ?_⟩)
    exact except_bind_eq_ok.mpr ⟨_, stepped, rfl⟩
  exact leads_of_resolve resolved found

theorem Opens.put {slash : Bool} (opens : tree.Opens path slash first names above last)
    (free : tree.entryAt (above ++ [last]) ≠ some .directory) (entry : FileEntry) :
    (tree.put (above ++ [last]) entry).Opens path slash first names above last where
  named := opens.named
  reached := foldlM_step_put (List.concat_ne_nil last above) free opens.reached
  directory := by
    have other : above ≠ above ++ [last] := by simp
    rw [entryAt_put (List.concat_ne_nil last above), if_neg other, opens.directory]
  started := opens.started

end Opens

theorem contents_put (below : place ≠ []) (entry : FileEntry) :
    (tree.put place entry).contents = Function.update tree.contents place entry.bytes? := by
  funext q
  rw [contents, entryAt_put below, Function.update_apply]
  split
  · rfl
  · rfl

theorem makeDirectory_contents {after : FileTree} (done : tree.makeDirectory path = .ok after) :
    after.contents = tree.contents := by
  obtain ⟨site, found, done⟩ := except_bind_eq_ok.mp done
  split at done
  · cases done
  · split at done
    · cases done
    · rename_i place _ free
      obtain ⟨first, names, above, last, rfl, _⟩ := site_within found
      have empty : tree.contents (above ++ [last]) = none := by
        rw [contents, Option.not_isSome_iff_eq_none.mp free]
        rfl
      cases done
      rw [contents_put (List.concat_ne_nil last above)]
      exact (Function.update_eq_self_iff ..).mpr empty.symm

/-- Where the path will have led once something is written by it. -/
inductive Aims (tree : FileTree) (path : String) : Target Place → Prop where
  | file {place : Place} (below : place ≠ [])
      (leads : ∀ bytes, (tree.put place (.file bytes)).leads path = some (.file place)) :
      Aims tree path (.file place)
  | device {channel : Option Channel} (leads : tree.leads path = some (.device channel)) :
      Aims tree path (.device channel)

theorem target_aims {target : Target Place} (found : tree.target path = .ok target) :
    tree.Aims path target := by
  obtain ⟨site, within, found⟩ := except_bind_eq_ok.mp found
  split at found
  · cases found
  · rename_i place slash
    cases slash with
    | true => cases found
    | false =>
      obtain ⟨first, names, above, last, rfl, opens⟩ := site_within within
      have below : above ++ [last] ≠ [] := List.concat_ne_nil last above
      rw [if_neg Bool.false_ne_true] at found
      split at found
      · cases found
      · rename_i standing
        cases found
        exact .device (opens.leads standing)
      · rename_i free _
        cases found
        refine .file below fun bytes => ?_
        have standing : (tree.put (above ++ [last]) (.file bytes)).entryAt (above ++ [last]) =
            some (.file bytes) := by
          rw [entryAt_put below, if_pos rfl]
        exact (opens.put free _).leads standing

theorem read_leads {bytes : ByteArray} (done : tree.read path = .ok bytes) :
    ∃ target, tree.leads path = some target ∧
      ∀ place, target = .file place → tree.contents place = some bytes := by
  obtain ⟨place, resolved, done⟩ := except_bind_eq_ok.mp done
  split at done
  · rename_i found
    refine ⟨_, leads_of_resolve resolved found, ?_⟩
    rintro _ ⟨⟩
    cases done
    rw [contents, found]
    rfl
  · cases done
  · rename_i found
    exact ⟨_, leads_of_resolve resolved found, nofun⟩
  · cases done
  · cases done

end FileTree

theorem Screen.take_spec (screen : Screen) (text : String) :
    (∃ room, screen.take text = (.ok (), ⟨screen.shown ++ text, room⟩)) ∨
      ∃ part rest, part ++ rest = text ∧
        screen.take text = (.error .full, ⟨screen.shown ++ part, some 0⟩) := by
  unfold take
  split
  · exact .inl ⟨screen.room, rfl⟩
  · rename_i room _
    split
    · exact .inl ⟨_, rfl⟩
    · refine .inr ⟨_, .ofList (text.toList.drop room), ?_, rfl⟩
      rw [← String.ofList_append, List.take_append_drop, String.ofList_toList]

namespace Machine

def view (machine : Machine) : View Place :=
  ⟨machine.tree.contents, fun channel => (machine.screens channel).shown.toUTF8⟩

variable (machine : Machine)

theorem view_print (channel : Channel) (text : String) (room : Option Nat) :
    view ⟨machine.tree, fun other =>
        if other = channel then ⟨(machine.screens channel).shown ++ text, room⟩
        else machine.screens other⟩ =
      machine.view.print channel text.toUTF8 := by
  refine congrArg (View.mk machine.tree.contents) (funext fun other => ?_)
  by_cases same : other = channel
  · subst same
    simp [view]
  · simp [view, same]

theorem print_shows (channel : Channel) (text : String) :
    ((print channel text machine).1 = .ok () ∧
      (print channel text machine).2.view = machine.view.print channel text.toUTF8) ∨
    ∃ part, (print channel text machine).1 = .error .full ∧ Starts part text.toUTF8 ∧
      (print channel text machine).2.view = machine.view.print channel part := by
  obtain ⟨room, taken⟩ | ⟨part, rest, rfl, taken⟩ := (machine.screens channel).take_spec text
  · left
    simp only [print, taken, view_print, and_self]
  · right
    refine ⟨part.toUTF8, ?_, ⟨rest.toUTF8, String.toByteArray_append⟩, ?_⟩
    · simp only [print, taken]
    · simp only [print, taken, view_print]

theorem makeDirectory_view (path : String) :
    (makeDirectory path machine).2.view = machine.view := by
  unfold makeDirectory
  split
  · rfl
  · rename_i tree made
    exact congrArg (View.mk · machine.view.shown) (FileTree.makeDirectory_contents made)

theorem toUTF8_of_fromUTF8 {bytes : ByteArray} {text : String}
    (decoded : String.fromUTF8? bytes = some text) : text.toUTF8 = bytes := by
  unfold String.fromUTF8? at decoded
  split at decoded
  · cases decoded
    rfl
  · cases decoded

inductive Writes (path : String) (bytes : ByteArray) : Except FileError Unit × Machine → Prop where
  | wrote {target : Target Place} {after : Machine} (leads : after.tree.leads path = some target)
      (view : after.view = machine.view.write target bytes) : Writes path bytes (.ok (), after)
  | kept {fault : FileError} : Writes path bytes (.error fault, machine)
  | cut {fault : FileError} {channel : Channel} {part : ByteArray} {after : Machine}
      (leads : machine.tree.leads path = some (.device (some channel))) (starts : Starts part bytes)
      (view : after.view = machine.view.print channel part) :
      Writes path bytes (.error fault, after)

theorem Writes.ok {machine : Machine} {path : String} {bytes : ByteArray}
    {result : Except FileError Unit × Machine}
    (writes : machine.Writes path bytes result) (done : result.1 = .ok ()) :
    ∃ target, result.2.tree.leads path = some target ∧
      result.2.view = machine.view.write target bytes := by
  cases writes with
  | wrote leads view => exact ⟨_, leads, view⟩
  | kept | cut _ _ _ => cases done

theorem Writes.error {machine : Machine} {path : String} {bytes : ByteArray}
    {result : Except FileError Unit × Machine} {fault : FileError}
    (writes : machine.Writes path bytes result) (failed : result.1 = .error fault) :
    result.2.view = machine.view ∨
      ∃ channel part, machine.tree.leads path = some (.device (some channel)) ∧ Starts part bytes ∧
        result.2.view = machine.view.print channel part := by
  cases writes with
  | wrote _ _ => cases failed
  | kept => exact .inl rfl
  | cut leads starts view => exact .inr ⟨_, _, leads, starts, view⟩

theorem print_writes {path : String} {channel : Channel} {text : String}
    (leads : machine.tree.leads path = some (.device (some channel))) :
    machine.Writes path text.toUTF8 (print channel text machine) := by
  have kept : (print channel text machine).2.tree.leads path = some (.device (some channel)) :=
    leads
  have shows := machine.print_shows channel text
  generalize print channel text machine = result at kept shows ⊢
  obtain ⟨ended, after⟩ := result
  obtain ⟨rfl, view⟩ | ⟨part, rfl, starts, view⟩ := shows
  · exact .wrote kept view
  · exact .cut leads starts view

theorem write_writes (path : String) (bytes : ByteArray) :
    machine.Writes path bytes (write path bytes machine) := by
  unfold write
  split
  · exact .kept
  · rename_i place found
    cases FileTree.target_aims found with
    | file below leads =>
      exact .wrote (leads bytes)
        (congrArg (View.mk · machine.view.shown) (FileTree.contents_put below _))
  · rename_i found
    cases FileTree.target_aims found with
    | device leads => exact .wrote leads rfl
  · rename_i channel found
    cases FileTree.target_aims found with
    | device leads =>
      split
      · rename_i text decoded
        rw [← toUTF8_of_fromUTF8 decoded]
        exact machine.print_writes leads
      · exact .kept

def system : FileSystem Machine Place where
  disk := disk
  terminal := terminal
  view := view
  leads machine := machine.tree.leads
  read_keeps _ _ := rfl
  read_ok := FileTree.read_leads
  isDirectory_keeps _ _ := rfl
  makeDirectory_keeps path machine := machine.makeDirectory_view path
  write_error := (write_writes ..).error
  write_ok := (write_writes ..).ok
  print_leads _ _ _ := rfl
  print_error {channel text machine _} failed := by
    obtain ⟨printed, _⟩ | ⟨part, _, starts, view⟩ := machine.print_shows channel text
    · cases printed.symm.trans failed
    · exact ⟨part, starts, view⟩
  print_ok {channel text machine} done := by
    obtain ⟨_, view⟩ | ⟨part, refused, _⟩ := machine.print_shows channel text
    · exact view
    · cases refused.symm.trans done

end Machine

end DecisionTreeC
