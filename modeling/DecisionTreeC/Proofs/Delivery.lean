import DecisionTreeC.CommandLine.Run
import DecisionTreeC.Json.Codec
import DecisionTreeC.Proofs.FileSystem
import DecisionTreeC.Proofs.Verdict

/-!
Runs of the command line on any file system. A run delivers the source that its options ask for and
reports it; or one of its stages refuses, and then no file has changed. Only a report that is itself
refused comes too late: the source is written by then.
-/
namespace DecisionTreeC

namespace Options

/-- The configuration that options ask for. Each part of the provenance is the one given, else the
one recorded with the dump, else the standard one. -/
def wanted (options : Options) (recorded : Option Provenance) : Config where
  indentWidth := options.indentWidth
  decimalPlaces := options.decimalPlaces
  maxDepth := options.maxDepth
  classWeights := options.showWeights
  provenance :=
    ⟨(options.blockSize.or (recorded.map (·.blockSize))).getD Provenance.standard.blockSize,
      (options.blockType.or (recorded.map (·.blockType))).getD Provenance.standard.blockType⟩
  functionName := options.functionName
  typeName := options.typeName

theorem config_eq_wanted (options : Options) (recorded : Option Provenance) :
    options.config recorded = options.wanted recorded := by
  have provenance : options.provenance recorded = (options.wanted recorded).provenance := by
    cases recorded <;> cases size : options.blockSize <;> cases type : options.blockType <;>
      simp [Options.provenance, wanted, size, type]
  simp only [config, wanted, provenance]

def warned (options : Options) (source : Source) : String :=
  if source.truncations = [] then "" else
  s!"warning: {source.truncations.length} branch(es) deeper than --max-depth {options.maxDepth} " ++
    "were replaced by #warning\n"

def reported (options : Options) (source : Source) : String :=
  (if options.print then source.text else "") ++ "File written:\n" ++ options.output ++ "\n"

theorem join_report (options : Options) (source : Source) :
    String.join (options.report source) = options.reported source := by
  unfold report reported
  split <;> simp [String.append_assoc]

def planOf (options : Options) (dump : Dump) (parts : Classifier) : Plan :=
  ⟨parts.table, parts.features, parts.labels, options.wanted dump.provenance⟩

def Makes (options : Options) (dump : Dump) (source : Source) : Prop :=
  ∃ parts, dump.toClassifier options.sanitizeNames = .ok parts ∧
    (options.planOf dump parts).source.run = some (.ok source)

inductive Declines (options : Options) (dump : Dump) : Prop where
  | conversion {fault : ConversionError}
      (refused : dump.toClassifier options.sanitizeNames = .error fault)
  | generation {parts : Classifier} {fault : SourceError}
      (converted : dump.toClassifier options.sanitizeNames = .ok parts)
      (refused : (options.planOf dump parts).source.run = some (.error fault))

theorem plan_unconverted {options : Options} {dump : Dump} {fault : ConversionError}
    (refused : dump.toClassifier options.sanitizeNames = .error fault) :
    ∃ failure, options.plan dump = .error failure := by
  unfold plan
  rw [refused]
  exact ⟨_, rfl⟩

theorem plan_converted {options : Options} {dump : Dump} {parts : Classifier}
    (converted : dump.toClassifier options.sanitizeNames = .ok parts) :
    options.plan dump =
      (((options.wanted dump.provenance).check.mapError fun fault =>
        ⟨"invalid generator options", [fault.message]⟩).map fun _ =>
          options.planOf dump parts) := by
  unfold plan
  rw [converted, config_eq_wanted]
  rfl

theorem source_of_plan_error {options : Options} {dump : Dump} {failure : Failure}
    (refused : options.plan dump = .error failure) :
    (options.source dump).run = some (.error failure) := by
  unfold source
  exact run_bind_error (congrArg some refused) _

theorem source_of_plan {options : Options} {dump : Dump} {plan : Plan}
    (planned : options.plan dump = .ok plan) :
    (options.source dump).run =
      (plan.source.adapt fun fault => (⟨"generating C source", fault.causes⟩ : Failure)).run := by
  unfold source
  exact run_mk_bind_ok (congrArg some planned) _

inductive Attempt (options : Options) (dump : Dump) : Option (Except Failure Source) → Prop where
  | made {source : Source} (makes : options.Makes dump source) :
      Attempt options dump (some (.ok source))
  | declined {failure : Failure} (declines : options.Declines dump) :
      Attempt options dump (some (.error failure))

theorem source_attempt (options : Options) (dump : Dump) :
    options.Attempt dump (options.source dump).run := by
  cases converted : dump.toClassifier options.sanitizeNames with
  | error fault =>
    obtain ⟨failure, refused⟩ := plan_unconverted converted
    rw [source_of_plan_error refused]
    exact .declined (.conversion converted)
  | ok parts =>
    have planned := plan_converted converted
    cases checked : (options.wanted dump.provenance).check with
    | error cause =>
      -- No plan is made, and generation would refuse its configuration for the same cause.
      rw [checked] at planned
      rw [source_of_plan_error planned]
      exact .declined (.generation converted
        (Plan.source_of_refused (@Plan.prepare_of_config (options.planOf dump parts) _ checked)))
    | ok done =>
      rw [checked] at planned
      rw [source_of_plan planned]
      cases Plan.source_settled (options.planOf dump parts) with
      | made source made _ =>
        rw [run_adapt_ok.mpr made]
        exact .made ⟨parts, converted, made⟩
      | refused _ e stopped _ _ _ =>
        rw [run_adapt_error _ stopped]
        exact .declined (.generation converted stopped)

end Options

namespace FileSystem

variable {σ π : Type} [DecidableEq π] (system : FileSystem σ π) (json : Json.Library)

/-- The text at a path. If the path leads to a regular file, it is what the file holds. -/
def HoldsText (s : σ) (path text : String) : Prop :=
  ∃ bytes, ((system.disk.read path).run s).1 = .ok bytes ∧ String.fromUTF8? bytes = some text ∧
    ∃ target, system.leads s path = some target ∧
      ∀ place, target = .file place → (system.view s).contents place = some bytes

def HoldsDump (s : σ) (path : String) (dump : Dump) : Prop :=
  ∃ text, system.HoldsText s path text ∧ json.read Dump.schema text = .ok dump

inductive NoDump (s : σ) (path : String) : Prop where
  | unread {fault : FileError} (refused : ((system.disk.read path).run s).1 = .error fault)
  | noText {bytes : ByteArray} (read : ((system.disk.read path).run s).1 = .ok bytes)
      (broken : String.fromUTF8? bytes = none)
  | noJson {text : String} {fault : json.Fault} (held : system.HoldsText s path text)
      (refused : json.read Dump.schema text = .error fault)

inductive Loading (s : σ) (path : String) : Except (LoadError json) Dump × σ → Prop where
  | loaded {dump : Dump} {after : σ} (held : system.HoldsDump json s path dump)
      (same : system.view after = system.view s) : Loading s path (.ok dump, after)
  | failed {fault : LoadError json} {after : σ} (reason : system.NoDump json s path)
      (same : system.view after = system.view s) : Loading s path (.error fault, after)

theorem load_loading (s : σ) (path : String) :
    system.Loading json s path ((Dump.load json system.disk path).run s) := by
  have same := system.read_keeps path s
  simp only [Dump.load, Disk.readText, run_bind_state]
  cases result : ((system.disk.read path).run s).1 with
  | error fault => exact .failed (.unread result) same
  | ok bytes =>
    cases decoded : String.fromUTF8? bytes with
    | none =>
      simp only [decoded]
      exact .failed (.noText result decoded) same
    | some text =>
      have held : system.HoldsText s path text := ⟨bytes, result, decoded, system.read_ok result⟩
      simp only [decoded]
      change system.Loading json s path ((json.read Dump.schema text).mapError .json, _)
      cases parsed : json.read Dump.schema text with
      | error fault => exact .failed (.noJson held parsed) same
      | ok dump => exact .loaded ⟨text, held, parsed⟩ same

/-- The disk refuses to make the directories above a file, or to write it. No regular file has
changed then; a device may have shown a part. -/
inductive Denies (s after : σ) (path text : String) : Prop where
  | directories {parent : String} {fault : FileError} (above : Path.parent? path = some parent)
      (refused : ((system.disk.makeDirectories parent).run s).1 = .error fault)
      (same : system.view after = system.view s)
  | file {now : σ} {fault : FileError} (ready : system.view now = system.view s)
      (refused : ((system.disk.write path text.toUTF8).run now).1 = .error fault)
      (same : system.view after = system.view s)
  | device {now : σ} {fault : FileError} {channel : Channel} {part : ByteArray}
      (ready : system.view now = system.view s)
      (refused : ((system.disk.write path text.toUTF8).run now).1 = .error fault)
      (leads : system.leads now path = some (.device (some channel)))
      (starts : Starts part text.toUTF8)
      (shown : system.view after = (system.view s).print channel part)

inductive Writing (s : σ) (path text : String) : Except Failure Unit × σ → Prop where
  | wrote {target : Target π} {after : σ} (leads : system.leads after path = some target)
      (view : system.view after = (system.view s).write target text.toUTF8) :
      Writing s path text (.ok (), after)
  | denied {failure : Failure} {after : σ} (denial : system.Denies s after path text) :
      Writing s path text (.error failure, after)

variable {json}

theorem write_writing {s now : σ} (ready : system.view now = system.view s)
    (path text context : String) :
    system.Writing s path text ((do
      pure ((← system.disk.write path text.toUTF8).mapError fun fault =>
        (⟨context, [fault.message]⟩ : Failure)) : StateM σ (Except Failure Unit)).run now) := by
  rw [run_bind_state]
  cases result : ((system.disk.write path text.toUTF8).run now).1 with
  | ok done =>
    obtain ⟨target, leads, view⟩ := system.write_ok result
    rw [ready] at view
    exact .wrote leads view
  | error fault =>
    have kept := system.write_error result
    rw [ready] at kept
    obtain same | ⟨channel, part, leads, starts, shown⟩ := kept
    · exact .denied (.file ready result same)
    · exact .denied (.device ready result leads starts shown)

theorem writeSource_writing (s : σ) (path text : String) :
    system.Writing s path text ((CommandLine.writeSource system.disk path text).run s) := by
  unfold CommandLine.writeSource
  split
  · exact system.write_writing rfl path text _
  · exact system.write_writing rfl path text _
  · rename_i parent _ above
    have ready := system.makeDirectories_keeps parent s
    simp only [run_bind_state]
    cases result : ((system.disk.makeDirectories parent).run s).1 with
    | error fault => exact .denied (.directories above result ready)
    | ok done => exact system.write_writing ready path text _

theorem warn_eq (options : Options) (source : Source) :
    CommandLine.warn system.terminal options source =
      if source.truncations = [] then pure (.ok ())
      else system.terminal.print .err (options.warned source) := by
  unfold CommandLine.warn
  by_cases whole : source.truncations = []
  · have quiet : ¬ source.isTruncated = true := by simp [Source.isTruncated, whole]
    rw [if_neg quiet, if_pos whole]
  · have truncated : source.isTruncated = true := by simp [Source.isTruncated, whole]
    rw [if_pos truncated, if_neg whole, Options.warned, if_neg whole]
    rfl

theorem warn_prints (options : Options) (source : Source) (s : σ) :
    system.Prints s .err (options.warned source).toUTF8
      ((CommandLine.warn system.terminal options source).run s) := by
  rw [warn_eq]
  split
  · rename_i whole
    rw [Options.warned, if_pos whole]
    exact .nothing s .err
  · exact system.print_prints s .err _

variable (json)

def Prepares (options : Options) (before : σ) (source : Source) : Prop :=
  ∃ dump, system.HoldsDump json before options.model dump ∧ options.Makes dump source

inductive Refuses (options : Options) (before : σ) : Prop where
  | loading (reason : system.NoDump json before options.model)
  | making {dump : Dump} (loaded : system.HoldsDump json before options.model dump)
      (declines : options.Declines dump)

/-- The view with the source at its target, and before that the warning if there is one. -/
def written (options : Options) (before : σ) (source : Source) (target : Target π) : View π :=
  ((system.view before).print .err (options.warned source).toUTF8).write target source.text.toUTF8

/-- How a run ends, and what has changed then. -/
inductive Settles (options : Options) (before : σ) : Ending × σ → Prop where
  | delivered {source : Source} {target : Target π} {after : σ}
      (prepared : system.Prepares json options before source)
      (leads : system.leads after options.output = some target)
      (view : system.view after =
        (system.written options before source target).print .out (options.reported source).toUTF8) :
      Settles options before (.done, after)
  | refused {failure : Failure} {after : σ} (reason : system.Refuses json options before)
      (same : system.view after = system.view before) :
      Settles options before (.failed failure, after)
  | denied {source : Source} {failure : Failure} {now after : σ}
      (prepared : system.Prepares json options before source)
      (warned : system.view now = (system.view before).print .err (options.warned source).toUTF8)
      (denial : system.Denies now after options.output source.text) :
      Settles options before (.failed failure, after)
  | unreported {source : Source} {target : Target π} {part : ByteArray} {now after : σ}
      {fault : FileError}
      (prepared : system.Prepares json options before source)
      (ready : system.view now = system.written options before source target)
      (refusal : (system.terminal.printAll .out (options.report source)).run now =
        (.error fault, after))
      (leads : system.leads after options.output = some target)
      (starts : Starts part (options.reported source).toUTF8)
      (view : system.view after = (system.written options before source target).print .out part) :
      Settles options before (.failed ⟨fault.message, []⟩, after)
  | unwarned {source : Source} {part : ByteArray} {now after : σ} {fault : FileError}
      (prepared : system.Prepares json options before source) (truncated : source.truncations ≠ [])
      (ready : system.view now = system.view before)
      (refusal : (system.terminal.print .err (options.warned source)).run now =
        (.error fault, after))
      (starts : Starts part (options.warned source).toUTF8)
      (view : system.view after = (system.view before).print .err part) :
      Settles options before (.aborted, after)

variable {json}

theorem warn_error {options : Options} {source : Source} {s after : σ} {fault : FileError}
    (failed : (CommandLine.warn system.terminal options source).run s = (.error fault, after)) :
    source.truncations ≠ [] ∧
      (system.terminal.print .err (options.warned source)).run s = (.error fault, after) := by
  rw [warn_eq] at failed
  split at failed
  · cases failed
  · rename_i cut
    exact ⟨cut, failed⟩

theorem report_prints (options : Options) (source : Source) (s : σ) :
    system.Prints s .out (options.reported source).toUTF8
      ((system.terminal.printAll .out (options.report source)).run s) := by
  rw [← options.join_report]
  exact system.printAll_prints s .out _

theorem deliver_settles {options : Options} {before s : σ} {source : Source}
    (prepared : system.Prepares json options before source)
    (same : system.view s = system.view before) :
    system.Settles json options before
      ((CommandLine.deliver system.disk system.terminal options source).run s) := by
  have warning := system.warn_prints options source s
  rw [CommandLine.deliver, run_bind_state]
  cases warned : (CommandLine.warn system.terminal options source).run s with
  | mk _ now =>
    rw [warned] at warning
    cases warning with
    | part _ starts view =>
      obtain ⟨truncated, refusal⟩ := system.warn_error warned
      rw [same] at view
      exact .unwarned prepared truncated same refusal starts view
    | all _ shown =>
      have writing := system.writeSource_writing now options.output source.text
      rw [same] at shown
      simp only [run_bind_state]
      generalize (CommandLine.writeSource system.disk options.output source.text).run now = result
        at writing ⊢
      cases writing with
      | denied denial => exact .denied prepared shown denial
      | @wrote target now leads view =>
        have reporting := system.report_prints options source now
        have ready : system.view now = system.written options before source target := by
          rw [view, shown, written]
        simp only [run_bind_state]
        cases reported : (system.terminal.printAll .out (options.report source)).run now with
        | mk _ after =>
          rw [reported] at reporting
          cases reporting with
          | all kept view =>
            rw [ready] at view
            exact .delivered prepared ((congrFun kept _).trans leads) view
          | part kept starts view =>
            rw [ready] at view
            exact .unreported prepared ready reported ((congrFun kept _).trans leads) starts view

variable (json)

/-- Every run delivers and reports the source that the library makes of the dump, or changes no
regular file; but a report that is refused comes after the source is written. -/
theorem run_all_or_nothing (options : Options) (before : σ) :
    system.Settles json options before
      ((CommandLine.run json system.disk system.terminal options).run before) := by
  have loading := system.load_loading json before options.model
  rw [CommandLine.run, run_bind_state]
  generalize (Dump.load json system.disk options.model).run before = result at loading ⊢
  cases loading with
  | failed reason same => exact .refused (.loading reason) same
  | @loaded dump now held same =>
    have attempt := options.source_attempt dump
    simp only
    generalize (options.source dump).run = result at attempt ⊢
    cases attempt with
    | declined declines => exact .refused (.making held declines) same
    | made makes => exact system.deliver_settles ⟨dump, held, makes⟩ same

end FileSystem

/-- A working directory with the dump of a lone leaf, and room for so many characters
on the output. -/
def Machine.workshop (room : Option Nat) : Machine where
  tree :=
    FileTree.empty.put [['w'], "m.json".toList] (.file
      ("\x7b\"classes\":[\"low\"],\"feature_names\":[],\"tree\":\x7b" ++
        "\"node_count\":1,\"children_left\":[-1],\"children_right\":[-1],\"feature\":[-2]," ++
        "\"threshold\":[0.0],\"value\":[[[1.0]]]\x7d\x7d").toUTF8)
  screens
    | .out => ⟨"", room⟩
    | .err => ⟨"", none⟩

def Options.workshop (output : String) : Options where
  model := "m.json"
  output
  indentWidth := Config.standard.indentWidth
  decimalPlaces := Config.standard.decimalPlaces
  maxDepth := Config.standard.maxDepth
  showWeights := false
  blockSize := none
  blockType := none
  functionName := Config.standard.functionName
  typeName := Config.standard.typeName
  sanitizeNames := false
  print := false

namespace Machine

def ran (machine : Machine) (options : Options) : Ending × Machine :=
  (CommandLine.run Json.standard disk terminal options).run machine

set_option maxRecDepth 100000 in
theorem workshop_delivers :
    ((workshop none).ran (.workshop "out/c.c")).1 = .done ∧
      ∃ source target, system.Prepares Json.standard (.workshop "out/c.c") (workshop none) source ∧
        ((workshop none).ran (.workshop "out/c.c")).2.tree.leads "out/c.c" = some target ∧
        ((workshop none).ran (.workshop "out/c.c")).2.view =
          (system.written (.workshop "out/c.c") (workshop none) source target).print .out
            "File written:\nout/c.c\n".toUTF8 := by
  have done : ((workshop none).ran (.workshop "out/c.c")).1 = .done := by decide +kernel
  have settles :=
    FileSystem.run_all_or_nothing system Json.standard (.workshop "out/c.c") (workshop none)
  change system.Settles _ _ _ ((workshop none).ran (.workshop "out/c.c")) at settles
  generalize (workshop none).ran (.workshop "out/c.c") = result at done settles ⊢
  cases settles with
  | delivered prepared leads view => exact ⟨rfl, _, _, prepared, leads, view⟩
  | refused _ _ | denied _ _ _ | unreported _ _ _ _ _ _ | unwarned _ _ _ _ _ _ => cases done

/-- With room for three characters on the output, a run fails when the file is already
written. And where the output is the file, it shows more than the report, although nothing
asked for the source there. -/
theorem report_refused_late :
    ((workshop (some 3)).ran (.workshop "c.c")).1 =
        .failed ⟨"No space left on device (os error 28)", []⟩ ∧
      (workshop (some 3)).tree.contents [['w'], "c.c".toList] = none ∧
      ((workshop (some 3)).ran (.workshop "c.c")).2.tree.contents [['w'], "c.c".toList] ≠ none ∧
      (((workshop (some 3)).ran (.workshop "c.c")).2.screens .out).shown = "Fil" ∧
      ((workshop none).ran (.workshop "/dev/stdout")).1 = .done ∧
      ((workshop none).ran (.workshop "/dev/stdout")).2.tree.leads "/dev/stdout" =
        some (.device (some .out)) ∧
      (((workshop none).ran (.workshop "/dev/stdout")).2.screens .out).shown ≠
        "File written:\n/dev/stdout\n" := by
  decide +kernel

end Machine

end DecisionTreeC
