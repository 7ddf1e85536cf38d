import Mathlib.Data.List.Basic
import SourceBook.Proofs.CommandLine.Spelling
import SourceBook.Proofs.Log
import SourceBook.Proofs.Rerun

set_option autoImplicit false

namespace SourceBook

structure RunResult.AlikeBut (line otherLine : String) (first second : RunResult) : Prop where
  status : first.status = second.status
  stdout : first.stdout = second.stdout ∨ first.stdout = line ∧ second.stdout = otherLine
  files : first.files = second.files

namespace Options

def events (options : Options) (files : FileSystem) : List Event :=
  match options.format with
  | some _ =>
    match files.validateRoot options.root with
    | .error _ => []
    | .ok () => files.walkLog options.root targetExtension
  | none =>
    match files.collect options.root with
    | .error _ => []
    | .ok (collection, log) =>
      match files.writeDocument collection.document options.output with
      | .ok _ => log ++ [writingEvent options.output]
      | .error failure => log ++ [writingEvent options.output] ++ [writeFailureEvent failure]

def told (options : Options) (setting : Option Bytes) (files : FileSystem) : List Event :=
  (options.events files).filter (options.filter setting).shows

def complaint (options : Options) (files : FileSystem) : String :=
  if files.isDirectory options.root then ""
  else "Error: '" ++ Utf8.lossy options.root ++ "' is not a valid directory\n"

theorem events_eq_nil {options : Options} {files : FileSystem}
    (invalid : files.isDirectory options.root = false) : options.events files = [] := by
  have refused : files.validateRoot options.root = .error (.notADirectory options.root) := by
    rw [FileSystem.validateRoot, invalid]
    rfl
  rw [events]
  cases options.format with
  | some format => simp only [refused]
  | none => simp only [FileSystem.collect, refused]

theorem stderr_run (options : Options) (setting : Option Bytes) (files : FileSystem) :
    (options.run setting files).stderr =
      options.complaint files ++ String.join ((options.told setting files).map Event.line) := by
  rw [complaint, told]
  cases directory : files.isDirectory options.root with
  | false =>
    rw [events_eq_nil directory, run_eq_refuse setting directory]
    exact String.append_empty.symm
  | true =>
    have valid : files.validateRoot options.root = .ok () := if_pos directory
    rw [if_pos rfl, String.empty_append, run, events]
    cases options.format with
    | some format =>
      dsimp only
      rw [list, valid]
      rfl
    | none =>
      dsimp only
      rw [create]
      obtain ⟨collection, log, collected, -⟩ := FileSystem.exists_comesOf valid
      rw [collected]
      dsimp only
      cases files.writeDocument collection.document options.output <;> rfl

structure SameTask (options others : Options) : Prop where
  root : options.root = others.root
  output : options.output = others.output
  format : options.format = others.format

section SameTask

variable {options others : Options} (same : options.SameTask others)

include same

theorem SameTask.events_eq (files : FileSystem) : options.events files = others.events files := by
  rw [events, events, same.root, same.output, same.format]

theorem SameTask.complaint_eq (files : FileSystem) :
    options.complaint files = others.complaint files := by
  rw [complaint, complaint, same.root]

theorem SameTask.run_alikeBut (setting otherSetting : Option Bytes) (files : FileSystem) :
    RunResult.AlikeBut options.successLine others.successLine (options.run setting files)
      (others.run otherSetting files) := by
  rw [run, run, same.format]
  cases others.format with
  | some format =>
    dsimp only
    rw [list, list, same.root]
    cases files.validateRoot others.root <;> exact ⟨rfl, .inl rfl, rfl⟩
  | none =>
    dsimp only
    rw [create, create, same.root, same.output]
    rcases files.collect others.root with failure | ⟨collection, log⟩
    next => exact ⟨rfl, .inl rfl, rfl⟩
    next =>
      dsimp only
      cases files.writeDocument collection.document others.output with
      | ok written => exact ⟨rfl, .inr ⟨rfl, rfl⟩, rfl⟩
      | error failure => exact ⟨rfl, .inl rfl, rfl⟩

theorem SameTask.run_alike (quiet : options.quiet = others.quiet)
    (setting otherSetting : Option Bytes) (files : FileSystem) :
    (options.run setting files).Alike (others.run otherSetting files) := by
  have line : options.successLine = others.successLine := by
    rw [successLine, successLine, quiet, same.output]
  obtain ⟨status, stdout, written⟩ := same.run_alikeBut setting otherSetting files
  refine ⟨status, ?_, written⟩
  rcases stdout with stdout | ⟨succeeded, succeededToo⟩
  next => exact stdout
  next => rw [succeeded, succeededToo, line]

theorem SameTask.run_hushed (loud : options.quiet = false) (hushed : others.quiet = true)
    (setting otherSetting : Option Bytes) (files : FileSystem) :
    RunResult.AlikeBut ("Successfully created " ++ Utf8.lossy options.output ++ "\n") ""
      (options.run setting files) (others.run otherSetting files) := by
  have both := same.run_alikeBut setting otherSetting files
  rw [successLine, successLine, loud, hushed] at both
  exact both

theorem SameTask.stderr_eq {setting : Option Bytes} (directed : Filter.HoldsDirective setting)
    (files : FileSystem) :
    (options.run setting files).stderr = (others.run setting files).stderr := by
  have filters : options.filter setting = others.filter setting := by
    obtain ⟨text, rfl, holds⟩ := directed
    rw [filter, filter, Filter.ofSetting_of_holdsDirective ⟨text, rfl, holds⟩,
      Filter.ofSetting_of_holdsDirective ⟨text, rfl, holds⟩]
  rw [stderr_run, stderr_run, told, told, same.complaint_eq, same.events_eq, filters]

end SameTask

section Undirected

variable {options others : Options} {setting otherSetting : Option Bytes} {files : FileSystem}
  (undirected : ¬Filter.HoldsDirective setting)

include undirected

theorem shows_iff_of_undirected {event : Event} :
    (options.filter setting).shows event ↔
      event.level.rank ≤ (Level.ofFlags options.quiet options.verbose).rank := by
  rw [filter, Filter.ofSetting_of_not_holdsDirective undirected, Filter.shows_upTo,
    decide_eq_true_iff]

theorem sublist_told_of_error {errors : List Event} (raised : errors.Sublist (options.events files))
    (grave : ∀ event ∈ errors, event.level = .error) :
    errors.Sublist (options.told setting files) := by
  have shown : ∀ event ∈ errors, (options.filter setting).shows event := by
    intro event member
    rw [shows_iff_of_undirected undirected, grave event member]
    exact Level.rank_error_le _
  rw [told, ← List.filter_eq_self.2 shown]
  exact raised.filter _

theorem sublist_told (same : options.SameTask others)
    (undirectedToo : ¬Filter.HoldsDirective otherSetting)
    (noLouder : options.quiet = true ∨
      others.quiet = false ∧ min options.verbose 3 ≤ others.verbose) :
    (options.told setting files).Sublist (others.told otherSetting files) := by
  have ranks := Level.rank_ofFlags_le noLouder
  rw [told, told, same.events_eq]
  apply List.monotone_filter_right
  intro event
  rw [shows_iff_of_undirected undirected, shows_iff_of_undirected undirectedToo]
  exact fun shown => shown.trans ranks

end Undirected

section Collected

variable {options : Options} {files : FileSystem} {collection : Collection} {log : List Event}
  (mode : options.format = none) (collected : files.collect options.root = .ok (collection, log))

include mode collected

theorem sublist_events_of_collect :
    (collection.skipped.map fun skipped => skippedEvent skipped.failure).Sublist
      (options.events files) := by
  obtain ⟨comes, logged⟩ := FileSystem.comesOf_of_collect collected
  have told : (collection.skipped.map fun skipped => skippedEvent skipped.failure).Sublist log := by
    rw [comes.skipped, logged]
    exact ((Outcome.sublist_skipped _).trans (List.sublist_append_right _ _)).trans
      (List.sublist_append_left _ _)
  simp only [events, mode, collected]
  cases files.writeDocument collection.document options.output with
  | ok written => exact told.trans (List.sublist_append_left _ _)
  | error failure =>
    exact told.trans ((List.sublist_append_left _ _).trans (List.sublist_append_left _ _))

theorem exists_errors {setting : Option Bytes} (undirected : ¬Filter.HoldsDirective setting) :
    ∃ errors : List Event, errors.Sublist (options.told setting files) ∧
      List.Forall₂
        (fun skipped event => event.level = .error ∧ files.Announces skipped.entry event)
        collection.skipped errors := by
  have accounts :=
    FileSystem.accounts_of_comesOf (FileSystem.comesOf_of_collect collected).1
  refine ⟨_, sublist_told_of_error undirected (sublist_events_of_collect mode collected)
    (List.forall_mem_map.2 fun _ _ => rfl), ?_⟩
  refine List.forall₂_map_right_iff.2 (List.forall₂_same.2 fun skipped member => ⟨rfl, ?_⟩)
  obtain ⟨cause, unreadable, failure⟩ := accounts.failure skipped member
  rw [failure]
  exact .skipped unreadable

theorem mem_told_of_unwritten {setting : Option Bytes} {cause : AccessError}
    (undirected : ¬Filter.HoldsDirective setting)
    (failed : files.write options.output (Utf8.encode collection.document.text) = .error cause) :
    ⟨.error, .running,
      "Error writing output file " ++ Utf8.lossy options.output ++ ": " ++ cause.message⟩ ∈
        options.told setting files := by
  have unwritten : files.writeDocument collection.document options.output =
      .error (.unwritable options.output cause) := by
    rw [FileSystem.writeDocument, failed]
    rfl
  refine List.mem_filter.2 ⟨?_, ?_⟩
  next =>
    simp only [events, mode, collected, unwritten]
    exact List.mem_append_right _ (List.mem_singleton_self _)
  next =>
    rw [shows_iff_of_undirected undirected]
    exact Level.rank_error_le _

end Collected

end Options

structure Accepted (output : Option Bytes) where
  words : List Bytes
  arguments : List Argument
  options : Options
  spells : CommandLine.Spells words arguments
  read : CommandLine.read output words = .ok (.run options)

namespace Accepted

variable {output : Option Bytes}

theorem exists_accepted {words : List Bytes} {options : Options}
    (read : CommandLine.read output words = .ok (.run options)) :
    ∃ line : Accepted output, line.words = words ∧ line.options = options := by
  obtain ⟨arguments, spells⟩ := CommandLine.exists_spells read
  exact ⟨⟨words, arguments, options, spells, read⟩, rfl, rfl⟩

def run (line : Accepted output) (log : Option Bytes) (files : FileSystem) : RunResult :=
  SourceBook.run files ⟨output, log⟩ line.words

def told (line : Accepted output) (log : Option Bytes) (files : FileSystem) : List Event :=
  line.options.told log files

def task (line : Accepted output) : List Argument :=
  line.arguments.filter fun argument => argument ≠ .verbose ∧ argument ≠ .quiet

def Quiet (line : Accepted output) : Prop := .quiet ∈ line.arguments

def loudness (line : Accepted output) : Nat := line.arguments.count .verbose

def Hears (line : Accepted output) (level : Level) : Prop :=
  (line.Quiet → level = .error) ∧ (¬line.Quiet → level.rank ≤ line.loudness + 2)

def NoLouder (first second : Accepted output) : Prop :=
  first.Quiet ∨ ¬second.Quiet ∧ min first.loudness 3 ≤ second.loudness

theorem run_eq (line : Accepted output) (log : Option Bytes) (files : FileSystem) :
    line.run log files = line.options.run log files := by
  rw [run, SourceBook.run, line.read]

theorem answers (line : Accepted output) : line.options.Answers output line.arguments :=
  CommandLine.answers_of_read line.spells line.read

theorem quiet_iff (line : Accepted output) : line.options.quiet = true ↔ line.Quiet := by
  rw [Quiet, ← List.count_pos_iff, line.answers.quiet]
  cases line.options.quiet <;> simp

theorem filterMap_task {α : Type} (line : Accepted output) {view : Argument → Option α}
    (verbose : view .verbose = none) (quiet : view .quiet = none) :
    line.task.filterMap view = line.arguments.filterMap view := by
  rw [task, List.filterMap_filter]
  congr 1
  funext argument
  cases argument <;> simp [verbose, quiet]

section SameTask

variable {first second : Accepted output} (same : first.task = second.task)

include same

theorem filterMap_eq {α : Type} {view : Argument → Option α} (verbose : view .verbose = none)
    (quiet : view .quiet = none) :
    first.arguments.filterMap view = second.arguments.filterMap view := by
  rw [← first.filterMap_task verbose quiet, same, second.filterMap_task verbose quiet]

theorem sameTask : first.options.SameTask second.options := by
  have answers := first.answers
  have answersToo := second.answers
  constructor
  case root =>
    have roots : first.arguments.filterMap Argument.root? = _ := filterMap_eq same rfl rfl
    rw [answers.root, answersToo.root] at roots
    exact List.singleton_inj.1 roots
  case output => rw [answers.output, answersToo.output, filterMap_eq same rfl rfl]
  case format =>
    have formats : first.arguments.filterMap Argument.format? = _ := filterMap_eq same rfl rfl
    rw [answers.format, answersToo.format] at formats
    simpa using congrArg List.head? formats

end SameTask

theorem mem_told_iff {line : Accepted output} {log : Option Bytes} {files : FileSystem}
    (undirected : ¬Filter.HoldsDirective log) {event : Event} :
    event ∈ line.told log files ↔
      event ∈ line.options.events files ∧ line.Hears event.level := by
  rw [told, Options.told, List.mem_filter, Options.shows_iff_of_undirected undirected, Hears,
    ← quiet_iff]
  apply and_congr_right
  intro _
  cases line.options.quiet with
  | true => simp [Level.ofFlags, Level.rank_le_error_iff]
  | false =>
    have atMost := event.level.rank_le
    rw [Level.rank_ofFlags, line.answers.verbose, loudness, Draft.mostVerbose]
    simp only [reduceCtorEq, false_implies, not_false_eq_true, forall_const, true_and]
    omega

structure ToldApart (files : FileSystem) (first second : Accepted output) : Prop where
  alike : (first.Quiet ↔ second.Quiet) → ∀ log otherLog,
    (first.run log files).Alike (second.run otherLog files)
  hushed : ¬first.Quiet → second.Quiet → ∀ log otherLog,
    RunResult.AlikeBut ("Successfully created " ++ Utf8.lossy first.options.output ++ "\n") ""
      (first.run log files) (second.run otherLog files)
  stderr : ∀ log, ∃ lines,
    (first.run log files).stderr = first.options.complaint files ++ String.join lines ∧
      List.Forall₂ Event.Written (first.told log files) lines
  heard : ∀ log, ¬Filter.HoldsDirective log → ∀ event,
    event ∈ first.told log files ↔
      event ∈ first.options.events files ∧ first.Hears event.level
  chain : first.NoLouder second → ∀ log otherLog,
    ¬Filter.HoldsDirective log → ¬Filter.HoldsDirective otherLog →
      (first.told log files).Sublist (second.told otherLog files)
  skipped : first.options.format = none → ∀ log, ¬Filter.HoldsDirective log →
    ∀ collection collectLog, files.collect first.options.root = .ok (collection, collectLog) →
      ∃ errors : List Event, errors.Sublist (first.told log files) ∧
        List.Forall₂
          (fun skipped event => event.level = .error ∧ files.Announces skipped.entry event)
          collection.skipped errors
  unwritten : first.options.format = none → ∀ log, ¬Filter.HoldsDirective log →
    ∀ collection collectLog cause,
      files.collect first.options.root = .ok (collection, collectLog) →
      files.write first.options.output (Utf8.encode collection.document.text) = .error cause →
        ⟨.error, .running, "Error writing output file " ++ Utf8.lossy first.options.output ++
          ": " ++ cause.message⟩ ∈ first.told log files
  directed : ∀ log, Filter.HoldsDirective log →
    (first.run log files).stderr = (second.run log files).stderr
  decided : ∀ text, Filter.HoldsDirective (some (Utf8.encode text)) → ∀ event,
    event ∈ first.told (some (Utf8.encode text)) files ↔
      event ∈ first.options.events files ∧
        ∃ directive, Filter.Decides event.origin (Filter.readDirectives text) directive ∧
          directive.threshold.covers event.level

def hushedLine : Accepted none where
  words := [Utf8.encode "src", Switch.quiet.word]
  arguments := [.root (Utf8.encode "src"), .quiet]
  options := ⟨Utf8.encode "src", Utf8.encode "go_sources.md", none, true, 0⟩
  spells := .word (.root rfl) (.word .quiet .nil)
  read := rfl

def loudLine : Accepted none where
  words := [hyphen :: ['v'.toUInt8, 'v'.toUInt8], Utf8.encode "src"]
  arguments := [.verbose, .verbose, .root (Utf8.encode "src")]
  options := ⟨Utf8.encode "src", Utf8.encode "go_sources.md", none, false, 2⟩
  spells :=
    have flags : CommandLine.SpellsWord (hyphen :: ['v'.toUInt8, 'v'.toUInt8]) none
        [.verbose, .verbose] :=
      .letters (List.cons_ne_nil _ _) (.verbose (.verbose .nil))
    .word flags (.word (.root rfl) .nil)
  read := rfl

example : hushedLine.told none FileSystem.mixedFiles = [
    ⟨.error, .collecting,
      "Error reading file src/data.go: stream did not contain valid UTF-8"⟩,
    ⟨.error, .collecting,
      "Error reading file src/lost.go: No such file or directory (os error 2)"⟩] := by
  rfl

end Accepted

end SourceBook
