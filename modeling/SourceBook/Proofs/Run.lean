import Mathlib.Logic.ExistsUnique
import SourceBook.Proofs.Collection
import SourceBook.Proofs.FileSystem.Writing
import SourceBook.Run

set_option autoImplicit false

namespace SourceBook

inductive Ending where
  | misused
  | answered
  | rootless
  | listed
  | written
  | unwritten
  deriving DecidableEq

namespace Options

inductive Ends (options : Options) (files : FileSystem) : Ending → RunResult → Prop where
  | rootless
      (noDirectory : ∀ base inner, files.lookUp options.root ≠ .ok (.directory base inner)) :
      options.Ends files .rootless
        ⟨1, "", "Error: '" ++ Utf8.lossy options.root ++ "' is not a valid directory\n", files⟩
  | listed {base : Location} {inner : Listing} {format : ListFormat} {stdout stderr : String}
      (root : files.lookUp options.root = .ok (.directory base inner))
      (mode : options.format = some format) :
      options.Ends files .listed ⟨0, stdout, stderr, files⟩
  | written {base : Location} {inner : Listing} {collection : Collection} {log : List Event}
      {written : FileSystem} {stderr : String}
      (root : files.lookUp options.root = .ok (.directory base inner))
      (mode : options.format = none)
      (collected : files.collect options.root = .ok (collection, log))
      (wrote : files.write options.output (Utf8.encode collection.document.text) = .ok written)
      (holds : written.HoldsText options.output collection.document.text) :
      options.Ends files .written
        ⟨0, if options.quiet then "" else "Successfully created " ++ Utf8.lossy options.output ++ "\n",
          stderr, written⟩
  | unwritten {base : Location} {inner : Listing} {collection : Collection} {log : List Event}
      {cause : AccessError} {stderr : String}
      (root : files.lookUp options.root = .ok (.directory base inner))
      (mode : options.format = none)
      (collected : files.collect options.root = .ok (collection, log))
      (failed : files.write options.output (Utf8.encode collection.document.text) = .error cause) :
      options.Ends files .unwritten ⟨0, "", stderr, files⟩

theorem Ends.unique {options : Options} {files : FileSystem} {ending other : Ending}
    {result another : RunResult} (first : options.Ends files ending result)
    (second : options.Ends files other another) : ending = other := by
  cases first with
  | rootless noDirectory =>
    cases second with
    | rootless => rfl
    | listed root | written root | unwritten root => exact absurd root (noDirectory _ _)
  | listed root listing =>
    cases second with
    | rootless noDirectory => exact absurd root (noDirectory _ _)
    | listed => rfl
    | written _ mode | unwritten _ mode => cases listing.symm.trans mode
  | written root mode collected wrote =>
    cases second with
    | rootless noDirectory => exact absurd root (noDirectory _ _)
    | listed _ listing => cases listing.symm.trans mode
    | written => rfl
    | unwritten _ _ again failed =>
      cases collected.symm.trans again
      cases wrote.symm.trans failed
  | unwritten root mode collected failed =>
    cases second with
    | rootless noDirectory => exact absurd root (noDirectory _ _)
    | listed _ listing => cases listing.symm.trans mode
    | written _ _ again wrote =>
      cases collected.symm.trans again
      cases wrote.symm.trans failed
    | unwritten => rfl

theorem errorLine_eq (shown : String) :
    "Error: " ++ ("'" ++ shown ++ "' is not a valid directory") ++ "\n" =
      "Error: '" ++ shown ++ "' is not a valid directory\n" := by
  have opening : "Error: '" = "Error: " ++ "'" := rfl
  have closing : "' is not a valid directory\n" = "' is not a valid directory" ++ "\n" := rfl
  rw [opening, closing]
  simp only [String.append_assoc]

theorem refuse_notADirectory (files : FileSystem) (root : Bytes) :
    refuse files (.notADirectory root) =
      ⟨1, "", "Error: '" ++ Utf8.lossy root ++ "' is not a valid directory\n", files⟩ :=
  congrArg (fun line => RunResult.mk 1 "" line files) (errorLine_eq (Utf8.lossy root))

theorem run_eq_refuse {options : Options} {files : FileSystem} (setting : Option Bytes)
    (invalid : files.isDirectory options.root = false) :
    options.run setting files =
      ⟨1, "", "Error: '" ++ Utf8.lossy options.root ++ "' is not a valid directory\n", files⟩ := by
  have refused : files.validateRoot options.root = .error (.notADirectory options.root) := by
    rw [FileSystem.validateRoot, invalid]
    rfl
  rw [← refuse_notADirectory, run]
  cases options.format with
  | none => simp only [create, FileSystem.collect, refused]
  | some format => simp only [list, refused]

theorem ends_of_not_directory {options : Options} {files : FileSystem} (setting : Option Bytes)
    (noDirectory : ∀ base inner, files.lookUp options.root ≠ .ok (.directory base inner)) :
    options.Ends files .rootless (options.run setting files) := by
  rw [run_eq_refuse setting (FileSystem.isDirectory_eq_false_iff.2 noDirectory)]
  exact .rootless noDirectory

theorem exists_ends (options : Options) (setting : Option Bytes) (files : FileSystem) :
    ∃ ending, options.Ends files ending (options.run setting files) := by
  by_cases directory : ∃ base inner, files.lookUp options.root = .ok (.directory base inner)
  next =>
    have valid := FileSystem.validateRoot_eq_ok_iff.2 directory
    rcases directory with ⟨base, inner, root⟩
    cases mode : options.format with
    | some format =>
      simp only [run, mode, list, valid]
      exact ⟨.listed, .listed root mode⟩
    | none =>
      obtain ⟨collection, log, collected, -⟩ := FileSystem.exists_comesOf valid
      simp only [run, mode, create, collected, FileSystem.writeDocument]
      cases wrote : files.write options.output (Utf8.encode collection.document.text) with
      | ok written =>
        exact ⟨.written, .written root mode collected wrote (FileSystem.holdsText_of_write wrote)⟩
      | error cause => exact ⟨.unwritten, .unwritten root mode collected wrote⟩
  next =>
    simp only [not_exists] at directory
    exact ⟨.rootless, ends_of_not_directory setting directory⟩

end Options

section Run

variable {files : FileSystem} {environment : Environment} {words : List Bytes}

inductive Ends (files : FileSystem) (environment : Environment) (words : List Bytes) :
    Ending → RunResult → Prop where
  | misused {problem : UsageError} {stderr : String}
      (refused : CommandLine.read environment.output words = .error problem) :
      Ends files environment words .misused ⟨1, "", stderr, files⟩
  | answered {stdout stderr : String}
      (asked : CommandLine.read environment.output words = .ok .help ∨
        CommandLine.read environment.output words = .ok .version) :
      Ends files environment words .answered ⟨0, stdout, stderr, files⟩
  | accepted {options : Options} {ending : Ending} {result : RunResult}
      (accepted : CommandLine.read environment.output words = .ok (.run options))
      (ends : options.Ends files ending result) :
      Ends files environment words ending result

theorem Ends.unique {ending other : Ending} {result another : RunResult}
    (first : Ends files environment words ending result)
    (second : Ends files environment words other another) : ending = other := by
  cases first with
  | misused refused =>
    cases second with
    | misused => rfl
    | answered asked => simp [refused] at asked
    | accepted accepted => cases refused.symm.trans accepted
  | answered asked =>
    cases second with
    | misused refused => simp [refused] at asked
    | answered => rfl
    | accepted accepted => simp [accepted] at asked
  | accepted accepted ends =>
    cases second with
    | misused refused => cases refused.symm.trans accepted
    | answered asked => simp [accepted] at asked
    | accepted again others =>
      cases accepted.symm.trans again
      exact ends.unique others

theorem exists_ends (files : FileSystem) (environment : Environment) (words : List Bytes) :
    ∃ ending, Ends files environment words ending (run files environment words) := by
  rw [run]
  cases read : CommandLine.read environment.output words with
  | error problem => exact ⟨.misused, .misused read⟩
  | ok request =>
    cases request with
    | help => exact ⟨.answered, .answered (.inl read)⟩
    | version => exact ⟨.answered, .answered (.inr read)⟩
    | run options =>
      rcases options.exists_ends environment.log files with ⟨ending, ends⟩
      exact ⟨ending, .accepted read ends⟩

theorem exists_unique_ending (files : FileSystem) (environment : Environment)
    (words : List Bytes) :
    ∃! ending, Ends files environment words ending (run files environment words) := by
  rcases exists_ends files environment words with ⟨ending, ends⟩
  exact ⟨ending, ends, fun other others => others.unique ends⟩

theorem status_eq_one_iff :
    (run files environment words).status = 1 ↔
      (∃ problem, CommandLine.read environment.output words = .error problem) ∨
        ∃ options, CommandLine.read environment.output words = .ok (.run options) ∧
          ∀ base inner, files.lookUp options.root ≠ .ok (.directory base inner) := by
  rcases exists_ends files environment words with ⟨ending, ends⟩
  generalize run files environment words = result at ends ⊢
  cases ends with
  | misused refused => exact iff_of_true rfl (.inl ⟨_, refused⟩)
  | answered asked => rcases asked with asked | asked <;> simp [asked]
  | accepted accepted ends =>
    cases ends with
    | rootless noDirectory => exact iff_of_true rfl (.inr ⟨_, accepted, noDirectory⟩)
    | listed root | written root | unwritten root => simp [accepted, root]

example :
    (run FileSystem.mixedFiles ⟨none, none⟩ [Utf8.encode "src", Utf8.encode "-osrc"]).status = 0 := by
  rfl

theorem unchanged_of_failed (failed : (run files environment words).status ≠ 0) :
    (run files environment words).stdout = "" ∧ (run files environment words).files = files := by
  rcases exists_ends files environment words with ⟨ending, ends⟩
  generalize run files environment words = result at ends failed ⊢
  cases ends with
  | misused => exact ⟨rfl, rfl⟩
  | answered => exact absurd rfl failed
  | accepted _ ends =>
    cases ends with
    | rootless => exact ⟨rfl, rfl⟩
    | listed | written | unwritten => exact absurd rfl failed

end Run

end SourceBook
