import SourceBook.Proofs.Output
import SourceBook.Proofs.Run
import SourceBook.Proofs.Sources
import SourceBook.Proofs.Walk.Beside

set_option autoImplicit false

namespace SourceBook

namespace FileSystem

def OutputApart (files : FileSystem) (root output : Bytes) : Prop :=
  ∀ entry ∈ files.entries root targetExtension, ∀ location data other,
    files.lookUp output = .ok (.file location data) →
      files.lookUp entry.path ≠ .ok (.file location other)

section Written

variable {files written : FileSystem} {root output data : Bytes} {base target : Location}
  {inner : Listing} (resolved : files.lookUp root = .ok (.directory base inner))
  (wrote : files.Wrote output data written target) (apart : written.OutputApart root output)

include resolved wrote apart

theorem ne_target_of_matches {names location : Location} {held : Bytes}
    (found : written.Matches root base targetExtension names)
    (leads : written.lookUp (Path.joinAll root names) = .ok (.file location held)) :
    location ≠ target := by
  rintro rfl
  obtain ⟨_, resolvedNow⟩ := lookUp_directory_of_sameBut wrote.sameBut resolved
  have entry := (mem_entries_iff resolvedNow).2 ⟨names, found, rfl⟩
  exact apart _ entry location data held wrote.lookUp leads

theorem source_kept {names : Location} {text : String}
    (found : files.Matches root base targetExtension names)
    (holds : files.HoldsText (Path.joinAll root names) text) :
    written.Matches root base targetExtension names ∧
      written.HoldsText (Path.joinAll root names) text := by
  have foundNow := found.sameBut resolved wrote.sameBut fun _ => ⟨data, wrote.file⟩
  obtain ⟨location, leads⟩ := holds
  have elsewhere : location ≠ target := by
    rintro rfl
    have leadsNow := resolve_target_of_sameBut wrote.sameBut (lookUp_eq_ok_iff.1 leads) rfl
      wrote.file
    exact ne_target_of_matches resolved wrote apart foundNow (lookUp_eq_ok_iff.2 leadsNow) rfl
  exact ⟨foundNow, location, lookUp_file_of_sameBut wrote.sameBut leads elsewhere⟩

theorem source_of_written {names : Location} {text : String}
    (found : written.Matches root base targetExtension names)
    (holds : written.HoldsText (Path.joinAll root names) text) :
    files.Matches root base targetExtension names ∧
      files.HoldsText (Path.joinAll root names) text := by
  obtain ⟨location, leads⟩ := holds
  have elsewhere := ne_target_of_matches resolved wrote apart found leads
  obtain ⟨_, resolvedNow⟩ := lookUp_directory_of_sameBut wrote.sameBut resolved
  have before := lookUp_file_of_sameBut wrote.sameBut.symm leads elsewhere
  refine ⟨found.sameBut resolvedNow wrote.sameBut.symm ?_, location, before⟩
  intro here
  have stands : written.at? (base ++ names) = some (.leaf (.file data)) := here ▸ wrote.file
  cases found_eq_of_stands resolvedNow leads stands rfl
  exact absurd here elsewhere

theorem sourceList_written : written.sourceList root = files.sourceList root := by
  obtain ⟨_, resolvedNow⟩ := lookUp_directory_of_sameBut wrote.sameBut resolved
  apply eq_of_ascending (sourceList_ascending resolvedNow) (sourceList_ascending resolved)
  intro source
  rw [mem_sourceList resolvedNow, mem_sourceList resolved]
  constructor
  next => exact fun ⟨found, holds⟩ => source_of_written resolved wrote apart found holds
  next => exact fun ⟨found, holds⟩ => source_kept resolved wrote apart found holds

theorem exists_collect_written {collection : Collection} {log : List Event}
    (collected : files.collect root = .ok (collection, log)) :
    ∃ again logAgain, written.collect root = .ok (again, logAgain) ∧
      again.document = collection.document := by
  obtain ⟨_, resolvedNow⟩ := lookUp_directory_of_sameBut wrote.sameBut resolved
  obtain ⟨_, _, collects, document⟩ := exists_document_eq resolved
  obtain ⟨again, logAgain, collectsNow, documentNow⟩ := exists_document_eq resolvedNow
  cases collected.symm.trans collects
  refine ⟨again, logAgain, collectsNow, ?_⟩
  rw [documentNow, document, sourceList_written resolved wrote apart]

end Written

end FileSystem

structure RunResult.Alike (first second : RunResult) : Prop where
  status : first.status = second.status
  stdout : first.stdout = second.stdout
  files : first.files = second.files

theorem RunResult.Alike.refl (result : RunResult) : result.Alike result := ⟨rfl, rfl, rfl⟩

namespace Options

theorem run_of_write {options : Options} {files written : FileSystem} {collection : Collection}
    {log : List Event} (setting : Option Bytes) (mode : options.format = none)
    (collected : files.collect options.root = .ok (collection, log))
    (wrote : files.write options.output (Utf8.encode collection.document.text) = .ok written) :
    ∃ stderr, options.run setting files = ⟨0, options.successLine, stderr, written⟩ := by
  have result := FileSystem.writeDocument_of_write wrote
  simp only [run, mode, create, collected, result]
  exact ⟨_, rfl⟩

theorem run_alike {options : Options} {files : FileSystem} {setting : Option Bytes}
    (apart : options.format = none →
      (options.run setting files).files.OutputApart options.root options.output) :
    (options.run setting (options.run setting files).files).Alike (options.run setting files) := by
  obtain ⟨ending, ends⟩ := options.exists_ends setting files
  generalize first : options.run setting files = result at ends apart ⊢
  cases ends with
  | rootless | listed | unwritten =>
    rw [first]
    exact .refl _
  | @written base inner collection log written _ root mode collected wrote =>
    obtain ⟨target, wroteFile⟩ := FileSystem.exists_wrote wrote
    obtain ⟨again, logAgain, collectedAgain, same⟩ :=
      FileSystem.exists_collect_written root wroteFile (apart mode) collected
    have wroteAgain := FileSystem.write_again wrote
    rw [← same] at wroteAgain
    obtain ⟨_, second⟩ := options.run_of_write setting mode collectedAgain wroteAgain
    rw [second]
    exact ⟨rfl, rfl, rfl⟩

end Options

theorem run_of_accepted {environment : Environment} {words : List Bytes} {options : Options}
    (accepted : CommandLine.read environment.output words = .ok (.run options))
    (files : FileSystem) : run files environment words = options.run environment.log files := by
  simp only [run, accepted]

theorem run_idempotent {files : FileSystem} {environment : Environment} {words : List Bytes}
    (apart : ∀ options, CommandLine.read environment.output words = .ok (.run options) →
      options.format = none →
        (run files environment words).files.OutputApart options.root options.output) :
    (run (run files environment words).files environment words).Alike
      (run files environment words) := by
  cases read : CommandLine.read environment.output words with
  | error problem =>
    have unchanged : (run files environment words).files = files := by simp only [run, read]
    rw [unchanged]
    exact .refl _
  | ok request =>
    cases request with
    | help | version =>
      have unchanged : (run files environment words).files = files := by simp only [run, read]
      rw [unchanged]
      exact .refl _
    | run options =>
      have apart := apart options read
      rw [run_of_accepted read] at apart ⊢
      rw [run_of_accepted read]
      exact Options.run_alike apart

def linkedWords : List Bytes := [Utf8.encode "pkg", Utf8.encode "-opkg/out.md"]

-- The output lies in the scanned directory, as a link to a file that the first run makes.
theorem run_idempotent_linked :
    (∀ options, CommandLine.read none linkedWords = .ok (.run options) → options.format = none →
      (run FileSystem.linkedFiles ⟨none, none⟩ linkedWords).files.OutputApart options.root
        options.output) ∧
    (run (run FileSystem.linkedFiles ⟨none, none⟩ linkedWords).files ⟨none, none⟩
      linkedWords).Alike (run FileSystem.linkedFiles ⟨none, none⟩ linkedWords) := by
  have apart : ∀ options, CommandLine.read none linkedWords = .ok (.run options) →
      options.format = none →
        (run FileSystem.linkedFiles ⟨none, none⟩ linkedWords).files.OutputApart options.root
          options.output := by
    intro options accepted _
    have request : CommandLine.read none linkedWords =
        .ok (.run ⟨Utf8.encode "pkg", Utf8.encode "pkg/out.md", none, false, 0⟩) := rfl
    cases request.symm.trans accepted
    generalize first : run FileSystem.linkedFiles ⟨none, none⟩ linkedWords = result
    have entries : result.files.entries (Utf8.encode "pkg") targetExtension =
        [⟨Utf8.encode "pkg/util.go", Utf8.encode "util.go"⟩] := first ▸ rfl
    have outputLeads : ∃ text, result.files.lookUp (Utf8.encode "pkg/out.md") =
        .ok (.file [.ofText "made.md" (by decide)] text) := first ▸ ⟨_, rfl⟩
    have entryLeads : ∃ text, result.files.lookUp (Utf8.encode "pkg/util.go") =
        .ok (.file [.ofText "pkg" (by decide), .ofText "util.go" (by decide)] text) :=
      first ▸ ⟨_, rfl⟩
    intro entry member location data other leads
    rw [entries, List.mem_singleton] at member
    subst member
    obtain ⟨_, outputLeads⟩ := outputLeads
    obtain ⟨_, entryLeads⟩ := entryLeads
    rw [outputLeads] at leads
    cases leads
    rw [entryLeads]
    simp
  exact ⟨apart, run_idempotent apart⟩

end SourceBook
