import SourceBook.Proofs.FileSystem.Writing
import SourceBook.Proofs.Outcomes
import SourceBook.Proofs.Walk.Beside

set_option autoImplicit false

namespace SourceBook

namespace FileSystem

structure Edited (files : FileSystem) (target : Location) (others : FileSystem) : Prop where
  sameBut : files.SameBut target others
  file : ∃ data, files.at? target = some (.leaf (.file data))
  otherFile : ∃ data, others.at? target = some (.leaf (.file data))

theorem edited_put {files : FileSystem} {target : Location} {old : Bytes}
    (stands : files.at? target = some (.leaf (.file old))) (data : Bytes) :
    files.Edited target (files.put target (.file data)) := by
  obtain ⟨parent, name, inner, rfl, above, found⟩ := Node.exists_parent_of_at?_leaf stands
  have free : ∀ node, inner.find? name = some node → ∃ data, node = .leaf (.file data) := by
    intro node isNode
    exact ⟨old, Option.some.inj (isNode.symm.trans found)⟩
  exact ⟨sameBut_put above free data, ⟨old, stands⟩, ⟨data, at?_put_self above free data⟩⟩

section Edited

variable {files others : FileSystem} {target : Location} (edited : files.Edited target others)

include edited

theorem Edited.symm : others.Edited target files :=
  ⟨edited.sameBut.symm, edited.otherFile, edited.file⟩

theorem Edited.takenAlike : files.top.TakenAlike target others.top := by
  obtain ⟨data, stands⟩ := edited.file
  obtain ⟨other, standsToo⟩ := edited.otherFile
  rw [at?] at stands standsToo
  exact iff_of_false (by simp [stands]) (by simp [standsToo])

theorem Edited.readText_eq {path : Bytes}
    (apart : ∀ data, files.lookUp path ≠ .ok (.file target data)) :
    others.readText path = files.readText path := by
  cases found : files.lookUp path with
  | error cause =>
    have foundToo := lookUp_error_of_sameBut edited.sameBut edited.takenAlike found
    simp only [readText, readBytes, found, foundToo]
  | ok what =>
    cases what with
    | directory location inner =>
      obtain ⟨other, foundToo⟩ := lookUp_directory_of_sameBut edited.sameBut found
      simp only [readText, readBytes, found, foundToo]
    | file location data =>
      have elsewhere : location ≠ target := by
        rintro rfl
        exact apart data found
      have foundToo := lookUp_file_of_sameBut edited.sameBut found elsewhere
      simp only [readText, readBytes, found, foundToo]

theorem Edited.isMatch {root : Bytes} {base names : Location} {inner : Listing} {extension : String}
    (resolved : files.lookUp root = .ok (.directory base inner))
    (found : files.Matches root base extension names) :
    others.Matches root base extension names :=
  found.sameBut resolved edited.sameBut fun _ => edited.otherFile

theorem Edited.entries_eq {root : Bytes} {base : Location} {inner : Listing}
    (resolved : files.lookUp root = .ok (.directory base inner)) (extension : String) :
    others.entries root extension = files.entries root extension := by
  obtain ⟨outer, resolvedToo⟩ := lookUp_directory_of_sameBut edited.sameBut resolved
  rw [FileSystem.entries_eq, FileSystem.entries_eq]
  congr 1
  apply eq_of_ascending (foundAt?_ascending resolvedToo extension)
    (foundAt?_ascending resolved extension)
  intro names
  rw [mem_filterMap_foundAt? resolvedToo, mem_filterMap_foundAt? resolved]
  exact ⟨edited.symm.isMatch resolvedToo, edited.isMatch resolved⟩

end Edited

theorem Edited.outcome_eq {files others : FileSystem} {target : Location}
    (edited : files.Edited target others) {entry : Entry}
    (apart : ∀ data, files.lookUp entry.path ≠ .ok (.file target data)) :
    others.outcome entry = files.outcome entry := by
  rw [outcome, outcome, sourceText, sourceText, edited.readText_eq apart]

theorem collect_edited {files others : FileSystem} {target : Location} {root : Bytes}
    (edited : files.Edited target others) (valid : files.validateRoot root = .ok ()) :
    (∀ extension, others.entries root extension = files.entries root extension) ∧
    ∃ collection log otherCollection otherLog,
      files.collect root = .ok (collection, log) ∧
      others.collect root = .ok (otherCollection, otherLog) ∧
      collection.ComesOf ((files.entries root ".go").map files.outcome) ∧
      otherCollection.ComesOf ((files.entries root ".go").map others.outcome) ∧
      ∀ entry, (∀ data, files.lookUp entry.path ≠ .ok (.file target data)) →
        others.outcome entry = files.outcome entry := by
  obtain ⟨base, inner, resolved⟩ := validateRoot_eq_ok_iff.1 valid
  obtain ⟨outer, resolvedToo⟩ := lookUp_directory_of_sameBut edited.sameBut resolved
  have validToo := validateRoot_eq_ok_iff.2 ⟨base, outer, resolvedToo⟩
  obtain ⟨collection, log, collected, comes⟩ := exists_comesOf valid
  obtain ⟨otherCollection, otherLog, otherCollected, otherComes⟩ := exists_comesOf validToo
  rw [edited.entries_eq resolved] at otherComes
  exact ⟨edited.entries_eq resolved, collection, log, otherCollection, otherLog, collected,
    otherCollected, comes, otherComes, fun _ => edited.outcome_eq⟩

-- The file `base.go` is found under its own name and through the link `alias.go`.
def sharedFiles : FileSystem where
  top := .directory (.ofText "lib" (by decide))
    (.leaf (.ofText "alias.go" (by decide)) (.link (Utf8.encode "base.go")) <|
      .leaf (.ofText "base.go" (by decide)) (.file (Utf8.encode "package base\n")) <|
      .leaf (.ofText "core.go" (by decide)) (.file (Utf8.encode "package core\n")) <|
      .leaf (.ofText "dump.go" (by decide)) (.file [255]) .nil) .nil
  cwd := []
  distinct := by decide

def sharedTarget : Location := [.ofText "lib" (by decide), .ofText "base.go" (by decide)]

def brokenFiles : FileSystem := sharedFiles.put sharedTarget (.file [254])

theorem collect_edited_shared :
    sharedFiles.Edited sharedTarget brokenFiles ∧
    sharedFiles.validateRoot (Utf8.encode "lib") = .ok () ∧
    brokenFiles.entries (Utf8.encode "lib") ".go" = sharedFiles.entries (Utf8.encode "lib") ".go" ∧
    ∃ collection log otherCollection otherLog,
      sharedFiles.collect (Utf8.encode "lib") = .ok (collection, log) ∧
      brokenFiles.collect (Utf8.encode "lib") = .ok (otherCollection, otherLog) ∧
      collection.ComesOf
        ((sharedFiles.entries (Utf8.encode "lib") ".go").map sharedFiles.outcome) ∧
      otherCollection.ComesOf
        ((sharedFiles.entries (Utf8.encode "lib") ".go").map brokenFiles.outcome) ∧
      ∀ entry, (∀ data, sharedFiles.lookUp entry.path ≠ .ok (.file sharedTarget data)) →
        brokenFiles.outcome entry = sharedFiles.outcome entry := by
  have edited : sharedFiles.Edited sharedTarget brokenFiles := edited_put rfl [254]
  have valid : sharedFiles.validateRoot (Utf8.encode "lib") = .ok () := rfl
  obtain ⟨entries, collections⟩ := collect_edited edited valid
  exact ⟨edited, valid, entries ".go", collections⟩

example : (brokenFiles.collect (Utf8.encode "lib")).map (fun result =>
    result.1.included.map Entry.relativePath) = .ok [Utf8.encode "core.go"] := by
  rfl

end FileSystem

end SourceBook
