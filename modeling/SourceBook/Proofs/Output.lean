import SourceBook.Proofs.Collection
import SourceBook.Proofs.FileSystem.Writing

set_option autoImplicit false

namespace SourceBook

namespace FileSystem

structure OnlyWrites (before : FileSystem) (target : Location) (data : Bytes)
    (after : FileSystem) : Prop where
  cwd : after.cwd = before.cwd
  file : after.at? target = some (.leaf (.file data))
  fileAtMost : before.at? target = none ∨ ∃ old, before.at? target = some (.leaf (.file old))
  directories : ∀ location, (∃ inner, after.at? location = some (.directory inner)) ↔
    ∃ inner, before.at? location = some (.directory inner)
  links : ∀ location path, after.at? location = some (.leaf (.link path)) ↔
    before.at? location = some (.leaf (.link path))
  otherFiles : ∀ location held, location ≠ target →
    (after.at? location = some (.leaf (.file held)) ↔
      before.at? location = some (.leaf (.file held)))

inductive Unwritable (files : FileSystem) (path : Bytes) : AccessError → Prop where
  | refused {cause : AccessError} (refused : files.resolve .create path = .error cause) :
      Unwritable files path cause
  | directory {location : Location} {inner : Listing}
      (found : files.resolve .create path = .ok (.found (.directory location inner))) :
      Unwritable files path .isDirectory

theorem write_eq_error_iff {files : FileSystem} {path data : Bytes} {cause : AccessError} :
    files.write path data = .error cause ↔ files.Unwritable path cause := by
  constructor
  next =>
    intro failed
    rw [write] at failed
    split at failed
    next => contradiction
    next location inner reached =>
      cases failed
      exact .directory reached
    next => contradiction
    next refusal refused =>
      cases failed
      exact .refused refused
  next =>
    intro unwritable
    cases unwritable with
    | refused refused => simp only [write, refused]
    | directory found => simp only [write, found]

theorem SameBut.links {first second : FileSystem} {target location : Location} {path : Bytes}
    (same : first.SameBut target second)
    (stands : first.at? location = some (.leaf (.link path))) :
    second.at? location = some (.leaf (.link path)) :=
  same.top.leaf (same.top.first.ne_of_link stands) stands

theorem Wrote.onlyWrites {files written : FileSystem} {path data : Bytes} {target : Location}
    (wrote : files.Wrote path data written target) : files.OnlyWrites target data written := by
  have same := wrote.sameBut
  constructor
  case cwd => exact same.cwd.symm
  case file => exact wrote.file
  case fileAtMost =>
    cases stands : files.at? target with
    | none => exact .inl rfl
    | some node =>
      obtain ⟨old, rfl⟩ := same.top.first node stands
      exact .inr ⟨old, rfl⟩
  case directories =>
    intro location
    constructor
    next =>
      rintro ⟨inner, stands⟩
      exact same.top.symm.directory stands
    next =>
      rintro ⟨inner, stands⟩
      exact same.top.directory stands
  case links => exact fun location path => ⟨same.symm.links, same.links⟩
  case otherFiles =>
    exact fun location held elsewhere => ⟨same.top.symm.leaf elsewhere, same.top.leaf elsewhere⟩

def afterWriting (files : FileSystem) (document : Document) (output : Bytes) : FileSystem :=
  match files.writeDocument document output with
  | .ok written => written
  | .error _ => files

theorem writeDocument_of_write {files written : FileSystem} {document : Document} {output : Bytes}
    (wrote : files.write output (Utf8.encode document.text) = .ok written) :
    files.writeDocument document output = .ok written := by
  rw [writeDocument, wrote]
  rfl

theorem writeDocument_atomic (files : FileSystem) (document : Document) (output : Bytes) :
    (∃ written target, files.writeDocument document output = .ok written ∧
      files.afterWriting document output = written ∧
      written.sourceText output = .ok document.text ∧
      written.lookUp output = .ok (.file target (Utf8.encode document.text)) ∧
      (∀ location old, files.lookUp output = .ok (.file location old) → location = target) ∧
      files.OnlyWrites target (Utf8.encode document.text) written ∧
      ∀ cause, ¬files.Unwritable output cause) ∨
    ∃ cause, files.writeDocument document output = .error (.unwritable output cause) ∧
      files.afterWriting document output = files ∧ files.Unwritable output cause := by
  cases attempt : files.write output (Utf8.encode document.text) with
  | ok written =>
    obtain ⟨target, wrote⟩ := exists_wrote attempt
    have result := writeDocument_of_write attempt
    refine .inl ⟨written, target, result, by rw [afterWriting, result],
      sourceText_eq_ok_iff.2 (holdsText_of_write attempt), wrote.lookUp, ?_, wrote.onlyWrites, ?_⟩
    next => exact fun location old => wrote.target_of_lookUp
    next =>
      intro cause unwritable
      cases attempt.symm.trans (write_eq_error_iff.2 unwritable)
  | error cause =>
    have result : files.writeDocument document output = .error (.unwritable output cause) := by
      rw [writeDocument, attempt]
      rfl
    exact .inr ⟨cause, result, by rw [afterWriting, result], write_eq_error_iff.1 attempt⟩

-- The path `pkg/out.md` leads nowhere until a file is written by it.
def linkedFiles : FileSystem where
  top := .directory (.ofText "pkg" (by decide))
    (.leaf (.ofText "util.go" (by decide)) (.file (Utf8.encode "package pkg\n")) <|
      .leaf (.ofText "out.md" (by decide)) (.link (Utf8.encode "../made.md")) .nil) .nil
  cwd := []
  distinct := by decide

example : (linkedFiles.afterWriting .empty (Utf8.encode "pkg/out.md")).readText
    (Utf8.encode "made.md") = .ok Document.header := by
  rfl

end FileSystem

end SourceBook
