import SourceBook.Proofs.Sources
import SourceBook.Proofs.Text.LineBreak

set_option autoImplicit false

namespace SourceBook

namespace FileSystem

theorem oneLine_lossy_iff (bytes : Bytes) :
    Section.OneLine (Utf8.lossy bytes) ↔ lineBreak ∉ bytes :=
  (Utf8.lineBreak_mem_lossy_iff bytes).not

theorem sections_collection_eq_ok_iff {files : FileSystem} {root : Bytes}
    (valid : files.validateRoot root = .ok ()) :
    ∃ collection log, ∃ texts : List (Entry × String), files.collect root = .ok (collection, log) ∧
      texts.map Prod.fst = collection.included ∧
      (∀ file ∈ texts, files.HoldsText file.1.path file.2) ∧
      (Document.sections collection.document.text =
          .ok (texts.map fun file => ⟨Utf8.lossy file.1.relativePath, file.2⟩) ↔
        ∀ file ∈ texts, lineBreak ∉ file.1.relativePath ∧ ¬Section.HoldsSeam file.2) := by
  obtain ⟨collection, log, collected, comes⟩ := exists_comesOf valid
  have accounts := accounts_of_comesOf comes
  refine ⟨collection, log, _, collected, accounts.textEntries, accounts.holdsText, ?_⟩
  rw [Document.sections_eq_ok_iff, comes.document_eq]
  simp only [Section.ofFile, true_and, List.forall_mem_map, Section.Recoverable, oneLine_lossy_iff]

theorem sections_collection_eq_ok_iff_mixed :
    mixedFiles.validateRoot (Utf8.encode "src") = .ok () ∧
      ∃ collection log, ∃ texts : List (Entry × String),
        mixedFiles.collect (Utf8.encode "src") = .ok (collection, log) ∧
        texts.map Prod.fst = collection.included ∧
        (∀ file ∈ texts, mixedFiles.HoldsText file.1.path file.2) ∧
        (Document.sections collection.document.text =
            .ok (texts.map fun file => ⟨Utf8.lossy file.1.relativePath, file.2⟩) ↔
          ∀ file ∈ texts, lineBreak ∉ file.1.relativePath ∧ ¬Section.HoldsSeam file.2) :=
  ⟨rfl, sections_collection_eq_ok_iff rfl⟩

-- One file, whose name takes two lines.
def lineBreakFiles : FileSystem where
  top := .leaf (.ofText "a\nb.go" (by decide)) (.file (Utf8.encode "package a\n")) .nil
  cwd := []
  distinct := by decide

theorem sections_collection_lineBreak :
    ∃ collection log, ∃ texts : List (Entry × String),
      lineBreakFiles.collect (Utf8.encode ".") = .ok (collection, log) ∧
      texts.map Prod.fst = collection.included ∧
      (∀ file ∈ texts, lineBreakFiles.HoldsText file.1.path file.2) ∧
      (∀ file ∈ texts, ¬Section.HoldsSeam file.2) ∧
      Document.sections collection.document.text = .error ⟨19, .missingOpener⟩ := by
  let entry : Entry := ⟨Utf8.encode "./a\nb.go", Utf8.encode "a\nb.go"⟩
  let document : Document := ⟨"# Go Source Files\n\n## a\nb.go\n\n```go\npackage a\n\n```\n\n", 1⟩
  have collected : ∃ log, lineBreakFiles.collect (Utf8.encode ".") =
      .ok (⟨document, [entry], []⟩, log) :=
    ⟨_, rfl⟩
  obtain ⟨log, collects⟩ := collected
  refine ⟨_, log, [(entry, "package a\n")], collects, rfl, ?_, ?_, ?_⟩
  next => exact List.forall_mem_singleton.2 ⟨_, rfl⟩
  next =>
    refine List.forall_mem_singleton.2 fun holds => ?_
    exact absurd (Section.mem_of_holdsSeam holds) (by decide)
  next =>
    have start : document.text.toList =
        Document.header.toList ++ "## a\nb.go\n\n```go\npackage a\n\n```\n\n".toList := by
      decide
    have unopened :
        Document.opener? "## a\nb.go\n\n```go\npackage a\n\n```\n\n".toList = none := by
      decide
    rw [Document.sections, Document.read, start, dropStart?_append]
    simp only [Document.readFrom_unopened (by decide) unopened]
    rfl

end FileSystem

end SourceBook
