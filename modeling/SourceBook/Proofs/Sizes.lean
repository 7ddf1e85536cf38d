import SourceBook.Proofs.Inventory

set_option autoImplicit false

namespace SourceBook

theorem Display.sizeLine_ne (size reason : String) :
    "  Size: " ++ size ++ " bytes\n" ≠ "  Error: " ++ reason ++ "\n" := by
  intro same
  have third := congrArg (fun line : String => line.toList[2]?) same
  simp at third

namespace FileSystem

structure SizeAgrees (files : FileSystem) (display : Display) : Prop where
  included : ∀ text, (files.outcome display.entry).text = .ok text →
    display.size? = some (Utf8.encode text).length ∧
      display.line = "  Size: " ++ (Utf8.encode text).length.repr ++ " bytes\n"
  missing : display.size? = none ↔ ∃ reason, display.line = "  Error: " ++ reason ++ "\n"
  skipped : display.size? = none ↔ ∃ cause,
    (files.outcome display.entry).text = .error (.unreadable display.entry.path cause) ∧
      display.line = "  Error: " ++ cause.message ++ "\n"
  illFormed :
    (files.outcome display.entry).text = .error (.unreadable display.entry.path .illFormedText) →
      ∃ location data, files.lookUp display.entry.path = .ok (.file location data) ∧
        (∀ text, data ≠ Utf8.encode text) ∧ display.size? = some data.length ∧
        display.line = "  Size: " ++ data.length.repr ++ " bytes\n"

theorem Describes.sizeAgrees {files : FileSystem} {entry : Entry} {display : Display}
    (describes : files.Describes entry display) : files.SizeAgrees display := by
  cases describes with
  | @sized location data leads =>
    constructor
    case included =>
      intro text read
      obtain ⟨_, found⟩ := sourceText_eq_ok_iff.1 read
      cases leads.symm.trans found
      exact ⟨rfl, rfl⟩
    case missing =>
      refine iff_of_false nofun ?_
      rintro ⟨reason, same⟩
      exact Display.sizeLine_ne _ _ same
    case skipped =>
      refine iff_of_false nofun ?_
      rintro ⟨cause, -, same⟩
      exact Display.sizeLine_ne _ _ same
    case illFormed =>
      intro skipped
      obtain ⟨_, _, found, illFormed⟩ :=
        unreadable_illFormedText_iff.1 (sourceText_eq_error_iff.1 skipped)
      cases leads.symm.trans found
      exact ⟨location, data, leads, illFormed, rfl, rfl⟩
  | @unsized cause refused =>
    constructor
    case included =>
      intro text read
      obtain ⟨_, found⟩ := sourceText_eq_ok_iff.1 read
      cases refused.symm.trans found
    case missing => exact iff_of_true rfl ⟨cause.message, rfl⟩
    case skipped =>
      exact iff_of_true rfl ⟨cause, sourceText_eq_error_iff.2 (.refused refused), rfl⟩
    case illFormed =>
      intro skipped
      obtain ⟨_, _, found, -⟩ :=
        unreadable_illFormedText_iff.1 (sourceText_eq_error_iff.1 skipped)
      cases refused.symm.trans found

end FileSystem

structure SizesShown (files : FileSystem) (root : Bytes) (displays : List Display) : Prop where
  entries : displays.map Display.entry = files.entries root ".go"
  detailed : ∀ environment words options,
    CommandLine.read environment.output words = .ok (.run options) → options.root = root →
      options.format = some .detailed →
        (run files environment words).stdout = String.join (displays.map Display.details) ++
          "Summary: " ++ displays.length.repr ++ " matching files\n"
  json : ∀ environment words options,
    CommandLine.read environment.output words = .ok (.run options) → options.root = root →
      options.format = some .json →
        ∃ text, (run files environment words).stdout = text ++ "\n" ∧
          Json.Spells text (.list (displays.map Display.element))
  collected : ∃ collection log, files.collect root = .ok (collection, log) ∧
    collection.ComesOf (displays.map fun display => files.outcome display.entry)
  agrees : ∀ display ∈ displays, files.SizeAgrees display

-- Data that is no text has a size, a link that leads nowhere has none.
example : (run FileSystem.mixedFiles ⟨none, none⟩
    [Utf8.encode "--list=detailed", Utf8.encode "src"]).stdout =
      "File: data.go\n  Path: src/data.go\n  Size: 1 bytes\n\n" ++
      "File: lost.go\n  Path: src/lost.go\n  Error: No such file or directory (os error 2)\n\n" ++
      "File: main.go\n  Path: src/main.go\n  Size: 13 bytes\n\n" ++
      "Summary: 3 matching files\n" := by
  rfl

end SourceBook
