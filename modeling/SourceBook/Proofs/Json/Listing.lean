import SourceBook.Proofs.Inventory
import SourceBook.Proofs.Json.Reading

set_option autoImplicit false

namespace SourceBook

theorem exists_json_listing {files : FileSystem} {environment : Environment} {words : List Bytes}
    {options : Options}
    (accepted : CommandLine.read environment.output words = .ok (.run options))
    (mode : options.format = some .json) (valid : files.validateRoot options.root = .ok ()) :
    ∃ text, ∃ displays : List Display, (run files environment words).stdout = text ++ "\n" ∧
      Json.Spells text (.list (displays.map Display.element)) ∧
      Json.read? text = some (.list (displays.map Display.element)) ∧
      List.Forall₂ files.Describes (files.entries options.root ".go") displays := by
  obtain ⟨text, stdout, spells⟩ := exists_spells_stdout accepted valid mode
  exact ⟨text, _, stdout, spells, Json.read?_of_spells spells, FileSystem.describes_displays valid⟩

namespace FileSystem

def oddFiles : FileSystem where
  top := .directory (.ofText "odd" (by decide))
    (.leaf (.ofText "nowhere.go" (by decide)) (.link (Utf8.encode "gone")) <|
      .leaf ⟨Utf8.encode "\"\n" ++ [255] ++ Utf8.encode ".go", by decide⟩ (.file [1, 2, 3]) .nil)
    .nil
  cwd := []
  distinct := by decide

end FileSystem

theorem exists_json_listing_odd :
    CommandLine.read (Environment.mk none none).output
        [Utf8.encode "--list=json", Utf8.encode "odd"] =
          .ok (.run ⟨Utf8.encode "odd", Utf8.encode defaultOutput, some .json, false, 0⟩) ∧
      FileSystem.oddFiles.validateRoot (Utf8.encode "odd") = .ok () ∧
      ∃ text, ∃ displays : List Display, (run FileSystem.oddFiles ⟨none, none⟩
          [Utf8.encode "--list=json", Utf8.encode "odd"]).stdout = text ++ "\n" ∧
        Json.Spells text (.list (displays.map Display.element)) ∧
        Json.read? text = some (.list (displays.map Display.element)) ∧
        List.Forall₂ FileSystem.oddFiles.Describes
          (FileSystem.oddFiles.entries (Utf8.encode "odd") ".go") displays := by
  have accepted : CommandLine.read (Environment.mk none none).output
      [Utf8.encode "--list=json", Utf8.encode "odd"] =
        .ok (.run ⟨Utf8.encode "odd", Utf8.encode defaultOutput, some .json, false, 0⟩) := rfl
  have valid : FileSystem.oddFiles.validateRoot (Utf8.encode "odd") = .ok () := rfl
  have listing := exists_json_listing accepted rfl valid
  exact ⟨accepted, valid, listing⟩

example : (run FileSystem.oddFiles ⟨none, none⟩
    [Utf8.encode "--list=json", Utf8.encode "odd"]).stdout =
      "[\n  \x7b\n    \"path\": \"odd/\\\"\\n\uFFFD.go\",\n" ++
      "    \"relative_path\": \"\\\"\\n\uFFFD.go\",\n    \"size\": 3\n  \x7d,\n" ++
      "  \x7b\n    \"path\": \"odd/nowhere.go\",\n" ++
      "    \"relative_path\": \"nowhere.go\"\n  \x7d\n]\n" := by
  rfl

end SourceBook
