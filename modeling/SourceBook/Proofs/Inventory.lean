import Mathlib.Data.List.Forall2
import SourceBook.Proofs.Collection
import SourceBook.Proofs.Json.Grammar
import SourceBook.Proofs.Walk.Entries
import SourceBook.Run

set_option autoImplicit false

namespace SourceBook

structure Display where
  entry : Entry
  line : String
  size? : Option Nat

namespace Display

def details (display : Display) : String :=
  "File: " ++ Utf8.lossy display.entry.relativePath ++ "\n" ++
    "  Path: " ++ Utf8.lossy display.entry.path ++ "\n" ++ display.line ++ "\n"

def element (display : Display) : Json :=
  .object ([("path", .text (Utf8.lossy display.entry.path)),
    ("relative_path", .text (Utf8.lossy display.entry.relativePath))] ++
      display.size?.toList.map fun size => ("size", .number size))

def ofListed (listed : Listed) : Display :=
  ⟨listed.entry, listed.sizeLine, listed.size.toOption⟩

theorem element_ofListed (listed : Listed) : (ofListed listed).element = listed.json := by
  rcases listed with ⟨entry, _ | _⟩ <;> rfl

end Display

namespace FileSystem

inductive Describes (files : FileSystem) (entry : Entry) : Display → Prop where
  | sized {location : Location} {data : Bytes}
      (leads : files.lookUp entry.path = .ok (.file location data)) :
      Describes files entry
        ⟨entry, "  Size: " ++ data.length.repr ++ " bytes\n", some data.length⟩
  | unsized {cause : AccessError} (refused : files.lookUp entry.path = .error cause) :
      Describes files entry ⟨entry, "  Error: " ++ cause.message ++ "\n", none⟩

inductive Shows (files : FileSystem) (entries : List Entry) : ListFormat → String → Prop where
  | plain : Shows files entries .plain
      (String.join (entries.map fun entry => Utf8.lossy entry.relativePath ++ "\n"))
  | detailed {displays : List Display} (describes : List.Forall₂ files.Describes entries displays) :
      Shows files entries .detailed (String.join (displays.map Display.details) ++
        "Summary: " ++ entries.length.repr ++ " matching files\n")
  | json {displays : List Display} {text : String}
      (describes : List.Forall₂ files.Describes entries displays)
      (spells : Json.Spells text (.list (displays.map Display.element))) :
      Shows files entries .json (text ++ "\n")

def displays (files : FileSystem) (root : Bytes) : List Display :=
  (files.inventory root).map Display.ofListed

theorem entries_displays (files : FileSystem) (root : Bytes) :
    (files.displays root).map Display.entry = files.entries root targetExtension := by
  rw [displays, inventory, List.map_map, List.map_map]
  exact List.map_id _

theorem elements_displays (files : FileSystem) (root : Bytes) :
    (files.displays root).map Display.element = (files.inventory root).map Listed.json := by
  rw [displays, List.map_map]
  exact List.map_congr_left fun listed _ => Display.element_ofListed listed

theorem describes_of_mem_entries {files : FileSystem} {root : Bytes} {extension : String}
    {entry : Entry} (valid : files.validateRoot root = .ok ())
    (member : entry ∈ files.entries root extension) :
    files.Describes entry (.ofListed ⟨entry, files.size entry.path⟩) := by
  obtain ⟨base, inner, resolved⟩ := validateRoot_eq_ok_iff.1 valid
  rw [size]
  cases leads : files.lookUp entry.path with
  | error cause => exact .unsized leads
  | ok what =>
    cases what with
    | file location data => exact .sized leads
    | directory location listing =>
      exact absurd leads (ne_directory_of_mem_entries resolved member location listing)

theorem describes_displays {files : FileSystem} {root : Bytes}
    (valid : files.validateRoot root = .ok ()) :
    List.Forall₂ files.Describes (files.entries root targetExtension) (files.displays root) := by
  rw [displays, inventory, List.map_map]
  refine List.forall₂_map_right_iff.2 (List.forall₂_same.2 ?_)
  exact fun entry member => describes_of_mem_entries valid member

end FileSystem

section Listing

variable {files : FileSystem} {environment : Environment} {words : List Bytes} {options : Options}
  (accepted : CommandLine.read environment.output words = .ok (.run options))
  (valid : files.validateRoot options.root = .ok ())

include accepted valid

theorem stdout_of_listing {format : ListFormat} (mode : options.format = some format) :
    (run files environment words).stdout = format.render (files.inventory options.root) := by
  simp only [run, accepted, Options.run, mode, Options.list, valid]

theorem stdout_detailed (mode : options.format = some .detailed) :
    (run files environment words).stdout =
      String.join ((files.displays options.root).map Display.details) ++
        "Summary: " ++ (files.displays options.root).length.repr ++ " matching files\n" := by
  rw [stdout_of_listing accepted valid mode, ListFormat.render, FileSystem.displays, List.map_map,
    List.length_map]
  rfl

theorem exists_spells_stdout (mode : options.format = some .json) :
    ∃ text, (run files environment words).stdout = text ++ "\n" ∧
      Json.Spells text (.list ((files.displays options.root).map Display.element)) := by
  rw [stdout_of_listing accepted valid mode, FileSystem.elements_displays]
  exact ⟨_, rfl, Json.spells_render _⟩

theorem shows_stdout {format : ListFormat} (mode : options.format = some format) :
    files.Shows (files.entries options.root targetExtension) format
      (run files environment words).stdout := by
  have describes := FileSystem.describes_displays valid
  cases format with
  | plain =>
    rw [stdout_of_listing accepted valid mode, ListFormat.render, FileSystem.inventory,
      List.map_map]
    exact .plain
  | detailed =>
    rw [stdout_detailed accepted valid mode, ← describes.length_eq]
    exact .detailed describes
  | json =>
    obtain ⟨text, stdout, spells⟩ := exists_spells_stdout accepted valid mode
    rw [stdout]
    exact .json describes spells

end Listing

theorem listing_agrees_with_collection {files : FileSystem} {root : Bytes}
    (valid : files.validateRoot root = .ok ()) :
    (∀ environment words options format,
      CommandLine.read environment.output words = .ok (.run options) → options.root = root →
        options.format = some format →
          files.Shows (files.entries root ".go") format (run files environment words).stdout) ∧
    ∃ collection texts told,
      files.collect root = .ok (collection,
        scanningEvent root :: files.walkLog root ".go" ++ told.map Prod.snd ++
          [collection.event]) ∧
      files.Accounts (files.entries root ".go") collection texts told := by
  refine ⟨?_, FileSystem.exists_accounts_told valid⟩
  intro environment words options format accepted isRoot mode
  subst isRoot
  exact shows_stdout accepted valid mode

theorem listing_agrees_with_collection_mixed :
    FileSystem.mixedFiles.validateRoot (Utf8.encode "src") = .ok () ∧
    (FileSystem.mixedFiles.Shows (FileSystem.mixedFiles.entries (Utf8.encode "src") ".go") .json
      (run FileSystem.mixedFiles ⟨none, none⟩
        [Utf8.encode "--list=json", Utf8.encode "src"]).stdout) ∧
    ∃ collection texts told,
      FileSystem.mixedFiles.collect (Utf8.encode "src") = .ok (collection,
        scanningEvent (Utf8.encode "src") ::
          FileSystem.mixedFiles.walkLog (Utf8.encode "src") ".go" ++ told.map Prod.snd ++
          [collection.event]) ∧
      FileSystem.mixedFiles.Accounts (FileSystem.mixedFiles.entries (Utf8.encode "src") ".go")
        collection texts told := by
  have agrees := listing_agrees_with_collection
    (show FileSystem.mixedFiles.validateRoot (Utf8.encode "src") = .ok () from rfl)
  refine ⟨rfl, agrees.1 ⟨none, none⟩ _ ⟨Utf8.encode "src", Utf8.encode defaultOutput, some .json,
    false, 0⟩ .json ?_ rfl rfl, agrees.2⟩
  rfl

example : (run FileSystem.mixedFiles ⟨none, none⟩
    [Utf8.encode "--list", Utf8.encode "--", Utf8.encode "src"]).stdout =
      "data.go\nlost.go\nmain.go\n" := by
  rfl

end SourceBook
