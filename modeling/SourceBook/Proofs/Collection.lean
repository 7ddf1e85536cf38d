import SourceBook.Proofs.FileSystem.Spelling
import SourceBook.Proofs.Outcomes

set_option autoImplicit false

namespace SourceBook

namespace FileSystem

inductive Announces (files : FileSystem) (entry : Entry) : Event → Prop where
  | included {text : String} (holds : files.HoldsText entry.path text) :
      Announces files entry ⟨.debug, .collecting,
        "Included " ++ Utf8.lossy entry.relativePath ++ " (" ++
          (Utf8.encode text).length.repr ++ " bytes)"⟩
  | skipped {cause : AccessError} (unreadable : files.Unreadable entry.path cause) :
      Announces files entry
        ⟨.error, .collecting,
          "Error reading file " ++ Utf8.lossy entry.path ++ ": " ++ cause.message⟩

structure Accounts (files : FileSystem) (entries : List Entry) (collection : Collection)
    (texts : List (Entry × String)) (told : List (Entry × Event)) : Prop where
  included : collection.included = entries.filter fun entry => files.Readable entry.path
  skipped : collection.skipped.map Skipped.entry =
    entries.filter fun entry => ¬files.Readable entry.path
  failure : ∀ skipped ∈ collection.skipped, ∃ cause,
    files.Unreadable skipped.entry.path cause ∧
      skipped.failure = .unreadable skipped.entry.path cause
  sectionCount : collection.document.sectionCount = collection.included.length
  text : collection.document.text = "# Go Source Files\n\n" ++
    String.join (texts.map fun file =>
      "## " ++ Utf8.lossy file.1.relativePath ++ "\n\n```go\n" ++ file.2 ++ "\n```\n\n")
  textEntries : texts.map Prod.fst = collection.included
  holdsText : ∀ file ∈ texts, files.HoldsText file.1.path file.2
  toldEntries : told.map Prod.fst = entries
  announces : ∀ news ∈ told, files.Announces news.1 news.2

section Outcome

variable (files : FileSystem)

theorem outcome_cases (entry : Entry) :
    (∃ text, files.HoldsText entry.path text ∧ files.outcome entry = ⟨entry, .ok text⟩) ∨
    ∃ cause, files.Unreadable entry.path cause ∧
      files.outcome entry = ⟨entry, .error (.unreadable entry.path cause)⟩ := by
  rcases files.readable_or_unreadable entry.path with ⟨text, holds⟩ | ⟨cause, unreadable⟩
  next =>
    refine .inl ⟨text, holds, ?_⟩
    rw [outcome, sourceText_eq_ok_iff.2 holds]
  next =>
    refine .inr ⟨cause, unreadable, ?_⟩
    rw [outcome, sourceText_eq_error_iff.2 unreadable]

theorem included?_outcome (entry : Entry) :
    (files.outcome entry).included? =
      Option.guard (fun entry => decide (files.Readable entry.path)) entry := by
  rcases files.outcome_cases entry with ⟨text, holds, read⟩ | ⟨cause, unreadable, read⟩
  next =>
    have readable : files.Readable entry.path := ⟨text, holds⟩
    simp [read, Outcome.included?, Option.guard, readable]
  next =>
    have notReadable := not_readable_iff.2 ⟨cause, unreadable⟩
    simp [read, Outcome.included?, Option.guard, notReadable]

theorem skipped?_outcome (entry : Entry) :
    (files.outcome entry).skipped?.map Skipped.entry =
      Option.guard (fun entry => decide (¬files.Readable entry.path)) entry := by
  rcases files.outcome_cases entry with ⟨text, holds, read⟩ | ⟨cause, unreadable, read⟩
  next =>
    have readable : files.Readable entry.path := ⟨text, holds⟩
    simp [read, Outcome.skipped?, Option.guard, readable]
  next =>
    have notReadable := not_readable_iff.2 ⟨cause, unreadable⟩
    simp [read, Outcome.skipped?, Option.guard, notReadable]

theorem announces_outcome (entry : Entry) : files.Announces entry (files.outcome entry).event := by
  rcases files.outcome_cases entry with ⟨text, holds, read⟩ | ⟨cause, unreadable, read⟩
  next =>
    have announced : files.Announces entry (includedEvent entry text) := by
      rw [includedEvent, ← Utf8.length_encode]
      exact .included holds
    rw [read]
    exact announced
  next =>
    rw [read]
    exact .skipped unreadable

variable {files} {entry : Entry}

theorem unreadable_of_skipped {skipped : Skipped}
    (found : (files.outcome entry).skipped? = some skipped) :
    ∃ cause, files.Unreadable skipped.entry.path cause ∧
      skipped.failure = .unreadable skipped.entry.path cause := by
  rcases files.outcome_cases entry with ⟨text, holds, read⟩ | ⟨cause, unreadable, read⟩
  next =>
    rw [read] at found
    contradiction
  next =>
    rw [read] at found
    cases found
    exact ⟨cause, unreadable, rfl⟩

theorem holdsText_of_file {file : Entry × String}
    (found : (files.outcome entry).file? = some file) : files.HoldsText file.1.path file.2 := by
  rcases files.outcome_cases entry with ⟨text, holds, read⟩ | ⟨cause, unreadable, read⟩
  next =>
    rw [read] at found
    cases found
    exact holds
  next =>
    rw [read] at found
    contradiction

end Outcome

theorem accounts_of_comesOf {files : FileSystem} {entries : List Entry} {collection : Collection}
    (comes : collection.ComesOf (entries.map files.outcome)) :
    files.Accounts entries collection ((entries.map files.outcome).filterMap Outcome.file?)
      (entries.map fun entry => (entry, (files.outcome entry).event)) := by
  constructor
  case included =>
    rw [comes.included, List.filterMap_map, ← List.filterMap_eq_filter]
    exact congrArg (List.filterMap · entries) (funext files.included?_outcome)
  case skipped =>
    rw [comes.skipped, List.filterMap_map, List.map_filterMap, ← List.filterMap_eq_filter]
    exact congrArg (List.filterMap · entries) (funext files.skipped?_outcome)
  case failure =>
    rw [comes.skipped, List.filterMap_map]
    intro skipped member
    obtain ⟨entry, -, found⟩ := List.mem_filterMap.1 member
    exact unreadable_of_skipped found
  case sectionCount =>
    rw [comes.document_eq, comes.included_eq, Document.sectionCount_ofSections, List.length_map,
      List.length_map]
  case text =>
    rw [comes.document_eq, Document.text_ofSections, List.map_map]
    rfl
  case textEntries => exact comes.included_eq.symm
  case holdsText =>
    rw [List.filterMap_map]
    intro file member
    obtain ⟨entry, -, found⟩ := List.mem_filterMap.1 member
    exact holdsText_of_file found
  case toldEntries =>
    rw [List.map_map]
    exact List.map_id entries
  case announces => exact List.forall_mem_map.2 fun entry _ => files.announces_outcome entry

theorem Accounts.mem_included_iff {files : FileSystem} {entries : List Entry}
    {collection : Collection} {texts : List (Entry × String)} {told : List (Entry × Event)}
    (accounts : files.Accounts entries collection texts told) {entry : Entry}
    (member : entry ∈ entries) :
    entry ∈ collection.included ↔ entry ∉ collection.skipped.map Skipped.entry := by
  rw [accounts.included, accounts.skipped]
  simp [member]

theorem scanningEvent_eq (root : Bytes) :
    scanningEvent root =
      ⟨.info, .collecting, "Scanning " ++ Utf8.lossy root ++ " for *.go files"⟩ := by
  simp only [scanningEvent, targetExtension, String.append_assoc]
  rfl

theorem exists_accounts_told {files : FileSystem} {root : Bytes}
    (valid : files.validateRoot root = .ok ()) :
    ∃ collection texts told,
      files.collect root = .ok (collection,
        scanningEvent root :: files.walkLog root targetExtension ++ told.map Prod.snd ++
          [collection.event]) ∧
      files.Accounts (files.entries root targetExtension) collection texts told := by
  obtain ⟨collection, log, collected, comes⟩ := exists_comesOf valid
  refine ⟨collection, _, _, ?_, accounts_of_comesOf comes⟩
  rw [collected, (comesOf_of_collect collected).2, List.map_map, List.map_map]
  rfl

theorem collect_accounts {files : FileSystem} {root : Bytes}
    (valid : files.validateRoot root = .ok ()) :
    ∃ collection texts told,
      files.collect root = .ok (collection,
        ⟨.info, .collecting, "Scanning " ++ Utf8.lossy root ++ " for *.go files"⟩ ::
          files.walkLog root ".go" ++ told.map Prod.snd ++
          [⟨.info, .collecting, "Collected " ++ collection.included.length.repr ++
            " file(s), skipped " ++ collection.skipped.length.repr⟩]) ∧
      files.Accounts (files.entries root ".go") collection texts told ∧
      ∀ entry ∈ files.entries root ".go",
        entry ∈ collection.included ↔ entry ∉ collection.skipped.map Skipped.entry := by
  obtain ⟨collection, texts, told, collected, accounts⟩ := exists_accounts_told valid
  rw [scanningEvent_eq root] at collected
  exact ⟨collection, texts, told, collected, accounts, fun _ => accounts.mem_included_iff⟩

-- One file with text, one whose data is no text, and a link that leads nowhere.
def mixedFiles : FileSystem where
  top := .directory (.ofText "src" (by decide))
    (.leaf (.ofText "lost.go" (by decide)) (.link (Utf8.encode "gone")) <|
      .leaf (.ofText "data.go" (by decide)) (.file [255]) <|
      .leaf (.ofText "main.go" (by decide)) (.file (Utf8.encode "package main\n")) .nil) .nil
  cwd := []
  distinct := by decide

theorem collect_accounts_mixed :
    mixedFiles.validateRoot (Utf8.encode "src") = .ok () ∧
      ∃ collection texts told,
        mixedFiles.collect (Utf8.encode "src") = .ok (collection,
          ⟨.info, .collecting,
              "Scanning " ++ Utf8.lossy (Utf8.encode "src") ++ " for *.go files"⟩ ::
            mixedFiles.walkLog (Utf8.encode "src") ".go" ++ told.map Prod.snd ++
            [⟨.info, .collecting, "Collected " ++ collection.included.length.repr ++
              " file(s), skipped " ++ collection.skipped.length.repr⟩]) ∧
        mixedFiles.Accounts (mixedFiles.entries (Utf8.encode "src") ".go") collection texts told ∧
        ∀ entry ∈ mixedFiles.entries (Utf8.encode "src") ".go",
          entry ∈ collection.included ↔ entry ∉ collection.skipped.map Skipped.entry :=
  ⟨rfl, collect_accounts rfl⟩

example : (mixedFiles.collect (Utf8.encode "src")).map (fun result => result.1.skipped) = .ok [
    ⟨⟨Utf8.encode "src/data.go", Utf8.encode "data.go"⟩,
      .unreadable (Utf8.encode "src/data.go") .illFormedText⟩,
    ⟨⟨Utf8.encode "src/lost.go", Utf8.encode "lost.go"⟩,
      .unreadable (Utf8.encode "src/lost.go") .noSuchEntry⟩] := by
  rfl

end FileSystem

end SourceBook
