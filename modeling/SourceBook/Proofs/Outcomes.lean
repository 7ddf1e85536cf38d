import SourceBook.Collection
import SourceBook.Proofs.FileSystem.Access

set_option autoImplicit false

namespace SourceBook

structure Outcome where
  entry : Entry
  text : Except Failure String

namespace Outcome

def included? (outcome : Outcome) : Option Entry :=
  match outcome.text with
  | .ok _ => some outcome.entry
  | .error _ => none

def skipped? (outcome : Outcome) : Option Skipped :=
  match outcome.text with
  | .ok _ => none
  | .error failure => some ⟨outcome.entry, failure⟩

def file? (outcome : Outcome) : Option (Entry × String) :=
  match outcome.text with
  | .ok text => some (outcome.entry, text)
  | .error _ => none

def piece? (outcome : Outcome) : Option Section :=
  match outcome.text with
  | .ok text => some (Section.ofFile outcome.entry.relativePath text)
  | .error _ => none

def event (outcome : Outcome) : Event :=
  match outcome.text with
  | .ok text => includedEvent outcome.entry text
  | .error failure => skippedEvent failure

end Outcome

structure Collection.ComesOf (collection : Collection) (outcomes : List Outcome) : Prop where
  included : collection.included = outcomes.filterMap Outcome.included?
  skipped : collection.skipped = outcomes.filterMap Outcome.skipped?
  document : collection.document = Document.ofSections (outcomes.filterMap Outcome.piece?)

section Files

variable {collection : Collection} {outcomes : List Outcome} (comes : collection.ComesOf outcomes)

include comes

theorem Collection.ComesOf.included_eq :
    collection.included = (outcomes.filterMap Outcome.file?).map Prod.fst := by
  rw [comes.included, List.map_filterMap]
  congr 1
  funext outcome
  rw [Outcome.included?, Outcome.file?]
  cases outcome.text <;> rfl

theorem Collection.ComesOf.document_eq :
    collection.document = Document.ofSections
      ((outcomes.filterMap Outcome.file?).map fun file =>
        Section.ofFile file.1.relativePath file.2) := by
  rw [comes.document, List.map_filterMap]
  congr 2
  funext outcome
  rw [Outcome.piece?, Outcome.file?]
  cases outcome.text <;> rfl

end Files

theorem Collection.comesOf_empty : Collection.empty.ComesOf [] := ⟨rfl, rfl, rfl⟩

section Step

variable {collection : Collection} {outcomes : List Outcome} (comes : collection.ComesOf outcomes)
  (entry : Entry)

include comes

theorem Collection.ComesOf.takeIn (text : String) :
    (collection.takeIn entry text).ComesOf (outcomes ++ [⟨entry, .ok text⟩]) where
  included := by simp [Collection.takeIn, comes.included, Outcome.included?]
  skipped := by simp [Collection.takeIn, comes.skipped, Outcome.skipped?]
  document := by simp [Collection.takeIn, comes.document, Outcome.piece?, Document.ofSections]

theorem Collection.ComesOf.leaveOut (failure : Failure) :
    (collection.leaveOut entry failure).ComesOf (outcomes ++ [⟨entry, .error failure⟩]) where
  included := by simp [Collection.leaveOut, comes.included, Outcome.included?]
  skipped := by simp [Collection.leaveOut, comes.skipped, Outcome.skipped?]
  document := by
    rw [List.filterMap_append, List.filterMap_cons_none rfl, List.filterMap_nil, List.append_nil]
    exact comes.document

end Step

namespace FileSystem

def outcome (files : FileSystem) (entry : Entry) : Outcome := ⟨entry, files.sourceText entry.path⟩

theorem sourceText_eq_ok_iff {files : FileSystem} {path : Bytes} {text : String} :
    files.sourceText path = .ok text ↔ files.HoldsText path text := by
  rw [← readText_eq_ok_iff, sourceText]
  cases files.readText path with
  | ok held =>
    constructor
    next =>
      rintro ⟨⟩
      rfl
    next =>
      rintro ⟨⟩
      rfl
  | error cause => exact iff_of_false nofun nofun

theorem sourceText_eq_error_iff {files : FileSystem} {path : Bytes} {cause : AccessError} :
    files.sourceText path = .error (.unreadable path cause) ↔ files.Unreadable path cause := by
  rw [← readText_eq_error_iff, sourceText]
  cases files.readText path with
  | ok held => exact iff_of_false nofun nofun
  | error other =>
    constructor
    next =>
      rintro ⟨⟩
      rfl
    next =>
      rintro ⟨⟩
      rfl

theorem collectEntry_comesOf {files : FileSystem} {pass : Pass} {outcomes : List Outcome}
    (comes : pass.collection.ComesOf outcomes) (entry : Entry) :
    (files.collectEntry pass entry).collection.ComesOf (outcomes ++ [files.outcome entry]) := by
  rw [collectEntry, outcome]
  cases files.sourceText entry.path with
  | ok text => exact comes.takeIn entry text
  | error failure => exact comes.leaveOut entry failure

theorem foldl_collectEntry_comesOf {files : FileSystem} {pass : Pass} {outcomes : List Outcome}
    (comes : pass.collection.ComesOf outcomes) (entries : List Entry) :
    (entries.foldl files.collectEntry pass).collection.ComesOf
      (outcomes ++ entries.map files.outcome) := by
  induction entries generalizing pass outcomes with
  | nil => simpa using comes
  | cons entry rest ih =>
    have step : (files.collectEntry pass entry).collection.ComesOf _ :=
      collectEntry_comesOf comes entry
    have next := ih step
    simpa [List.append_assoc] using next

theorem log_foldl_collectEntry (files : FileSystem) (pass : Pass) (entries : List Entry) :
    (entries.foldl files.collectEntry pass).log =
      pass.log ++ (entries.map files.outcome).map Outcome.event := by
  induction entries generalizing pass with
  | nil => simp
  | cons entry rest ih =>
    have step : (files.collectEntry pass entry).log =
        pass.log ++ [(files.outcome entry).event] := by
      rw [collectEntry, outcome]
      cases files.sourceText entry.path <;> rfl
    rw [List.foldl_cons, ih, step]
    simp [List.append_assoc]

theorem comesOf_of_collect {files : FileSystem} {root : Bytes} {collection : Collection}
    {log : List Event} (collected : files.collect root = .ok (collection, log)) :
    collection.ComesOf ((files.entries root targetExtension).map files.outcome) ∧
      log = scanningEvent root :: files.walkLog root targetExtension ++
        ((files.entries root targetExtension).map files.outcome).map Outcome.event ++
        [collection.event] := by
  let start : Pass := ⟨.empty, scanningEvent root :: files.walkLog root targetExtension⟩
  have starts : start.collection.ComesOf [] := Collection.comesOf_empty
  rw [collect] at collected
  split at collected
  · cases collected
  next =>
    cases collected
    refine ⟨foldl_collectEntry_comesOf starts _, ?_⟩
    rw [log_foldl_collectEntry]

theorem validateRoot_eq_ok_iff {files : FileSystem} {root : Bytes} :
    files.validateRoot root = .ok () ↔
      ∃ base inner, files.lookUp root = .ok (.directory base inner) := by
  rw [← isDirectory_iff, validateRoot]
  split
  next valid => exact iff_of_true rfl valid
  next invalid => exact iff_of_false nofun invalid

theorem exists_comesOf {files : FileSystem} {root : Bytes}
    (valid : files.validateRoot root = .ok ()) :
    ∃ collection log, files.collect root = .ok (collection, log) ∧
      collection.ComesOf ((files.entries root targetExtension).map files.outcome) := by
  have collected : ∃ collection log, files.collect root = .ok (collection, log) := by
    rw [collect, valid]
    exact ⟨_, _, rfl⟩
  obtain ⟨collection, log, collected⟩ := collected
  exact ⟨collection, log, collected, (comesOf_of_collect collected).1⟩

end FileSystem

theorem Outcome.sublist_skipped (outcomes : List Outcome) :
    ((outcomes.filterMap skipped?).map fun skipped => skippedEvent skipped.failure).Sublist
      (outcomes.map event) := by
  induction outcomes with
  | nil => exact .slnil
  | cons outcome rest ih =>
    rcases outcome with ⟨entry, text⟩
    cases text with
    | ok text => exact ih.cons (includedEvent entry text)
    | error failure => exact ih.cons_cons (skippedEvent failure)

end SourceBook
