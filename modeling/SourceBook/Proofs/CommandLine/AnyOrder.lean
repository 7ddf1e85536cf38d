import Mathlib.Data.List.Perm.Basic
import SourceBook.Proofs.CommandLine.Spelling

set_option autoImplicit false

namespace SourceBook

theorem eq_none_of_perm {α : Type} {taken asked : Option α} {this : α} {rest : List α}
    (same : (taken.toList ++ this :: rest).Perm asked.toList) : taken = none ∧ asked = some this := by
  cases asked with
  | none => simp at same
  | some only =>
    have alone := List.perm_singleton.1 same
    cases taken with
    | none => exact ⟨rfl, congrArg some (List.cons.inj alone).1.symm⟩
    | some other => simp at alone

theorem Draft.Holds.eq_of_perm {draft other : Draft} {taken otherTaken : List Argument}
    (holds : draft.Holds taken) (otherHolds : other.Holds otherTaken)
    (same : taken.Perm otherTaken) : draft = other := by
  have root := same.filterMap Argument.root?
  have output := same.filterMap Argument.output?
  have format := same.filterMap Argument.format?
  have quiet := same.count_eq .quiet
  have verbose := same.count_eq .verbose
  rw [holds.root, otherHolds.root, List.perm_option_toList] at root
  rw [holds.output, otherHolds.output, List.perm_option_toList] at output
  rw [holds.format, otherHolds.format, List.perm_option_toList] at format
  have silence : draft.quiet = other.quiet := by
    rw [holds.quiet, otherHolds.quiet] at quiet
    cases hushed : draft.quiet <;> cases otherHushed : other.quiet <;> simp_all
  have loudness : draft.verbose = other.verbose := by
    rw [holds.verbose, otherHolds.verbose, verbose]
  cases draft
  cases other
  simp_all only

structure Demand where
  root : Bytes
  output : Option Bytes
  format : Option ListFormat
  quiet : Bool
  verbose : Nat
  root_ne_nil : root ≠ []
  output_ne_nil : output ≠ some []
  oneVoice : quiet = true → verbose = 0

namespace Demand

def arguments (demand : Demand) : List Argument :=
  .root demand.root :: (demand.output.toList.map .output ++ demand.format.toList.map .list ++
    List.replicate demand.quiet.toNat .quiet ++ List.replicate demand.verbose .verbose)

def draft (demand : Demand) : Draft where
  root := some demand.root
  output := demand.output
  format := demand.format
  quiet := demand.quiet
  verbose := min demand.verbose Draft.mostVerbose

theorem filterMap_arguments {α : Type} (demand : Demand) {view : Argument → Option α}
    (quiet : view .quiet = none) (verbose : view .verbose = none) :
    demand.arguments.filterMap view =
      (.root demand.root :: (demand.output.toList.map .output ++
        demand.format.toList.map .list)).filterMap view := by
  rw [arguments, ← List.cons_append, ← List.cons_append, List.filterMap_append,
    List.filterMap_append, List.filterMap_replicate_of_none quiet,
    List.filterMap_replicate_of_none verbose, List.append_nil, List.append_nil]

theorem holds_draft (demand : Demand) : demand.draft.Holds demand.arguments := by
  constructor
  case root =>
    rw [demand.filterMap_arguments rfl rfl]
    cases demand.output <;> cases demand.format <;> rfl
  case output =>
    rw [demand.filterMap_arguments rfl rfl, draft]
    cases demand.output <;> cases demand.format <;> rfl
  case format =>
    rw [demand.filterMap_arguments rfl rfl, draft]
    cases demand.output <;> cases demand.format <;> rfl
  case quiet =>
    rw [arguments, draft]
    cases demand.output <;> cases demand.format <;> simp [List.count_replicate]
  case verbose =>
    rw [arguments, draft]
    cases demand.output <;> cases demand.format <;> simp [List.count_replicate]

variable {demand : Demand} {draft : Draft} {taken rest : List Argument}

-- Nothing that is asked for is refused, whatever else was taken up before.
theorem exists_apply (holds : draft.Holds taken) {argument : Argument}
    (asked : (taken ++ argument :: rest).Perm demand.arguments) :
    ∃ next, argument.apply draft = .ok next := by
  have whole := demand.holds_draft
  cases argument with
  | root word =>
    have once := asked.filterMap Argument.root?
    rw [whole.root, List.filterMap_append, holds.root] at once
    obtain ⟨free, same⟩ := eq_none_of_perm once
    cases same
    exact ⟨_, Draft.withRoot_eq_ok_iff.2 ⟨free, demand.root_ne_nil, rfl⟩⟩
  | output word =>
    have once := asked.filterMap Argument.output?
    rw [whole.output, List.filterMap_append, holds.output] at once
    obtain ⟨free, same⟩ := eq_none_of_perm once
    have named : word ≠ [] := by
      rintro rfl
      exact demand.output_ne_nil same
    exact ⟨_, Draft.withOutput_eq_ok_iff.2 ⟨free, named, rfl⟩⟩
  | list format =>
    have once := asked.filterMap Argument.format?
    rw [whole.format, List.filterMap_append, holds.format] at once
    exact ⟨_, Draft.withFormat_eq_ok_iff.2 ⟨(eq_none_of_perm once).1, rfl⟩⟩
  | verbose => exact ⟨draft.louder, rfl⟩
  | quiet =>
    have once := asked.count_eq .quiet
    rw [whole.quiet, List.count_append, holds.quiet, List.count_cons_self] at once
    have free : draft.quiet = false := by
      have most := Bool.toNat_le demand.draft.quiet
      cases hushed : draft.quiet with
      | false => rfl
      | true =>
        rw [hushed, Bool.toNat_true] at once
        omega
    exact ⟨_, Draft.withQuiet_eq_ok_iff.2 ⟨free, rfl⟩⟩

theorem exists_applyAll (holds : draft.Holds taken)
    (asked : (taken ++ rest).Perm demand.arguments) :
    ∃ next, Argument.applyAll draft rest = .ok next := by
  induction rest generalizing draft taken with
  | nil => exact ⟨draft, rfl⟩
  | cons argument rest ih =>
    obtain ⟨next, step⟩ := exists_apply holds asked
    rw [List.append_cons] at asked
    rw [Argument.applyAll, step]
    exact ih (holds.apply step) asked

theorem applyAll_eq {arguments : List Argument} (asked : arguments.Perm demand.arguments) :
    Argument.applyAll .blank arguments = .ok demand.draft := by
  obtain ⟨draft, applied⟩ := exists_applyAll Draft.holds_blank asked
  have holds : draft.Holds arguments := Draft.holds_blank.applyAll applied
  rw [applied, holds.eq_of_perm demand.holds_draft asked]

theorem finish_draft (demand : Demand) (setting : Option Bytes) :
    demand.draft.finish setting =
      match demand.output.or setting with
      | some [] => .error .emptyOutput
      | output => .ok ⟨demand.root, output.getD (Utf8.encode defaultOutput), demand.format,
          demand.quiet, min demand.verbose Draft.mostVerbose⟩ := by
  have oneVoice : ¬(demand.draft.quiet = true ∧ 0 < demand.draft.verbose) := by
    rintro ⟨quiet, loud⟩
    have silent := demand.oneVoice quiet
    simp only [draft] at loud
    omega
  rw [Draft.finish, if_neg oneVoice]
  simp only [draft]
  rcases demand.output.or setting with _ | _ | ⟨first, rest⟩ <;> rfl

end Demand

namespace CommandLine

theorem read_of_spells {words : List Bytes} {arguments : List Argument} {demand : Demand}
    (spells : Spells words arguments) (asked : arguments.Perm demand.arguments)
    (setting : Option Bytes) :
    read setting words =
      match demand.output.or setting with
      | some [] => .error .emptyOutput
      | output => .ok (.run ⟨demand.root, output.getD (Utf8.encode defaultOutput), demand.format,
          demand.quiet, min demand.verbose 255⟩) := by
  rw [read, readWords_of_spells spells, Demand.applyAll_eq asked]
  simp only [Except.bind, demand.finish_draft]
  rcases demand.output.or setting with _ | _ | ⟨first, rest⟩ <;> rfl

def plainDemand : Demand where
  root := Utf8.encode "src"
  output := some (Utf8.encode "out.md")
  format := some .plain
  quiet := false
  verbose := 3
  root_ne_nil := by decide
  output_ne_nil := by decide
  oneVoice := by decide

def clusteredWords : List Bytes :=
  [Utf8.encode "-vvo=out.md", Switch.list.word, Utf8.encode "-v", Utf8.encode "src"]

def clusteredArguments : List Argument :=
  [.verbose, .verbose, .output (Utf8.encode "out.md"), .list .plain, .verbose,
    .root (Utf8.encode "src")]

-- The output that is set gives way to the one that is asked for.
theorem read_of_spells_clustered :
    Spells clusteredWords clusteredArguments ∧
      clusteredArguments.Perm plainDemand.arguments ∧
      read (some (Utf8.encode "other.md")) clusteredWords =
        .ok (.run ⟨Utf8.encode "src", Utf8.encode "out.md", some .plain, false, 3⟩) := by
  have cluster : SpellsLetters (Utf8.encode "vvo=out.md") none
      [.verbose, .verbose, .output (Utf8.encode "out.md")] :=
    .verbose (.verbose (.assigned (Utf8.encode "out.md")))
  have flag : SpellsLetters (Utf8.encode "v") none [.verbose] := .verbose .nil
  have alone : ∀ next, [Utf8.encode "-v", Utf8.encode "src"].head? = some next →
      isValue next = false := by
    rintro _ ⟨⟩
    rfl
  have spells : Spells clusteredWords clusteredArguments :=
    .word (.letters (by decide) cluster)
      (.list alone (.word (.letters (by decide) flag) (.word (.root rfl) .nil)))
  have asked : clusteredArguments.Perm plainDemand.arguments := by decide
  exact ⟨spells, asked, read_of_spells spells asked (some (Utf8.encode "other.md"))⟩

end CommandLine

end SourceBook
