import Mathlib.Tactic.ByContra
import SourceBook.CommandLine

set_option autoImplicit false

namespace SourceBook

inductive Argument where
  | root (word : Bytes)
  | output (word : Bytes)
  | list (format : ListFormat)
  | verbose
  | quiet
  deriving DecidableEq

namespace Argument

@[simp] def root? : Argument → Option Bytes
  | root word => some word
  | _ => none

@[simp] def output? : Argument → Option Bytes
  | output word => some word
  | _ => none

@[simp] def format? : Argument → Option ListFormat
  | list format => some format
  | _ => none

def apply (draft : Draft) : Argument → Except UsageError Draft
  | root word => draft.withRoot word
  | output word => draft.withOutput word
  | list format => draft.withFormat format
  | verbose => .ok draft.louder
  | quiet => draft.withQuiet

def applyAll (draft : Draft) : List Argument → Except UsageError Draft
  | [] => .ok draft
  | argument :: rest =>
    match argument.apply draft with
    | .ok draft => applyAll draft rest
    | .error problem => .error problem

theorem applyAll_singleton (draft : Draft) (argument : Argument) :
    applyAll draft [argument] = argument.apply draft := by
  rw [applyAll]
  cases argument.apply draft <;> rfl

theorem applyAll_append (draft : Draft) (first second : List Argument) :
    applyAll draft (first ++ second) =
      (applyAll draft first).bind fun draft => applyAll draft second := by
  induction first generalizing draft with
  | nil => rfl
  | cons argument rest ih =>
    simp only [List.cons_append, applyAll]
    cases argument.apply draft with
    | ok next => exact ih next
    | error problem => rfl

end Argument

structure Draft.Holds (draft : Draft) (arguments : List Argument) : Prop where
  root : arguments.filterMap Argument.root? = draft.root.toList
  output : arguments.filterMap Argument.output? = draft.output.toList
  format : arguments.filterMap Argument.format? = draft.format.toList
  quiet : arguments.count .quiet = draft.quiet.toNat
  verbose : draft.verbose = min (arguments.count .verbose) Draft.mostVerbose

namespace Draft

theorem holds_blank : blank.Holds [] := by
  constructor <;> rfl

section Step

variable {draft next : Draft}

theorem withRoot_eq_ok_iff {word : Bytes} :
    draft.withRoot word = .ok next ↔
      draft.root = none ∧ word ≠ [] ∧ { draft with root := some word } = next := by
  rw [withRoot]
  split
  next taken => simp [Option.isSome_iff_ne_none.1 taken]
  next free =>
    split
    next empty => simp [empty]
    next nonempty => simp_all

theorem withOutput_eq_ok_iff {word : Bytes} :
    draft.withOutput word = .ok next ↔
      draft.output = none ∧ word ≠ [] ∧ { draft with output := some word } = next := by
  rw [withOutput]
  split
  next taken => simp [Option.isSome_iff_ne_none.1 taken]
  next free =>
    split
    next empty => simp [empty]
    next nonempty => simp_all

theorem withFormat_eq_ok_iff {format : ListFormat} :
    draft.withFormat format = .ok next ↔
      draft.format = none ∧ { draft with format := some format } = next := by
  rw [withFormat]
  split
  next taken => simp [Option.isSome_iff_ne_none.1 taken]
  next free => simp_all

theorem withQuiet_eq_ok_iff :
    draft.withQuiet = .ok next ↔ draft.quiet = false ∧ { draft with quiet := true } = next := by
  rw [withQuiet]
  cases draft.quiet <;> simp

theorem Holds.apply {taken : List Argument} (holds : draft.Holds taken) {argument : Argument}
    (step : argument.apply draft = .ok next) : next.Holds (taken ++ [argument]) := by
  rcases holds with ⟨root, output, format, quiet, verbose⟩
  cases argument with
  | root word =>
    obtain ⟨free, -, rfl⟩ := withRoot_eq_ok_iff.1 step
    constructor <;> simp [*]
  | output word =>
    obtain ⟨free, -, rfl⟩ := withOutput_eq_ok_iff.1 step
    constructor <;> simp [*]
  | list listed =>
    obtain ⟨free, rfl⟩ := withFormat_eq_ok_iff.1 step
    constructor <;> simp [*]
  | verbose =>
    cases step
    constructor <;> simp [louder, *, mostVerbose]
    omega
  | quiet =>
    obtain ⟨free, rfl⟩ := withQuiet_eq_ok_iff.1 step
    constructor <;> simp [*]

theorem Holds.applyAll {taken arguments : List Argument} (holds : draft.Holds taken)
    (steps : Argument.applyAll draft arguments = .ok next) : next.Holds (taken ++ arguments) := by
  induction arguments generalizing draft taken with
  | nil =>
    cases steps
    simpa using holds
  | cons argument rest ih =>
    rw [Argument.applyAll] at steps
    cases step : argument.apply draft with
    | error problem => simp [step] at steps
    | ok onward =>
      rw [step] at steps
      have whole := ih (holds.apply step) steps
      simpa [List.append_assoc] using whole

end Step

end Draft

structure Options.Answers (options : Options) (setting : Option Bytes)
    (arguments : List Argument) : Prop where
  root : arguments.filterMap Argument.root? = [options.root]
  output : options.output =
    ((arguments.filterMap Argument.output?).head?.or setting).getD (Utf8.encode defaultOutput)
  format : arguments.filterMap Argument.format? = options.format.toList
  quiet : arguments.count .quiet = options.quiet.toNat
  verbose : options.verbose = min (arguments.count .verbose) Draft.mostVerbose
  oneVoice : options.quiet → arguments.count .verbose = 0

theorem Draft.Holds.answers {draft : Draft} {arguments : List Argument} {setting : Option Bytes}
    {options : Options} (holds : draft.Holds arguments)
    (finished : draft.finish setting = .ok options) : options.Answers setting arguments := by
  rcases holds with ⟨root, output, format, quiet, verbose⟩
  rw [Draft.finish] at finished
  split at finished
  · cases finished
  next oneVoice =>
    split at finished
    next => cases finished
    next => cases finished
    next rooted _ =>
      cases finished
      constructor
      case root => simp [root, rooted]
      case output => rw [output, Option.head?_toList]
      case format => exact format
      case quiet => exact quiet
      case verbose => exact verbose
      case oneVoice =>
        intro hushed
        have silent : draft.verbose = 0 := by
          by_contra loud
          exact oneVoice ⟨hushed, Nat.pos_of_ne_zero loud⟩
        rw [silent] at verbose
        simp only [Draft.mostVerbose] at verbose
        omega

end SourceBook
