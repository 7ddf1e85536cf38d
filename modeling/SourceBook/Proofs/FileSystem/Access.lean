import SourceBook.FileSystem.Access
import SourceBook.Proofs.Text.Encoding

set_option autoImplicit false

namespace SourceBook

namespace FileSystem

def HoldsText (files : FileSystem) (path : Bytes) (text : String) : Prop :=
  ∃ location, files.lookUp path = .ok (.file location (Utf8.encode text))

def Readable (files : FileSystem) (path : Bytes) : Prop := ∃ text, files.HoldsText path text

inductive Unreadable (files : FileSystem) (path : Bytes) : AccessError → Prop where
  | refused {cause : AccessError} (refused : files.lookUp path = .error cause) :
      Unreadable files path cause
  | directory {location : Location} {inner : Listing}
      (found : files.lookUp path = .ok (.directory location inner)) :
      Unreadable files path .isDirectory
  | illFormed {location : Location} {data : Bytes}
      (found : files.lookUp path = .ok (.file location data))
      (illFormed : ∀ text, data ≠ Utf8.encode text) :
      Unreadable files path .illFormedText

theorem readable_or_unreadable (files : FileSystem) (path : Bytes) :
    files.Readable path ∨ ∃ cause, files.Unreadable path cause := by
  cases found : files.lookUp path with
  | error cause => exact .inr ⟨cause, .refused found⟩
  | ok what =>
    cases what with
    | directory location inner => exact .inr ⟨_, .directory found⟩
    | file location data =>
      by_cases encoded : ∃ text, data = Utf8.encode text
      next =>
        rcases encoded with ⟨text, rfl⟩
        exact .inl ⟨text, location, found⟩
      next => exact .inr ⟨_, .illFormed found (not_exists.1 encoded)⟩

theorem readText_of_holdsText {files : FileSystem} {path : Bytes} {text : String}
    (holds : files.HoldsText path text) : files.readText path = .ok text := by
  rcases holds with ⟨location, found⟩
  simp only [readText, readBytes, found, Utf8.decode?_encode]

theorem readText_of_unreadable {files : FileSystem} {path : Bytes} {cause : AccessError}
    (unreadable : files.Unreadable path cause) : files.readText path = .error cause := by
  cases unreadable with
  | refused refused => simp only [readText, readBytes, refused]
  | directory found => simp only [readText, readBytes, found]
  | @illFormed location data found illFormed =>
    have undecoded : Utf8.decode? data = none := by
      apply Option.eq_none_iff_forall_ne_some.2
      intro text decoded
      exact illFormed text (Utf8.decode?_eq_some_iff.1 decoded)
    simp only [readText, readBytes, found, undecoded]

theorem readText_eq_ok_iff {files : FileSystem} {path : Bytes} {text : String} :
    files.readText path = .ok text ↔ files.HoldsText path text := by
  refine ⟨?_, readText_of_holdsText⟩
  intro read
  rcases files.readable_or_unreadable path with readable | unreadable
  next =>
    rcases readable with ⟨held, holds⟩
    cases read.symm.trans (readText_of_holdsText holds)
    exact holds
  next =>
    rcases unreadable with ⟨cause, unreadable⟩
    cases read.symm.trans (readText_of_unreadable unreadable)

theorem readText_eq_error_iff {files : FileSystem} {path : Bytes} {cause : AccessError} :
    files.readText path = .error cause ↔ files.Unreadable path cause := by
  refine ⟨?_, readText_of_unreadable⟩
  intro read
  rcases files.readable_or_unreadable path with readable | unreadable
  next =>
    rcases readable with ⟨text, holds⟩
    cases read.symm.trans (readText_of_holdsText holds)
  next =>
    rcases unreadable with ⟨other, unreadable⟩
    cases read.symm.trans (readText_of_unreadable unreadable)
    exact unreadable

theorem not_readable_iff {files : FileSystem} {path : Bytes} :
    ¬files.Readable path ↔ ∃ cause, files.Unreadable path cause := by
  constructor
  next => exact (files.readable_or_unreadable path).resolve_left
  next =>
    intro unreadable readable
    rcases unreadable with ⟨cause, unreadable⟩
    rcases readable with ⟨text, holds⟩
    cases (readText_of_holdsText holds).symm.trans (readText_of_unreadable unreadable)

instance (files : FileSystem) : DecidablePred files.Readable := fun path =>
  match read : files.readText path with
  | .ok text => .isTrue ⟨text, readText_eq_ok_iff.1 read⟩
  | .error cause => .isFalse (not_readable_iff.2 ⟨cause, readText_eq_error_iff.1 read⟩)

theorem descend_ne_illFormedText (top : Listing) (purpose : Purpose) (location : Location)
    (inner : Listing) (steps : List Step) :
    descend top purpose location inner steps ≠ .refused .illFormedText := by
  induction steps generalizing location inner with
  | nil => exact nofun
  | cons step rest ih =>
    cases step with
    | stay | inside => exact ih location inner
    | unnameable =>
      simp only [descend]
      split <;> exact nofun
    | up =>
      simp only [descend]
      split
      next outer _ => exact ih _ outer
      next => exact nofun
    | down name =>
      simp only [descend]
      split
      next => exact nofun
      next =>
        split
        next below _ => exact ih _ below
        next => exact nofun
        next => split <;> exact nofun
        next => split <;> exact nofun

theorem follow_ne_illFormedText (top : Listing) (purpose : Purpose) (budget : Nat)
    (location : Location) (inner : Listing) (steps : List Step) :
    follow top purpose budget location inner steps ≠ .error .illFormedText := by
  induction budget generalizing location inner steps with
  | zero =>
    have kept := descend_ne_illFormedText top purpose location inner steps
    rw [follow]
    split
    next => exact nofun
    next cause refused => simpa [refused] using kept
    next => exact nofun
  | succ budget ih =>
    have kept := descend_ne_illFormedText top purpose location inner steps
    rw [follow]
    split
    next => exact nofun
    next cause refused => simpa [refused] using kept
    next => dsimp only; split <;> exact ih _ _ _

theorem lookUp_ne_illFormedText (files : FileSystem) (path : Bytes) :
    files.lookUp path ≠ .error .illFormedText := by
  have kept (start : Location) (outer : Listing) :=
    follow_ne_illFormedText files.top .lookUp mostLinks start outer (Path.steps path)
  rw [lookUp, resolve]
  grind

theorem unreadable_illFormedText_iff {files : FileSystem} {path : Bytes} :
    files.Unreadable path .illFormedText ↔
      ∃ location data, files.lookUp path = .ok (.file location data) ∧
        ∀ text, data ≠ Utf8.encode text := by
  constructor
  next =>
    intro unreadable
    cases unreadable with
    | refused refused => exact absurd refused (files.lookUp_ne_illFormedText path)
    | illFormed found illFormed => exact ⟨_, _, found, illFormed⟩
  next =>
    rintro ⟨location, data, found, illFormed⟩
    exact .illFormed found illFormed

theorem openDirectory_eq_ok_iff {files : FileSystem} {path : Bytes} {listing : Listing} :
    files.openDirectory path = .ok listing ↔
      ∃ location, files.lookUp path = .ok (.directory location listing) := by
  rw [openDirectory]
  split
  next location inner found => simp [found]
  next location data found => simp [found]
  next cause refused => simp [refused]

theorem isDirectory_iff {files : FileSystem} {path : Bytes} :
    files.isDirectory path ↔
      ∃ location inner, files.lookUp path = .ok (.directory location inner) := by
  rw [isDirectory]
  split
  next location inner found => simp [found]
  next other => simpa using other

theorem isDirectory_eq_false_iff {files : FileSystem} {path : Bytes} :
    files.isDirectory path = false ↔
      ∀ location inner, files.lookUp path ≠ .ok (.directory location inner) := by
  rw [isDirectory]
  split
  next location inner found => simp [found]
  next other =>
    apply iff_of_true rfl
    intro location inner found
    exact other location inner found

end FileSystem

end SourceBook
