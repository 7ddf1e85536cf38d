import SourceBook.Document.Reading
import SourceBook.Text.Places

set_option autoImplicit false

namespace SourceBook

namespace Document

inductive Attempt where
  | unclosed
  | closed (contentLength : Nat)
  | rejected (searchFrom : Nat)
  deriving DecidableEq

def attempt? (body : String) (searchFrom : Nat) : Option Attempt :=
  match Utf8.behind? body searchFrom with
  | none => none
  | some rest =>
    match Utf8.find? Section.closer rest with
    | none => some .unclosed
    | some ahead =>
      let place := ahead + searchFrom
      match Utf8.behind? body (place + Section.closer.utf8ByteSize) with
      | none => none
      | some after =>
        if after = "" ∨ (opener? after.toList).isSome then some (.closed place)
        -- Closing fences may overlap, so no more than one byte is passed over.
        else some (.rejected (place + 1))

theorem bounds_of_rejected {body : String} {searchFrom next : Nat}
    (tried : attempt? body searchFrom = some (.rejected next)) :
    searchFrom < next ∧ next ≤ (Utf8.encode body).length := by
  rw [attempt?] at tried
  split at tried
  next => contradiction
  next =>
    split at tried
    next => cases tried
    next ahead _ =>
      dsimp only at tried
      split at tried
      next => contradiction
      next after cut =>
        have within := Utf8.le_of_isBoundary (Utf8.isBoundary_of_behind? cut)
        have fenceSize : Section.closer.utf8ByteSize = 6 := rfl
        split at tried
        next => cases tried
        next =>
          cases tried
          omega

def search? (body : String) (searchFrom : Nat) : Option (Option Nat) :=
  match tried : attempt? body searchFrom with
  | none => none
  | some .unclosed => some none
  | some (.closed contentLength) => some (some contentLength)
  | some (.rejected next) =>
    have := bounds_of_rejected tried
    search? body next
termination_by (Utf8.encode body).length - searchFrom

structure OpenBlock where
  start : Nat
  path : String
  contentStart : Nat
  body : String
  deriving DecidableEq

inductive Scan where
  | between (found : List Section) (position : Nat)
  | inside (found : List Section) (block : OpenBlock) (searchFrom : Nat)
  | finished (result : Except Malformed (List Section))

namespace Scan

def start (document : String) : Scan :=
  match dropStart? header.toList document.toList with
  | none => .finished (.error ⟨0, .missingHeader⟩)
  | some _ => .between [] header.utf8ByteSize

def open? (document : String) (found : List Section) (position : Nat) : Option Scan :=
  match Utf8.behind? document position with
  | none => none
  | some rest =>
    match opener? rest.toList with
    | none => some (.finished (.error ⟨position, .missingOpener⟩))
    | some (path, _) =>
      let path := String.ofList path
      let contentStart := position + (Section.opener path).utf8ByteSize
      match Utf8.behind? document contentStart with
      | none => none
      | some body => some (.inside found ⟨position, path, contentStart, body⟩ 0)

def close? (found : List Section) (block : OpenBlock) (searchFrom : Nat) : Option Scan :=
  match attempt? block.body searchFrom with
  | none => none
  | some .unclosed => some (.finished (.error ⟨block.contentStart, .unterminated block.path⟩))
  | some (.rejected searchFrom) => some (.inside found block searchFrom)
  | some (.closed contentLength) =>
    match Utf8.before? block.body contentLength with
    | none => none
    | some contents =>
      some (.between (found ++ [⟨block.path, contents⟩])
        (block.contentStart + contentLength + Section.closer.utf8ByteSize))

def step (document : String) : Scan → Option Scan
  | .between found position =>
    if position < document.utf8ByteSize then open? document found position
    else some (.finished (.ok found))
  | .inside found block searchFrom => close? found block searchFrom
  | .finished result => some (.finished result)

def after? (document : String) : Nat → Option Scan
  | 0 => some (start document)
  | count + 1 => (after? document count).bind (step document)

end Scan

end Document

end SourceBook
