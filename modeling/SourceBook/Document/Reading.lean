import SourceBook.Document.Basic
import SourceBook.Text.Cut

set_option autoImplicit false

namespace SourceBook

inductive Malformed.Reason where
  | missingHeader
  | missingOpener
  | unterminated (path : String)
  | other (message : String)
  deriving DecidableEq

def Malformed.Reason.message : Malformed.Reason → String
  | .missingHeader => "expected header '" ++ headingLine ++ "'"
  | .missingOpener => "expected section heading followed by an opening fence"
  | .unterminated path => "unterminated code block for '" ++ path ++ "'"
  | .other message => message

structure Malformed where
  position : Nat
  reason : Malformed.Reason
  deriving DecidableEq

structure Located where
  start : Nat
  piece : Section
  deriving DecidableEq

namespace Located

def contentStart (found : Located) : Nat :=
  found.start + (Section.opener found.piece.path).utf8ByteSize

def contentEnd (found : Located) : Nat :=
  found.contentStart + found.piece.contents.utf8ByteSize

def stop (found : Located) : Nat :=
  found.contentEnd + Section.closer.utf8ByteSize

end Located

structure Reading where
  found : List Located
  failure : Option Malformed
  deriving DecidableEq

def Reading.sections (reading : Reading) : Except Malformed (List Section) :=
  match reading.failure with
  | some failure => .error failure
  | none => .ok (reading.found.map Located.piece)

namespace Document

def opener? (text : List Char) : Option (List Char × List Char) :=
  match dropStart? Section.headingMark.toList text with
  | none => none
  | some marked =>
    match dropStart? Section.blockStart.toList (marked.dropWhile (· ≠ '\n')) with
    | none => none
    | some body => some (marked.takeWhile (· ≠ '\n'), body)

def blockEnd? (text : List Char) : Option (List Char) :=
  match dropStart? Section.closer.toList text with
  | none => none
  | some after => if after = [] ∨ (opener? after).isSome then some after else none

def splitBlock? (seen : List Char) : List Char → Option (List Char × List Char)
  | [] => none
  | head :: rest =>
    match blockEnd? (head :: rest) with
    | some after => some (seen.reverse, after)
    -- Two closing fences may share a line break, so no place is passed over.
    | none => splitBlock? (head :: seen) rest

theorem length_lt_of_opener? {text path body : List Char}
    (opened : opener? text = some (path, body)) : body.length < text.length := by
  simp only [opener?] at opened
  split at opened
  · contradiction
  next marked start =>
    split at opened
    · contradiction
    next after block =>
      rw [Option.some.injEq, Prod.mk.injEq] at opened
      rw [dropStart?_eq_some_iff] at start block
      have whole := congrArg List.length start
      have part := congrArg List.length block
      have shorter : (marked.dropWhile (· ≠ '\n')).length ≤ marked.length :=
        (List.dropWhile_suffix _).length_le
      have mark : Section.headingMark.toList.length = 3 := by decide
      rw [List.length_append] at whole part
      rw [← opened.2]
      omega

theorem length_le_of_blockEnd? {text after : List Char} (ended : blockEnd? text = some after) :
    after.length ≤ text.length := by
  simp only [blockEnd?] at ended
  split at ended
  · contradiction
  next rest closed =>
    split at ended
    · rw [Option.some.injEq] at ended
      rw [dropStart?_eq_some_iff] at closed
      simp [closed, ← ended]
    · contradiction

theorem length_le_of_splitBlock? {seen text contents after : List Char}
    (closed : splitBlock? seen text = some (contents, after)) : after.length ≤ text.length := by
  induction text generalizing seen with
  | nil => simp [splitBlock?] at closed
  | cons head rest ih =>
    simp only [splitBlock?] at closed
    split at closed
    next ended =>
      rw [Option.some.injEq, Prod.mk.injEq] at closed
      exact closed.2 ▸ length_le_of_blockEnd? ended
    next => exact Nat.le_succ_of_le (ih closed)

def readFrom (position : Nat) (text : List Char) : Reading :=
  if text = [] then ⟨[], none⟩
  else
    match opened : opener? text with
    | none => ⟨[], some ⟨position, .missingOpener⟩⟩
    | some (path, body) =>
      let path := String.ofList path
      match closed : splitBlock? [] body with
      | none =>
        ⟨[], some ⟨position + (Section.opener path).utf8ByteSize, .unterminated path⟩⟩
      | some (contents, after) =>
        have : after.length < text.length :=
          Nat.lt_of_le_of_lt (length_le_of_splitBlock? closed) (length_lt_of_opener? opened)
        let found : Located := ⟨position, path, String.ofList contents⟩
        let later := readFrom found.stop after
        ⟨found :: later.found, later.failure⟩
termination_by text.length

def read (text : String) : Reading :=
  match dropStart? header.toList text.toList with
  | none => ⟨[], some ⟨0, .missingHeader⟩⟩
  | some rest => readFrom header.utf8ByteSize rest

def sections (text : String) : Except Malformed (List Section) :=
  (read text).sections

end Document

end SourceBook
