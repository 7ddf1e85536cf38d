import SourceBook.Text.Cut
import SourceBook.Text.Utf8

set_option autoImplicit false

namespace SourceBook

def firstPlace? {α : Type} [DecidableEq α] (part : List α) : List α → Option Nat
  | [] => if part = [] then some 0 else none
  | head :: rest =>
    match dropStart? part (head :: rest) with
    | some _ => some 0
    | none => (firstPlace? part rest).map (· + 1)

namespace Utf8

def isContinuation (byte : UInt8) : Bool :=
  decide (0x80 ≤ byte.toNat ∧ byte.toNat < 0xC0)

def isBoundary (bytes : Bytes) (place : Nat) : Bool :=
  match bytes[place]? with
  | some byte => !isContinuation byte
  | none => place == bytes.length

theorem le_of_isBoundary {bytes : Bytes} {place : Nat} (boundary : isBoundary bytes place) :
    place ≤ bytes.length := by
  rw [isBoundary] at boundary
  split at boundary
  next found => exact Nat.le_of_lt (List.getElem?_eq_some_iff.1 found).1
  next => exact Nat.le_of_eq (beq_iff_eq.1 boundary)

/-- A text is cut only between characters; nothing comes of a cut at any other place. -/
def before? (text : String) (place : Nat) : Option String :=
  if isBoundary (encode text) place then decode? ((encode text).take place) else none

def behind? (text : String) (place : Nat) : Option String :=
  if isBoundary (encode text) place then decode? ((encode text).drop place) else none

theorem isBoundary_of_behind? {text back : String} {place : Nat}
    (cut : behind? text place = some back) : isBoundary (encode text) place := by
  rw [behind?] at cut
  split at cut
  next boundary => exact boundary
  next => contradiction

def find? (part text : String) : Option Nat :=
  firstPlace? (encode part) (encode text)

structure Cuttable (text : String) (place : Nat) : Prop where
  within : place ≤ text.utf8ByteSize
  boundary : isBoundary (encode text) place

end Utf8

end SourceBook
