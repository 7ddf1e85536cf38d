set_option autoImplicit false

namespace SourceBook

abbrev Bytes := List UInt8

namespace Utf8

def encodeChar (c : Char) : Bytes :=
  let n := c.toNat
  if n < 0x80 then [.ofNat n]
  else if n < 0x800 then [.ofNat (0xC0 + n / 0x40), .ofNat (0x80 + n % 0x40)]
  else if n < 0x10000 then
    [.ofNat (0xE0 + n / 0x1000), .ofNat (0x80 + n / 0x40 % 0x40), .ofNat (0x80 + n % 0x40)]
  else
    [.ofNat (0xF0 + n / 0x40000), .ofNat (0x80 + n / 0x1000 % 0x40),
      .ofNat (0x80 + n / 0x40 % 0x40), .ofNat (0x80 + n % 0x40)]

theorem encodeChar_ne_nil (c : Char) : encodeChar c ≠ [] := by
  simp only [encodeChar]
  split
  · simp
  · split
    · simp
    · split <;> simp

def encode (text : String) : Bytes :=
  text.toList.flatMap encodeChar

theorem encode_append (first second : String) :
    encode (first ++ second) = encode first ++ encode second := by
  simp [encode]

inductive Piece where
  | char (c : Char)
  | illFormed
  deriving DecidableEq

/-- A character of which the last byte is still to come. The bounds of the next byte shut out overlong
forms, surrogates and numbers above the last character. -/
structure Partial where
  value : Nat
  owed : Nat
  least : Nat
  greatest : Nat
  deriving DecidableEq

structure Progress where
  ended : List Piece
  underWay : Option Partial

def fresh (byte : UInt8) : Progress :=
  let n := byte.toNat
  if n < 0x80 then ⟨[.char (Char.ofNat n)], none⟩
  else if n < 0xC2 then ⟨[.illFormed], none⟩
  else if n < 0xE0 then ⟨[], some ⟨n - 0xC0, 0, 0x80, 0xBF⟩⟩
  else if n < 0xF0 then
    ⟨[], some ⟨n - 0xE0, 1, if n = 0xE0 then 0xA0 else 0x80, if n = 0xED then 0x9F else 0xBF⟩⟩
  else if n < 0xF5 then
    ⟨[], some ⟨n - 0xF0, 2, if n = 0xF0 then 0x90 else 0x80, if n = 0xF4 then 0x8F else 0xBF⟩⟩
  else ⟨[.illFormed], none⟩

def Partial.next (started : Partial) (byte : UInt8) : Progress :=
  let n := byte.toNat
  if started.least ≤ n ∧ n ≤ started.greatest then
    let value := started.value * 0x40 + (n - 0x80)
    match started.owed with
    | 0 => ⟨[.char (Char.ofNat value)], none⟩
    | owed + 1 => ⟨[], some ⟨value, owed, 0x80, 0xBF⟩⟩
  else
    ⟨.illFormed :: (fresh byte).ended, (fresh byte).underWay⟩

def advance : Option Partial → UInt8 → Progress
  | none, byte => fresh byte
  | some started, byte => started.next byte

def piecesAfter : Option Partial → Bytes → List Piece
  | none, [] => []
  | some _, [] => [.illFormed]
  | underWay, byte :: rest =>
    (advance underWay byte).ended ++ piecesAfter (advance underWay byte).underWay rest

def pieces (bytes : Bytes) : List Piece :=
  piecesAfter none bytes

def Piece.char? : Piece → Option Char
  | .char c => some c
  | .illFormed => none

def replacement : Char := '\uFFFD'

def decode? (bytes : Bytes) : Option String :=
  if Piece.illFormed ∈ pieces bytes then none
  else some (String.ofList ((pieces bytes).filterMap Piece.char?))

/-- Each ill-formed piece, as long as it could still have become a character, is shown as one
replacement character. -/
def lossy (bytes : Bytes) : String :=
  String.ofList ((pieces bytes).map fun piece => piece.char?.getD replacement)

theorem lossy_of_decode? {bytes : Bytes} {text : String} (read : decode? bytes = some text) :
    lossy bytes = text := by
  simp only [decode?] at read
  split at read
  · contradiction
  next wellFormed =>
    simp only [Option.some.injEq] at read
    subst read
    simp only [lossy]
    congr 1
    generalize pieces bytes = all at wellFormed
    induction all with
    | nil => rfl
    | cons piece rest ih =>
      simp only [List.mem_cons, not_or] at wellFormed
      cases piece with
      | char c =>
        have tail := ih wellFormed.2
        simp [Piece.char?] at tail ⊢
        exact tail
      | illFormed => exact absurd rfl wellFormed.1

end Utf8

end SourceBook
