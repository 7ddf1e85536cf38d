import SourceBook.Text.Utf8

set_option autoImplicit false

namespace SourceBook

def slash : UInt8 := 47

def dot : UInt8 := 46

def longestName : Nat := 255

def isName (bytes : Bytes) : Bool :=
  bytes != [] && bytes.length ≤ longestName && bytes != [dot] && bytes != [dot, dot] &&
    !bytes.contains slash && !bytes.contains 0

structure Name where
  bytes : Bytes
  valid : isName bytes = true
  deriving DecidableEq

namespace Name

def ofBytes? (bytes : Bytes) : Option Name :=
  if valid : isName bytes = true then some ⟨bytes, valid⟩ else none

@[simp] theorem ofBytes?_bytes (name : Name) : ofBytes? name.bytes = some name := by
  simp [ofBytes?, name.valid]

instance : LT Name := ⟨fun first second => first.bytes < second.bytes⟩

instance (first second : Name) : Decidable (first < second) :=
  inferInstanceAs (Decidable (first.bytes < second.bytes))

end Name

abbrev Location := List Name

end SourceBook
