import SourceBook.Log.Filter

set_option autoImplicit false

namespace SourceBook

namespace Event

def hexDigits (n : Nat) : List Char :=
  [Nat.digitChar (n / 0x10), Nat.digitChar (n % 0x10)]

def escapeChar (c : Char) : List Char :=
  if c ∈ ['\x1b', '\x07', '\x08', '\x0c', '\x7f'] then '\\' :: 'x' :: hexDigits c.toNat
  else if 0x80 ≤ c.toNat ∧ c.toNat < 0xA0 then
    ['\\', 'u', '\x7b'] ++ hexDigits c.toNat ++ ['\x7d']
  else [c]

def paddedLabel (level : Level) : String :=
  String.ofList (List.replicate (5 - level.label.length) ' ') ++ level.label

def line (event : Event) : String :=
  paddedLabel event.level ++ " " ++ String.ofList (event.message.toList.flatMap escapeChar) ++ "\n"

end Event

def Filter.render (filter : Filter) (events : List Event) : String :=
  String.join ((events.filter filter.shows).map Event.line)

end SourceBook
