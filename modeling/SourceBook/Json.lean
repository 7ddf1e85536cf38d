set_option autoImplicit false

namespace SourceBook

inductive Json where
  | text (value : String)
  | number (value : Nat)
  | list (items : List Json)
  | object (members : List (String × Json))

namespace Json

def hexDigit (n : Nat) : Char := Nat.digitChar n

def escapeChar (c : Char) : List Char :=
  if c = '"' then ['\\', '"']
  else if c = '\\' then ['\\', '\\']
  else if c = '\x08' then ['\\', 'b']
  else if c = '\t' then ['\\', 't']
  else if c = '\n' then ['\\', 'n']
  else if c = '\x0c' then ['\\', 'f']
  else if c = '\r' then ['\\', 'r']
  else if c.toNat < 0x20 then
    ['\\', 'u', '0', '0', hexDigit (c.toNat / 0x10), hexDigit (c.toNat % 0x10)]
  else [c]

def quote (value : String) : String :=
  "\"" ++ String.ofList (value.toList.flatMap escapeChar) ++ "\""

def enclose (opening closing margin : String) (entries : List String) : String :=
  if entries = [] then opening ++ closing
  else
    opening ++ "\n" ++ String.intercalate ",\n" (entries.map (margin ++ "  " ++ ·)) ++ "\n" ++
      margin ++ closing

mutual

def render (margin : String) : Json → String
  | text value => quote value
  | number value => value.repr
  | list items => enclose "[" "]" margin (renderItems (margin ++ "  ") items)
  | object members => enclose "\x7b" "\x7d" margin (renderMembers (margin ++ "  ") members)

def renderItems (margin : String) : List Json → List String
  | [] => []
  | item :: rest => render margin item :: renderItems margin rest

def renderMembers (margin : String) : List (String × Json) → List String
  | [] => []
  | (name, value) :: rest =>
    (quote name ++ ": " ++ render margin value) :: renderMembers margin rest

end

end Json

end SourceBook
