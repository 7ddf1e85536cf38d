import SourceBook.Json
import SourceBook.Walk

set_option autoImplicit false

namespace SourceBook

inductive ListFormat where
  | plain
  | detailed
  | json
  deriving DecidableEq

namespace ListFormat

def name : ListFormat → String
  | plain => "plain"
  | detailed => "detailed"
  | json => "json"

def ofName? (word : Bytes) : Option ListFormat :=
  [plain, detailed, json].find? fun format => Utf8.encode format.name == word

theorem ofName?_name (format : ListFormat) : ofName? (Utf8.encode format.name) = some format := by
  cases format <;> decide

end ListFormat

structure Listed where
  entry : Entry
  size : Except AccessError Nat

namespace Listed

def plain (listed : Listed) : String := Utf8.lossy listed.entry.relativePath ++ "\n"

def sizeLine (listed : Listed) : String :=
  match listed.size with
  | .ok size => "  Size: " ++ size.repr ++ " bytes\n"
  | .error cause => "  Error: " ++ cause.message ++ "\n"

def detailed (listed : Listed) : String :=
  "File: " ++ Utf8.lossy listed.entry.relativePath ++ "\n" ++
    "  Path: " ++ Utf8.lossy listed.entry.path ++ "\n" ++ listed.sizeLine ++ "\n"

def json (listed : Listed) : Json :=
  let size :=
    match listed.size with
    | .ok size => [("size", Json.number size)]
    | .error _ => []
  .object ([("path", .text (Utf8.lossy listed.entry.path)),
    ("relative_path", .text (Utf8.lossy listed.entry.relativePath))] ++ size)

end Listed

namespace FileSystem

def inventory (files : FileSystem) (root : Bytes) : List Listed :=
  (files.entries root targetExtension).map fun entry => ⟨entry, files.size entry.path⟩

end FileSystem

def ListFormat.render (listing : List Listed) : ListFormat → String
  | plain => String.join (listing.map Listed.plain)
  | detailed =>
    String.join (listing.map Listed.detailed) ++
      "Summary: " ++ listing.length.repr ++ " matching files\n"
  | json => (Json.list (listing.map Listed.json)).render "" ++ "\n"

end SourceBook
