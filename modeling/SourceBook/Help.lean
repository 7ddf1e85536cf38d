import SourceBook.CommandLine

set_option autoImplicit false

namespace SourceBook

def outputVariable : String := "GOSOURCES_OUTPUT"

def versionText : String := "gosources 0.1.0\n"

def ListFormat.about : ListFormat → String
  | plain => "One relative path per line"
  | detailed => "Relative path, full path and size"
  | json => "JSON output for scripting"

namespace Switch

def usage : Switch → String
  | output => "-o, --output <FILE>"
  | list => "    --list [<FORMAT>]"
  | verbose => "-v, --verbose..."
  | quiet => "-q, --quiet"
  | help => "-h, --help"
  | version => "-V, --version"

def about : Switch → List String
  | output => [
    "Output file, overwritten if it exists",
    "",
    "[env: " ++ outputVariable ++ "=]",
    "[default: " ++ defaultOutput ++ "]"]
  | list => [
    "List matching files instead of writing the document " ++
      "(optionally with format: plain, detailed, json)",
    "",
    "Possible values:",
    "- plain:    " ++ ListFormat.plain.about,
    "- detailed: " ++ ListFormat.detailed.about,
    "- json:     " ++ ListFormat.json.about]
  | verbose => ["Increase verbosity (can be used multiple times)"]
  | quiet => ["Suppress all output except errors"]
  | help => ["Print help"]
  | version => ["Print version"]

end Switch

def layoutLines : List String := [
  "Output layout:",
  "  # Go Source Files",
  "",
  "  ## <path relative to ROOT>",
  "",
  "  ```go",
  "  <file contents>",
  "  ```",
  "",
  "Every *.go file under ROOT is included, visited recursively in file-name order.",
  "Files that cannot be read as UTF-8 are reported and skipped."]

def exampleLines : List String := [
  "Examples:",
  "  # Write go_sources.md in the current directory",
  "  gosources ./my-go-project",
  "  # Write somewhere else",
  "  gosources ./my-go-project -o /tmp/context.md",
  "  # List the files that would be collected",
  "  gosources ./my-go-project --list",
  "  # List with sizes, or as JSON for scripting",
  "  gosources ./my-go-project --list=detailed",
  "  gosources ./my-go-project --list=json",
  "  # Show progress",
  "  gosources ./my-go-project -v"]

def helpEntry (usage : String) (about : List String) : List String :=
  ("  " ++ usage) :: about.map (fun line => if line = "" then "" else "          " ++ line) ++ [""]

def helpLines : List String :=
  ["Collect Go source files into a single Markdown document.", "",
    "Usage: gosources [OPTIONS] <ROOT>", "", "Arguments:"] ++
  helpEntry "<ROOT>" ["Directory to scan recursively"] ++ ["Options:"] ++
  Switch.all.flatMap (fun switch => helpEntry switch.usage switch.about) ++
  layoutLines ++ [""] ++ exampleLines

def helpText : String := String.join (helpLines.map (· ++ "\n"))

end SourceBook
