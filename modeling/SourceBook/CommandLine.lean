import SourceBook.Collection
import SourceBook.Inventory

set_option autoImplicit false

namespace SourceBook

def hyphen : UInt8 := 45

def equalsSign : UInt8 := 61

inductive Switch where
  | output
  | list
  | verbose
  | quiet
  | help
  | version
  deriving DecidableEq

namespace Switch

def all : List Switch := [output, list, verbose, quiet, help, version]

def name : Switch → String
  | output => "output"
  | list => "list"
  | verbose => "verbose"
  | quiet => "quiet"
  | help => "help"
  | version => "version"

def letter? : Switch → Option Char
  | output => some 'o'
  | list => none
  | verbose => some 'v'
  | quiet => some 'q'
  | help => some 'h'
  | version => some 'V'

def ofName? (word : Bytes) : Option Switch :=
  all.find? fun switch => Utf8.encode switch.name = word

def ofLetter? (byte : UInt8) : Option Switch :=
  all.find? fun switch => switch.letter?.map Utf8.encodeChar = some [byte]

end Switch

inductive UsageError where
  | unknownSwitch (word : Bytes)
  | unexpectedValue (switch : Switch)
  | missingValue (switch : Switch)
  | repeated (switch : Switch)
  | unknownFormat (word : Bytes)
  | emptyOutput
  | emptyRoot
  | extraRoot (word : Bytes)
  | missingRoot
  | quietAndVerbose
  deriving DecidableEq

namespace UsageError

def complaint : UsageError → String
  | .unknownSwitch word => "unknown option '" ++ Utf8.lossy word ++ "'"
  | .unexpectedValue switch => "'--" ++ switch.name ++ "' takes no value"
  | .missingValue switch => "'--" ++ switch.name ++ "' needs a value"
  | .repeated switch => "'--" ++ switch.name ++ "' is given more than once"
  | .unknownFormat word =>
    "'" ++ Utf8.lossy word ++ "' is no format; the formats are plain, detailed and json"
  | .emptyOutput => "the output file has no name"
  | .emptyRoot => "the root has no name"
  | .extraRoot word => "there is a second root, '" ++ Utf8.lossy word ++ "'"
  | .missingRoot => "there is no root"
  | .quietAndVerbose => "'--quiet' and '--verbose' exclude each other"

def message (problem : UsageError) : String :=
  "error: " ++ problem.complaint ++ "\n\nUsage: gosources [OPTIONS] <ROOT>\n"

end UsageError

structure Options where
  root : Bytes
  output : Bytes
  format : Option ListFormat
  quiet : Bool
  verbose : Nat
  deriving DecidableEq

inductive Request where
  | help
  | version
  | run (options : Options)
  deriving DecidableEq

structure Draft where
  root : Option Bytes
  output : Option Bytes
  format : Option ListFormat
  quiet : Bool
  verbose : Nat
  deriving DecidableEq

namespace Draft

def blank : Draft := ⟨none, none, none, false, 0⟩

def mostVerbose : Nat := 255

def withRoot (draft : Draft) (word : Bytes) : Except UsageError Draft :=
  if draft.root.isSome then .error (.extraRoot word)
  else if word = [] then .error .emptyRoot
  else .ok { draft with root := some word }

def withOutput (draft : Draft) (word : Bytes) : Except UsageError Draft :=
  if draft.output.isSome then .error (.repeated .output)
  else if word = [] then .error .emptyOutput
  else .ok { draft with output := some word }

def withFormat (draft : Draft) (format : ListFormat) : Except UsageError Draft :=
  if draft.format.isSome then .error (.repeated .list)
  else .ok { draft with format := some format }

def withFormatName (draft : Draft) (word : Bytes) : Except UsageError Draft :=
  match ListFormat.ofName? word with
  | some format => draft.withFormat format
  | none => .error (.unknownFormat word)

def withQuiet (draft : Draft) : Except UsageError Draft :=
  if draft.quiet then .error (.repeated .quiet) else .ok { draft with quiet := true }

def louder (draft : Draft) : Draft :=
  { draft with verbose := min (draft.verbose + 1) mostVerbose }

def finish (draft : Draft) (setting : Option Bytes) : Except UsageError Options :=
  if draft.quiet ∧ 0 < draft.verbose then .error .quietAndVerbose
  else
    -- An empty setting is refused only where it would be used.
    match draft.root, draft.output.or setting with
    | none, _ => .error .missingRoot
    | some _, some [] => .error .emptyOutput
    | some root, output =>
      .ok ⟨root, output.getD (Utf8.encode defaultOutput), draft.format, draft.quiet,
        draft.verbose⟩

end Draft

inductive Advance where
  | onward (draft : Draft)
  | pastValue (draft : Draft)
  | rootsOnly (draft : Draft)
  | done (request : Request)
  deriving DecidableEq

namespace CommandLine

def isValue (word : Bytes) : Bool :=
  word.head? != some hyphen || word == [hyphen]

def readOutput (draft : Draft) (next? : Option Bytes) : Except UsageError Advance :=
  match next? with
  | none => .error (.missingValue .output)
  | some next =>
    if isValue next then (draft.withOutput next).map .pastValue
    else .error (.missingValue .output)

def readList (draft : Draft) (next? : Option Bytes) : Except UsageError Advance :=
  match next? with
  | none => (draft.withFormat .plain).map .onward
  | some next =>
    if isValue next then (draft.withFormatName next).map .pastValue
    else (draft.withFormat .plain).map .onward

def readLetters (draft : Draft) (next? : Option Bytes) : Bytes → Except UsageError Advance
  | [] => .ok (.onward draft)
  | letter :: rest =>
    match Switch.ofLetter? letter with
    | some .verbose => readLetters draft.louder next? rest
    | some .quiet =>
      match draft.withQuiet with
      | .ok draft => readLetters draft next? rest
      | .error problem => .error problem
    | some .help => .ok (.done .help)
    | some .version => .ok (.done .version)
    | some .output =>
      if rest = [] then readOutput draft next?
      else (draft.withOutput ((dropStart? [equalsSign] rest).getD rest)).map .onward
    | some .list | none => .error (.unknownSwitch [hyphen, letter])

def readSwitch (draft : Draft) (next? : Option Bytes) (switch : Switch) (value? : Option Bytes) :
    Except UsageError Advance :=
  match switch, value? with
  | .output, some value => (draft.withOutput value).map .onward
  | .output, none => readOutput draft next?
  | .list, some value => (draft.withFormatName value).map .onward
  | .list, none => readList draft next?
  | switch, some _ => .error (.unexpectedValue switch)
  | .verbose, none => .ok (.onward draft.louder)
  | .quiet, none => draft.withQuiet.map .onward
  | .help, none => .ok (.done .help)
  | .version, none => .ok (.done .version)

def readWord (draft : Draft) (next? : Option Bytes) (word : Bytes) : Except UsageError Advance :=
  if word = [hyphen, hyphen] then .ok (.rootsOnly draft)
  else if isValue word then (draft.withRoot word).map .onward
  else
    match dropStart? [hyphen, hyphen] word with
    | none => readLetters draft next? word.tail
    | some rest =>
      match Switch.ofName? (rest.takeWhile (· ≠ equalsSign)) with
      | none => .error (.unknownSwitch word)
      | some switch =>
        readSwitch draft next? switch (dropStart? [equalsSign] (rest.dropWhile (· ≠ equalsSign)))

def readRoots (draft : Draft) : List Bytes → Except UsageError Draft
  | [] => .ok draft
  | word :: rest =>
    match draft.withRoot word with
    | .ok draft => readRoots draft rest
    | .error problem => .error problem

def readWords (setting : Option Bytes) (draft : Draft) : List Bytes → Except UsageError Request
  | [] => (draft.finish setting).map .run
  | [word] =>
    match readWord draft none word with
    | .error problem => .error problem
    | .ok (.done request) => .ok request
    | .ok (.onward draft) | .ok (.pastValue draft) | .ok (.rootsOnly draft) =>
      (draft.finish setting).map .run
  | word :: next :: rest =>
    match readWord draft (some next) word with
    | .error problem => .error problem
    | .ok (.done request) => .ok request
    | .ok (.onward draft) => readWords setting draft (next :: rest)
    | .ok (.pastValue draft) => readWords setting draft rest
    | .ok (.rootsOnly draft) =>
      match readRoots draft (next :: rest) with
      | .error problem => .error problem
      | .ok draft => (draft.finish setting).map .run

def read (setting : Option Bytes) (words : List Bytes) : Except UsageError Request :=
  readWords setting .blank words

end CommandLine

end SourceBook
