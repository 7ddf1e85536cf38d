import SourceBook.Help
import SourceBook.Log.Console

set_option autoImplicit false

namespace SourceBook

structure Environment where
  output : Option Bytes
  log : Option Bytes

def logVariable : String := "GOSOURCES_LOG"

structure RunResult where
  status : Nat
  stdout : String
  stderr : String
  files : FileSystem

def writeFailureEvent (failure : Failure) : Event := ⟨.error, .running, failure.message⟩

namespace Options

def filter (options : Options) (setting : Option Bytes) : Filter :=
  .ofSetting setting (.ofFlags options.quiet options.verbose)

def refuse (files : FileSystem) (failure : Failure) : RunResult :=
  ⟨1, "", "Error: " ++ failure.message ++ "\n", files⟩

def list (options : Options) (filter : Filter) (format : ListFormat) (files : FileSystem) :
    RunResult :=
  match files.validateRoot options.root with
  | .error failure => refuse files failure
  | .ok () =>
    ⟨0, format.render (files.inventory options.root),
      filter.render (files.walkLog options.root targetExtension), files⟩

def successLine (options : Options) : String :=
  if options.quiet then "" else "Successfully created " ++ Utf8.lossy options.output ++ "\n"

def create (options : Options) (filter : Filter) (files : FileSystem) : RunResult :=
  match files.collect options.root with
  | .error failure => refuse files failure
  | .ok (collection, log) =>
    let log := log ++ [writingEvent options.output]
    match files.writeDocument collection.document options.output with
    | .ok written => ⟨0, options.successLine, filter.render log, written⟩
    -- A document that cannot be written is told of, but the run counts as done.
    | .error failure =>
      ⟨0, "", filter.render (log ++ [writeFailureEvent failure]), files⟩

def run (options : Options) (setting : Option Bytes) (files : FileSystem) : RunResult :=
  match options.format with
  | some format => options.list (options.filter setting) format files
  | none => options.create (options.filter setting) files

end Options

def run (files : FileSystem) (environment : Environment) (words : List Bytes) : RunResult :=
  match CommandLine.read environment.output words with
  | .error problem => ⟨1, "", problem.message, files⟩
  | .ok .help => ⟨0, helpText, "", files⟩
  | .ok .version => ⟨0, versionText, "", files⟩
  | .ok (.run options) => options.run environment.log files

end SourceBook
