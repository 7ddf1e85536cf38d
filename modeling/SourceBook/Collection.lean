import SourceBook.Walk

set_option autoImplicit false

namespace SourceBook

def defaultOutput : String := "go_sources.md"

structure Skipped where
  entry : Entry
  failure : Failure
  deriving DecidableEq

structure Collection where
  document : Document
  included : List Entry
  skipped : List Skipped
  deriving DecidableEq

def scanningEvent (root : Bytes) : Event :=
  ⟨.info, .collecting,
    "Scanning " ++ Utf8.lossy root ++ " for *" ++ targetExtension ++ " files"⟩

def includedEvent (entry : Entry) (text : String) : Event :=
  ⟨.debug, .collecting,
    "Included " ++ Utf8.lossy entry.relativePath ++ " (" ++ text.utf8ByteSize.repr ++ " bytes)"⟩

def skippedEvent (failure : Failure) : Event := ⟨.error, .collecting, failure.message⟩

def Collection.event (collection : Collection) : Event :=
  ⟨.info, .collecting,
    "Collected " ++ collection.included.length.repr ++ " file(s), skipped " ++
      collection.skipped.length.repr⟩

def writingEvent (output : Bytes) : Event :=
  ⟨.debug, .collecting, "Writing output to " ++ Utf8.lossy output⟩

namespace Collection

def empty : Collection := ⟨.empty, [], []⟩

def takeIn (collection : Collection) (entry : Entry) (text : String) : Collection :=
  { collection with
    document := collection.document.push (Section.ofFile entry.relativePath text)
    included := collection.included ++ [entry] }

def leaveOut (collection : Collection) (entry : Entry) (failure : Failure) : Collection :=
  { collection with skipped := collection.skipped ++ [⟨entry, failure⟩] }

end Collection

structure Pass where
  collection : Collection
  log : List Event

namespace FileSystem

def validateRoot (files : FileSystem) (root : Bytes) : Except Failure Unit :=
  if files.isDirectory root then .ok () else .error (.notADirectory root)

def sourceText (files : FileSystem) (path : Bytes) : Except Failure String :=
  (files.readText path).mapError (Failure.unreadable path)

def collectEntry (files : FileSystem) (pass : Pass) (entry : Entry) : Pass :=
  match files.sourceText entry.path with
  | .ok text =>
    ⟨pass.collection.takeIn entry text, pass.log ++ [includedEvent entry text]⟩
  | .error failure =>
    ⟨pass.collection.leaveOut entry failure, pass.log ++ [skippedEvent failure]⟩

def collect (files : FileSystem) (root : Bytes) : Except Failure (Collection × List Event) :=
  match files.validateRoot root with
  | .error failure => .error failure
  | .ok () =>
    let start : Pass := ⟨.empty, scanningEvent root :: files.walkLog root targetExtension⟩
    let pass := (files.entries root targetExtension).foldl files.collectEntry start
    .ok (pass.collection, pass.log ++ [pass.collection.event])

def writeDocument (files : FileSystem) (document : Document) (output : Bytes) :
    Except Failure FileSystem :=
  (files.write output (Utf8.encode document.text)).mapError (Failure.unwritable output)

end FileSystem

end SourceBook
