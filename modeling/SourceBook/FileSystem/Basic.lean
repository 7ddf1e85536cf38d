import SourceBook.FileSystem.Listing

set_option autoImplicit false

namespace SourceBook

/-- Everything in it may be read and written: there are no permissions and no devices, and there is
always room. -/
structure FileSystem where
  top : Listing
  cwd : Location
  distinct : top.Distinct
  deriving DecidableEq

namespace FileSystem

def empty : FileSystem := ⟨.nil, [], trivial⟩

def at? (files : FileSystem) (location : Location) : Option Node :=
  (Node.directory files.top).at? location

def directoryAt? (top : Listing) (location : Location) : Option Listing :=
  match (Node.directory top).at? location with
  | some (.directory inner) => some inner
  | _ => none

def put (files : FileSystem) (location : Location) (item : Leaf) : FileSystem :=
  { files with
    top := files.top.putAt (.leaf item) location
    distinct := files.distinct.putAt (Node.distinct_leaf item) location }

def makeDirectory (files : FileSystem) (location : Location) : FileSystem :=
  match directoryAt? files.top location with
  | some _ => files
  | none =>
    { files with
      top := files.top.putAt (.directory .nil) location
      distinct := files.distinct.putAt Node.distinct_emptyDirectory location }

def remove (files : FileSystem) (location : Location) : FileSystem :=
  { files with
    top := files.top.removeAt location
    distinct := files.distinct.removeAt location }

def runIn (files : FileSystem) (cwd : Location) : FileSystem :=
  { files with cwd := cwd }

end FileSystem

end SourceBook
