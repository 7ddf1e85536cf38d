import SourceBook.FileSystem.Resolution

set_option autoImplicit false

namespace SourceBook

namespace FileSystem

def lookUp (files : FileSystem) (path : Bytes) : Except AccessError Found :=
  match files.resolve .lookUp path with
  | .ok (.found what) => .ok what
  | .ok (.absent _ _) => .error .noSuchEntry
  | .error cause => .error cause

def isDirectory (files : FileSystem) (path : Bytes) : Bool :=
  match files.lookUp path with
  | .ok (.directory _ _) => true
  | _ => false

def size (files : FileSystem) (path : Bytes) : Except AccessError Nat :=
  match files.lookUp path with
  | .ok (.file _ data) => .ok data.length
  -- A directory has no data of its own.
  | .ok (.directory _ _) => .ok 0
  | .error cause => .error cause

def readBytes (files : FileSystem) (path : Bytes) : Except AccessError Bytes :=
  match files.lookUp path with
  | .ok (.file _ data) => .ok data
  | .ok (.directory _ _) => .error .isDirectory
  | .error cause => .error cause

def readText (files : FileSystem) (path : Bytes) : Except AccessError String :=
  match files.readBytes path with
  | .error cause => .error cause
  | .ok data =>
    match Utf8.decode? data with
    | some text => .ok text
    | none => .error .illFormedText

def openDirectory (files : FileSystem) (path : Bytes) : Except AccessError Listing :=
  match files.lookUp path with
  | .ok (.directory _ inner) => .ok inner
  | .ok (.file _ _) => .error .notDirectory
  | .error cause => .error cause

def write (files : FileSystem) (path : Bytes) (data : Bytes) : Except AccessError FileSystem :=
  match files.resolve .create path with
  | .ok (.found (.file location _)) => .ok (files.put location (.file data))
  | .ok (.found (.directory _ _)) => .error .isDirectory
  | .ok (.absent parent name) => .ok (files.put (parent ++ [name]) (.file data))
  | .error cause => .error cause

end FileSystem

end SourceBook
