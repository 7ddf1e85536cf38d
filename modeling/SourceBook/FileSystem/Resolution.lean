import SourceBook.FileSystem.AccessError
import SourceBook.FileSystem.Basic
import SourceBook.FileSystem.Path

set_option autoImplicit false

namespace SourceBook

inductive Purpose where
  | lookUp
  | create
  deriving DecidableEq

inductive Found where
  | file (location : Location) (data : Bytes)
  | directory (location : Location) (inner : Listing)
  deriving DecidableEq

inductive Place where
  | found (what : Found)
  | absent (parent : Location) (name : Name)
  deriving DecidableEq

inductive Stretch where
  | arrived (place : Place)
  | link (location : Location) (inner : Listing) (target : Bytes) (rest : List Step)
  | refused (cause : AccessError)
  deriving DecidableEq

namespace FileSystem

def longestPath : Nat := 4095

def mostLinks : Nat := 40

def descend (top : Listing) (purpose : Purpose) (location : Location) (inner : Listing) :
    List Step → Stretch
  | [] => .arrived (.found (.directory location inner))
  | .stay :: rest | .inside :: rest => descend top purpose location inner rest
  | .up :: rest =>
    match directoryAt? top location.dropLast with
    | some outer => descend top purpose location.dropLast outer rest
    | none => .refused .noSuchEntry
  -- A slash at the end of what is to be created is refused before the name in front of it is read.
  | .unnameable :: rest =>
    .refused (if purpose = .create ∧ rest = [.inside] then .isDirectory else .nameTooLong)
  | .down name :: rest =>
    if purpose = .create ∧ rest = [.inside] then .refused .isDirectory
    else
      match inner.find? name with
      | some (.directory below) => descend top purpose (location ++ [name]) below rest
      | some (.leaf (.link target)) => .link location inner target rest
      | some (.leaf (.file data)) =>
        if rest = [] then .arrived (.found (.file (location ++ [name]) data))
        else .refused .notDirectory
      | none => if rest = [] then .arrived (.absent location name) else .refused .noSuchEntry

def follow (top : Listing) (purpose : Purpose) (budget : Nat) (location : Location)
    (inner : Listing) (steps : List Step) : Except AccessError Place :=
  match descend top purpose location inner steps with
  | .arrived place => .ok place
  | .refused cause => .error cause
  | .link parent outer target rest =>
    match budget with
    | 0 => .error .tooManyLinks
    | budget + 1 =>
      if Path.isAbsolute target then
        follow top purpose budget [] top (Path.steps target ++ rest)
      else follow top purpose budget parent outer (Path.steps target ++ rest)

def origin? (files : FileSystem) (path : Bytes) : Option (Location × Listing) :=
  if Path.isAbsolute path then some ([], files.top)
  else (directoryAt? files.top files.cwd).map (files.cwd, ·)

def resolve (files : FileSystem) (purpose : Purpose) (path : Bytes) : Except AccessError Place :=
  if 0 ∈ path then .error .zeroByteInPath
  else if path = [] then .error .noSuchEntry
  else if longestPath < path.length then .error .nameTooLong
  else
    match files.origin? path with
    | none => .error .noSuchEntry
    | some (location, inner) =>
      follow files.top purpose mostLinks location inner (Path.steps path)

end FileSystem

end SourceBook
