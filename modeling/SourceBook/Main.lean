import SourceBook.Run

set_option autoImplicit false

namespace SourceBook

namespace Disk

def locationOf (path : String) : Location :=
  (Path.location? ((Utf8.encode path).dropWhile (· = slash))).getD []

def realPath? (path : String) : IO (Option String) := do
  try return some (← IO.FS.realPath path).toString
  catch _ => return none

def typeOf? (entry : IO.FS.DirEntry) : IO (Option IO.FS.FileType) := do
  try return some (← entry.path.symlinkMetadata).type
  catch _ => return none

def isDirectory (entry : IO.FS.DirEntry) : IO Bool := do
  try return (← entry.path.metadata).type == .dir
  catch _ => return false

def layFile (files : FileSystem) (location : Location) (path : String) : IO FileSystem := do
  try return files.put location (.file (← IO.FS.readBinFile path).toList)
  catch _ => return files

def lostTarget (entry : IO.FS.DirEntry) : IO Bytes := do
  try
    let _ ← entry.path.metadata
    return [slash, 1]
  catch
    | .noFileOrDirectory _ _ _ => return [slash, 1]
    | _ => return Utf8.encode entry.fileName

def layLink (files : FileSystem) (location : Location) (entry : IO.FS.DirEntry) :
    IO FileSystem := do
  match ← realPath? entry.path.toString with
  | none => return files.put location (.link (← lostTarget entry))
  | some target =>
    let files := files.put location (.link (Utf8.encode target))
    if ← isDirectory entry then return files.makeDirectory (locationOf target)
    else layFile files (locationOf target) target

partial def layTree (files : FileSystem) (location : Location) (entry : IO.FS.DirEntry) :
    IO FileSystem := do
  match ← typeOf? entry with
  | some .dir =>
    let mut files := files.makeDirectory location
    let below ← try entry.path.readDir catch _ => pure #[]
    for inner in below do
      if let some name := Name.ofBytes? (Utf8.encode inner.fileName) then
        files ← layTree files (location ++ [name]) inner
    return files
  | some .symlink => layLink files location entry
  | some .file =>
    if hasExtension (Utf8.encode entry.fileName) targetExtension then
      layFile files location entry.path.toString
    else return files
  | _ => return files

def layPath (files : FileSystem) (directory : String) : List String → IO FileSystem
  | [] => return files
  | piece :: rest => do
    let entry : IO.FS.DirEntry := ⟨directory, piece⟩
    let path := entry.path.toString
    let files ← match ← realPath? directory, ← typeOf? entry with
      | some parent, some type =>
        match Name.ofBytes? (Utf8.encode piece), type with
        | some name, .symlink => layLink files (locationOf parent ++ [name]) entry
        | some name, .dir => pure (files.makeDirectory (locationOf parent ++ [name]))
        | some name, _ => layFile files (locationOf parent ++ [name]) path
        | none, _ =>
          match ← realPath? path with
          | some above => pure (files.makeDirectory (locationOf above))
          | none => pure files
      | _, _ => pure files
    layPath files path rest

def layOut (options : Options) : IO FileSystem := do
  let here := (← IO.currentDir).toString
  let start (path : String) := if path.startsWith "/" then "/" else here
  let pieces (path : String) := (path.splitOn "/").filter (· ≠ "")
  let root := Utf8.lossy options.root
  let output := Utf8.lossy options.output
  let files := (FileSystem.empty.makeDirectory (locationOf here)).runIn (locationOf here)
  let files ← layPath files (start output) (pieces output)
  let files ← layPath files (start root) (pieces root)
  match ← realPath? root with
  | some path => layTree files (locationOf path) ⟨path, "."⟩
  | none => return files

def save (options : Options) (written : FileSystem) : IO (Option Failure) := do
  match written.readBytes options.output with
  | .error cause => return some (.unwritable options.output cause)
  | .ok data =>
    try
      IO.FS.writeBinFile (Utf8.lossy options.output) ⟨data.toArray⟩
      return none
    catch problem => return some (.unwritable options.output (.other problem.toString))

end Disk

def perform (environment : Environment) (words : List Bytes) : IO RunResult := do
  match CommandLine.read environment.output words with
  | .ok (.run options) =>
    let files ← Disk.layOut options
    let result := run files environment words
    if result.files = files then return result
    match ← Disk.save options result.files with
    | none => return result
    | some failure =>
      let filter := options.filter environment.log
      return ⟨0, "", result.stderr ++ filter.render [writeFailureEvent failure], files⟩
  | _ => return run .empty environment words

end SourceBook

open SourceBook in
def main (words : List String) : IO UInt32 := do
  let setting (name : String) := return (← IO.getEnv name).map Utf8.encode
  let environment : Environment := ⟨← setting outputVariable, ← setting logVariable⟩
  let result ← perform environment (words.map Utf8.encode)
  IO.print result.stdout
  IO.eprint result.stderr
  return result.status.toUInt32
