import SourceBook.Failure
import SourceBook.FileSystem.Access
import SourceBook.Log.Event

set_option autoImplicit false

namespace SourceBook

def targetExtension : String := ".go"

def hasExtension (name : Bytes) (extension : String) : Bool :=
  extension.toList.isSuffixOf (Utf8.lossy name).toList

inductive Visit where
  | leaf (parents : Location) (name : Name) (item : Leaf)
  | unopened (location : Location) (cause : AccessError)
  deriving DecidableEq

structure Branch where
  name : Name
  visits : List Visit
  deriving DecidableEq

def Branch.insert (branch : Branch) : List Branch → List Branch
  | [] => [branch]
  | head :: rest =>
    if head.name < branch.name then head :: branch.insert rest else branch :: head :: rest

def Listing.branches (unopened? : Location → Option AccessError) (parents : Location) :
    Listing → List Branch
  | nil => []
  | leaf name item rest =>
    Branch.insert ⟨name, [.leaf parents name item]⟩ (rest.branches unopened? parents)
  | directory name inner rest =>
    let location := parents ++ [name]
    let visits :=
      match unopened? location with
      | some cause => [.unopened location cause]
      | none => (inner.branches unopened? location).flatMap Branch.visits
    Branch.insert ⟨name, visits⟩ (rest.branches unopened? parents)

structure Entry where
  path : Bytes
  relativePath : Bytes
  deriving DecidableEq

def Entry.below (root : Bytes) (location : Location) : Entry :=
  let path := Path.joinAll root location
  ⟨path, Path.relativeTo root path⟩

namespace FileSystem

def unopened? (files : FileSystem) (root : Bytes) (location : Location) : Option AccessError :=
  match files.openDirectory (Path.joinAll root location) with
  | .ok _ => none
  | .error cause => some cause

/-- Links below the root are not followed, but the root itself may be one. -/
def walk (files : FileSystem) (root : Bytes) : List Visit :=
  match files.lookUp root with
  | .error cause => [.unopened [] cause]
  | .ok (.file _ _) => []
  | .ok (.directory _ inner) =>
    (inner.branches (files.unopened? root) []).flatMap Branch.visits

def entry? (files : FileSystem) (root : Bytes) (extension : String) : Visit → Option Entry
  | .unopened _ _ => none
  | .leaf parents name item =>
    let entry := Entry.below root (parents ++ [name])
    let leadsToDirectory :=
      match item with
      | .file _ => false
      | .link _ => files.isDirectory entry.path
    if hasExtension name.bytes extension && !leadsToDirectory then some entry else none

def visitEvent? (files : FileSystem) (root : Bytes) (extension : String) (visit : Visit) :
    Option Event :=
  match visit with
  | .unopened location cause =>
    some ⟨.warn, .searching, (Failure.unvisited (Path.joinAll root location) cause).message⟩
  | .leaf _ _ _ =>
    (files.entry? root extension visit).map fun entry =>
      ⟨.trace, .searching, "Matched " ++ Utf8.lossy entry.relativePath⟩

def entries (files : FileSystem) (root : Bytes) (extension : String) : List Entry :=
  (files.walk root).filterMap (files.entry? root extension)

def walkLog (files : FileSystem) (root : Bytes) (extension : String) : List Event :=
  (files.walk root).filterMap (files.visitEvent? root extension)

end FileSystem

end SourceBook
