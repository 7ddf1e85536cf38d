import SourceBook.FileSystem.Name
import SourceBook.Text.Cut

set_option autoImplicit false

namespace SourceBook

inductive Step where
  | down (name : Name)
  | unnameable
  | stay
  -- Two dots, up to the parent; the top is its own parent.
  | up
  -- A slash at the end, which asks for a directory.
  | inside
  deriving DecidableEq

def Step.ofPiece (piece : Bytes) : Step :=
  if piece = [dot] then .stay
  else if piece = [dot, dot] then .up
  else
    match Name.ofBytes? piece with
    | some name => .down name
    | none => .unnameable

@[simp] theorem Step.ofPiece_bytes (name : Name) : Step.ofPiece name.bytes = .down name := by
  have valid := name.valid
  simp only [isName, Bool.and_eq_true, bne_iff_ne] at valid
  simp [Step.ofPiece, valid]

namespace Path

def isAbsolute (path : Bytes) : Bool := path.head? == some slash

def steps (path : Bytes) : List Step :=
  ((splitAtEach slash path).filter (· ≠ [])).map Step.ofPiece ++
    if path.getLast? = some slash then [.inside] else []

def location? (path : Bytes) : Option Location :=
  (splitAtEach slash path).mapM Name.ofBytes?

def join (directory entry : Bytes) : Bytes :=
  if directory = [] ∨ directory.getLast? = some slash then directory ++ entry
  else directory ++ slash :: entry

def joinAll (directory : Bytes) (location : Location) : Bytes :=
  location.foldl (fun path name => join path name.bytes) directory

/-- Doubled slashes and dots count for nothing, but for a slash or a dot at the very beginning. -/
def components (path : Bytes) : List Bytes :=
  let pieces := splitAtEach slash path
  let start :=
    if isAbsolute path then [[slash]] else if pieces.head? = some [dot] then [[dot]] else []
  start ++ pieces.filter fun piece => piece ≠ [] ∧ piece ≠ [dot]

def relativeTo (root path : Bytes) : Bytes :=
  match dropStart? (components root) (components path) with
  | some rest => joinWith slash rest
  | none => path

end Path

end SourceBook
