import SourceBook.Text.Utf8

set_option autoImplicit false

namespace SourceBook

def headingLine : String := "# Go Source Files"

def languageTag : String := "go"

def fence : String := "```"

structure Section where
  path : String
  contents : String
  deriving DecidableEq

namespace Section

def ofFile (path : Bytes) (contents : String) : Section :=
  ⟨Utf8.lossy path, contents⟩

def headingMark : String := "## "

def blockStart : String := "\n\n" ++ fence ++ languageTag ++ "\n"

def opener (path : String) : String := headingMark ++ path ++ blockStart

-- The end of the block: its first line break belongs to the fence, not to the contents.
def closer : String := "\n" ++ fence ++ "\n\n"

def text (piece : Section) : String :=
  opener piece.path ++ piece.contents ++ closer

end Section

structure Document where
  text : String
  sectionCount : Nat
  deriving DecidableEq

namespace Document

def header : String := headingLine ++ "\n\n"

def empty : Document := ⟨header, 0⟩

def push (document : Document) (piece : Section) : Document :=
  ⟨document.text ++ piece.text, document.sectionCount + 1⟩

def ofSections (pieces : List Section) : Document :=
  pieces.foldl push empty

def ofFiles (files : List (Bytes × String)) : Document :=
  files.foldl (fun document file => document.push (Section.ofFile file.1 file.2)) empty

theorem ofFiles_eq_ofSections (files : List (Bytes × String)) :
    ofFiles files = ofSections (files.map fun file => Section.ofFile file.1 file.2) := by
  rw [ofFiles, ofSections, List.foldl_map]

def isEmpty (document : Document) : Bool := document.sectionCount == 0

def length (document : Document) : Nat := document.text.utf8ByteSize

theorem foldl_push (document : Document) (pieces : List Section) :
    pieces.foldl push document =
      ⟨document.text ++ String.join (pieces.map Section.text),
        document.sectionCount + pieces.length⟩ := by
  induction pieces generalizing document with
  | nil => simp
  | cons piece rest ih => simp [ih, push, String.append_assoc, Nat.add_assoc, Nat.add_comm 1]

theorem text_ofSections (pieces : List Section) :
    (ofSections pieces).text = header ++ String.join (pieces.map Section.text) := by
  simp [ofSections, foldl_push, empty]

theorem sectionCount_ofSections (pieces : List Section) :
    (ofSections pieces).sectionCount = pieces.length := by
  simp [ofSections, foldl_push, empty]

end Document

end SourceBook
