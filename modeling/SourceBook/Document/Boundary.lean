import SourceBook.Document.Basic

set_option autoImplicit false

namespace SourceBook

namespace Section

def seam (path : List Char) : List Char :=
  closer.toList ++ headingMark.toList ++ path ++ ("\n\n" ++ fence ++ languageTag).toList

/-- The opener at the end of the contents may lack its last line break, as the fence that follows the
contents supplies one. -/
def HoldsSeam (contents : String) : Prop :=
  ∃ before path after : List Char,
    contents.toList = before ++ seam path ++ after ∧ '\n' ∉ path ∧
      (after = [] ∨ after.head? = some '\n')

def OneLine (path : String) : Prop := '\n' ∉ path.toList

def Recoverable (piece : Section) : Prop :=
  OneLine piece.path ∧ ¬HoldsSeam piece.contents

end Section

end SourceBook
