import SourceBook.Log.Level

set_option autoImplicit false

namespace SourceBook

inductive Origin where
  | collecting
  | searching
  | running
  deriving DecidableEq

def Origin.path : Origin → String
  | .collecting => "gosources::collector"
  | .searching => "gosources::fs_utils"
  | .running => "gosources"

structure Event where
  level : Level
  origin : Origin
  message : String
  deriving DecidableEq

end SourceBook
