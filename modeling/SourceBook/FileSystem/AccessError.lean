set_option autoImplicit false

namespace SourceBook

inductive AccessError where
  | notPermitted
  | noSuchEntry
  | permissionDenied
  | alreadyExists
  | notDirectory
  | isDirectory
  | noSpace
  | nameTooLong
  | tooManyLinks
  | illFormedText
  | zeroByteInPath
  | other (message : String)
  deriving DecidableEq

namespace AccessError

def numbered (words : String) (number : Nat) : String :=
  words ++ " (os error " ++ number.repr ++ ")"

def message : AccessError → String
  | .notPermitted => numbered "Operation not permitted" 1
  | .noSuchEntry => numbered "No such file or directory" 2
  | .permissionDenied => numbered "Permission denied" 13
  | .alreadyExists => numbered "File exists" 17
  | .notDirectory => numbered "Not a directory" 20
  | .isDirectory => numbered "Is a directory" 21
  | .noSpace => numbered "No space left on device" 28
  | .nameTooLong => numbered "File name too long" 36
  | .tooManyLinks => numbered "Too many levels of symbolic links" 40
  | .illFormedText => "stream did not contain valid UTF-8"
  | .zeroByteInPath => "file name contained an unexpected NUL byte"
  | .other message => message

end AccessError

end SourceBook
