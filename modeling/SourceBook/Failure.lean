import SourceBook.Document.Reading
import SourceBook.FileSystem.AccessError

set_option autoImplicit false

namespace SourceBook

inductive Failure where
  | notADirectory (path : Bytes)
  | unreadable (path : Bytes) (cause : AccessError)
  | unwritable (path : Bytes) (cause : AccessError)
  | unvisited (path : Bytes) (cause : AccessError)
  | malformed (problem : Malformed)
  deriving DecidableEq

namespace Failure

def message : Failure → String
  | .notADirectory path => "'" ++ Utf8.lossy path ++ "' is not a valid directory"
  | .unreadable path cause => "Error reading file " ++ Utf8.lossy path ++ ": " ++ cause.message
  | .unwritable path cause =>
    "Error writing output file " ++ Utf8.lossy path ++ ": " ++ cause.message
  | .unvisited path cause =>
    "Directory traversal error: IO error for operation on " ++ Utf8.lossy path ++ ": " ++
      cause.message
  | .malformed problem =>
    "Malformed document at position " ++ problem.position.repr ++ ": " ++ problem.reason.message

def cause? : Failure → Option AccessError
  | .unreadable _ cause | .unwritable _ cause | .unvisited _ cause => some cause
  | .notADirectory _ | .malformed _ => none

end Failure

end SourceBook
