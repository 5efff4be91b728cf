/-!
# Errors of the operating system

Why the system refuses to do something with a file or an address, and its words for it. The last
three causes lie in the request itself and carry no number of the system's.
-/

namespace CredentialBench

/-- Why the system refuses. -/
inductive OsError
  | noEntry
  | permissionDenied
  | fileExists
  | notDirectory
  | isDirectory
  | nameTooLong
  | linkLoop
  | addressInUse
  | addressUnavailable
  /-- A path holds the character U+0000. -/
  | nulInPath
  /-- An argument of a command holds the character U+0000. -/
  | nulInArgument
  /-- A file that is read as text is not UTF-8. -/
  | notUtf8
  deriving DecidableEq

/-- The words for a refusal. -/
def OsError.message : OsError → String
  | noEntry => "No such file or directory (os error 2)"
  | permissionDenied => "Permission denied (os error 13)"
  | fileExists => "File exists (os error 17)"
  | notDirectory => "Not a directory (os error 20)"
  | isDirectory => "Is a directory (os error 21)"
  | nameTooLong => "File name too long (os error 36)"
  | linkLoop => "Too many levels of symbolic links (os error 40)"
  | addressInUse => "Address already in use (os error 98)"
  | addressUnavailable => "Cannot assign requested address (os error 99)"
  | nulInPath => "file name contained an unexpected NUL byte"
  | nulInArgument => "nul byte found in provided data"
  | notUtf8 => "stream did not contain valid UTF-8"

end CredentialBench
