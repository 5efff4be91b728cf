import CredentialBench.OsError
import CredentialBench.Text.Split

/-!
# Paths

A path is written as names between slashes. Names that are empty say nothing; `.` stays where it is
and `..` goes up. A path that starts with a slash begins at the root, any other one where the
program was started.
-/

namespace CredentialBench

/-- A path, taken apart. -/
structure Path where
  absolute : Bool
  /-- The names in order, none of them empty. -/
  names : List String
  /-- The path ends with a slash after a name. -/
  slash : Bool
  deriving DecidableEq

/-- A place in a tree: the names that lead to it from the root. -/
abbrev Place : Type := List String

namespace Path

/-- The path that a text writes. -/
def ofText (s : String) : Path :=
  let names := ((Text.split '/' s.toList).filter fun n => !n.isEmpty).map String.ofList
  ⟨s.toList.head? == some '/', names, s.toList.getLast? == some '/' && !names.isEmpty⟩

/-- The longest path that the system takes, in bytes. -/
def maxBytes : Nat := 4095

/-- The longest name that the system takes, in bytes. -/
def maxNameBytes : Nat := 255

/-- The path that a text writes, if the system takes the text. -/
def ofText? (s : String) : Except OsError Path :=
  if s.toList.contains '\x00' then .error .nulInPath
  else if s.isEmpty then .error .noEntry
  else if maxBytes < s.utf8ByteSize then .error .nameTooLong
  else .ok (ofText s)

/-- The path that leads to a place. -/
def ofPlace (p : Place) : Path := ⟨true, p, false⟩

/-- The path with a trailing slash written as a name that stays where it is: what comes before it
must be a directory. -/
def steps (p : Path) : List String := if p.slash then p.names ++ ["."] else p.names

/-- The text of the path to a place. -/
def textOfPlace (p : Place) : String :=
  match p with
  | [] => "/"
  | _ => String.join (p.map fun name => "/" ++ name)

/-- A path followed by another: that one alone if it starts at the root. -/
def append (base more : String) : String :=
  if more.toList.head? == some '/' || base.isEmpty then more
  else if base.toList.getLast? == some '/' then base ++ more
  else base ++ "/" ++ more

end Path

end CredentialBench
