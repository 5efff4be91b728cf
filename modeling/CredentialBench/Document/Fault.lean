import CredentialBench.OsError

/-!
# What can be wrong with a document

The problems that reading a document as a value of some type can meet, and the words for each. A
text that is no document, and every shape that no other cause describes, is `malformed`. A document
that is kept in a file can fail to load in two ways: its file cannot be read as text, or the text is
not a value of the wanted type.
-/

namespace CredentialBench.Document

/-- Why a document is not a value of the wanted type. -/
inductive Fault
  | malformed
  | missingField (name : String)
  | duplicateField (name : String)
  | unknownVariant (given : String) (known : List String)
  | invalidType
  | invalidValue
  | invalidLength
  deriving DecidableEq

namespace Fault

/-- A name between back quotes. -/
def ticked (s : String) : String := "`" ++ s ++ "`"

/-- The names that would have been accepted. -/
def expectation : List String → String
  | [] => "there are no variants"
  | [a] => "expected " ++ ticked a
  | [a, b] => "expected " ++ ticked a ++ " or " ++ ticked b
  | names => "expected one of " ++ ", ".intercalate (names.map ticked)

/-- The words for a problem. -/
def message : Fault → String
  | malformed => "other"
  | missingField name => "missing field " ++ ticked name
  | duplicateField name => "duplicate field " ++ ticked name
  | unknownVariant given known => "unknown variant " ++ ticked given ++ ", " ++ expectation known
  | invalidType => "invalid type"
  | invalidValue => "invalid value"
  | invalidLength => "invalid length"

end Fault

end CredentialBench.Document

namespace CredentialBench

/-- Why a document cannot be loaded. -/
inductive LoadError
  | read (cause : OsError)
  | parse (fault : Document.Fault)
  deriving DecidableEq

end CredentialBench
