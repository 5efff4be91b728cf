import CredentialBench.Document.Record
import CredentialBench.Json.Reader
import CredentialBench.Store
import CredentialBench.Text.Blank
import CredentialBench.Text.Quoted

/-!
# Control calls

A control call sets the version of a key or arms failures for it. Its body is read and checked in
full before the store is touched: first its form, then the service, then the item, then the number.
A service and an item may stand between blank characters; the number is one if it is not given.
-/

namespace CredentialBench.Control

open Secret Document

/-- The two control calls that name a key. -/
inductive Kind
  | setVersion
  | failNext
  deriving DecidableEq

/-- The member that carries a call's number. -/
def Kind.field : Kind → String
  | setVersion => "version"
  | failNext => "count"

/-- A checked control call. -/
inductive Command
  | setVersion (key : Key) (version : Positive)
  | failNext (key : Key) (count : Positive)
  deriving DecidableEq

/-- The key that a control call names. -/
def Command.key : Command → Key
  | setVersion k _ => k
  | failNext k _ => k

/-- Why a control call is turned down. -/
inductive Problem
  /-- The body is not of the right form. -/
  | malformed (fault : Fault)
  /-- The service is not given, or blank. -/
  | missingService
  /-- The item is not given, or is none that is known. -/
  | unknownItem (given : String)
  /-- The number is zero or less. -/
  | nonPositive (kind : Kind) (value : Int)
  /-- The number is too large for its counter. -/
  | outOfRange (kind : Kind) (value : Int)
  deriving DecidableEq

/-- The words for a problem; one in the form of the body is named in angle brackets. -/
def Problem.message (p : Problem) : String :=
  "invalid control payload: " ++ match p with
  | malformed fault => "<" ++ fault.message ++ ">"
  | missingService => "service must not be empty"
  | unknownItem given => "unknown item " ++ Text.quoted given
  | nonPositive kind value => kind.field ++ " must be >= 1, got " ++ toString value
  | outOfRange kind value => kind.field ++ " is out of range: " ++ toString value

/-- The body of a control call before it is checked: every member may be left out. -/
structure Body where
  service : Option String
  item : Option String
  version : Option Int
  count : Option Int

/-- A body in a document. -/
def Body.decoder : Decoder Body := Record.decoder <|
  Body.mk <$> .defaulted "service" Decoder.string.nullable none
    <*> .defaulted "item" Decoder.string.nullable none
    <*> .defaulted "version" Decoder.int64.nullable none
    <*> .defaulted "count" Decoder.int64.nullable none

/-- The number that the body gives for a call, one if it gives none. -/
def Body.number (b : Body) : Kind → Int
  | .setVersion => b.version.getD 1
  | .failNext => b.count.getD 1

/-- The key that a body names. -/
def Body.key (b : Body) : Except Problem Key :=
  let service := Text.trim (b.service.getD "")
  if service = "" then .error .missingService
  else
    let item := Text.trim (b.item.getD "")
    match Item.ofName? item with
    | some i => .ok ⟨service, i⟩
    | none => .error (.unknownItem item)

/-- The largest number of failures that can be armed. -/
def maxCount : Nat := 0xFFFFFFFF

/-- The call that a body asks for. -/
def Body.command (b : Body) (kind : Kind) : Except Problem Command := do
  let key ← b.key
  match Positive.ofInt? (b.number kind), kind with
  | none, _ => throw (.nonPositive kind (b.number kind))
  | some n, .setVersion => return .setVersion key n
  | some n, .failNext =>
    if n.val ≤ maxCount then return .failNext key n
    else throw (.outOfRange kind (b.number kind))

/-- The call that the bytes of a body ask for. -/
def Command.ofBytes (kind : Kind) (bs : List UInt8) : Except Problem Command :=
  match Json.decode Body.decoder bs with
  | .ok b => b.command kind
  | .error fault => .error (.malformed fault)

end CredentialBench.Control

namespace CredentialBench

/-- The store after a control call. -/
def Store.apply (s : Store) : Control.Command → Store
  | .setVersion k v => s.setVersion k v
  | .failNext k c => s.failNext k c

end CredentialBench
