import CredentialBench.Document.Basic
import CredentialBench.Document.Fault

/-!
# Reading a document as a typed value

A `Decoder` reads a document of either format as a value of one type, or names the first problem in
the order of the text. Lists, dictionaries and choices are read here; records, whose fields may come
in any order, have a module of their own.
-/

namespace CredentialBench.Document

/-- The two formats, which differ in what they allow around a choice and after a record's last
field. -/
inductive Format
  | json
  | toml
  deriving DecidableEq

/-- A reader of documents as values of one type. -/
def Decoder (α : Type) : Type := Format → Document → Except Fault α

namespace Decoder

variable {α β : Type}

/-- The problem with a document of a kind that is not wanted. -/
def unexpected : Document → Fault
  | broken | unreadable => .malformed
  | _ => .invalidType

/-- The value read, put through a function. -/
def map (f : α → β) (d : Decoder α) : Decoder β := fun format doc => (d format doc).map f

/-- A text. -/
def string : Decoder String
  | _, .string s => .ok s
  | _, doc => .error (unexpected doc)

/-- An integer from `lo` to `hi`. -/
def integer (lo hi : Int) : Decoder Int
  | _, .integer n => if lo ≤ n ∧ n ≤ hi then .ok n else .error .invalidValue
  | _, doc => .error (unexpected doc)

/-- A signed integer of 64 bits. -/
def int64 : Decoder Int := integer (-0x8000000000000000) 0x7FFFFFFFFFFFFFFF

/-- A number of 32 bits. -/
def uint32 : Decoder UInt32 := (integer 0 0xFFFFFFFF).map fun n => UInt32.ofNat n.toNat

/-- A number of 16 bits. -/
def uint16 : Decoder UInt16 := (integer 0 0xFFFF).map fun n => UInt16.ofNat n.toNat

/-- Nothing, or a value. -/
def nullable (d : Decoder α) : Decoder (Option α)
  | _, .null => .ok none
  | format, doc => (d format doc).map some

/-- The items of an array, each read in turn. -/
def items (d : Decoder α) (format : Format) : Items → Except Fault (List α)
  | .closed => .ok []
  | .broken => .error .malformed
  | .next item rest => do
    let a ← d format item
    let as ← items d format rest
    return a :: as

/-- An array of values of one type. -/
def list (d : Decoder α) : Decoder (List α)
  | format, .array is => items d format is
  | _, doc => .error (unexpected doc)

/-- The members of a table, each value read in turn; a name may come again. -/
def members (d : Decoder α) (format : Format) : Members → Except Fault (List (String × α))
  | .closed => .ok []
  | .stray _ => .error .malformed
  | .next none _ _ => .error .malformed
  | .next (some name) value rest => do
    let a ← d format value
    let as ← members d format rest
    return (name, a) :: as

/-- A table of values of one type under any names. -/
def table (d : Decoder α) : Decoder (List (String × α))
  | format, .table ms => members d format ms
  | _, doc => .error (unexpected doc)

/-! ## Choices -/

/-- The choice of that name. -/
def pick (variants : List (String × α)) (name : String) : Except Fault α :=
  match variants.lookup name with
  | some a => .ok a
  | none => .error (.unknownVariant name (variants.map (·.1)))

/-- Whether a document may stand as the payload of a choice that carries nothing. -/
def emptyPayload : Format → Document → Except Fault Unit
  | .json, .null => .ok ()
  | .json, doc => .error (unexpected doc)
  | .toml, .table .closed => .ok ()
  | .toml, .array .closed => .ok ()
  | .toml, _ => .error .malformed

/-- One of several named choices: its name, or a table whose one member has the name and carries
nothing. -/
def choice (variants : List (String × α)) : Decoder α
  | _, .string s => pick variants s
  | .json, .table (.next (some name) payload rest) => do
    let a ← pick variants name
    emptyPayload .json payload
    match rest with
    | .closed => return a
    | _ => throw .malformed
  | .json, .table (.stray found) => .error (unexpected found)
  | .toml, .table (.next (some name) payload .closed) => do
    let a ← pick variants name
    emptyPayload .toml payload
    return a
  | _, _ => .error .malformed

end Decoder

end CredentialBench.Document
