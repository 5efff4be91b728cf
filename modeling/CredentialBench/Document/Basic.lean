/-!
# Documents

What a structured text holds, whatever its format, with the places where reading fails kept as part
of the result. A reader that stops early leaves what it has read so far, so a consumer can tell
which of two problems comes first: one in the text, or one in the value before it.

* `Document.unreadable` is well formed and spells no value: a string with an unpaired surrogate, a
  number beyond the range of binary64. It may be skipped but not used.
* `Document.broken`, `Items.broken` and `Members.stray` mark where the text stops being one.
-/

namespace CredentialBench

mutual

/-- A document, as far as its text can be read. -/
inductive Document
  | null
  | boolean (b : Bool)
  | integer (n : Int)
  | float (bits : UInt64)
  | string (s : String)
  /-- A date, a time of day, or both. -/
  | moment
  | array (items : Document.Items)
  | table (members : Document.Members)
  /-- Well formed, but spells no value. -/
  | unreadable
  /-- The text stops being a document here. -/
  | broken

/-- The items of an array, up to its end or to the place where reading fails. -/
inductive Document.Items
  | closed
  | broken
  | next (item : Document) (rest : Document.Items)

/-- The members of a table, up to its end or to the place where reading fails. -/
inductive Document.Members
  | closed
  /-- No member begins here; `found` is the document that stands in the name's place, if one
  does. -/
  | stray (found : Document)
  /-- A name that spells no text is `none`. -/
  | next (name : Option String) (value : Document) (rest : Document.Members)

end

namespace Document

mutual

/-- Whether the text is a document to its end, so that it can be skipped. -/
def wellFormed : Document → Bool
  | array items => items.wellFormed
  | table members => members.wellFormed
  | broken => false
  | _ => true

/-- Whether the array is read to its end. -/
def Items.wellFormed : Items → Bool
  | .closed => true
  | .broken => false
  | .next item rest => item.wellFormed && rest.wellFormed

/-- Whether the table is read to its end. -/
def Members.wellFormed : Members → Bool
  | .closed => true
  | .stray _ => false
  | .next _ value rest => value.wellFormed && rest.wellFormed

end

/-- The number of members before the end. -/
def Members.size : Members → Nat
  | .next _ _ rest => rest.size + 1
  | _ => 0

/-- The first member of that name, with the number of members before it. -/
def Members.find? (name : String) : Members → Option (Nat × Document)
  | .next name' value rest =>
    if name' = some name then some (0, value)
    else (rest.find? name).map fun r => (r.1 + 1, r.2)
  | _ => none

end Document

end CredentialBench
