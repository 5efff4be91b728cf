import CredentialBench.Document.Decoder

/-!
# Reading records

A record is read from a table, its fields in any order and unknown members skipped, or from an
array, its fields in the order in which they are declared. Of several problems the one that comes
first in the text is reported:

* a known name that comes again, at its second place, before its value is looked at;
* a value of the wrong type, at its place;
* a skipped member that is not well formed, at its place;
* a missing field at the end of the table, the first declared one first.

A `Record` describes the fields one by one; `<*>` puts them together.
-/

namespace CredentialBench.Document

/-- A value, or a problem with the number of members before it. -/
inductive Located (α : Type)
  | ok (a : α)
  | fault (place : Nat) (f : Fault)

namespace Located

variable {α β : Type}

/-- The value put through a function. -/
def map (f : α → β) : Located α → Located β
  | ok a => ok (f a)
  | fault i e => fault i e

/-- Both values, or the problem at the lower place; the first one's on a tie. -/
def seq (f : Located (α → β)) (a : Located α) : Located β :=
  match f, a with
  | ok f, ok a => ok (f a)
  | ok _, fault j e => fault j e
  | fault i e, ok _ => fault i e
  | fault i e, fault j e' => if j < i then fault j e' else fault i e

/-- The value, or the problem without its place. -/
def toExcept : Located α → Except Fault α
  | ok a => .ok a
  | fault _ e => .error e

end Located

/-- The fields of a record: their names, and how the record is read from a table and from an
array. -/
structure Record (α : Type) where
  names : List String
  ofMembers : Format → Members → Located α
  ofItems : Format → Items → Except Fault (α × Items)

namespace Record

variable {α β : Type}

/-- A record without fields. -/
def pure (a : α) : Record α := ⟨[], fun _ _ => .ok a, fun _ is => .ok (a, is)⟩

/-- The fields of one record and then those of another. -/
def seq (f : Record (α → β)) (a : Record α) : Record β where
  names := f.names ++ a.names
  ofMembers format ms := (f.ofMembers format ms).seq (a.ofMembers format ms)
  ofItems format is := do
    let (g, rest) ← f.ofItems format is
    let (x, rest) ← a.ofItems format rest
    return (g x, rest)

instance : Applicative Record where
  pure := pure
  seq f a := seq f (a ())

/-- One field; `absent` is its value where a table does not have it, and `cut` its value where an
array ends before it. -/
def field (name : String) (d : Decoder α) (absent : Except Fault α) (cut : Except Fault α) :
    Record α where
  names := [name]
  ofMembers format ms :=
    match ms.find? name with
    | some (i, value) =>
      match d format value with
      | .ok a => .ok a
      | .error e => .fault i e
    | none =>
      match absent with
      | .ok a => .ok a
      | .error e => .fault ms.size e
  ofItems format
    | .next item rest => do
      let a ← d format item
      return (a, rest)
    | .closed => do
      let a ← cut
      return (a, .closed)
    | .broken => .error .malformed

/-- A field that must be there. -/
def required (name : String) (d : Decoder α) : Record α :=
  field name d (.error (.missingField name)) (.error .invalidLength)

/-- A field with a value of its own where it is not given. -/
def defaulted (name : String) (d : Decoder α) (value : α) : Record α :=
  field name d (.ok value) (.ok value)

/-- A field that a table may leave out. -/
def optional (name : String) (d : Decoder α) : Record (Option α) :=
  field name d.nullable (.ok none) (.error .invalidLength)

/-- The first problem that lies in the table itself, and not in the value of a known field: the end
of what can be read, a name that spells no text, a known name again, a skipped member that is not
well formed. -/
def audit (known : List String) : (seen : List String) → (place : Nat) → Members → Located Unit
  | _, _, .closed => .ok ()
  | _, i, .stray _ => .fault i .malformed
  | _, i, .next none _ _ => .fault i .malformed
  | seen, i, .next (some name) value rest =>
    if name ∈ known then
      if name ∈ seen then .fault i (.duplicateField name)
      else audit known (name :: seen) (i + 1) rest
    else if value.wellFormed then audit known seen (i + 1) rest
    else .fault i .malformed

/-- The record that a table holds. -/
def decodeMembers (r : Record α) (format : Format) (ms : Members) : Except Fault α :=
  (((audit r.names [] 0 ms).map fun _ a => a).seq (r.ofMembers format ms)).toExcept

/-- The record that an array holds. A JSON array must end with the last field. -/
def decodeItems (r : Record α) (format : Format) (is : Items) : Except Fault α := do
  let (a, rest) ← r.ofItems format is
  match format, rest with
  | .toml, _ => return a
  | .json, .closed => return a
  | .json, _ => throw .malformed

/-- A record, read from a table or from an array. A date or a time is a table without known
fields. -/
def decoder (r : Record α) : Decoder α
  | format, .table ms => r.decodeMembers format ms
  | format, .array is => r.decodeItems format is
  | format, .moment => r.decodeMembers format .closed
  | _, doc => .error (Decoder.unexpected doc)

end Record

end CredentialBench.Document
