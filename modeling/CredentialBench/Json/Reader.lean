import CredentialBench.Document.Decoder
import CredentialBench.Json.Numeral
import CredentialBench.Json.Value
import CredentialBench.Text.Hex
import CredentialBench.Text.Utf8

/-!
# Reading JSON

A byte string is read front to back as a document (`Reading.ofBytes`); the reading also tells
whether anything but white space follows. Strings are held to their syntax first and to UTF-8 and
paired surrogates when they are used, so a string that is skipped may hold anything its syntax
allows.

`decode` reads a byte string as a typed value and `Value.parse?` as a JSON value, in which arrays
and objects are nested at most 127 deep and the members of an object are sorted by name, the last
one of a name kept.
-/

namespace CredentialBench.Json

/-- White space between tokens. -/
def isSpace (b : UInt8) : Bool := b == 0x20 || b == 0x0A || b == 0x0D || b == 0x09

/-- The text from its next token on. -/
def skipSpace (bs : List UInt8) : List UInt8 := bs.dropWhile isSpace

/-! ## Strings -/

/-- A part of a string: a byte that stands for itself, or a code unit that is written by number. -/
inductive Piece
  | byte (b : UInt8)
  | unit (n : Nat)

namespace Piece

/-- The byte that a one-letter escape stands for. -/
def escape? (b : UInt8) : Option UInt8 :=
  if b = 0x22 ∨ b = 0x5C ∨ b = 0x2F then some b
  else if b = 0x62 then some 0x08
  else if b = 0x66 then some 0x0C
  else if b = 0x6E then some 0x0A
  else if b = 0x72 then some 0x0D
  else if b = 0x74 then some 0x09
  else none

/-- The number that four hexadecimal digits write. -/
def unit? (a b c d : UInt8) : Option Nat :=
  Text.natOfHex? ([a, b, c, d].map fun x => Char.ofNat x.toNat)

/-- The parts of a string up to its closing quote, and what follows that; `none` if the text stops
being a string before. -/
def read? : List UInt8 → Option (List Piece × List UInt8)
  | [] => none
  | 0x22 :: rest => some ([], rest)
  | 0x5C :: 0x75 :: a :: b :: c :: d :: rest => do
    let n ← unit? a b c d
    let (ps, rest) ← read? rest
    return (unit n :: ps, rest)
  | 0x5C :: e :: rest => do
    let b ← escape? e
    let (ps, rest) ← read? rest
    return (byte b :: ps, rest)
  | b :: rest =>
    if b.toNat < 0x20 then none
    else (read? rest).map fun r => (byte b :: r.1, r.2)

/-- The bytes that the parts spell: units from two numbers where the first is a leading and the
second a trailing surrogate, and no surrogate otherwise. -/
def bytes? : List Piece → Option (List UInt8)
  | [] => some []
  | byte b :: rest => (bytes? rest).map (b :: ·)
  | unit n :: unit m :: rest =>
    if 0xD800 ≤ n ∧ n < 0xDC00 then
      if 0xDC00 ≤ m ∧ m < 0xE000 then
        (bytes? rest).map
          (String.utf8EncodeChar (Char.ofNat (0x10000 + (n - 0xD800) * 0x400 + (m - 0xDC00))) ++ ·)
      else none
    else if 0xDC00 ≤ n ∧ n < 0xE000 then none
    else (bytes? (unit m :: rest)).map (String.utf8EncodeChar (Char.ofNat n) ++ ·)
  | unit n :: rest =>
    if 0xD800 ≤ n ∧ n < 0xE000 then none
    else (bytes? rest).map (String.utf8EncodeChar (Char.ofNat n) ++ ·)

/-- The text that the parts spell, if they spell one. -/
def text? (ps : List Piece) : Option String := (bytes? ps).bind Text.Utf8.text?

end Piece

/-! ## Documents -/

/-- The text after a literal word. -/
def word? (w : String) (bs : List UInt8) : Option (List UInt8) :=
  let letters := Text.Utf8.bytes w
  if letters.isPrefixOf bs then some (bs.drop letters.length) else none

/-- A document that is a literal word. -/
def word (w : String) (doc : Document) (bs : List UInt8) : Document × Option (List UInt8) :=
  match word? w bs with
  | some rest => (doc, some rest)
  | none => (.broken, none)

mutual

/-- The document at the start of a text and what follows it; nothing follows where reading stops.
The first argument bounds the number of nested calls; twice the text's length and one is enough. -/
def document : Nat → List UInt8 → Document × Option (List UInt8)
  | 0, _ => (.broken, none)
  | fuel + 1, bs =>
    match skipSpace bs with
    | [] => (.broken, none)
    | b :: rest =>
      if b = 0x22 then
        match Piece.read? rest with
        | none => (.broken, none)
        | some (ps, rest) =>
          match Piece.text? ps with
          | some s => (.string s, some rest)
          | none => (.unreadable, some rest)
      else if b = 0x5B then
        match skipSpace rest with
        | 0x5D :: rest => (.array .closed, some rest)
        | _ => let r := items fuel rest; (.array r.1, r.2)
      else if b = 0x7B then
        match skipSpace rest with
        | 0x7D :: rest => (.table .closed, some rest)
        | _ => let r := members fuel rest; (.table r.1, r.2)
      else if b = 0x6E then word "null" .null (b :: rest)
      else if b = 0x74 then word "true" (.boolean true) (b :: rest)
      else if b = 0x66 then word "false" (.boolean false) (b :: rest)
      else
        match Numeral.read? (b :: rest) with
        | some (n, rest) => (n.document, some rest)
        | none => (.broken, none)

/-- The items of an array from one of them on, and what follows the array. -/
def items : Nat → List UInt8 → Document.Items × Option (List UInt8)
  | 0, _ => (.broken, none)
  | fuel + 1, bs =>
    match document fuel bs with
    | (item, none) => (.next item .broken, none)
    | (item, some rest) =>
      match skipSpace rest with
      | 0x5D :: rest => (.next item .closed, some rest)
      | 0x2C :: rest => let r := items fuel rest; (.next item r.1, r.2)
      | _ => (.next item .broken, none)

/-- The members of an object from one of them on, and what follows the object. -/
def members : Nat → List UInt8 → Document.Members × Option (List UInt8)
  | 0, _ => (.stray .broken, none)
  | fuel + 1, bs =>
    match skipSpace bs with
    | 0x22 :: rest =>
      match Piece.read? rest with
      | none => (.stray .broken, none)
      | some (ps, rest) =>
        let name := Piece.text? ps
        match skipSpace rest with
        | 0x3A :: rest =>
          match document fuel rest with
          | (value, none) => (.next name value (.stray .broken), none)
          | (value, some rest) =>
            match skipSpace rest with
            | 0x7D :: rest => (.next name value .closed, some rest)
            | 0x2C :: rest => let r := members fuel rest; (.next name value r.1, r.2)
            | _ => (.next name value (.stray .broken), none)
        | _ => (.next name .broken (.stray .broken), none)
    | _ => (.stray (document fuel bs).1, none)

end

/-- A text read as one document. -/
structure Reading where
  document : Document
  /-- Nothing but white space follows. -/
  complete : Bool

/-- A byte string read as one document. -/
def Reading.ofBytes (bs : List UInt8) : Reading :=
  match Json.document (2 * bs.length + 1) bs with
  | (doc, some rest) => ⟨doc, (skipSpace rest).isEmpty⟩
  | (doc, none) => ⟨doc, false⟩

/-- The typed value that a byte string spells, or its first problem; what follows the value comes
last. -/
def decode {α : Type} (d : Document.Decoder α) (bs : List UInt8) : Except Document.Fault α := do
  let reading := Reading.ofBytes bs
  let a ← d .json reading.document
  if reading.complete then return a else throw .malformed

/-! ## JSON values -/

namespace Value

/-- The members with one of that name put in its place by name. -/
def setMember (name : String) (v : Value) : List (String × Value) → List (String × Value)
  | [] => [(name, v)]
  | (n, w) :: rest =>
    if name < n then (name, v) :: (n, w) :: rest
    else if name = n then (name, v) :: rest
    else (n, w) :: setMember name v rest

mutual

/-- The value of a document that holds no date and no time, nested no deeper than `depth`. -/
def ofDocument? (depth : Nat) : Document → Option Value
  | .null => some null
  | .boolean b => some (boolean b)
  | .integer n => some (integer n)
  | .float bits => some (float bits)
  | .string s => some (string s)
  | .array is => if depth = 0 then none else (ofItems? (depth - 1) is).map array
  | .table ms =>
    if depth = 0 then none
    else (ofMembers? (depth - 1) ms).map fun ms =>
      object (ms.foldl (fun done m => setMember m.1 m.2 done) [])
  | .moment | .unreadable | .broken => none

/-- The values of an array's items. -/
def ofItems? (depth : Nat) : Document.Items → Option (List Value)
  | .closed => some []
  | .broken => none
  | .next item rest => do
    let v ← ofDocument? depth item
    let vs ← ofItems? depth rest
    return v :: vs

/-- The members of a table, in order. -/
def ofMembers? (depth : Nat) : Document.Members → Option (List (String × Value))
  | .closed => some []
  | .stray _ => none
  | .next name value rest => do
    let n ← name
    let v ← ofDocument? depth value
    let ms ← ofMembers? depth rest
    return (n, v) :: ms

end

/-- How deep a value's arrays and objects may be nested. -/
def maxDepth : Nat := 127

/-- The value that a byte string spells. -/
def parse? (bs : List UInt8) : Option Value :=
  let reading := Reading.ofBytes bs
  if reading.complete then ofDocument? maxDepth reading.document else none

end Value

end CredentialBench.Json
