import CredentialBench.Json.Reader

/-!
# The grammar of JSON

Which byte strings spell which documents, stated without a reader: numerals (`Numeral.Spells`), the
insides of strings (`Piece.Spells`), and documents with white space between any two tokens
(`Spells`). A text that the grammar derives is read to its end as the document that it spells
(`Proofs/Json/Reading`), and what the writer writes is such a text (`Proofs/Json/Writing`).
-/

namespace CredentialBench.Json

/-- White space between two tokens. -/
def Space (ws : List UInt8) : Prop := ∀ b ∈ ws, isSpace b = true

/-! ## Numerals -/

namespace Numeral

/-- The byte that writes a digit. -/
def digitByte (d : Nat) : UInt8 := UInt8.ofNat (d + 0x30)

/-- Decimal digits, of which there is at least one. -/
structure Digits (ds : List Nat) : Prop where
  ne_nil : ds ≠ []
  lt_ten : ∀ d ∈ ds, d < 10

/-- Digits in which a leading zero stands alone. -/
structure Whole (ds : List Nat) : Prop extends Digits ds where
  zero_alone : ∀ rest, ds = 0 :: rest → rest = []

/-- A point and digits, or nothing. -/
inductive SpellsFraction : List UInt8 → Option (List Nat) → Prop
  | absent : SpellsFraction [] none
  | digits {ds : List Nat} (h : Digits ds) : SpellsFraction (0x2E :: ds.map digitByte) (some ds)

/-- The sign of an exponent. -/
inductive SpellsSign : List UInt8 → Bool → Prop
  | absent : SpellsSign [] false
  | plus : SpellsSign [0x2B] false
  | minus : SpellsSign [0x2D] true

/-- The letter, a sign and digits, or nothing. -/
inductive SpellsExponent : List UInt8 → Option (Bool × List Nat) → Prop
  | absent : SpellsExponent [] none
  | digits {e : UInt8} {sign : List UInt8} {negative : Bool} {ds : List Nat}
      (he : e = 0x65 ∨ e = 0x45) (hs : SpellsSign sign negative) (h : Digits ds) :
      SpellsExponent (e :: (sign ++ ds.map digitByte)) (some (negative, ds))

/-- A numeral, by its parts. -/
inductive Spells : List UInt8 → Numeral → Prop
  | mk {negative : Bool} {whole : List Nat} {fs es : List UInt8} {fraction : Option (List Nat)}
      {exponent : Option (Bool × List Nat)} (hw : Whole whole) (hf : SpellsFraction fs fraction)
      (he : SpellsExponent es exponent) :
      Spells ((if negative then [0x2D] else []) ++ (whole.map digitByte ++ (fs ++ es)))
        ⟨negative, whole, fraction, exponent⟩

end Numeral

/-! ## Strings -/

/-- The inside of a string, by its parts: bytes that stand for themselves, one-letter escapes, and
code units by number. -/
inductive Piece.Spells : List UInt8 → List Piece → Prop
  | nil : Piece.Spells [] []
  | plain {b : UInt8} {bs : List UInt8} {ps : List Piece} (hl : 0x20 ≤ b.toNat) (hq : b ≠ 0x22)
      (he : b ≠ 0x5C) (h : Piece.Spells bs ps) : Piece.Spells (b :: bs) (.byte b :: ps)
  | letter {e b : UInt8} {bs : List UInt8} {ps : List Piece} (he : Piece.escape? e = some b)
      (h : Piece.Spells bs ps) : Piece.Spells (0x5C :: e :: bs) (.byte b :: ps)
  | unit {a b c d : UInt8} {n : Nat} {bs : List UInt8} {ps : List Piece}
      (hn : Piece.unit? a b c d = some n) (h : Piece.Spells bs ps) :
      Piece.Spells (0x5C :: 0x75 :: a :: b :: c :: d :: bs) (.unit n :: ps)

/-- The name of a member with its colon. -/
inductive SpellsName : List UInt8 → Option String → Prop
  | mk {ws ws' bs : List UInt8} {ps : List Piece} (hw : Space ws) (h : Piece.Spells bs ps)
      (hw' : Space ws') :
      SpellsName (ws ++ 0x22 :: (bs ++ 0x22 :: (ws' ++ [0x3A]))) (Piece.text? ps)

/-! ## Documents -/

mutual

/-- A document, with white space before it. -/
inductive Spells : List UInt8 → Document → Prop
  | space {b : UInt8} {bs : List UInt8} {doc : Document} (hb : isSpace b = true)
      (h : Spells bs doc) : Spells (b :: bs) doc
  | null : Spells (Text.Utf8.bytes "null") .null
  | boolean (b : Bool) : Spells (Text.Utf8.bytes (if b then "true" else "false")) (.boolean b)
  | numeral {bs : List UInt8} {n : Numeral} (h : Numeral.Spells bs n) : Spells bs n.document
  | string {bs : List UInt8} {ps : List Piece} {s : String} (h : Piece.Spells bs ps)
      (hs : Piece.text? ps = some s) : Spells (0x22 :: (bs ++ [0x22])) (.string s)
  | unreadable {bs : List UInt8} {ps : List Piece} (h : Piece.Spells bs ps)
      (hs : Piece.text? ps = none) : Spells (0x22 :: (bs ++ [0x22])) .unreadable
  | emptyArray {ws : List UInt8} (hw : Space ws) : Spells (0x5B :: (ws ++ [0x5D])) (.array .closed)
  | array {bs : List UInt8} {is : Document.Items} (h : SpellsItems bs is) :
      Spells (0x5B :: bs) (.array is)
  | emptyTable {ws : List UInt8} (hw : Space ws) : Spells (0x7B :: (ws ++ [0x7D])) (.table .closed)
  | table {bs : List UInt8} {ms : Document.Members} (h : SpellsMembers bs ms) :
      Spells (0x7B :: bs) (.table ms)

/-- The items of an array, of which there is at least one, and its closing bracket. -/
inductive SpellsItems : List UInt8 → Document.Items → Prop
  | last {bs ws : List UInt8} {doc : Document} (h : Spells bs doc) (hw : Space ws) :
      SpellsItems (bs ++ (ws ++ [0x5D])) (.next doc .closed)
  | next {bs ws bs' : List UInt8} {doc : Document} {is : Document.Items} (h : Spells bs doc)
      (hw : Space ws) (hr : SpellsItems bs' is) :
      SpellsItems (bs ++ (ws ++ 0x2C :: bs')) (.next doc is)

/-- The members of an object, of which there is at least one, and its closing brace. -/
inductive SpellsMembers : List UInt8 → Document.Members → Prop
  | last {ns bs ws : List UInt8} {name : Option String} {doc : Document} (hn : SpellsName ns name)
      (h : Spells bs doc) (hw : Space ws) :
      SpellsMembers (ns ++ (bs ++ (ws ++ [0x7D]))) (.next name doc .closed)
  | next {ns bs ws bs' : List UInt8} {name : Option String} {doc : Document}
      {ms : Document.Members} (hn : SpellsName ns name) (h : Spells bs doc) (hw : Space ws)
      (hr : SpellsMembers bs' ms) :
      SpellsMembers (ns ++ (bs ++ (ws ++ 0x2C :: bs'))) (.next name doc ms)

end

end CredentialBench.Json
