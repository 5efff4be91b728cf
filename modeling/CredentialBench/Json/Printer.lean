import CredentialBench.Json.Value
import CredentialBench.Text.Hex
import CredentialBench.Text.Utf8

/-!
# Writing JSON

One writer in two styles. The compact style has no white space at all; the indented style puts
each item and member on a line of its own, two spaces deeper than the line that opens it, and a
space after the colon. An empty array is `[]` and an empty object `{}` in both. Strings escape the
quote, the backslash and the characters below U+0020, and nothing else.
-/

namespace CredentialBench.Json

/-- How a string shows one character. -/
def escapedChar (c : Char) : List Char :=
  if c = '"' then ['\\', '"']
  else if c = '\\' then ['\\', '\\']
  else if c = '\n' then ['\\', 'n']
  else if c = '\r' then ['\\', 'r']
  else if c = '\t' then ['\\', 't']
  else if c = '\x08' then ['\\', 'b']
  else if c = '\x0c' then ['\\', 'f']
  else if c.toNat < 0x20 then ['\\', 'u'] ++ Text.hexPadded 4 c.toNat
  else [c]

/-- The string between quotes. -/
def quotedString (s : String) : List Char := '"' :: (s.toList.flatMap escapedChar ++ ['"'])

/-- A binary64 number in full: `m · 2^q` is the integer itself where `q` is not negative, and
`m · 5^(-q)` shifted by `-q` decimal places otherwise. What is not finite has no number. -/
def floatText (bits : UInt64) : List Char :=
  let exponent := bits.toNat / 0x10000000000000 % 2048
  let fraction := bits.toNat % 0x10000000000000
  let sign := if 0x8000000000000000 ≤ bits.toNat then ['-'] else []
  if exponent = 2047 then "null".toList
  else
    let m := if exponent = 0 then fraction else fraction + 0x10000000000000
    let scale := max exponent 1
    if 1075 ≤ scale then sign ++ Nat.toDigits 10 (m * Nat.pow 2 (scale - 1075)) ++ ['.', '0']
    else sign ++ Nat.toDigits 10 (m * Nat.pow 5 (1075 - scale)) ++ ['e', '-'] ++
      Nat.toDigits 10 (1075 - scale)

/-- What stands between the tokens: the break before an item at some depth, and the colon. -/
structure Style where
  lineBreak : (depth : Nat) → List Char
  colon : List Char

/-- No white space. -/
def Style.compact : Style := ⟨fun _ => [], [':']⟩

/-- A line for each item, two spaces for each level. -/
def Style.indented : Style :=
  ⟨fun depth => '\n' :: List.replicate (2 * depth) ' ', [':', ' ']⟩

namespace Value

mutual

/-- The text of a value whose first line stands at the given depth. -/
def write (style : Style) (depth : Nat) : Value → List Char
  | null => "null".toList
  | boolean b => (if b then "true" else "false").toList
  | integer n => (toString n).toList
  | float bits => floatText bits
  | string s => quotedString s
  | array [] => ['[', ']']
  | array (v :: vs) =>
    '[' :: (style.lineBreak (depth + 1) ++ write style (depth + 1) v ++
      writeItems style (depth + 1) vs ++ style.lineBreak depth ++ [']'])
  | object [] => ['\x7b', '\x7d']
  | object ((name, v) :: ms) =>
    '\x7b' :: (style.lineBreak (depth + 1) ++ quotedString name ++ style.colon ++
      write style (depth + 1) v ++ writeMembers style (depth + 1) ms ++
      style.lineBreak depth ++ ['\x7d'])

/-- The items after the first, each behind a comma. -/
def writeItems (style : Style) (depth : Nat) : List Value → List Char
  | [] => []
  | v :: vs =>
    ',' :: (style.lineBreak depth ++ write style depth v ++ writeItems style depth vs)

/-- The members after the first, each behind a comma. -/
def writeMembers (style : Style) (depth : Nat) : List (String × Value) → List Char
  | [] => []
  | (name, v) :: ms =>
    ',' :: (style.lineBreak depth ++ quotedString name ++ style.colon ++ write style depth v ++
      writeMembers style depth ms)

end

/-- The text without white space. -/
def compact (v : Value) : String := String.ofList (write .compact 0 v)

/-- The text with a line for each item; no line break follows the last line. -/
def indented (v : Value) : String := String.ofList (write .indented 0 v)

end Value

end CredentialBench.Json
