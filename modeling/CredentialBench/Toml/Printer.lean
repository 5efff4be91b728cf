import CredentialBench.Text.Hex

/-!
# Writing TOML

How strings, lists of strings and assignments are written. A string is basic unless escapes can be
saved by a literal one: it holds a double quote or a backslash, nothing that only an escape can
write, no three single quotes in a row and none at its end. A string with a line feed stands on
several lines, and its first line starts below the opening delimiter; a literal string that holds
single quotes has the threefold delimiter too.
-/

namespace CredentialBench.Toml

/-- Whether a character can only be written by an escape: the controls of ASCII but the tab and the
line feed. -/
def needsEscape (c : Char) : Bool :=
  (c.toNat < 0x20 && c != '\t' && c != '\n') || c.toNat == 0x7F

/-- Whether three single quotes stand in a row. -/
def hasTripleQuote : List Char → Bool
  | '\'' :: '\'' :: '\'' :: _ => true
  | [] => false
  | _ :: rest => hasTripleQuote rest

/-- Whether a string is written as a literal one. -/
def prefersLiteral (cs : List Char) : Bool :=
  (cs.contains '"' || cs.contains '\\') && !cs.any needsEscape && !hasTripleQuote cs &&
    cs.getLast? != some '\''

/-- How a basic string shows one character; `lines` tells whether it stands on several lines. -/
def escapedChar (lines : Bool) (c : Char) : List Char :=
  if c = '\x08' then ['\\', 'b']
  else if c = '\t' then ['\\', 't']
  else if c = '\n' then if lines then ['\n'] else ['\\', 'n']
  else if c = '\x0c' then ['\\', 'f']
  else if c = '\r' then ['\\', 'r']
  else if c = '"' then ['\\', '"']
  else if c = '\\' then ['\\', '\\']
  else if needsEscape c then ['\\', 'u'] ++ (Text.hexPadded 4 c.toNat).map Char.toUpper
  else [c]

/-- The delimiter made of three quotes. -/
def tripled (quote : Char) : List Char := [quote, quote, quote]

/-- A string as it is written. -/
def quotedString (s : String) : List Char :=
  let cs := s.toList
  let lines := cs.contains '\n'
  if prefersLiteral cs then
    if lines then tripled '\'' ++ '\n' :: cs ++ tripled '\''
    else if cs.contains '\'' then tripled '\'' ++ cs ++ tripled '\''
    else '\'' :: cs ++ ['\'']
  else if lines then tripled '"' ++ '\n' :: cs.flatMap (escapedChar true) ++ tripled '"'
  else '"' :: cs.flatMap (escapedChar false) ++ ['"']

/-- The strings after the first, each behind a comma. -/
def stringItems : List String → List Char
  | [] => []
  | s :: rest => ',' :: ' ' :: quotedString s ++ stringItems rest

/-- A list of strings as it is written. -/
def stringList : List String → List Char
  | [] => ['[', ']']
  | s :: rest => '[' :: quotedString s ++ stringItems rest ++ [']']

/-- A line that gives a name without quotes a value. -/
def assignment (name : String) (value : List Char) : List Char :=
  name.toList ++ [' ', '=', ' '] ++ value ++ ['\n']

end CredentialBench.Toml
