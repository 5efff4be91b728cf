/-!
# White space, comments and line ends in TOML

Spaces and tabs stand between tokens; a line ends with a line feed, alone or after a carriage
return; a comment runs from `#` to the end of its line and holds no control character but the tab.
-/

namespace CredentialBench.Toml

/-- White space within a line. -/
def isSpace (c : Char) : Bool := c == ' ' || c == '\t'

/-- The text without the white space at its start. -/
def skipSpace (cs : List Char) : List Char := cs.dropWhile isSpace

/-- The text after a line end. -/
def lineEnd? : List Char → Option (List Char)
  | '\n' :: rest => some rest
  | '\r' :: '\n' :: rest => some rest
  | _ => none

/-- A character that may stand in a comment or for itself in a string: the tab, or any character
that is no control character of ASCII. -/
def isPlain (c : Char) : Bool := c == '\t' || (0x20 ≤ c.toNat && c.toNat != 0x7F)

/-- The text from the end of a comment's line on, given what follows the `#`. -/
def skipComment : List Char → Option (List Char)
  | [] => some []
  | '\n' :: rest => some ('\n' :: rest)
  | '\r' :: '\n' :: rest => some ('\r' :: '\n' :: rest)
  | c :: rest => if isPlain c then skipComment rest else none

/-- The text after the current line, on which nothing but white space and a comment may be left. -/
def finishLine? (cs : List Char) : Option (List Char) := do
  let cs ← match skipSpace cs with
    | '#' :: rest => skipComment rest
    | cs => some cs
  match cs with
  | [] => return []
  | cs => lineEnd? cs

/-- The text after white space, line ends and comments, which may stand between the items of an
array. -/
def skipFiller : (inComment : Bool) → List Char → Option (List Char)
  | _, [] => some []
  | _, '\n' :: rest => skipFiller false rest
  | _, '\r' :: '\n' :: rest => skipFiller false rest
  | true, c :: rest => if isPlain c then skipFiller true rest else none
  | false, c :: rest =>
    if isSpace c then skipFiller false rest
    else if c = '#' then skipFiller true rest
    else some (c :: rest)

end CredentialBench.Toml
