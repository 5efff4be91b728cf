import CredentialBench.Text.Hex
import CredentialBench.Toml.Filler

/-!
# Strings in TOML

Four kinds: basic strings know escapes and literal strings do not, and either may stand on one line
between single delimiters or on several between threefold ones. In a string of several lines a line
end right after the opening delimiter is dropped, every other line end reads as a line feed, and one
or two quotes may stand for themselves, also before the closing delimiter. A backslash at the end
of a line of a basic string takes away the line end and all white space up to the next character.
-/

namespace CredentialBench.Toml

/-- The character that a one-letter escape stands for. -/
def escape? (c : Char) : Option Char :=
  if c = 'b' then some '\x08'
  else if c = 't' then some '\t'
  else if c = 'n' then some '\n'
  else if c = 'f' then some '\x0c'
  else if c = 'r' then some '\r'
  else if c = '"' then some '"'
  else if c = '\\' then some '\\'
  else none

/-- The character whose number hexadecimal digits write; surrogates are none. -/
def scalar? (digits : List Char) : Option Char := do
  let n ← Text.natOfHex? digits
  if n < 0xD800 ∨ (0xE000 ≤ n ∧ n < 0x110000) then some (Char.ofNat n) else none

/-- A basic string on one line, after its opening quote: its characters and what follows it. -/
def basic? : List Char → Option (List Char × List Char)
  | [] => none
  | '"' :: rest => some ([], rest)
  | '\\' :: 'u' :: a :: b :: c :: d :: rest => do
    let x ← scalar? [a, b, c, d]
    let (xs, rest) ← basic? rest
    return (x :: xs, rest)
  | '\\' :: 'U' :: a :: b :: c :: d :: e :: f :: g :: h :: rest => do
    let x ← scalar? [a, b, c, d, e, f, g, h]
    let (xs, rest) ← basic? rest
    return (x :: xs, rest)
  | '\\' :: e :: rest => do
    let x ← escape? e
    let (xs, rest) ← basic? rest
    return (x :: xs, rest)
  | c :: rest =>
    if isPlain c then (basic? rest).map fun r => (c :: r.1, r.2) else none

/-- A literal string on one line, after its opening quote. -/
def literal? : List Char → Option (List Char × List Char)
  | [] => none
  | '\'' :: rest => some ([], rest)
  | c :: rest =>
    if isPlain c then (literal? rest).map fun r => (c :: r.1, r.2) else none

/-- What a basic string of several lines is in the middle of. -/
inductive Joint
  /-- Nothing: characters stand for themselves. -/
  | none
  /-- A backslash was met, and its line must end. -/
  | open
  /-- White space before the next character is dropped. -/
  | closed
  deriving DecidableEq

/-- A basic string of several lines, after its opening delimiter. -/
def basicLines? (joint : Joint) : List Char → Option (List Char × List Char)
  | [] => none
  | c :: rest =>
    if joint ≠ .none ∧ isSpace c then basicLines? joint rest
    else if joint ≠ .none ∧ c = '\n' then basicLines? .closed rest
    else if c = '\r' then
      match rest with
      | '\n' :: rest =>
        if joint = .none then (basicLines? .none rest).map fun r => ('\n' :: r.1, r.2)
        else basicLines? .closed rest
      | _ => none
    else if joint = .open then none
    else if c = '\n' then (basicLines? .none rest).map fun r => ('\n' :: r.1, r.2)
    else if c = '"' then
      match rest with
      | '"' :: '"' :: '"' :: '"' :: rest => some (['"', '"'], rest)
      | '"' :: '"' :: '"' :: rest => some (['"'], rest)
      | '"' :: '"' :: rest => some ([], rest)
      | rest => (basicLines? .none rest).map fun r => ('"' :: r.1, r.2)
    else if c = '\\' then
      match rest with
      | 'u' :: a :: b :: c :: d :: rest => do
        let x ← scalar? [a, b, c, d]
        let (xs, rest) ← basicLines? .none rest
        return (x :: xs, rest)
      | 'U' :: a :: b :: c :: d :: e :: f :: g :: h :: rest => do
        let x ← scalar? [a, b, c, d, e, f, g, h]
        let (xs, rest) ← basicLines? .none rest
        return (x :: xs, rest)
      | [] => none
      | e :: rest =>
        match escape? e with
        | some x => (basicLines? .none rest).map fun r => (x :: r.1, r.2)
        | none =>
          if isSpace e then basicLines? .open rest
          else if e = '\n' then basicLines? .closed rest
          else if e = '\r' then
            match rest with
            | '\n' :: rest => basicLines? .closed rest
            | _ => none
          else none
    else if isPlain c then (basicLines? .none rest).map fun r => (c :: r.1, r.2)
    else none

/-- A literal string of several lines, after its opening delimiter. -/
def literalLines? : List Char → Option (List Char × List Char)
  | [] => none
  | '\'' :: '\'' :: '\'' :: '\'' :: '\'' :: rest => some (['\'', '\''], rest)
  | '\'' :: '\'' :: '\'' :: '\'' :: rest => some (['\''], rest)
  | '\'' :: '\'' :: '\'' :: rest => some ([], rest)
  | '\r' :: '\n' :: rest => (literalLines? rest).map fun r => ('\n' :: r.1, r.2)
  | c :: rest =>
    if isPlain c || c == '\n' then (literalLines? rest).map fun r => (c :: r.1, r.2) else none

/-- The text without the line end at its start. -/
def dropLineEnd (cs : List Char) : List Char := (lineEnd? cs).getD cs

/-- The string at the start of a text and what follows it; `none` if no string begins there. -/
def string? (cs : List Char) : Option (String × List Char) :=
  let read : Option (List Char × List Char) := match cs with
    | '"' :: '"' :: '"' :: rest => basicLines? .none (dropLineEnd rest)
    | '"' :: rest => basic? rest
    | '\'' :: '\'' :: '\'' :: rest => literalLines? (dropLineEnd rest)
    | '\'' :: rest => literal? rest
    | _ => none
  read.map fun r => (String.ofList r.1, r.2)

/-! ## Names -/

/-- The characters of a name without quotes. -/
def isBare (c : Char) : Bool :=
  ('a' ≤ c && c ≤ 'z') || ('A' ≤ c && c ≤ 'Z') || ('0' ≤ c && c ≤ '9') || c == '-' || c == '_'

/-- A name: one without quotes, or a string on one line. -/
def name? (cs : List Char) : Option (String × List Char) :=
  match cs with
  | '"' :: rest => (basic? rest).map fun r => (String.ofList r.1, r.2)
  | '\'' :: rest => (literal? rest).map fun r => (String.ofList r.1, r.2)
  | _ =>
    match cs.takeWhile isBare with
    | [] => none
    | name => some (String.ofList name, cs.dropWhile isBare)

/-- Names joined by points, with white space around each. The first argument bounds their number. -/
def names? : Nat → List Char → Option (List String × List Char)
  | 0, _ => none
  | fuel + 1, cs => do
    let (name, rest) ← name? (skipSpace cs)
    match skipSpace rest with
    | '.' :: rest =>
      let (names, rest) ← names? fuel rest
      return (name :: names, rest)
    | rest => return ([name], rest)

/-- The greatest depth of nesting, of names and of values. -/
def maxDepth : Nat := 79

/-- A path of names. -/
def path? (cs : List Char) : Option (List String × List Char) := names? maxDepth cs

end CredentialBench.Toml
