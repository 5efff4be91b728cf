import CredentialBench.Net.Ip
import CredentialBench.Net.Percent
import CredentialBench.Text.Split
import CredentialBench.Text.Utf8

/-!
# URLs

The URLs of the web, read as the URL standard says for the schemes `http` and `https`. Tabs and
line ends are dropped wherever they stand; a backslash is a slash; `.` and `..` in a path are
resolved, also where they are percent-encoded; characters that a part may not hold are percent-
encoded in it, and a percent sign is left as it is. What a server is sent is the path with the
query (`Url.target`).
-/

namespace CredentialBench.Net

/-- A URL. -/
structure Url where
  secure : Bool
  /-- The host, in lower case. -/
  host : String
  /-- The port, if one is given. -/
  port : Option UInt16
  /-- The segments of the path, each after a slash. -/
  path : List (List Char)
  query : Option (List Char)
  fragment : Option (List Char)
  deriving DecidableEq

namespace Url

/-! ## Percent-encoded parts -/

/-- The characters that every part percent-encodes. -/
def isControlOrForeign (c : Char) : Bool := c.toNat < 0x20 || 0x7E < c.toNat

/-- The characters that a path percent-encodes. -/
def pathSet (c : Char) : Bool :=
  isControlOrForeign c || [' ', '"', '#', '<', '>', '?', '^', '\x60', '\x7b', '\x7d'].contains c

/-- The characters that a query percent-encodes. -/
def querySet (c : Char) : Bool :=
  isControlOrForeign c || [' ', '"', '#', '<', '>', '\''].contains c

/-- The characters that a fragment percent-encodes. -/
def fragmentSet (c : Char) : Bool :=
  isControlOrForeign c || [' ', '"', '<', '>', '\x60'].contains c

/-- The text with the characters of a set percent-encoded. -/
def encodeSet (set : Char → Bool) (cs : List Char) : List Char :=
  cs.flatMap fun c => if set c then Percent.encodeAll (String.utf8EncodeChar c) else [c]

/-! ## Paths -/

/-- The lower-case form of a letter of ASCII. -/
def lower (cs : List Char) : List Char := cs.map Char.toLower

/-- A segment that stays where it is. -/
def isSingleDot (s : List Char) : Bool := ["." , "%2e"].contains (String.ofList (lower s))

/-- A segment that goes up. -/
def isDoubleDot (s : List Char) : Bool :=
  ["..", ".%2e", "%2e.", "%2e%2e"].contains (String.ofList (lower s))

/-- The path of some segments after those that are done; one that goes up or stays adds an empty
segment if it comes last. -/
def resolve : (done : List (List Char)) → List (List Char) → List (List Char)
  | done, [] => done
  | done, [s] =>
    if isDoubleDot s then done.dropLast ++ [[]]
    else if isSingleDot s then done ++ [[]]
    else done ++ [encodeSet pathSet s]
  | done, s :: rest =>
    if isDoubleDot s then resolve done.dropLast rest
    else if isSingleDot s then resolve done rest
    else resolve (done ++ [encodeSet pathSet s]) rest

/-- The path that a text writes, with or without its first slash. -/
def pathOf (cs : List Char) : List (List Char) :=
  let cs := cs.map fun c => if c = '\\' then '/' else c
  match cs with
  | '/' :: rest => resolve [] (Text.split '/' rest)
  | _ => resolve [] (Text.split '/' cs)

/-! ## Authorities -/

/-- The characters that a host may not hold. -/
def isForbiddenInHost (c : Char) : Bool :=
  c.toNat ≤ 0x20 || c.toNat == 0x7F ||
    ['#', '/', ':', '<', '>', '?', '@', '[', '\\', ']', '^', '|', '%'].contains c

/-- The port that ends an authority, and `none` within if none is given. -/
def port? : List Char → Option (Option UInt16)
  | [] => some none
  | ':' :: [] => some none
  | ':' :: cs =>
    match number? portForm cs with
    | some (n, []) => some (some (UInt16.ofNat n))
    | _ => none
  | _ => none

/-- The host and the port of an authority without user information. -/
def hostAndPort? (cs : List Char) : Option (String × Option UInt16) :=
  match cs with
  | '[' :: rest => do
    let (ip, rest) ← Ipv6.read? rest
    let port ← port? (← after? ']' rest)
    return ("[" ++ ip.text ++ "]", port)
  | _ => do
    let host := cs.takeWhile (· != ':')
    if host.isEmpty || host.any isForbiddenInHost then none
    let port ← port? (cs.dropWhile (· != ':'))
    return (String.ofList (lower host), port)

/-- The text after the last `@`, the whole text if there is none. -/
def afterUser (cs : List Char) : List Char := (cs.reverse.takeWhile (· != '@')).reverse

/-! ## Reading and writing -/

/-- The text after a scheme and its colon, and whether it is the secure one. -/
def scheme? (cs : List Char) : Option (Bool × List Char) :=
  let name := String.ofList (lower (cs.takeWhile (· != ':')))
  match cs.dropWhile (· != ':') with
  | _ :: rest =>
    if name = "http" then some (false, rest)
    else if name = "https" then some (true, rest)
    else none
  | [] => none

/-- Whether a character is dropped at either end of a URL. -/
def isEdge (c : Char) : Bool := c.toNat ≤ 0x20

/-- The text without what a URL drops: controls and spaces at either end, tabs and line ends
anywhere. -/
def stripped (cs : List Char) : List Char :=
  ((cs.dropWhile isEdge).reverse.dropWhile isEdge).reverse.filter fun c =>
    c != '\t' && c != '\n' && c != '\r'

/-- The URL that a text writes. -/
def ofText? (s : String) : Option Url := do
  let (secure, rest) ← scheme? (stripped s.toList)
  let rest := rest.dropWhile fun c => c == '/' || c == '\\'
  let ends := fun c => c == '/' || c == '\\' || c == '?' || c == '#'
  let (host, port) ← hostAndPort? (afterUser (rest.takeWhile fun c => !ends c))
  let rest := rest.dropWhile fun c => !ends c
  let path := rest.takeWhile fun c => c != '?' && c != '#'
  let rest := rest.dropWhile fun c => c != '?' && c != '#'
  let query := match rest with
    | '?' :: rest => some (encodeSet querySet (rest.takeWhile (· != '#')))
    | _ => none
  let fragment := match rest.dropWhile (· != '#') with
    | '#' :: rest => some (encodeSet fragmentSet rest)
    | _ => none
  return ⟨secure, host, port, pathOf path, query, fragment⟩

/-- The path with the query, as it is sent. -/
def target (u : Url) : List Char :=
  (u.path.flatMap fun s => '/' :: s) ++
    match u.query with
    | some q => '?' :: q
    | none => []

/-- The port that is meant where none is given. -/
def defaultPort (u : Url) : UInt16 := if u.secure then 443 else 80

/-- The whole URL. -/
def text (u : Url) : List Char :=
  (if u.secure then "https://" else "http://").toList ++ u.host.toList ++
    (match u.port.filter (· != u.defaultPort) with
      | some p => ':' :: (Nat.repr p.toNat).toList
      | none => []) ++
    u.target ++
    match u.fragment with
    | some f => '#' :: f
    | none => []

/-- The longest URL that is requested. -/
def maxLength : Nat := 65534

end Url

end CredentialBench.Net
