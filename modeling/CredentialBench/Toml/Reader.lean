import CredentialBench.Document.Decoder
import CredentialBench.Toml.Scalar
import CredentialBench.Toml.Table

/-!
# Reading TOML

A text is read into lines, each an assignment or a header (`lines?`); the assignments after a header
belong to it (`sections`); and the sections are put together to a table (`Toml.document?`). A text
that is not TOML is refused as a whole, so its typed reading (`decode`) meets no problem of form
later on.
-/

namespace CredentialBench.Toml

open Entries (Assignment Header)

/-! ## Values -/

/-- An assignment: a path of names, an equals sign, a value. -/
def assignment? (value : List Char → Option (Document × List Char)) (cs : List Char) :
    Option (Assignment × List Char) := do
  let (names, rest) ← path? cs
  let name ← names.getLast?
  match rest with
  | '=' :: rest =>
    let (v, rest) ← value (skipSpace rest)
    return (⟨names.dropLast, name, v⟩, rest)
  | _ => none

/-- The items of an array from one of them on. The second argument bounds their number. -/
def items? (value : List Char → Option (Document × List Char)) :
    Nat → List Char → Option (Document.Items × List Char)
  | 0, _ => none
  | fuel + 1, cs => do
    let (v, rest) ← value cs
    match ← skipFiller false rest with
    | ']' :: rest => return (.next v .closed, rest)
    | ',' :: rest =>
      match ← skipFiller false rest with
      | ']' :: rest => return (.next v .closed, rest)
      | rest =>
        let (vs, rest) ← items? value fuel rest
        return (.next v vs, rest)
    | _ => none

/-- The assignments of a table within a line from one of them on. -/
def inline? (value : List Char → Option (Document × List Char)) :
    Nat → List Char → Option (List Assignment × List Char)
  | 0, _ => none
  | fuel + 1, cs => do
    let (a, rest) ← assignment? value cs
    match skipSpace rest with
    | '\x7d' :: rest => return ([a], rest)
    | ',' :: rest =>
      let (as, rest) ← inline? value fuel rest
      return (a :: as, rest)
    | _ => none

/-- The value at the start of a text and what follows it; the first argument bounds the nesting. -/
def value? : (depth : Nat) → List Char → Option (Document × List Char)
  | depth, cs =>
    match cs with
    | '[' :: rest =>
      match depth with
      | 0 => none
      | depth + 1 => do
        match ← skipFiller false rest with
        | ']' :: rest => return (.array .closed, rest)
        | rest =>
          let (vs, rest) ← items? (value? depth) rest.length rest
          return (.array vs, rest)
    | '\x7b' :: rest =>
      match depth with
      | 0 => none
      | depth + 1 =>
        match skipSpace rest with
        | '\x7d' :: rest => some (.table .closed, rest)
        | rest => do
          let (as, rest) ← inline? (value? depth) rest.length rest
          let es ← Entries.addAll? as []
          return (es.toDocument, rest)
    | '"' :: _ | '\'' :: _ => (string? cs).map fun r => (.string r.1, r.2)
    | _ => scalar cs

/-! ## Lines -/

/-- What a line says. -/
inductive Line
  | assign (a : Assignment)
  | header (h : Header)

/-- The header at the start of a text, after its first bracket. -/
def header? (cs : List Char) : Option (Header × List Char) := do
  let (isElement, rest) := match cs with
    | '[' :: rest => (true, rest)
    | _ => (false, cs)
  let (names, rest) ← path? rest
  let name ← names.getLast?
  let h : Header := ⟨isElement, names.dropLast, name⟩
  match isElement, rest with
  | true, ']' :: ']' :: rest => return (h, rest)
  | false, ']' :: rest => return (h, rest)
  | _, _ => none

/-- The lines of a text. The first argument bounds their number. -/
def lines? : Nat → List Char → Option (List Line)
  | 0, _ => none
  | fuel + 1, cs =>
    match skipSpace cs with
    | [] => some []
    | '#' :: rest => do
      let rest ← skipComment rest
      lines? fuel (dropLineEnd rest)
    | '[' :: rest => do
      let (h, rest) ← header? rest
      let ls ← lines? fuel (← finishLine? rest)
      return .header h :: ls
    | cs =>
      match lineEnd? cs with
      | some rest => lines? fuel rest
      | none => do
        let (a, rest) ← assignment? (value? maxDepth) cs
        let ls ← lines? fuel (← finishLine? rest)
        return .assign a :: ls

/-! ## Documents -/

/-- The assignments before the first header, and each header with those after it. -/
def sections : List Line → List Assignment × List (Header × List Assignment)
  | [] => ([], [])
  | .assign a :: rest => let r := sections rest; (a :: r.1, r.2)
  | .header h :: rest => let r := sections rest; ([], (h, r.1) :: r.2)

/-- The table that lines make. -/
def tableOfLines? (ls : List Line) : Option Entries := do
  let (top, rest) := sections ls
  let es ← Entries.addAll? top []
  rest.foldlM (fun es s => es.addTable? s.1 s.2) es

/-- The text without a byte order mark at its start. -/
def dropMark : List Char → List Char
  | '\ufeff' :: rest => rest
  | cs => cs

/-- The document that a text is. -/
def document? (s : String) : Option Document := do
  let cs := dropMark s.toList
  let es ← tableOfLines? (← lines? (cs.length + 1) cs)
  return es.toDocument

/-- The typed value that a text spells, or its first problem. -/
def decode {α : Type} (d : Document.Decoder α) (s : String) : Except Document.Fault α :=
  match document? s with
  | some doc => d .toml doc
  | none => .error .malformed

end CredentialBench.Toml
