import CredentialBench.Document.Basic

/-!
# Building TOML tables

A text gives its tables piece by piece, under headers and by dotted names. A table remembers what
made it, since that decides how it may be added to:

* a table made by its own header is complete when the next header comes; longer headers may add
  tables to it, dotted names may not reach into it, and no header names it again;
* a table that a longer header passed through may still have its own header, once;
* a table that dotted names made is open to dotted names, and no header may name it.

No name is ever given twice in a table. `Entries.toDocument` forgets how a table was made.
-/

namespace CredentialBench.Toml

/-- What made a table. -/
inductive Origin
  /-- Its own header. -/
  | header
  /-- A longer header. -/
  | passing
  /-- A dotted name. -/
  | dotted
  deriving DecidableEq

/-- What stands under a name. -/
inductive Node
  | value (d : Document)
  | table (origin : Origin) (entries : List (String × Node))
  /-- The tables of an array that headers make, the last one open. -/
  | tables (elements : List (List (String × Node)))

/-- What stands in a table, in order. -/
abbrev Entries : Type := List (String × Node)

namespace Entries

/-- The entries with another node under a name that is there. -/
def replace (name : String) (n : Node) (es : Entries) : Entries :=
  es.map fun e => if e.1 = name then (name, n) else e

/-- The entries with a node under a new name; `none` if the name is taken. -/
def add? (name : String) (n : Node) (es : Entries) : Option Entries :=
  if (es.lookup name).isSome then none else some (es ++ [(name, n)])

/-- The entries with the table at a path put through a function, which is told what made it. Tables
that are missing on the way are made in the given manner, and a way by dotted names does not lead
through a table with a header. -/
def update? (manner : Origin) (f : Origin → Entries → Option Entries) :
    List String → Origin → Entries → Option Entries
  | [], origin, es => f origin es
  | name :: path, _, es =>
    match es.lookup name with
    | none => do
      let inner ← update? manner f path manner []
      return es ++ [(name, .table manner inner)]
    | some (.value _) => none
    | some (.table origin inner) =>
      if manner = .dotted ∧ origin = .header then none
      else do
        let inner ← update? manner f path origin inner
        return es.replace name (.table origin inner)
    | some (.tables elements) => do
      let last ← elements.getLast?
      let inner ← update? manner f path .header last
      return es.replace name (.tables (elements.dropLast ++ [inner]))

/-- The entries with a value under a dotted name. The table that a dotted name leads to must have
been made by dotted names. -/
def addDotted? (path : List String) (name : String) (d : Document) (es : Entries) :
    Option Entries :=
  update? .dotted
    (fun origin inner =>
      if !path.isEmpty && origin != .dotted then none else inner.add? name (.value d))
    path .header es

/-- A value under a dotted name. -/
structure Assignment where
  path : List String
  name : String
  value : Document

/-- The entries with several values, in order. -/
def addAll? (as : List Assignment) (es : Entries) : Option Entries :=
  as.foldlM (fun es a => es.addDotted? a.path a.name a.value) es

/-- A header: whether it opens an element of an array, and the path of the table. -/
structure Header where
  isElement : Bool
  path : List String
  name : String

/-- The entries with a table under a header. -/
def addTable? (h : Header) (as : List Assignment) (es : Entries) : Option Entries :=
  update? .passing
    (fun _ inner => do
      if h.isElement then
        let table ← addAll? as []
        match inner.lookup h.name with
        | none => return inner ++ [(h.name, .tables [table])]
        | some (.tables elements) =>
          return inner.replace h.name (.tables (elements ++ [table]))
        | some _ => none
      else
        match inner.lookup h.name with
        | none =>
          let table ← addAll? as []
          return inner ++ [(h.name, .table .header table)]
        | some (.table .passing begun) =>
          let table ← addAll? as begun
          return inner.filter (fun e => e.1 != h.name) ++ [(h.name, .table .header table)]
        | some _ => none)
    h.path .header es

end Entries

mutual

/-- The document that a node is. -/
def Node.toDocument : Node → Document
  | .value d => d
  | .table _ es => .table (Entries.toMembers es)
  | .tables elements => .array (Entries.toItems elements)

/-- The members that the entries of a table are. -/
def Entries.toMembers : List (String × Node) → Document.Members
  | [] => .closed
  | (name, n) :: rest => .next (some name) n.toDocument (Entries.toMembers rest)

/-- The items that the tables of an array are. -/
def Entries.toItems : List (List (String × Node)) → Document.Items
  | [] => .closed
  | es :: rest => .next (.table (Entries.toMembers es)) (Entries.toItems rest)

end

/-- The document that a table is. -/
def Entries.toDocument (es : Entries) : Document := .table (Entries.toMembers es)

end CredentialBench.Toml
