import CredentialBench.FileTree.Basic

/-!
# Finding places

A path is followed name by name from where it begins. A name must lead to a directory unless it is
the last one; a link leads on to where it points, at most forty of them on one path. The result is
what stands at the end, or that nothing does.
-/

namespace CredentialBench.FileTree

/-- Where a path leads. -/
inductive Spot
  /-- Something stands there. -/
  | found (place : Place) (node : Node)
  /-- Nothing of that name stands in that directory. -/
  | vacant (directory : Place) (name : String)
  deriving DecidableEq

/-- The place of a spot. -/
def Spot.place : Spot → Place
  | found p _ => p
  | vacant p name => p ++ [name]

/-- Follow names from a directory. A link is followed by `jump`, which is given the place to go on
from and the names that are left; one at the end is followed only if `last` says so. -/
def visit (t : FileTree) (last : Bool) (jump : Place → List String → Except OsError Spot) :
    Place → List String → Except OsError Spot
  | p, [] =>
    match t.node? p with
    | some n => .ok (.found p n)
    | none => .error .noEntry
  | p, name :: rest =>
    if name = "." then visit t last jump p rest
    else if name = ".." then visit t last jump p.dropLast rest
    else if Path.maxNameBytes < name.utf8ByteSize then .error .nameTooLong
    else
      match t.node? (p ++ [name]) with
      | none => if rest.isEmpty then .ok (.vacant p name) else .error .noEntry
      | some (.directory _) => visit t last jump (p ++ [name]) rest
      | some (.file mode content) =>
        if rest.isEmpty then .ok (.found (p ++ [name]) (.file mode content))
        else .error .notDirectory
      | some (.link target) =>
        if rest.isEmpty && !last then .ok (.found (p ++ [name]) (.link target))
        else
          let aim := Path.ofText target
          jump (if aim.absolute then [] else p) (aim.steps ++ rest)

/-- Follow names from a directory through at most so many links. -/
def follow (t : FileTree) (last : Bool) : (links : Nat) → Place → List String → Except OsError Spot
  | 0 => visit t last fun _ _ => .error .linkLoop
  | links + 1 => visit t last (follow t last links)

/-- The greatest number of links on one path. -/
def maxLinks : Nat := 40

/-- Where names lead. -/
def locate (t : FileTree) (last : Bool) (absolute : Bool) (names : List String) :
    Except OsError Spot :=
  t.follow last maxLinks (if absolute then [] else t.start) names

/-- What stands where a path leads, a link at its end followed. -/
def stat (t : FileTree) (path : String) : Except OsError (Place × Node) := do
  let p ← Path.ofText? path
  match ← t.locate true p.absolute p.steps with
  | .found place node => return (place, node)
  | .vacant .. => throw .noEntry

/-- Whether names lead to a directory. -/
def leadsToDirectory (t : FileTree) (absolute : Bool) (names : List String) : Bool :=
  match t.locate true absolute names with
  | .ok (.found _ (.directory _)) => true
  | _ => false

/-- Whether a path leads to a directory. -/
def isDirectory (t : FileTree) (path : String) : Bool :=
  match t.stat path with
  | .ok (_, .directory _) => true
  | _ => false

end CredentialBench.FileTree
