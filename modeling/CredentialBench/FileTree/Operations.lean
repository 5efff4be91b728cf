import CredentialBench.FileTree.Resolution

/-!
# Changing a file tree

The operations with which a workspace is written. Files are made for their owner alone, or with the
permissions that the system gives by default; a file that is there must let the user write it, keeps
its permissions when it is written, and is given the wanted ones afterwards. An operation that fails
leaves what it has done so far.
-/

namespace CredentialBench.FileTree

/-- For the owner to read and write. -/
def privateMode : Nat := 0o600

/-- For the owner to read, write and execute. -/
def executableMode : Nat := 0o700

/-- What the system gives a new file by default: all may read and the owner may write. -/
def defaultMode : Nat := 0o644

/-! ## Reading -/

/-- The content of the file that a path leads to. -/
def fileContent (t : FileTree) (path : String) : Except OsError Content := do
  match ← t.stat path with
  | (_, .file _ content) => return content
  | _ => throw .isDirectory

/-- The text in the file that a path leads to. -/
def readText (t : FileTree) (path : String) : Except OsError String := do
  let content ← t.fileContent path
  match Text.Utf8.text? content.toBytes with
  | some s => return s
  | none => throw .notUtf8

/-- The text of the path that leads to the same place without links. -/
def canonical (t : FileTree) (path : String) : Except OsError Place := do
  let (place, _) ← t.stat path
  return place

/-! ## Directories -/

/-- The tree with a new directory where names lead. -/
def makeDirectory (t : FileTree) (absolute : Bool) (names : List String) :
    Except OsError FileTree := do
  match ← t.locate false absolute names with
  | .found .. => throw .fileExists
  | .vacant p name => return t.set (p ++ [name]) (.directory directoryMode)

/-- The tree with a directory where names lead, new or not. -/
def keepDirectory (t : FileTree) (absolute : Bool) (names : List String) :
    Except OsError Unit × FileTree :=
  match t.makeDirectory absolute names with
  | .ok t => (.ok (), t)
  | .error e => if t.leadsToDirectory absolute names then (.ok (), t) else (.error e, t)

/-- The tree with a directory where the names lead, given the last name first, and with the
directories above it. -/
def makeAncestors (absolute : Bool) : (reversed : List String) → FileTree →
    Except OsError Unit × FileTree
  | [], t => (.ok (), t)
  | name :: above, t =>
    let names := (name :: above).reverse
    match t.makeDirectory absolute names with
    | .error .noEntry =>
      match makeAncestors absolute above t with
      | (.ok (), t) => t.keepDirectory absolute names
      | failed => failed
    | _ => t.keepDirectory absolute names

/-- The tree with a directory where a path leads, and with the directories above it. -/
def ensureDirectory (t : FileTree) (path : String) : Except OsError Unit × FileTree :=
  match Path.ofText? path with
  | .error e => if path.isEmpty then (.ok (), t) else (.error e, t)
  | .ok p =>
    match t.makeDirectory p.absolute p.names with
    | .error .noEntry =>
      let above := (p.names.filter fun n => n != ".").dropLast.reverse
      match makeAncestors p.absolute above t with
      | (.ok (), t) => t.keepDirectory p.absolute p.names
      | failed => failed
    | _ => t.keepDirectory p.absolute p.names

/-! ## Files -/

/-- The tree with a content in the file that a path leads to, if the user may write it; a new file
has the given permissions. -/
def put (t : FileTree) (path : String) (mode : Nat) (content : Content) :
    Except OsError FileTree := do
  let p ← Path.ofText? path
  match ← t.locate true p.absolute p.names with
  | .found _ (.directory _) => throw .isDirectory
  | .found _ (.link _) => throw .linkLoop
  | .found place (.file old _) =>
    if p.slash then throw .isDirectory
    else if t.user.mayWrite old then return t.set place (.file old content)
    else throw .permissionDenied
  | .vacant d name =>
    if p.slash then throw .isDirectory else return t.set (d ++ [name]) (.file mode content)

/-- The tree with other permissions on what a path leads to, which its owner may set whatever they
are now. -/
def setMode (t : FileTree) (path : String) (mode : Nat) : Except OsError FileTree := do
  match ← t.stat path with
  | (place, .file _ content) => return t.set place (.file mode content)
  | (place, .directory _) => return t.set place (.directory mode)
  | (_, .link _) => return t

/-- An operation that leaves the tree alone where it fails. -/
def attempt (t : FileTree) (r : Except OsError FileTree) : Except OsError Unit × FileTree :=
  match r with
  | .ok t => (.ok (), t)
  | .error e => (.error e, t)

/-- A file with a content and exactly these permissions. -/
def writeWithMode (t : FileTree) (path : String) (mode : Nat) (content : Content) :
    Except OsError Unit × FileTree :=
  match t.put path mode content with
  | .ok t => t.attempt (t.setMode path mode)
  | .error e => (.error e, t)

/-- A file for its owner alone. -/
def writePrivate (t : FileTree) (path : String) (content : Content) :
    Except OsError Unit × FileTree :=
  t.writeWithMode path privateMode content

/-- An executable file for its owner alone. -/
def writeExecutable (t : FileTree) (path : String) (content : Content) :
    Except OsError Unit × FileTree :=
  t.writeWithMode path executableMode content

/-- A file with the permissions that it has, or the default ones if it is new. -/
def writePlain (t : FileTree) (path : String) (content : Content) :
    Except OsError Unit × FileTree :=
  t.attempt (t.put path defaultMode content)

/-- What a path leads to, for its owner alone from now on. -/
def restrict (t : FileTree) (path : String) : Except OsError Unit × FileTree :=
  t.attempt (t.setMode path privateMode)

/-! ## Preparing a tree -/

/-- The tree with a link at a path. -/
def makeLink (t : FileTree) (path target : String) : Except OsError FileTree := do
  let p ← Path.ofText? path
  match ← t.locate false p.absolute p.names with
  | .found .. => throw .fileExists
  | .vacant d name => return t.set (d ++ [name]) (.link target)

/-- The tree without what stands at a path and below; a link at the end is not followed. -/
def delete (t : FileTree) (path : String) : Except OsError FileTree := do
  let p ← Path.ofText? path
  match ← t.locate false p.absolute p.names with
  | .found place _ => return t.remove place
  | .vacant .. => throw .noEntry

/-! ## Listing -/

/-- What stands below a place: the names that lead there from it, and the node. -/
def below (t : FileTree) (p : Place) : List (Place × Node) :=
  t.nodes.entries.filterMap fun e =>
    if p.isPrefixOf e.1 && p.length < e.1.length then some (e.1.drop p.length, e.2) else none

/-- What stands below a place, as relative paths in the order of their characters. -/
def listing (t : FileTree) (p : Place) : List (String × Node) :=
  ((t.below p).map fun e => ("/".intercalate e.1, e.2)).mergeSort fun a b => decide (a.1 ≤ b.1)

end CredentialBench.FileTree
