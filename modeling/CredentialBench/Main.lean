import CredentialBench.CommandLine.Tools
import CredentialBench.Simulator.Router
import Std.Time.DateTime.Timestamp

/-!
# Command line

The first word names a program, `workspace`, `simulator` or `agent`, and the others are for it.
Before the program runs, the files that its options name are read into a tree; afterwards the
files that are new or different are written. The simulator answers requests from its standard
input, each a line of a method, a target and a body, with a line of a status and a body.
-/

namespace CredentialBench.CommandLine

/-- The tree with a file in it, or a directory and all that is in it. -/
partial def load (t : FileTree) (path : String) : IO FileTree := do
  let here ← IO.currentDir
  let place := here / path
  if ← place.isDir then
    let mut t := (t.ensureDirectory place.toString).2
    for entry in ← place.readDir do
      t ← load t (path ++ "/" ++ entry.fileName)
    return t
  else if ← place.pathExists then
    let bytes ← IO.FS.readBinFile place
    let above := ((place.parent).getD here).toString
    let t := (t.ensureDirectory above).2
    return (t.writePlain place.toString (.bytes bytes.toList)).2
  else
    return t

/-- The permissions that a mode gives. -/
def permissions (mode : Nat) : IO.FileRight :=
  ⟨access (mode / 64), access (mode / 8), access mode⟩
where
  /-- The permissions in the last digit of a mode. -/
  access (mode : Nat) : IO.AccessRight :=
    ⟨mode / 4 % 2 == 1, mode / 2 % 2 == 1, mode % 2 == 1⟩

/-- Write what is new or different in a tree. -/
def save (before after : FileTree) : IO Unit := do
  for (place, node) in after.nodes.entries do
    if before.node? place != some node then
      let path := Path.textOfPlace place
      match node with
      | .directory mode =>
        IO.FS.createDirAll path
        IO.setAccessRights path (permissions mode)
      | .file mode content =>
        IO.FS.writeBinFile path ⟨content.toBytes.toArray⟩
        IO.setAccessRights path (permissions mode)
      | .link _ => pure ()

/-- Print what a program comes to. -/
def report (r : Result) : IO UInt32 := do
  IO.print r.output
  if let some cause := r.error then IO.eprintln cause
  if r = .usage then IO.eprintln "The command line is wrong."
  return r.exit.toUInt32

/-- The tree before anything is read. What may be written is left to the system. -/
def emptyTree : IO FileTree := do
  return .ofProcess ⟨.superuser, (Path.ofText (← IO.currentDir).toString).names⟩

/-- A machine on which no other program is run. -/
def bareMachine : Workspace.Issuer.Machine := ⟨fun _ => none, fun _ _ => .error .noEntry⟩

/-- Write a workspace. -/
def runWorkspace (words : List String) : IO UInt32 := do
  let mut t ← emptyTree
  if let .given g := read workspaceSwitches words then
    for name in ["scenario-file", "artifact-dir", "config", "agent-stub"] do
      if let some path := g.lookup name then t ← load t path
    if let some path := g.lookup "config" then
      if let .ok settings := Workspace.Settings.load t path then
        if let some agent := settings.agentStub then t ← load t agent
  let today := (← Std.Time.Timestamp.now).toDaysSinceUnixEpoch.toInt.toNat
  let (result, after) := workspaceProgram bareMachine today words t
  save t after
  report result

/-- Answer requests until there are no more. -/
partial def answerRequests (s : Store) (input : IO.FS.Stream) : IO Unit := do
  let line ← input.getLine
  if line.isEmpty then return
  match Text.split ' ' (line.toList.takeWhile (· != '\n')) with
  | method :: target :: body =>
    let request : Http.Request := ⟨.ofName (String.ofList method), String.ofList target,
      Text.Utf8.encode (Text.join ' ' body)⟩
    let (response, s) := Simulator.respond s request
    let body := String.ofList (Text.Utf8.decodeLossy response.body.bytes)
    IO.println (toString response.status ++ " " ++ body)
    answerRequests s input
  | _ => answerRequests s input

/-- Run the simulator. -/
def runSimulator (words : List String) : IO UInt32 := do
  let mut t ← emptyTree
  if let .given g := read simulatorSwitches words then
    if let some path := g.lookup "config" then t ← load t path
  let environment := match ← IO.getEnv portVariable with
    | some port => [(portVariable, port)]
    | none => []
  match simulatorProgram .quiet environment words t with
  | .error result => report result
  | .ok address =>
    IO.eprintln ("listening as " ++ address.text)
    answerRequests .empty (← IO.getStdin)
    return 0

end CredentialBench.CommandLine

open CredentialBench.CommandLine in
/-- Run the program that the first word names. -/
def main (words : List String) : IO UInt32 :=
  match words with
  | "workspace" :: words => runWorkspace words
  | "simulator" :: words => runSimulator words
  | "agent" :: words => report (agentProgram words)
  | _ => report .usage
