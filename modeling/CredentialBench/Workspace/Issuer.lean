import CredentialBench.FileTree.Operations
import CredentialBench.Text.Blank

/-!
# Issuers

A certificate is for a service on a host, as one of its instances, in a domain: the name in it joins
all four with points, and the files are named for the service. An issuer writes a self-signed
certificate and its private key for such an identity into a directory, both for the owner alone, and
answers where they are. `Issuer.internal` makes them itself, the key before the certificate.
`Issuer.openssl` runs a program that does, and then takes the permissions of both files back; a
program that ends without success, or leaves one of the files out, is an error.
-/

namespace CredentialBench.Workspace

/-! ## Identities -/

/-- Whom a certificate is for. -/
structure Identity where
  service : String
  hostname : String
  instanceId : String
  domain : String
  deriving DecidableEq

namespace Identity

/-- The name in the certificate. -/
def dnsName (i : Identity) : String :=
  i.instanceId ++ "." ++ i.service ++ "." ++ i.hostname ++ "." ++ i.domain

/-- Where the certificate goes in a directory. -/
def certPath (i : Identity) (directory : String) : String :=
  Path.append directory (i.service ++ ".crt")

/-- Where the private key goes in a directory. -/
def keyPath (i : Identity) (directory : String) : String :=
  Path.append directory (i.service ++ ".key")

end Identity

/-! ## Outcomes -/

/-- What an issuer answers that has written a certificate and its key. -/
structure Issued where
  certPath : String
  keyPath : String
  /-- The name in the certificate. -/
  dnsName : String
  deriving DecidableEq

/-- The answer of an issuer that has written its two files where they go in a directory. -/
def Identity.issued (i : Identity) (directory : String) : Issued :=
  ⟨i.certPath directory, i.keyPath directory, i.dnsName⟩

/-- Why no certificate is issued. -/
inductive IssueError
  /-- The name cannot stand in a certificate. -/
  | generate
  /-- There is no `openssl` program. -/
  | opensslNotFound
  /-- The program cannot be started. -/
  | spawn (cause : OsError)
  /-- The program ended without success; `output` is what it said, without white space around. -/
  | opensslFailed (status output : String)
  /-- A file could not be written or its permissions not be set. -/
  | write (path : String) (cause : OsError)
  deriving DecidableEq

/-- The words for a failure to start or of a program; the others have none. -/
def IssueError.message? : IssueError → Option String
  | spawn cause => some ("failed to run openssl: " ++ cause.message)
  | opensslFailed status output => some ("openssl exited with " ++ status ++ ": " ++ output)
  | _ => none

/-- How an issuer ends that issues no certificate. -/
inductive IssueFailure
  /-- It returns an error. -/
  | error (cause : IssueError)
  /-- It panics, and returns nothing. -/
  | panic
  deriving DecidableEq

/-- Writes a certificate and a key for an identity into a directory. -/
abbrev Issuer : Type :=
  Identity → (directory : String) → FileTree → Except IssueFailure Issued × FileTree

namespace Issuer

/-- Two operations on files, the second only if the first succeeds, and the answer to both. -/
def both (first : String) (r : Except OsError Unit × FileTree) (second : String)
    (next : FileTree → Except OsError Unit × FileTree) (answer : Issued) :
    Except IssueFailure Issued × FileTree :=
  match r with
  | (.error e, t) => (.error (.error (.write first e)), t)
  | (.ok (), t) =>
    match next t with
    | (.error e, t) => (.error (.error (.write second e)), t)
    | (.ok (), t) => (.ok answer, t)

/-! ## Without another program -/

/-- The days from the first of January 1970 to the last day that a certificate can name, the end of
the year 9999. -/
def lastDay : Nat := 2932896

/-- The issuer that makes certificates itself, on some day after the first of January 1970. It
panics where a certificate would be valid beyond the calendar. -/
def internal (today : Nat) (days : UInt32) : Issuer := fun identity directory t =>
  let name := identity.dnsName
  if name.toList.any fun c => 0x7F < c.toNat then (.error (.error .generate), t)
  else if lastDay < today + days.toNat then (.error .panic, t)
  else
    let key := identity.keyPath directory
    let cert := identity.certPath directory
    both key (t.writePrivate key .privateKey) cert
      (fun t => t.writePrivate cert (.certificate (.ofName name days.toNat)))
      (identity.issued directory)

/-! ## With a program -/

/-- How a program ends. -/
inductive ExitStatus
  | exited (code : Nat)
  | killed (signal : Nat)
  deriving DecidableEq

/-- The names of the signals from the first on. -/
def signalNames : List String := [
  "SIGHUP", "SIGINT", "SIGQUIT", "SIGILL", "SIGTRAP", "SIGABRT", "SIGBUS", "SIGFPE", "SIGKILL",
  "SIGUSR1", "SIGSEGV", "SIGUSR2", "SIGPIPE", "SIGALRM", "SIGTERM", "SIGSTKFLT", "SIGCHLD",
  "SIGCONT", "SIGSTOP", "SIGTSTP", "SIGTTIN", "SIGTTOU", "SIGURG", "SIGXCPU", "SIGXFSZ",
  "SIGVTALRM", "SIGPROF", "SIGWINCH", "SIGIO", "SIGPWR", "SIGSYS"]

/-- The words for an end. -/
def ExitStatus.text : ExitStatus → String
  | exited code => "exit status: " ++ Nat.repr code
  | killed signal =>
    "signal: " ++ Nat.repr signal ++
      match signalNames[signal - 1]? with
      | some name => if signal = 0 then "" else " (" ++ name ++ ")"
      | none => ""

/-- What is left of a program: how it ended, what it said, and the files. -/
structure Finish where
  status : ExitStatus
  output : List UInt8
  tree : FileTree

/-- A program: what it does with its arguments and the files. -/
abbrev Program : Type := List String → FileTree → Finish

/-- The programs of a machine. -/
structure Machine where
  /-- Where `openssl` is found, if it is. -/
  openssl? : FileTree → Option String
  /-- The program in a file. -/
  start : String → FileTree → Except OsError Program

/-- The arguments with which `openssl` makes a certificate and a key. -/
def opensslArguments (days : UInt32) (identity : Identity) (directory : String) : List String := [
  "req", "-x509", "-nodes", "-newkey", "rsa:2048", "-keyout", identity.keyPath directory,
  "-out", identity.certPath directory, "-days", Nat.repr days.toNat,
  "-subj", "/CN=" ++ identity.dnsName, "-addext", "subjectAltName=DNS:" ++ identity.dnsName]

/-- What a program said, as text without white space around. -/
def outputText (bs : List UInt8) : String :=
  Text.trim (String.ofList (Text.Utf8.decodeLossy bs))

/-- The issuer that runs a program. -/
def ofProgram (program : Program) (days : UInt32) : Issuer := fun identity directory t =>
  let finish := program (opensslArguments days identity directory) t
  if finish.status ≠ .exited 0 then
    (.error (.error (.opensslFailed finish.status.text (outputText finish.output))), finish.tree)
  else
    let cert := identity.certPath directory
    let key := identity.keyPath directory
    both cert (finish.tree.restrict cert) key (fun t => t.restrict key) (identity.issued directory)

/-- The issuer that runs `openssl`, in the given file or where the machine finds it. -/
def openssl (machine : Machine) (binary : Option String) (days : UInt32) : Issuer :=
  fun identity directory t =>
    match binary <|> machine.openssl? t with
    | none => (.error (.error .opensslNotFound), t)
    | some path =>
      let words := path :: opensslArguments days identity directory
      if words.any fun w => w.toList.contains '\x00' then
        (.error (.error (.spawn .nulInArgument)), t)
      else
        match machine.start path t with
        | .error e => (.error (.error (.spawn e)), t)
        | .ok program => ofProgram program days identity directory t

end Issuer

end CredentialBench.Workspace
