import CredentialBench.Json.Printer
import CredentialBench.Text.Utf8

/-!
# Requests and responses

What the simulator looks at in an HTTP request and what it answers. A target is a path with an
optional query, a whole URL, or `*`; only its path is looked at. A response carries JSON, plain
text, or, where the question was put by HEAD, nothing.
-/

namespace CredentialBench.Http

/-- The methods that the simulator tells apart. Their names are matched exactly. -/
inductive Method
  | get
  | head
  | post
  /-- Any other method. -/
  | other
  deriving DecidableEq

/-- The method of that name. -/
def Method.ofName (s : String) : Method :=
  if s = "GET" then get else if s = "HEAD" then head else if s = "POST" then post else other

/-- A request. -/
structure Request where
  method : Method
  target : String
  body : List UInt8
  deriving DecidableEq

/-- The text after the first `://`. -/
def afterScheme? : List Char → Option (List Char)
  | [] => none
  | ':' :: '/' :: '/' :: rest => some rest
  | _ :: rest => afterScheme? rest

/-- The target without query and fragment. -/
def withoutQuery (cs : List Char) : List Char := cs.takeWhile fun c => c != '?' && c != '#'

/-- The path of a target: of a whole URL what follows its authority, the root if nothing does. -/
def pathOfTarget (target : List Char) : List Char :=
  match target with
  | '/' :: _ => withoutQuery target
  | _ =>
    match afterScheme? (withoutQuery target) with
    | none => withoutQuery target
    | some rest =>
      match rest.dropWhile (· != '/') with
      | [] => ['/']
      | path => path

/-- The path that a request asks for, as it is written. -/
def Request.path (r : Request) : List Char := pathOfTarget r.target.toList

/-- What a response carries. -/
inductive Body
  | empty
  | json (v : Json.Value)
  | text (s : String)

/-- The bytes that a response carries. -/
def Body.bytes : Body → List UInt8
  | empty => []
  | json v => Text.Utf8.encode (v.write .compact 0)
  | text s => Text.Utf8.bytes s

/-- A response. -/
structure Response where
  status : Nat
  contentType : String
  body : Body

/-- A response that carries JSON. -/
def Response.json (status : Nat) (v : Json.Value) : Response :=
  ⟨status, "application/json", .json v⟩

/-- A response that carries plain text. -/
def Response.text (status : Nat) (s : String) : Response :=
  ⟨status, "text/plain; charset=utf-8", .text s⟩

/-- The response to the same question put by HEAD. -/
def Response.withoutBody (r : Response) : Response := { r with body := .empty }

/-- Whether a status means success. -/
def isSuccess (status : Nat) : Bool := 200 ≤ status && status < 300

end CredentialBench.Http
