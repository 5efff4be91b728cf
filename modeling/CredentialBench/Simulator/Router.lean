import CredentialBench.Net.Http
import CredentialBench.Net.Percent
import CredentialBench.Secret.Payload
import CredentialBench.Simulator.Control
import CredentialBench.Text.Split

/-!
# The simulator's surface

Three endpoints of the secret store that an agent uses, and the control calls that a driver uses,
over one store. A request has one answer and one effect, which `respond` gives together.

A path is compared segment by segment as it is written; only the service and the item of a secret
are percent-decoded, once. A question put by GET may also be put by HEAD, with the same effect and
no body. Everything that is not served is `not found`, and every refusal but one is a JSON list of
one message.
-/

namespace CredentialBench.Simulator

open Secret Http

/-- What a path names. -/
inductive Route
  | login
  | health
  /-- A secret, by its service and item as they are written. -/
  | secret (service item : List Char)
  | control (kind : Control.Kind)
  | reset
  deriving DecidableEq

/-- The route of a list of segments. -/
def Route.ofSegments? : List String → Option Route
  | ["", "v1", "auth", "approle", "login"] => some login
  | ["", "v1", "sys", "health"] => some health
  | ["", "v1", "secret", "data", "bootroot", "services", service, item] =>
    some (secret service.toList item.toList)
  | ["", "control", "set-version"] => some (control .setVersion)
  | ["", "control", "fail-next"] => some (control .failNext)
  | ["", "control", "reset"] => some reset
  | _ => none

/-- The route of a path, which is divided at its slashes. -/
def Route.ofPath? (path : List Char) : Option Route :=
  ofSegments? ((Text.split '/' path).map String.ofList)

/-- The text that a percent-encoded segment spells. -/
def decodeSegment? (s : List Char) : Option String :=
  Text.Utf8.text? (Percent.decode (Text.Utf8.encode s))

/-- The key that the segments of a secret's path name. -/
def key? (service item : List Char) : Option Key := do
  let service ← decodeSegment? service
  let item ← decodeSegment? item
  let item ← Item.ofName? item
  return ⟨service, item⟩

/-- Why a request is not served. -/
inductive Refusal
  /-- No such path, method or secret. -/
  | notFound
  /-- A control call that is turned down. -/
  | rejected (p : Control.Problem)
  /-- An armed failure took the read. -/
  | injected (k : Key)
  /-- A control call with a body beyond the limit. -/
  | tooLarge
  deriving DecidableEq

/-- The words for a refusal. -/
def Refusal.message : Refusal → String
  | notFound => "not found"
  | rejected p => p.message
  | injected k => "injected failure for " ++ k.text
  | tooLarge => "Failed to buffer the request body: length limit exceeded"

/-- The status for a refusal. -/
def Refusal.status : Refusal → Nat
  | notFound => 404
  | rejected _ => 400
  | injected _ => 500
  | tooLarge => 413

/-- The body of a refusal: a list of one message. -/
def errorBody (message : String) : Json.Value :=
  .object [("errors", .array [.string message])]

/-- The response to a request that is refused. A body beyond the limit is refused before anybody
looks at the request, in plain text. -/
def Refusal.response (r : Refusal) : Response :=
  match r with
  | tooLarge => .text r.status r.message
  | _ => .json r.status (errorBody r.message)

/-- The longest body that a control call is read from. -/
def maxBody : Nat := 2097152

/-- What a control call or a reset answers. -/
def accepted : Json.Value := .object [("ok", .boolean true)]

/-- A read of a secret. -/
def readSecret (s : Store) (service item : List Char) : Except Refusal Json.Value × Store :=
  match key? service item with
  | none => (.error .notFound, s)
  | some k =>
    match s.read k with
    | (.fail _, s) => (.error (.injected k), s)
    | (.serve v, s) => (.ok (payload k v), s)

/-- A control call that names a key. -/
def control (s : Store) (kind : Control.Kind) (body : List UInt8) :
    Except Refusal Json.Value × Store :=
  if maxBody < body.length then (.error .tooLarge, s)
  else
    match Control.Command.ofBytes kind body with
    | .error p => (.error (.rejected p), s)
    | .ok c => (.ok accepted, s.apply c)

/-- What a route serves by a method, with the store afterwards. -/
def serve (s : Store) (route : Option Route) (method : Method) (body : List UInt8) :
    Except Refusal Json.Value × Store :=
  match route, method with
  | some .login, .post => (.ok loginAnswer, s)
  | some .health, .get | some .health, .head => (.ok healthAnswer, s)
  | some (.secret service item), .get | some (.secret service item), .head =>
    readSecret s service item
  | some (.control kind), .post => control s kind body
  | some .reset, .post => (.ok accepted, s.reset)
  | _, _ => (.error .notFound, s)

/-- The response to a request, with the store afterwards. -/
def respond (s : Store) (r : Request) : Response × Store :=
  let (answer, s) := serve s (Route.ofPath? r.path) r.method r.body
  let response : Response := match answer with
    | .ok v => .json 200 v
    | .error refusal => refusal.response
  (if r.method = .head then response.withoutBody else response, s)

end CredentialBench.Simulator
