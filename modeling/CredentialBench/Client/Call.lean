import CredentialBench.Json.Reader
import CredentialBench.Net.Http
import CredentialBench.Net.Url
import CredentialBench.Secret.Key

/-!
# Calls of the control client

What a test driver asks of the simulator: each call is one request, and its answer is read off one
reply. A reply with an error status is reported with its body, null if that is not JSON. A read
takes every status for an answer, since an armed failure is one that is expected.
-/

namespace CredentialBench.Client

open Json Secret

/-- A call. -/
inductive Call
  | setVersion (service : String) (item : Item) (version : UInt64)
  | failNext (service : String) (item : Item) (count : UInt32)
  | reset
  | read (service : String) (item : Item)
  | login
  | health
  deriving DecidableEq

/-- A request as it is sent. -/
structure Sent where
  method : Http.Method
  target : List Char
  body : Option Value

/-- A reply as it is received in full. -/
structure Reply where
  status : Nat
  body : List UInt8

/-- The content of a reply; some statuses have none. -/
def Reply.content (r : Reply) : List UInt8 :=
  if r.status = 204 ∨ r.status = 304 then [] else r.body

/-- The JSON value in a reply. -/
def Reply.json? (r : Reply) : Option Value := Value.parse? r.content

/-- What a read came to. -/
structure SecretRead where
  status : Nat
  body : Value

/-- The item's data within its envelope, if the read succeeded. -/
def SecretRead.data? (r : SecretRead) : Option Value :=
  if Http.isSuccess r.status then (r.body.get? "data").bind fun d => d.get? "data" else none

/-- What a call answers. -/
inductive Answer
  | done
  | token (s : String)
  | healthy (b : Bool)
  | secret (r : SecretRead)

/-- Why a call fails. -/
inductive Problem
  /-- There is no reply, or it is not JSON where that is needed. -/
  | transport
  /-- The reply has an error status. -/
  | status (path : String) (status : Nat) (body : Value)

namespace Call

/-- The path that a call asks for, after the base URL. -/
def path : Call → String
  | setVersion .. => "/control/set-version"
  | failNext .. => "/control/fail-next"
  | reset => "/control/reset"
  | read service item =>
    "/v1/secret/data/bootroot/services/" ++ service ++ "/" ++ item.name
  | login => "/v1/auth/approle/login"
  | health => "/v1/sys/health"

/-- The method of a call. -/
def method : Call → Http.Method
  | read .. | health => .get
  | _ => .post

/-- The body of a call. -/
def body : Call → Option Value
  | setVersion service item version => some <| .object [("item", .string item.name),
      ("service", .string service), ("version", .integer version.toNat)]
  | failNext service item count => some <| .object [("count", .integer count.toNat),
      ("item", .string item.name), ("service", .string service)]
  | reset => some (.object [])
  | login => some <| .object [("role_id", .string "role"), ("secret_id", .string "secret")]
  | read .. | health => none

/-- The answer that a reply gives. -/
def answer (c : Call) (r : Reply) : Except Problem Answer :=
  match c with
  | setVersion .. | failNext .. | reset =>
    if Http.isSuccess r.status then .ok .done
    else .error (.status c.path r.status (r.json?.getD .null))
  | read .. =>
    match r.json? with
    | some v => .ok (.secret ⟨r.status, v⟩)
    | none => .error .transport
  | login =>
    match r.json? with
    | none => .error .transport
    | some v =>
      match ((v.get? "auth").bind fun a => a.get? "client_token").bind Value.string? with
      | some token =>
        if Http.isSuccess r.status then .ok (.token token)
        else .error (.status c.path r.status v)
      | none => .error (.status c.path r.status v)
  | health =>
    if !Http.isSuccess r.status then .ok (.healthy false)
    else
      match r.json? with
      | none => .error .transport
      | some v =>
        .ok (.healthy ((v.get? "initialized").bind Value.boolean? == some true &&
          (v.get? "sealed").bind Value.boolean? == some false))

end Call

end CredentialBench.Client
