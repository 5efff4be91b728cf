import CredentialBench.Client.Call
import CredentialBench.Simulator.Router

/-!
# Links

A client reaches a server over a link, which takes a request and gives the server's reply, or none
if the connection fails. A call is made by building its URL, sending the request over the link and
reading the answer off the reply (`Link.call`).
-/

namespace CredentialBench.Client

/-- A way to a server in some state. -/
structure Link (σ : Type) where
  exchange : Net.Url → Sent → σ → Option Reply × σ

/-- The base of a client's URLs: what it is given, without slashes at its end. -/
def trimBase (base : String) : String :=
  String.ofList (base.toList.reverse.dropWhile (· == '/')).reverse

/-- The URL of a call; `none` if it is no URL or too long to be sent. -/
def Call.url? (c : Call) (base : String) : Option Net.Url := do
  let url ← Net.Url.ofText? (trimBase base ++ c.path)
  if Net.Url.maxLength < url.text.length then none else return url

/-- The request of a call to a URL. -/
def Call.sent (c : Call) (url : Net.Url) : Sent := ⟨c.method, url.target, c.body⟩

/-- The request that arrives when one is sent. -/
def Sent.received (r : Sent) : Http.Request where
  method := r.method
  target := String.ofList r.target
  body := match r.body with
    | some v => Text.Utf8.encode (v.write .compact 0)
    | none => []

namespace Link

variable {σ : Type}

/-- Make a call. -/
def call (link : Link σ) (base : String) (c : Call) (s : σ) : Except Problem Answer × σ :=
  match c.url? base with
  | none => (.error .transport, s)
  | some url =>
    match link.exchange url (c.sent url) s with
    | (some reply, s) => (c.answer reply, s)
    | (none, s) => (.error .transport, s)

/-- A link on which nothing gets through. -/
def down : Link σ := ⟨fun _ _ s => (none, s)⟩

/-- A link to a simulator at a host and a port. -/
def simulator (host : String) (port : UInt16) : Link Store where
  exchange url sent s :=
    if url.secure || url.host != host || url.port.getD url.defaultPort != port then (none, s)
    else
      let (response, s) := Simulator.respond s sent.received
      (some ⟨response.status, response.body.bytes⟩, s)

/-- A link to a server that gives prepared replies in turn, whatever it is asked, and closes the
connection where none is prepared. It keeps what it was sent. -/
def prepared : Link (List (Option Reply) × List Sent) where
  exchange _ sent s :=
    match s with
    | (reply :: rest, seen) => (reply, (rest, seen ++ [sent]))
    | ([], seen) => (none, ([], seen ++ [sent]))

end Link

end CredentialBench.Client
