import CredentialBench.Client.Link

/-!
# Replies with an error status

What a call makes of a reply from 400 to 599, whatever its body is. A control call and the health
check look at the status first, so that a body that is not JSON does not trouble them: the one is
reported with null in its place, and the other does not look at it. A read and a login decode the
body before anything else (`Call.decodesFirst`), and without JSON in it they do not tell the reply
from a connection that failed.

Main statements: `Call.answer_eq_transport_iff`, which holds for every status, and `call_of_error`.
-/

namespace CredentialBench.Client

open Json

/-- A reply with an error status. -/
structure Reply.IsError (r : Reply) : Prop where
  lower : 400 ≤ r.status
  upper : r.status ≤ 599

namespace Reply.IsError

variable {r : Reply}

theorem isSuccess_eq_false (h : r.IsError) : Http.isSuccess r.status = false := by
  have hupper : ¬r.status < 300 := Nat.not_lt.2 (Nat.le_trans (by decide) h.lower)
  rw [Http.isSuccess, decide_eq_false hupper, Bool.and_false]

/-- A reply with an error status has the content that is sent. -/
theorem json?_eq (h : r.IsError) : r.json? = Value.parse? r.body := by
  have hcontent : ¬(r.status = 204 ∨ r.status = 304) := by
    have := h.lower
    omega
  rw [Reply.json?, Reply.content, if_neg hcontent]

end Reply.IsError

namespace Call

/-- The calls that decode the body of a reply before they look at its status. -/
def decodesFirst : Call → Bool
  | read .. | login => true
  | setVersion .. | failNext .. | reset | health => false

/-- What an unsuccessful status and the body with it come to: a read answers both, the health check
that the server is not well, and every other call fails with both. -/
def unsuccessful (c : Call) (status : Nat) (body : Value) : Except Problem Answer :=
  match c with
  | read .. => .ok (.secret ⟨status, body⟩)
  | health => .ok (.healthy false)
  | setVersion .. | failNext .. | reset | login => .error (.status c.path status body)

variable {c : Call} {r : Reply}

theorem unsuccessful_ne_transport (c : Call) (status : Nat) (body : Value) :
    c.unsuccessful status body ≠ .error .transport := by
  cases c <;> rintro ⟨⟩

/-- An unsuccessful reply with JSON. -/
theorem answer_of_json {v : Value} (hstatus : Http.isSuccess r.status = false)
    (hjson : r.json? = some v) : c.answer r = c.unsuccessful r.status v := by
  cases c with
  | login =>
    simp only [answer, unsuccessful, hjson, hstatus, Bool.false_eq_true, if_false]
    -- a token in the body does not make up for the status
    split <;> rfl
  | setVersion | failNext | reset | read | health =>
    simp only [answer, unsuccessful, hjson, hstatus, Bool.not_false, Bool.false_eq_true, if_false,
      if_true, Option.getD_some]

/-- An unsuccessful reply without JSON, which some calls do not need. -/
theorem answer_of_not_json (hstatus : Http.isSuccess r.status = false) (hjson : r.json? = none) :
    c.answer r =
      if c.decodesFirst then .error .transport else c.unsuccessful r.status .null := by
  cases c with
  | read | login => simp only [answer, hjson, decodesFirst, if_true]
  | setVersion | failNext | reset | health =>
    simp only [answer, unsuccessful, hjson, hstatus, decodesFirst, Bool.not_false,
      Bool.false_eq_true, if_false, if_true, Option.getD_none]

/-- A reply with JSON never passes for a broken connection. -/
theorem answer_ne_transport_of_json {v : Value} (hjson : r.json? = some v) :
    c.answer r ≠ .error .transport := by
  cases hstatus : Http.isSuccess r.status with
  | false => exact answer_of_json hstatus hjson ▸ c.unsuccessful_ne_transport _ _
  | true =>
    cases c with
    | login =>
      simp only [answer, hjson, hstatus, if_true]
      cases ((v.get? "auth").bind fun a => a.get? "client_token").bind Value.string? <;>
        rintro ⟨⟩
    | setVersion | failNext | reset | read | health =>
      simp only [answer, hjson, hstatus, if_true, Bool.not_true, Bool.false_eq_true, if_false]
      rintro ⟨⟩

/-- **The replies that pass for a broken connection**, whatever their status is. -/
theorem answer_eq_transport_iff : c.answer r = .error .transport ↔
    r.json? = none ∧ (c.decodesFirst ∨ c = .health ∧ Http.isSuccess r.status) := by
  cases hjson : r.json? with
  | none =>
    cases hstatus : Http.isSuccess r.status with
    | false =>
      rw [answer_of_not_json hstatus hjson]
      cases hd : c.decodesFirst with
      | false => simp [c.unsuccessful_ne_transport]
      | true => simp
    | true => cases c <;> simp [answer, hjson, hstatus, decodesFirst]
  | some v => simp [answer_ne_transport_of_json hjson]

end Call

section Call

variable {σ : Type} {link : Link σ} {base : String} {c : Call} {url : Net.Url} {r : Reply}
  {s s' : σ}

/-- A call whose request is answered. -/
theorem call_of_exchange (hurl : c.url? base = some url)
    (hreply : link.exchange url (c.sent url) s = (some r, s')) :
    link.call base c s = (c.answer r, s') := by
  rw [Link.call, hurl]
  simp only [hreply]

/-- **A reply with an error status** is reported with its status and its body, null if that is not
JSON, except that a read and a login fail without JSON as if the connection had. -/
theorem call_of_error (hurl : c.url? base = some url)
    (hreply : link.exchange url (c.sent url) s = (some r, s')) (herror : r.IsError) :
    link.call base c s =
        (if c.decodesFirst ∧ Value.parse? r.body = none then .error .transport
          else c.unsuccessful r.status ((Value.parse? r.body).getD .null), s') ∧
      ((link.call base c s).1 = .error .transport ↔
        c.decodesFirst ∧ Value.parse? r.body = none) := by
  have hstatus := herror.isSuccess_eq_false
  have hanswer : c.answer r =
      if c.decodesFirst ∧ Value.parse? r.body = none then .error .transport
      else c.unsuccessful r.status ((Value.parse? r.body).getD .null) := by
    rw [← herror.json?_eq]
    cases hjson : r.json? with
    | none => simp only [Call.answer_of_not_json hstatus hjson, and_true, Option.getD_none]
    | some v =>
      simp only [Call.answer_of_json hstatus hjson, reduceCtorEq, and_false, if_false,
        Option.getD_some]
  rw [call_of_exchange hurl hreply]
  refine ⟨congrArg (·, s') hanswer, ?_⟩
  rw [Call.answer_eq_transport_iff, herror.json?_eq, hstatus]
  simp [and_comm]

end Call

/-- The reply of a proxy whose server is gone. -/
def badGateway : Reply := ⟨502, Text.Utf8.bytes "Bad Gateway"⟩

theorem isError_badGateway : badGateway.IsError := ⟨by decide, by decide⟩

theorem parse?_badGateway : Value.parse? badGateway.body = none := by decide

/-- A control call reports that reply, with null for its body. -/
theorem call_of_error_reset :
    (Link.prepared.call "http://127.0.0.1:18200" .reset ([some badGateway], [])).1 =
      .error (.status "/control/reset" 502 .null) := by
  obtain ⟨url, hurl⟩ : ∃ url, Call.reset.url? "http://127.0.0.1:18200" = some url :=
    ⟨_, Option.eq_some_of_isSome (by decide)⟩
  have hreply : Link.prepared.exchange url (Call.reset.sent url) ([some badGateway], []) =
      (some badGateway, ([], [Call.reset.sent url])) := rfl
  have h := (call_of_error hurl hreply isError_badGateway).1
  rw [h, if_neg (fun hd => Bool.false_ne_true hd.1), parse?_badGateway]
  rfl

/-- A login and a read do not tell it from a connection that failed. -/
theorem badGateway_transport :
    badGateway.IsError ∧ ∀ c ∈ [Call.login, .read "web" .eab],
      let result := (Link.prepared.call "http://127.0.0.1:18200" c ([some badGateway], [])).1
      result = .error .transport ∧ result ≠ c.unsuccessful 502 .null := by
  refine ⟨isError_badGateway, fun c hc => ?_⟩
  have hurl : (c.url? "http://127.0.0.1:18200").isSome = true ∧ c.decodesFirst = true := by
    revert c
    decide
  have hanswer : c.answer badGateway = .error .transport := by
    have hjson := isError_badGateway.json?_eq.trans parse?_badGateway
    rw [Call.answer_of_not_json isError_badGateway.isSuccess_eq_false hjson, if_pos hurl.2]
  intro result
  have hresult : result = .error .transport :=
    (congrArg Prod.fst (call_of_exchange (Option.eq_some_of_isSome hurl.1) rfl)).trans hanswer
  exact ⟨hresult, hresult ▸ (c.unsuccessful_ne_transport _ _).symm⟩

end CredentialBench.Client
