import CredentialBench.Simulator.Router

/-!
# What a request demands

A request is read in full before the store is looked at. Its method, its path and, for a control
call, its body decide what it demands (`demand`); the store decides only how a read comes out.
`respond_eq` divides every response and every effect in this way, and `makes_iff` says which
requests make which demand, in terms of the method, the route and the body alone.
-/

namespace CredentialBench.Simulator

open Secret Http

/-! ## Requests by what they ask for -/

/-- A question may be put by GET and by HEAD. -/
def IsQuestion (r : Request) : Prop := r.method = .get ∨ r.method = .head

/-- The request is a login. -/
def AsksLogin (r : Request) : Prop := r.method = .post ∧ Route.ofPath? r.path = some .login

/-- The request asks for the store's health. -/
def AsksHealth (r : Request) : Prop := IsQuestion r ∧ Route.ofPath? r.path = some .health

/-- The request asks for a secret, whose key its path spells in percent-encoded form. -/
def Reads (r : Request) (k : Key) : Prop :=
  IsQuestion r ∧ ∃ service item,
    Route.ofPath? r.path = some (.secret service item) ∧ key? service item = some k

/-- The request is sent to a control call that names a key. -/
def Controls (r : Request) (kind : Control.Kind) : Prop :=
  r.method = .post ∧ Route.ofPath? r.path = some (.control kind)

/-- The request is a control call whose body is within the limit and passes every check. -/
def Commands (r : Request) (c : Control.Command) : Prop :=
  ∃ kind, Controls r kind ∧ r.body.length ≤ maxBody ∧ Control.Command.ofBytes kind r.body = .ok c

/-- The request is a reset. -/
def Resets (r : Request) : Prop := r.method = .post ∧ Route.ofPath? r.path = some .reset

/-- The request asks for nothing that is served. -/
structure Unserved (r : Request) : Prop where
  not_login : ¬AsksLogin r
  not_health : ¬AsksHealth r
  not_reads : ∀ k, ¬Reads r k
  not_controls : ∀ kind, ¬Controls r kind
  not_resets : ¬Resets r

/-! ## Demands -/

/-- What a request comes to, whatever the store holds. -/
inductive Demand
  | login
  | health
  | read (k : Key)
  | command (c : Control.Command)
  | reset
  | refuse (refusal : Refusal)

/-- The demand of a question for a secret whose path holds these segments. -/
def secretDemand (service item : List Char) : Demand :=
  match key? service item with
  | some k => .read k
  | none => .refuse .notFound

/-- The demand of a control call. -/
def controlDemand (kind : Control.Kind) (body : List UInt8) : Demand :=
  if maxBody < body.length then .refuse .tooLarge
  else
    match Control.Command.ofBytes kind body with
    | .ok c => .command c
    | .error p => .refuse (.rejected p)

/-- The demand that is put to a route. -/
def routeDemand (route : Option Route) (method : Method) (body : List UInt8) : Demand :=
  match route, method with
  | some .login, .post => .login
  | some .health, .get | some .health, .head => .health
  | some (.secret service item), .get | some (.secret service item), .head =>
    secretDemand service item
  | some (.control kind), .post => controlDemand kind body
  | some .reset, .post => .reset
  | _, _ => .refuse .notFound

/-- The demand of a request. -/
def demand (r : Request) : Demand := routeDemand (Route.ofPath? r.path) r.method r.body

namespace Demand

/-- The answer to a demand. -/
def answer (s : Store) : Demand → Except Refusal Json.Value
  | login => .ok loginAnswer
  | health => .ok healthAnswer
  | read k =>
    match (s.read k).1 with
    | .fail _ => .error (.injected k)
    | .serve v => .ok (payload k v)
  | command _ | reset => .ok accepted
  | refuse refusal => .error refusal

/-- The store after a demand. -/
def after (s : Store) : Demand → Store
  | read k => (s.read k).2
  | command c => s.apply c
  | reset => s.reset
  | login | health | refuse _ => s

end Demand

/-- The response that carries an answer, without a body where the question was put by HEAD. -/
def deliver (method : Method) (answer : Except Refusal Json.Value) : Response :=
  let response : Response := match answer with
    | .ok v => .json 200 v
    | .error refusal => refusal.response
  if method = .head then response.withoutBody else response

theorem status_response (refusal : Refusal) : refusal.response.status = refusal.status := by
  cases refusal <;> rfl

theorem status_deliver (method : Method) (answer : Except Refusal Json.Value) :
    (deliver method answer).status =
      match answer with
      | .ok _ => 200
      | .error refusal => refusal.status := by
  cases answer <;> simp only [deliver] <;> split <;>
    simp [Response.withoutBody, Response.json, status_response]

theorem readSecret_eq (s : Store) (service item : List Char) :
    readSecret s service item =
      ((secretDemand service item).answer s, (secretDemand service item).after s) := by
  simp only [readSecret, secretDemand]
  cases key? service item with
  | none => rfl
  | some k =>
    simp only [Demand.answer, Demand.after]
    cases s.read k with
    | mk outcome s' => cases outcome <;> rfl

theorem control_eq (s : Store) (kind : Control.Kind) (body : List UInt8) :
    control s kind body =
      ((controlDemand kind body).answer s, (controlDemand kind body).after s) := by
  simp only [control, controlDemand]
  split
  · rfl
  · cases Control.Command.ofBytes kind body <;> rfl

theorem serve_eq (s : Store) (route : Option Route) (method : Method) (body : List UInt8) :
    serve s route method body =
      ((routeDemand route method body).answer s, (routeDemand route method body).after s) := by
  cases route with
  | none => rfl
  | some route =>
    cases route with
    | secret service item =>
      have h := readSecret_eq s service item
      cases method with
      | get | head => exact h
      | post | other => rfl
    | control kind =>
      have h := control_eq s kind body
      cases method with
      | post => exact h
      | get | head | other => rfl
    | login | health | reset => cases method <;> rfl

/-- **The store decides only how a read comes out.** A response carries the answer to the
request's demand, and the store afterwards is the one that the demand leaves. -/
theorem respond_eq (s : Store) (r : Request) :
    respond s r = (deliver r.method ((demand r).answer s), (demand r).after s) := by
  simp only [respond, serve_eq]
  rfl

/-! ## Which requests make which demand -/

/-- The request makes a demand, by what it asks for. -/
inductive Makes (r : Request) : Demand → Prop
  | login (h : AsksLogin r) : Makes r .login
  | health (h : AsksHealth r) : Makes r .health
  | read {k : Key} (h : Reads r k) : Makes r (.read k)
  | command {c : Control.Command} (h : Commands r c) : Makes r (.command c)
  | reset (h : Resets r) : Makes r .reset
  | rejected {kind : Control.Kind} {p : Control.Problem} (h : Controls r kind)
      (hl : r.body.length ≤ maxBody) (hp : Control.Command.ofBytes kind r.body = .error p) :
      Makes r (.refuse (.rejected p))
  | tooLarge {kind : Control.Kind} (h : Controls r kind) (hl : maxBody < r.body.length) :
      Makes r (.refuse .tooLarge)
  | notFound (h : Unserved r) : Makes r (.refuse .notFound)

theorem Makes.eq_demand {r : Request} {d : Demand} (h : Makes r d) : demand r = d := by
  cases h with
  | login h => simp [demand, routeDemand, h.1, h.2]
  | health h => rcases h.1 with hm | hm <;> simp [demand, routeDemand, hm, h.2]
  | read h =>
    obtain ⟨hm | hm, service, item, hr, hk⟩ := h <;>
      simp [demand, routeDemand, secretDemand, hm, hr, hk]
  | command h =>
    obtain ⟨kind, h, hl, hc⟩ := h
    simp [demand, routeDemand, controlDemand, h.1, h.2, Nat.not_lt.2 hl, hc]
  | reset h => simp [demand, routeDemand, h.1, h.2]
  | rejected h hl hp =>
    simp [demand, routeDemand, controlDemand, h.1, h.2, Nat.not_lt.2 hl, hp]
  | tooLarge h hl => simp [demand, routeDemand, controlDemand, h.1, h.2, hl]
  | notFound h =>
    -- every other demand would make the request one that is served
    obtain ⟨h₁, h₂, h₃, h₄, h₅⟩ := h
    simp only [AsksLogin, AsksHealth, Reads, Controls, Resets, IsQuestion] at h₁ h₂ h₃ h₄ h₅
    simp only [demand]
    generalize Route.ofPath? r.path = route at *
    generalize r.method = method at *
    cases route with
    | none => rfl
    | some route =>
      cases route with
      | secret service item =>
        have hk : key? service item = none ∨ ¬(method = .get ∨ method = .head) := by
          cases h : key? service item with
          | none => exact .inl rfl
          | some k => exact .inr fun hm => h₃ k ⟨hm, service, item, rfl, h⟩
        cases method <;> simp_all [routeDemand, secretDemand]
      | login | health | control | reset => cases method <;> simp_all [routeDemand]

theorem exists_makes (r : Request) : ∃ d, Makes r d := by
  by_cases hlogin : AsksLogin r
  · exact ⟨_, .login hlogin⟩
  by_cases hhealth : AsksHealth r
  · exact ⟨_, .health hhealth⟩
  by_cases hreads : ∃ k, Reads r k
  · obtain ⟨k, h⟩ := hreads
    exact ⟨_, .read h⟩
  by_cases hcontrols : ∃ kind, Controls r kind
  · obtain ⟨kind, h⟩ := hcontrols
    by_cases hl : r.body.length ≤ maxBody
    · cases hc : Control.Command.ofBytes kind r.body with
      | ok c => exact ⟨_, .command ⟨kind, h, hl, hc⟩⟩
      | error p => exact ⟨_, .rejected h hl hc⟩
    · exact ⟨_, .tooLarge h (Nat.lt_of_not_le hl)⟩
  by_cases hresets : Resets r
  · exact ⟨_, .reset hresets⟩
  · exact ⟨_, .notFound ⟨hlogin, hhealth, not_exists.1 hreads, not_exists.1 hcontrols, hresets⟩⟩

theorem makes_demand (r : Request) : Makes r (demand r) := by
  obtain ⟨d, h⟩ := exists_makes r
  rwa [h.eq_demand]

/-- **Every request makes exactly one demand.** -/
theorem makes_iff {r : Request} {d : Demand} : Makes r d ↔ demand r = d :=
  ⟨Makes.eq_demand, fun h => h ▸ makes_demand r⟩

end CredentialBench.Simulator
