import CredentialBench.Proofs.Client.Request
import CredentialBench.Proofs.Simulator.Answer

/-!
# The client refines the store

Seven layers stand between a call and the store: the body is written as JSON, the URL is put
together and read again, the path is routed and percent-decoded, the body is read and checked, and
the reply is written and read. For plain names all of them together are transparent: a run of calls
over the link is answered as if every call were made on the store itself (`onStore`), and leaves the
store in the same state.

Main statement: `run_eq_onStore`.
-/

namespace CredentialBench.Client

open Json Secret Simulator

/-! ## Demands -/

/-- What a call demands of the simulator. -/
def Call.demand : Call → Demand
  | setVersion service item version =>
    if h : 1 ≤ version.toNat ∧ version.toNat ≤ 0x7FFFFFFFFFFFFFFF then
      .command (.setVersion ⟨service, item⟩ ⟨version.toNat, h.1⟩)
    else .refuse (.rejected (versionProblem version))
  | failNext service item count =>
    if h : 1 ≤ count.toNat then .command (.failNext ⟨service, item⟩ ⟨count.toNat, h⟩)
    else .refuse (.rejected (.nonPositive .failNext 0))
  | reset => .reset
  | read service item => .read ⟨service, item⟩
  | login => .login
  | health => .health

/-- **What arrives demands what the call does.** -/
theorem Call.Admissible.demand_received {site : Site} {c : Call} (h : c.Admissible site) :
    Simulator.demand (c.sent (site.url c)).received = c.demand := by
  rw [Simulator.demand, h.path_received, Call.ofPath?_path h.plain]
  cases c with
  | setVersion service item version =>
    have hlength := length_controlBody_le .setVersion (h.short service rfl) item
      (n := version.toNat) (Nat.le_of_lt_succ version.toNat_lt)
    change controlDemand .setVersion (Text.Utf8.encode
      ((controlBody .setVersion service item.name version.toNat).write .compact 0)) = _
    rw [controlDemand, if_neg (Nat.not_lt.2 hlength), ofBytes_setVersion (h.plain service rfl),
      Call.demand]
    by_cases hv : 1 ≤ version.toNat ∧ version.toNat ≤ 0x7FFFFFFFFFFFFFFF
    · rw [dif_pos hv, dif_pos hv]
    · rw [dif_neg hv, dif_neg hv]
  | failNext service item count =>
    have hlength := length_controlBody_le .failNext (h.short service rfl) item
      (n := count.toNat) (Nat.le_trans (Nat.le_of_lt count.toNat_lt) (by decide))
    change controlDemand .failNext (Text.Utf8.encode
      ((controlBody .failNext service item.name count.toNat).write .compact 0)) = _
    rw [controlDemand, if_neg (Nat.not_lt.2 hlength), ofBytes_failNext (h.plain service rfl),
      Call.demand]
    by_cases hc : 1 ≤ count.toNat
    · rw [dif_pos hc, dif_pos hc]
    · rw [dif_neg hc, dif_neg hc]
  | read service item =>
    change secretDemand service.toList item.name.toList = _
    rw [secretDemand, (h.plain service rfl).key?_eq]
    rfl
  | reset | login | health => rfl

/-! ## Replies -/

/-- The reply that a response arrives as. -/
def Reply.ofResponse (r : Http.Response) : Reply := ⟨r.status, r.body.bytes⟩

theorem json?_ofResponse {status : Nat} (hs : status ≠ 204 ∧ status ≠ 304) {v : Value}
    (he : v.isExact = true) (hr : v.isRegular Value.maxDepth = true) :
    (Reply.ofResponse (.json status v)).json? = some v := by
  have hcontent : (Reply.ofResponse (.json status v)).content =
      Text.Utf8.encode (v.write .compact 0) := by
    rw [Reply.content, if_neg (by simpa [Reply.ofResponse, Http.Response.json] using hs)]
    rfl
  rw [Reply.json?, hcontent, Value.parse?_write Style.spaced_compact he hr]

/-- The JSON value of an answer is the answer. -/
theorem json?_answer {d : Demand} {s : Store} {v : Value} (h : d.answer s = .ok v) :
    (Reply.ofResponse (.json 200 v)).json? = some v :=
  json?_ofResponse (by decide) (readable_answer h).1 (readable_answer h).2

/-- The JSON value of a refusal is its message in a list. -/
theorem json?_errorBody {status : Nat} (hs : status ≠ 204 ∧ status ≠ 304) (message : String) :
    (Reply.ofResponse (.json status (errorBody message))).json? = some (errorBody message) :=
  json?_ofResponse hs rfl rfl

/-! ## Calls on the store itself -/

/-- What a read of a key comes to: the payload of the version that is served, or the error that
names the key. -/
def secretRead (k : Key) : Outcome → SecretRead
  | .serve v => ⟨200, payload k v⟩
  | .fail _ =>
    ⟨500, .object [("errors",
      .array [.string ("injected failure for " ++ k.service ++ "/" ++ k.item.name)])]⟩

namespace Call

/-- A call that is made on a store itself: what the caller is told, and the store afterwards. -/
def onStore (c : Call) (s : Store) : Except Problem Answer × Store :=
  match c with
  | setVersion service item version =>
    if h : 1 ≤ version.toNat ∧ version.toNat ≤ 0x7FFFFFFFFFFFFFFF then
      (.ok .done, s.setVersion ⟨service, item⟩ ⟨version.toNat, h.1⟩)
    else
      -- what 63 bits do not hold is turned down while the body is read, and zero after that
      (.error (.status "/control/set-version" 400
        (.object [("errors", .array [.string
          (if version.toNat = 0 then "invalid control payload: version must be >= 1, got 0"
            else "invalid control payload: <invalid value>")])])), s)
  | failNext service item count =>
    if h : 1 ≤ count.toNat then (.ok .done, s.failNext ⟨service, item⟩ ⟨count.toNat, h⟩)
    else
      (.error (.status "/control/fail-next" 400
        (.object [("errors",
          .array [.string "invalid control payload: count must be >= 1, got 0"])])), s)
  | reset => (.ok .done, s.reset)
  | read service item =>
    let r := s.read ⟨service, item⟩
    (.ok (.secret (secretRead ⟨service, item⟩ r.1)), r.2)
  | login => (.ok (.token "mock-client-token"), s)
  | health => (.ok (.healthy true), s)

/-- A run of calls, each of which is made in the state that the one before it leaves. -/
def run {σ ρ : Type} (make : Call → σ → ρ × σ) : List Call → σ → List ρ × σ
  | [], s => ([], s)
  | c :: cs, s =>
    let r := make c s
    let rest := run make cs r.2
    (r.1 :: rest.1, rest.2)

end Call

/-! ## One call -/

namespace Call

theorem message_versionProblem (version : UInt64) :
    (versionProblem version).message =
      if version.toNat = 0 then "invalid control payload: version must be >= 1, got 0"
      else "invalid control payload: <invalid value>" := by
  rw [versionProblem]
  split
  · decide
  · decide

theorem after_demand (c : Call) (s : Store) : c.demand.after s = (c.onStore s).2 := by
  cases c with
  | setVersion service item version =>
    simp only [demand, onStore]
    split <;> rfl
  | failNext service item count =>
    simp only [demand, onStore]
    split <;> rfl
  | reset | read | login | health => rfl

/-- What a control call is told when it is turned down. -/
theorem answer_rejected {c : Call} (hc : c.method = .post)
    (ha : ∀ r, c.answer r = if Http.isSuccess r.status then .ok .done
      else .error (.status c.path r.status (r.json?.getD .null))) (p : Control.Problem) :
    c.answer (.ofResponse (deliver c.method (.error (.rejected p)))) =
      .error (.status c.path 400 (errorBody p.message)) := by
  have hjson : (Reply.ofResponse (.json 400 (errorBody p.message))).json? = _ :=
    json?_errorBody (by decide) p.message
  rw [hc, ha]
  change (if Http.isSuccess 400 then _ else Except.error (Problem.status c.path 400
    ((Reply.ofResponse (.json 400 (errorBody p.message))).json?.getD .null))) = _
  rw [hjson]
  rfl

/-- A read is told the value of its reply, whatever the status. -/
theorem answer_read (service : String) (item : Item) {status : Nat} {v : Value}
    (hv : (Reply.ofResponse (.json status v)).json? = some v) :
    (read service item).answer (.ofResponse (.json status v)) = .ok (.secret ⟨status, v⟩) := by
  rw [answer]
  simp only [hv]
  rfl

/-- What a call is told, given the reply to what it demands. -/
theorem answer_demand (c : Call) (s : Store) :
    c.answer (.ofResponse (deliver c.method (c.demand.answer s))) = (c.onStore s).1 := by
  cases c with
  | setVersion service item version =>
    simp only [demand, onStore, ← message_versionProblem]
    split
    · rfl
    · exact answer_rejected rfl (fun _ => rfl) _
  | failNext service item count =>
    have hmessage : (Control.Problem.nonPositive .failNext 0).message =
        "invalid control payload: count must be >= 1, got 0" := by decide
    simp only [demand, onStore]
    split
    · rfl
    · rw [← hmessage]
      exact answer_rejected rfl (fun _ => rfl) _
  | reset => rfl
  | read service item =>
    have hmessage := message_injected ⟨service, item⟩
    simp only [demand, onStore, Demand.answer, secretRead]
    cases houtcome : (s.read ⟨service, item⟩).1 with
    | serve v =>
      have hanswer : Demand.answer s (.read ⟨service, item⟩) = .ok (payload ⟨service, item⟩ v) := by
        simp only [Demand.answer, houtcome]
      exact answer_read service item (json?_answer hanswer)
    | fail n =>
      simp only [← hmessage]
      have hjson := json?_errorBody (by decide : 500 ≠ 204 ∧ 500 ≠ 304)
        (Refusal.injected ⟨service, item⟩).message
      exact answer_read service item hjson
  | login =>
    have hjson := json?_answer (d := .login) (s := s) rfl
    change answer login (.ofResponse (.json 200 loginAnswer)) = _
    simp only [answer, hjson]
    rfl
  | health =>
    have hjson := json?_answer (d := .health) (s := s) rfl
    change answer health (.ofResponse (.json 200 healthAnswer)) = _
    simp only [answer, hjson]
    rfl

/-- A call that reaches the simulator: the demand of what arrives is answered and has its effect. -/
theorem call_of_url? {site : Site} {c : Call} {slashes : Nat} {url : Net.Url}
    (hurl : c.url? (site.base slashes) = some url) (hsecure : url.secure = false)
    (hhost : url.host = site.host) (hport : url.port = site.port) (s : Store) :
    site.link.call (site.base slashes) c s =
      (c.answer (.ofResponse
          (deliver c.method ((Simulator.demand (c.sent url).received).answer s))),
        (Simulator.demand (c.sent url).received).after s) := by
  have hreached : (url.secure || url.host != site.host ||
      url.port.getD url.defaultPort != site.port.getD 80) = false := by
    simp [hsecure, hhost, hport, Net.Url.defaultPort]
  rw [Link.call, hurl]
  simp only [Site.link, Link.simulator, hreached, Bool.false_eq_true, ↓reduceIte, respond_eq]
  rfl

/-- **One call refines the store.** -/
theorem Admissible.call_eq {site : Site} {c : Call} (h : c.Admissible site) (slashes : Nat)
    (s : Store) : site.link.call (site.base slashes) c s = c.onStore s := by
  rw [call_of_url? (h.url?_eq slashes) rfl rfl rfl, h.demand_received, c.answer_demand,
    c.after_demand]

end Call

/-! ## Runs -/

/-- The data in what a read comes to: those of the version that is served, and none when it
fails. -/
theorem data?_secretRead (k : Key) (outcome : Outcome) :
    (secretRead k outcome).data? =
      match outcome with
      | .serve v => some (data k v)
      | .fail _ => none := by
  cases outcome <;> rfl

/-- **The client refines the store.** A run of calls with plain names, over the link to a simulator
in any state, tells the caller what the same calls tell on the store itself and leaves the same
store; what a read is told holds the data of the version that the store serves. -/
theorem run_eq_onStore (site : Site) (slashes : Nat) (cs : List Call)
    (h : ∀ c ∈ cs, c.Admissible site) (s : Store) :
    Call.run (site.link.call (site.base slashes)) cs s = Call.run Call.onStore cs s ∧
      ∀ k outcome, (secretRead k outcome).data? =
        match outcome with
        | .serve v => some (data k v)
        | .fail _ => none := by
  refine ⟨?_, data?_secretRead⟩
  induction cs generalizing s with
  | nil => rw [Call.run, Call.run]
  | cons c cs ih =>
    have hc := (h c List.mem_cons_self).call_eq slashes s
    have hcs := ih (fun c' hc' => h c' (List.mem_cons_of_mem c hc')) (c.onStore s).2
    simp only [Call.run, hc, hcs]

/-- A simulator on the machine of its client. -/
def Site.loopback : Site where
  authority := "127.0.0.1:18200".toList
  host := "127.0.0.1"
  port := some 18200
  plain := by decide
  names := by decide

/-- A rotation, a failure that is armed and used up, and calls that are turned down. -/
def Call.rotation : List Call :=
  [.setVersion "edge-proxy.v2" .eab 3, .failNext "edge-proxy.v2" .eab 1, .read "edge-proxy.v2" .eab,
    .read "edge-proxy.v2" .eab, .setVersion "~" .trust 0, .setVersion "~" .trust 0x8000000000000000,
    .failNext "~" .trust 0, .login, .health, .reset]

theorem run_eq_onStore_rotation :
    (∀ c ∈ Call.rotation, c.Admissible Site.loopback) ∧
      Call.run (Site.loopback.link.call (Site.loopback.base 2)) Call.rotation .empty =
        Call.run Call.onStore Call.rotation .empty := by
  have h : ∀ c ∈ Call.rotation, c.Admissible Site.loopback := by decide
  exact ⟨h, (run_eq_onStore Site.loopback 2 Call.rotation h .empty).1⟩

end CredentialBench.Client
