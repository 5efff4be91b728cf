import CredentialBench.Proofs.Net.Percent
import CredentialBench.Proofs.Simulator.Recovery

/-!
# The surface of the simulator

Which requests are served, told from the method and the raw path alone (`Served`): four paths by
POST, one by GET and HEAD, and by GET and HEAD every path that spells a key. A path spells a key if
two segments follow the root of the secrets, with one slash between them, and these are decoded to
the UTF-8 of the service and to that of the item's name (`SpellsKey`). What decoding means is told
by `Percent.Decodes`.

Main statement: `respond_surface`. Everything else is not found, and a question by HEAD is the same
question by GET with an answer that is left out (`respond_head`).
-/

namespace CredentialBench.Simulator

open Secret Http

/-! ## Requests that are served -/

/-- The paths of the calls by POST. -/
def postPaths : List String :=
  ["/v1/auth/approle/login", "/control/set-version", "/control/fail-next", "/control/reset"]

/-- The path of the question for the health. -/
def healthPath : String := "/v1/sys/health"

/-- The segment of a path is percent-decoded to a text. -/
def SpellsText (segment : List Char) (text : String) : Prop :=
  Percent.Decodes (Text.Utf8.encode segment) (Text.Utf8.bytes text)

/-- A path spells a key: below the root of the secrets it has a segment for the service and one for
the item. -/
def SpellsKey (path : List Char) (k : Key) : Prop :=
  ∃ service item, path = "/v1/secret/data/bootroot/services/".toList ++ (service ++ '/' :: item) ∧
    '/' ∉ service ∧ '/' ∉ item ∧ SpellsText service k.service ∧ SpellsText item k.item.name

/-- What is served. -/
inductive Served (r : Request) : Prop
  | call {path : String} (hm : r.method = .post) (hpath : path ∈ postPaths)
      (h : r.path = path.toList)
  | health (hq : IsQuestion r) (h : r.path = healthPath.toList)
  | secret {k : Key} (hq : IsQuestion r) (h : SpellsKey r.path k)

theorem decodeSegment?_eq_some_iff {segment : List Char} {text : String} :
    decodeSegment? segment = some text ↔ SpellsText segment text := by
  rw [decodeSegment?, Text.Utf8.text?_eq_some_iff, Percent.decode_eq_iff, SpellsText]

/-- **The requests for a key** are the questions whose path spells it. -/
theorem reads_iff_spellsKey {r : Request} {k : Key} :
    Reads r k ↔ IsQuestion r ∧ SpellsKey r.path k := by
  simp only [Reads, SpellsKey, Route.ofPath?_eq_secret_iff, key?_eq_some_iff,
    decodeSegment?_eq_some_iff, and_assoc]

/-- A path of fixed segments. -/
theorem ofPath?_eq_fixed_iff {path : List Char} {route : Route} {text : String}
    (htext : text.toList = Text.join '/' (route.segments.map String.toList))
    (hslash : ∀ s ∈ route.segments, '/' ∉ s.toList) :
    Route.ofPath? path = some route ↔ path = text.toList := by
  rw [Route.ofPath?_eq_some_iff, htext]
  exact and_iff_left hslash

/-- What is served is a login, a question for the health, a read, a control call or a reset. -/
theorem served_iff {r : Request} :
    Served r ↔ AsksLogin r ∨ AsksHealth r ∨ (∃ k, Reads r k) ∨ (∃ kind, Controls r kind) ∨
      Resets r := by
  have hlogin : Route.ofPath? r.path = some .login ↔ r.path = "/v1/auth/approle/login".toList :=
    ofPath?_eq_fixed_iff (by decide) (by decide)
  have hhealth : Route.ofPath? r.path = some .health ↔ r.path = healthPath.toList :=
    ofPath?_eq_fixed_iff (by decide) (by decide)
  have hset : Route.ofPath? r.path = some (.control .setVersion) ↔
      r.path = "/control/set-version".toList := ofPath?_eq_fixed_iff (by decide) (by decide)
  have hfail : Route.ofPath? r.path = some (.control .failNext) ↔
      r.path = "/control/fail-next".toList := ofPath?_eq_fixed_iff (by decide) (by decide)
  have hreset : Route.ofPath? r.path = some .reset ↔ r.path = "/control/reset".toList :=
    ofPath?_eq_fixed_iff (by decide) (by decide)
  constructor
  · rintro (⟨hm, hpath, h⟩ | ⟨hq, h⟩ | ⟨hq, h⟩)
    · simp only [postPaths, List.mem_cons, List.not_mem_nil, or_false] at hpath
      rcases hpath with rfl | rfl | rfl | rfl
      · exact .inl ⟨hm, hlogin.2 h⟩
      · exact .inr (.inr (.inr (.inl ⟨.setVersion, hm, hset.2 h⟩)))
      · exact .inr (.inr (.inr (.inl ⟨.failNext, hm, hfail.2 h⟩)))
      · exact .inr (.inr (.inr (.inr ⟨hm, hreset.2 h⟩)))
    · exact .inr (.inl ⟨hq, hhealth.2 h⟩)
    · exact .inr (.inr (.inl ⟨_, reads_iff_spellsKey.2 ⟨hq, h⟩⟩))
  · rintro (⟨hm, h⟩ | ⟨hq, h⟩ | ⟨k, h⟩ | ⟨kind, hm, h⟩ | ⟨hm, h⟩)
    · exact .call hm (by decide) (hlogin.1 h)
    · exact .health hq (hhealth.1 h)
    · obtain ⟨hq, h⟩ := reads_iff_spellsKey.1 h
      exact .secret hq h
    · cases kind with
      | setVersion => exact .call hm (by decide) (hset.1 h)
      | failNext => exact .call hm (by decide) (hfail.1 h)
    · exact .call hm (by decide) (hreset.1 h)

theorem not_served_iff {r : Request} : ¬Served r ↔ Unserved r := by
  rw [served_iff]
  constructor
  · intro h
    simp only [not_or, not_exists] at h
    obtain ⟨hlogin, hhealth, hreads, hcontrols, hresets⟩ := h
    exact ⟨hlogin, hhealth, hreads, hcontrols, hresets⟩
  · rintro ⟨hlogin, hhealth, hreads, hcontrols, hresets⟩
    simp [hlogin, hhealth, hreads, hcontrols, hresets]

/-! ## Responses -/

/-- A request is not found exactly if it is not served. -/
theorem status_eq_notFound_iff {s : Store} {r : Request} :
    (respond s r).1.status = 404 ↔ Unserved r := by
  rw [respond_eq]
  simp only [status_deliver]
  have h := makes_demand r
  constructor
  · intro hstatus
    generalize demand r = d at h hstatus
    cases h with
    | notFound h => exact h
    | @read k h =>
      rw [Demand.answer] at hstatus
      cases hserve : (s.read k).1 with
      | serve v =>
        rw [hserve] at hstatus
        cases hstatus
      | fail n =>
        rw [hserve] at hstatus
        cases hstatus
    | login | health | command | reset | rejected | tooLarge => cases hstatus
  · intro h
    rw [(Makes.notFound h).eq_demand]
    rfl

/-- **HEAD is GET without the answer**: the same question by HEAD has the response by GET without
its body, and the same effect. -/
theorem respond_head (s : Store) (r : Request) :
    respond s { r with method := .head } =
      ((respond s { r with method := .get }).1.withoutBody,
        (respond s { r with method := .get }).2) := by
  have hdemand : demand { r with method := .head } = demand { r with method := .get } := by
    have hroute (route : Option Route) (body : List UInt8) :
        routeDemand route .head body = routeDemand route .get body := by
      match route with
      | none | some .login | some .health | some (.secret _ _) | some (.control _) | some .reset =>
        rfl
    exact hroute _ _
  rw [respond_eq, respond_eq, hdemand]
  rfl

/-- What a read of a key is answered. -/
def readResponse (k : Key) : Outcome → Response
  | .serve v => .json 200 (payload k v)
  | .fail _ => .json 500 (.object [("errors",
      .array [.string ("injected failure for " ++ k.service ++ "/" ++ k.item.name)])])

theorem respond_get {r : Request} {k : Key} (h : Reads r k) (hm : r.method = .get) (s : Store) :
    respond s r = (readResponse k (s.read k).1, (s.read k).2) := by
  rw [respond_eq, (Makes.read h).eq_demand, hm]
  refine Prod.ext ?_ rfl
  simp only [Demand.answer]
  cases (s.read k).1 with
  | serve v => rfl
  | fail n =>
    rw [readResponse, ← message_injected]
    rfl

/-- **What is served and what is not.** A request is found exactly if it is a call by POST on one of
four paths, or by GET or HEAD the question for the health, or a path that spells a key. By such a
path the key is read: GET gives what the read came to, and HEAD has the same status and the same
effect without a body. Every other request is answered with 404 and `not found`, by HEAD without a
body, and has no effect. -/
theorem respond_surface (s : Store) (r : Request) :
    ((respond s r).1.status ≠ 404 ↔ Served r) ∧
      (∀ k, SpellsKey r.path k →
        respond s { r with method := .get } = (readResponse k (s.read k).1, (s.read k).2) ∧
        respond s { r with method := .head } =
          ((readResponse k (s.read k).1).withoutBody, (s.read k).2)) ∧
      (¬Served r → respond s r =
        (if r.method = .head then ⟨404, "application/json", .empty⟩
          else .json 404 (.object [("errors", .array [.string "not found"])]), s)) := by
  refine ⟨?_, fun k hk => ?_, fun h => ?_⟩
  · rw [ne_eq, status_eq_notFound_iff, ← not_served_iff, not_not]
  · have hread : Reads { r with method := .get } k := reads_iff_spellsKey.2 ⟨.inl rfl, hk⟩
    have hget := respond_get hread rfl s
    exact ⟨hget, by rw [respond_head, hget]⟩
  · rw [respond_eq, (Makes.notFound (not_served_iff.1 h)).eq_demand]
    refine Prod.ext ?_ rfl
    by_cases hm : r.method = .head
    · rw [if_pos hm, hm]
      rfl
    · rw [if_neg hm]
      simp only [deliver, if_neg hm]
      rfl

/-- An encoded slash, a percent sign that begins no group and a plus sign in a service, an encoded
letter in an item; and a path that ends too early. -/
theorem respond_surface_escaped :
    let k : Key := ⟨"a/b%zz+", .eab⟩
    let s := Store.empty.failNext k .one
    let r : Request := ⟨.head, "/v1/secret/data/bootroot/services/a%2fb%zz+/%65ab?x=/", []⟩
    let r' : Request := ⟨.get, "/v1/secret/data/bootroot/services/api/", []⟩
    SpellsKey r.path k ∧ respond s r = (⟨500, "application/json", .empty⟩, (s.read k).2) ∧
      ¬Served r' ∧ respond s r' = (.json 404 (errorBody "not found"), s) := by
  intro k s r r'
  have hk : SpellsKey r.path k :=
    ⟨"a%2fb%zz+".toList, "%65ab".toList, by decide, by decide, by decide,
      decodeSegment?_eq_some_iff.1 (by decide), decodeSegment?_eq_some_iff.1 (by decide)⟩
  have hserved : ¬Served r' := by
    rw [← (respond_surface s r').1]
    decide
  exact ⟨hk, ((respond_surface s r).2.1 k hk).2, hserved, (respond_surface s r').2.2 hserved⟩

end CredentialBench.Simulator
