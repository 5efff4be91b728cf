import CredentialBench.Proofs.Simulator.Answer
import CredentialBench.Proofs.Simulator.NonInterference

/-!
# The words of a refusal

A request that is refused is told why: its response is a JSON object whose one member `errors` lists
one message (`Explains`). The message is never empty, and it is what the body means whatever text it
quotes, since the body is a value that is written out.

There is one exception. A control call is given its body by the layer below, which turns a body
beyond the limit down before the call can, and in plain text. Main statement: `explains_iff`, for a
request by any method but HEAD, which is answered without a body.
-/

namespace CredentialBench.Simulator

open Json Http

/-- The response gives a reason: a JSON object whose one member lists one message. -/
structure Explains (response : Response) : Prop where
  contentType : response.contentType = "application/json"
  body : ∃ message, message ≠ "" ∧
    Value.parse? response.body.bytes = some (.object [("errors", .array [.string message])])

theorem message_ne_empty (refusal : Refusal) : refusal.message ≠ "" := by
  have happend {s t : String} (hs : s ≠ "") : s ++ t ≠ "" := by
    rw [ne_eq, String.append_eq_empty_iff]
    exact fun h => hs h.1
  cases refusal with
  | notFound => decide
  | rejected p => exact happend (by decide)
  | injected k => exact happend (by decide)
  | tooLarge => decide

/-- Every refusal gives its reason, but for that of a body beyond the limit. -/
theorem explains_response {refusal : Refusal} (h : refusal ≠ .tooLarge) :
    Explains refusal.response := by
  have hjson : refusal.response = .json refusal.status (errorBody refusal.message) := by
    cases refusal with
    | tooLarge => exact absurd rfl h
    | notFound | rejected | injected => rfl
  rw [hjson]
  exact ⟨rfl, refusal.message, message_ne_empty refusal, parse?_json refusal.status rfl rfl⟩

theorem not_explains_tooLarge : ¬Explains Refusal.tooLarge.response := by
  rintro ⟨h, -⟩
  exact absurd h (by decide)

/-- A response without success by another method than HEAD carries a refusal. -/
theorem exists_refusal {s : Store} {r : Request} (hm : r.method ≠ .head)
    (hs : isSuccess (respond s r).1.status = false) :
    ∃ refusal, (demand r).answer s = .error refusal ∧ (respond s r).1 = refusal.response := by
  rw [respond_eq] at hs ⊢
  simp only [deliver, if_neg hm] at hs ⊢
  cases ha : (demand r).answer s with
  | ok v =>
    rw [ha] at hs
    cases hs
  | error refusal => exact ⟨refusal, rfl, rfl⟩

theorem answer_eq_tooLarge_iff {s : Store} {r : Request} :
    (demand r).answer s = .error .tooLarge ↔ ∃ kind, Controls r kind ∧ maxBody < r.body.length := by
  constructor
  · intro h
    have hm := makes_demand r
    generalize demand r = d at h hm
    cases hm with
    | tooLarge hc hl => exact ⟨_, hc, hl⟩
    | read =>
      simp only [Demand.answer] at h
      split at h <;> cases h
    | login | health | command | reset | rejected | notFound => cases h
  · rintro ⟨kind, hc, hl⟩
    rw [(Makes.tooLarge hc hl).eq_demand]
    rfl

/-- **Who is told why.** A request that is not answered with success is given a reason, unless it is
a control call with a body beyond the limit. That one is answered with 413 and with plain text. -/
theorem explains_iff (s : Store) {r : Request} (hm : r.method ≠ .head)
    (hs : isSuccess (respond s r).1.status = false) :
    (Explains (respond s r).1 ↔ ¬∃ kind, Controls r kind ∧ maxBody < r.body.length) ∧
      ((∃ kind, Controls r kind ∧ maxBody < r.body.length) →
        (respond s r).1 =
          .text 413 "Failed to buffer the request body: length limit exceeded") := by
  obtain ⟨refusal, ha, hresponse⟩ := exists_refusal hm hs
  rw [hresponse, ← answer_eq_tooLarge_iff (s := s), ha]
  simp only [Except.error.injEq]
  refine ⟨⟨?_, explains_response⟩, ?_⟩
  · rintro h rfl
    exact not_explains_tooLarge h
  · rintro rfl
    rfl

/-- A path that names nothing is refused with a reason. -/
theorem explains_iff_unknown_path :
    let r : Request := ⟨.get, "/v1/secret", []⟩
    Explains (respond .empty r).1 := by
  intro r
  have hs : isSuccess (respond .empty r).1.status = false := by decide
  have hc : ¬∃ kind, Controls r kind ∧ maxBody < r.body.length := by
    rintro ⟨kind, ⟨hpost, -⟩, -⟩
    cases hpost
  exact (explains_iff .empty (by decide : Method.get ≠ .head) hs).1.2 hc

/-- A body of blanks, one more than the limit allows, is refused without a reason. -/
theorem respond_oversize_not_explains :
    let r : Request := ⟨.post, "/control/set-version", List.replicate (maxBody + 1) 0x20⟩
    r.method ≠ .head ∧ isSuccess (respond .empty r).1.status = false ∧
      ¬Explains (respond .empty r).1 := by
  intro r
  have hc : Controls r .setVersion := ⟨rfl, by decide⟩
  have hl : maxBody < r.body.length := by
    rw [List.length_replicate]
    exact Nat.lt_succ_self maxBody
  have hresponse : (respond .empty r).1 = Refusal.tooLarge.response := by
    rw [respond_eq, (Makes.tooLarge hc hl).eq_demand]
    rfl
  rw [hresponse]
  exact ⟨(by decide : Method.post ≠ .head), rfl, not_explains_tooLarge⟩

end CredentialBench.Simulator
