import CredentialBench.Proofs.Json.Writing
import CredentialBench.Proofs.Simulator.Demand

/-!
# Answers as texts

Every answer of the simulator and every refusal is a value that the bytes of its response mean
(`parse?_json`), so a reader of the response has the value itself.
-/

namespace CredentialBench.Simulator

open Json Secret Http

/-- Every answer of the simulator is a value that its text means. -/
theorem readable_answer {d : Demand} {s : Store} {v : Value} (h : d.answer s = .ok v) :
    v.isExact = true ∧ v.isRegular Value.maxDepth = true := by
  cases d with
  | read k =>
    simp only [Demand.answer] at h
    split at h
    · cases h
    · cases h
      obtain ⟨service, item⟩ := k
      have heab : "hmac" < "kid" := by decide
      have htrust : "ca_bundle_pem" < "trusted_ca_sha256" := by decide
      cases item <;>
        simp only [payload, data, Value.isExact, Value.areExactMembers, Value.areExact,
          Value.isRegular, Value.areRegularMembers, Value.areRegular, Value.maxDepth,
          Bool.and_eq_true, decide_eq_true_eq, bne_iff_ne, List.map_cons, List.map_nil,
          List.pairwise_cons, List.Pairwise.nil, List.mem_cons, List.not_mem_nil, or_false,
          forall_eq, false_implies, implies_true, heab, htrust] <;>
        decide
  | login | health | command | reset =>
    cases h
    decide
  | refuse => cases h

/-- An injected failure is told by the service and the item. -/
theorem message_injected (k : Key) :
    (Refusal.injected k).message = "injected failure for " ++ k.service ++ "/" ++ k.item.name := by
  change "injected failure for " ++ (k.service ++ "/" ++ k.item.name) = _
  rw [String.append_assoc, String.append_assoc, String.append_assoc]

/-- The bytes of a response that carries a value mean the value. -/
theorem parse?_json (status : Nat) {v : Value} (h : v.isExact = true)
    (h' : v.isRegular Value.maxDepth = true) :
    Value.parse? (Response.json status v).body.bytes = some v :=
  Value.parse?_write Style.spaced_compact h h' 0

end CredentialBench.Simulator
