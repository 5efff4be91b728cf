import CredentialBench.Proofs.Secret.Payload
import CredentialBench.Proofs.Simulator.Recovery

/-!
# What was served

A response to a read tells what it is a response to. The bytes of a payload mean the payload, and a
payload names one key and one version; the message of an injected failure names one key; and the two
kinds of response are never the same bytes. So whoever gets the bytes alone knows which key was
read, whether the read failed, and which version was served if it did not (`respond_read_inj`).

Main statement: `read_recognized`.
-/

namespace CredentialBench.Simulator

open Json Secret Http

/-- **The bytes of a payload tell the key and the version.** -/
theorem bytes_payload_inj {k k' : Key} {v v' : Positive} :
    (Response.json 200 (payload k v)).body.bytes =
      (Response.json 200 (payload k' v')).body.bytes ↔ k = k' ∧ v = v' := by
  have hread (k : Key) (v : Positive) :
      Value.parse? (Response.json 200 (payload k v)).body.bytes = some (payload k v) := by
    -- the payload is the answer of a store that has just been given the version
    have hserve : ((Store.empty.setVersion k v).read k).1 = .serve v := by
      simp [Store.fst_read, Counters.initial]
    have hanswer : (Demand.read k).answer (Store.empty.setVersion k v) = .ok (payload k v) := by
      rw [Demand.answer, hserve]
    exact parse?_json 200 (readable_answer hanswer).1 (readable_answer hanswer).2
  constructor
  · intro h
    have hparse := congrArg Value.parse? h
    rw [hread, hread] at hparse
    exact payload_inj.1 (Option.some.inj hparse)
  · rintro ⟨rfl, rfl⟩
    rfl

/-- **The message of an injected failure tells the key.** -/
theorem message_injected_inj {k k' : Key} :
    (Refusal.injected k).message = (Refusal.injected k').message ↔ k = k' := by
  change "injected failure for " ++ k.text = "injected failure for " ++ k'.text ↔ k = k'
  rw [String.append_right_inj, Key.text_inj]

/-- What a response to a read by GET means. -/
theorem parse?_respond_read {r : Request} {k : Key} (hr : Reads r k) (hm : r.method = .get)
    (s : Store) :
    Value.parse? (respond s r).1.body.bytes = some (
      if 0 < (s.state k).pending then errorBody (Refusal.injected k).message
      else payload k (s.state k).version) := by
  have h := respond_read (s := s) hr hm
  rw [message_injected]
  split at h
  · rw [if_pos ‹_›]
    exact h.2
  · rw [if_neg ‹_›]
    exact h.2

/-- **A response tells what it is a response to**: of two reads by GET with the same bytes for an
answer, both failed or neither, both were for one key, and both were served the same version if they
were served one. -/
theorem respond_read_inj {r r' : Request} {k k' : Key} (hr : Reads r k) (hm : r.method = .get)
    (hr' : Reads r' k') (hm' : r'.method = .get) {s s' : Store}
    (h : (respond s r).1.body.bytes = (respond s' r').1.body.bytes) :
    k = k' ∧ (0 < (s.state k).pending ↔ 0 < (s'.state k').pending) ∧
      ((s.state k).pending = 0 → (s.state k).version = (s'.state k').version) := by
  have hparse := congrArg Value.parse? h
  rw [parse?_respond_read hr hm, parse?_respond_read hr' hm', Option.some.injEq] at hparse
  by_cases hp : 0 < (s.state k).pending
  · by_cases hp' : 0 < (s'.state k').pending
    · rw [if_pos hp, if_pos hp'] at hparse
      have hmessage : (Refusal.injected k).message = (Refusal.injected k').message := by
        simpa [errorBody] using hparse
      exact ⟨message_injected_inj.1 hmessage, iff_of_true hp hp', fun h0 => by omega⟩
    · rw [if_pos hp, if_neg hp'] at hparse
      simp [errorBody, payload] at hparse
  · by_cases hp' : 0 < (s'.state k').pending
    · rw [if_neg hp, if_pos hp'] at hparse
      simp [errorBody, payload] at hparse
    · rw [if_neg hp, if_neg hp'] at hparse
      obtain ⟨hkey, hversion⟩ := payload_inj.1 hparse
      exact ⟨hkey, iff_of_false hp hp', fun _ => hversion⟩

/-- **A reader can tell what was served.** A payload, and the bytes of a response that carries one,
tell the key and the version; each text in a payload but the digest tells the service and the
version within its item and field; the message of an injected failure tells the key; and the bytes
of a response to a read tell all of this without knowing what they are. -/
theorem read_recognized :
    (∀ k k' v v', payload k v = payload k' v' ↔ k = k' ∧ v = v') ∧
    (∀ k k' v v', (Response.json 200 (payload k v)).body.bytes =
      (Response.json 200 (payload k' v')).body.bytes ↔ k = k' ∧ v = v') ∧
    (∀ k k' v v' path text, k.item = k'.item → path ≠ digestPath → (payload k v).Leaf path text →
      (payload k' v').Leaf path text → k.service = k'.service ∧ v = v') ∧
    (∀ k k', (Refusal.injected k).message = (Refusal.injected k').message ↔ k = k') ∧
    ∀ s s' r r' k k', Reads r k → r.method = .get → Reads r' k' → r'.method = .get →
      (respond s r).1.body.bytes = (respond s' r').1.body.bytes →
        k = k' ∧ (0 < (s.state k).pending ↔ 0 < (s'.state k').pending) ∧
          ((s.state k).pending = 0 → (s.state k).version = (s'.state k').version) :=
  ⟨fun _ _ _ _ => payload_inj, fun _ _ _ _ => bytes_payload_inj,
    fun _ _ _ _ _ _ hitem hpath h h' => eq_of_leaf hitem hpath h h',
    fun _ _ => message_injected_inj,
    fun _ _ _ _ _ _ hr hm hr' hm' h => respond_read_inj hr hm hr' hm' h⟩

/-- A service with a slash and the ending of a tag in its name, spelled in two ways. -/
theorem read_recognized_escaped :
    let k : Key := ⟨"a-v1/b", .eab⟩
    let r : Request := ⟨.get, "/v1/secret/data/bootroot/services/a-v1%2Fb/eab", []⟩
    let r' : Request := ⟨.get, "/v1/secret/data/bootroot/services/%61-v1%2fb/%65ab?x", []⟩
    let s := Store.empty.setVersion k ⟨2, by decide⟩
    let s' := s.setVersion ⟨"a", .eab⟩ ⟨1, by decide⟩
    (payload k ⟨2, by decide⟩).Leaf ["data", "data", "kid"] "synced-kid-a-v1/b-v2" ∧
      ¬(payload ⟨"a", .eab⟩ ⟨1, by decide⟩).Leaf ["data", "data", "kid"] "synced-kid-a-v1/b-v2" ∧
      Reads r k ∧ Reads r' k ∧ (respond s r).1.body.bytes = (respond s' r').1.body.bytes ∧
      (s.state k).version = (s'.state k).version := by
  intro k r r' s s'
  obtain ⟨-, -, hleaf, -, hread⟩ := read_recognized
  have htext : (payload k ⟨2, by decide⟩).Leaf ["data", "data", "kid"] "synced-kid-a-v1/b-v2" :=
    leaf_payload_iff.2 (.inl ⟨⟨"kid", "synced-kid-", ""⟩, by decide, rfl, by decide⟩)
  have hr : Reads r k := by decide +kernel
  have hr' : Reads r' k := by decide +kernel
  have hbytes : (respond s r).1.body.bytes = (respond s' r').1.body.bytes := by decide +kernel
  refine ⟨htext, fun h => ?_, hr, hr', hbytes, ?_⟩
  · exact absurd (hleaf k ⟨"a", .eab⟩ _ _ _ _ rfl (by decide) htext h).1 (by decide)
  · exact (hread s s' r r' k k hr rfl hr' rfl hbytes).2.2 (by decide +kernel)

end CredentialBench.Simulator
