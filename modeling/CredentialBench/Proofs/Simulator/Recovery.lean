import CredentialBench.Proofs.Net.Percent
import CredentialBench.Proofs.Simulator.Answer
import CredentialBench.Proofs.Simulator.ControlBody
import CredentialBench.Proofs.Simulator.NonInterference
import CredentialBench.Proofs.Simulator.Route

/-!
# Failures and recovery of one secret

A control call names a service in a JSON string, a read names it in a segment of its path. Both name
the same key for every service: the string may hold any characters, and the segment spells the same
text, less the blank characters at its ends, with every byte in percent-encoded form
(`reads_of_path`).

After a version is set and failures are armed for a key, the store tells only how many reads of the
key there were since (`state_afterAll`): as many reads as failures were armed fail, and every later
one serves the version. Main statement: `respond_after_control`.
-/

namespace CredentialBench.Simulator

open Json Secret Http

/-! ## The path of a secret -/

/-- The path of a secret, every byte of the service in percent-encoded form. -/
def encodedPath (k : Key) : List Char :=
  "/v1/secret/data/bootroot/services/".toList ++
    (Percent.encodeAll (Text.Utf8.bytes k.service) ++ '/' :: k.item.name.toList)

theorem slash_notMem_encodeAll (bs : List UInt8) : '/' ∉ Percent.encodeAll bs := by
  intro h
  rcases Percent.mem_encodeAll h with h | h
  · exact absurd h (by decide)
  · exact absurd h (by decide)

theorem ofPath?_encodedPath (k : Key) :
    Route.ofPath? (encodedPath k) =
      some (.secret (Percent.encodeAll (Text.Utf8.bytes k.service)) k.item.name.toList) := by
  have hitem : '/' ∉ k.item.name.toList := by cases k.item <;> decide
  exact Route.ofPath?_eq_secret_iff.2 ⟨rfl, slash_notMem_encodeAll _, hitem⟩

theorem key?_encoded (k : Key) :
    key? (Percent.encodeAll (Text.Utf8.bytes k.service)) k.item.name.toList = some k := by
  refine key?_eq_some_iff.2 ⟨?_, ?_⟩
  · rw [decodeSegment?, Percent.decode_encodeAll, Text.Utf8.bytes, Text.Utf8.text?,
      Text.Utf8.decode?_encode, Option.map_some, String.ofList_toList]
  · cases k.item <;> decide

/-- **The path of a secret names its key**, whatever the service is called. -/
theorem reads_of_path {r : Request} {k : Key} (hr : IsQuestion r) (hp : r.path = encodedPath k) :
    Reads r k :=
  ⟨hr, _, _, hp ▸ ofPath?_encodedPath k, key?_encoded k⟩

/-! ## Reads since the control calls -/

theorem reads_iff {r : Request} {k : Key} : Reads r k ↔ demand r = .read k := by
  constructor
  · exact fun h => (Makes.read h).eq_demand
  · intro hd
    have h := makes_demand r
    rw [hd] at h
    cases h with
    | read h => exact h

theorem commands_iff {r : Request} {c : Control.Command} :
    Commands r c ↔ demand r = .command c := by
  constructor
  · exact fun h => (Makes.command h).eq_demand
  · intro hd
    have h := makes_demand r
    rw [hd] at h
    cases h with
    | command h => exact h

instance (r : Request) (k : Key) : Decidable (Reads r k) :=
  match h : demand r with
  | .read k' =>
    if hk : k' = k then .isTrue (reads_iff.2 (h.trans (congrArg _ hk)))
    else .isFalse fun hr => hk (Demand.read.inj (h.symm.trans (reads_iff.1 hr)))
  | .login | .health | .command _ | .reset | .refuse _ =>
    .isFalse fun hr => nomatch h.symm.trans (reads_iff.1 hr)

/-- The request overwrites a counter of a key: it is a control call that is accepted for the key, or
a reset. -/
def Overwrites (r : Request) (k : Key) : Prop := (∃ c, Commands r c ∧ c.key = k) ∨ Resets r

/-- The store after some requests. -/
def afterAll (s : Store) (rs : List Request) : Store := rs.foldl (fun s r => (respond s r).2) s

/-- A request that overwrites no counter of a key leaves the key as it is, a read of it aside. -/
theorem state_respond {s : Store} {r : Request} {k : Key} (h : ¬Overwrites r k) :
    (respond s r).2.state k =
      if Reads r k then { s.state k with pending := (s.state k).pending - 1 } else s.state k := by
  rw [respond_eq]
  have hm := makes_demand r
  have hother (hne : demand r ≠ .read k) : ¬Reads r k := fun hr => hne (reads_iff.1 hr)
  generalize demand r = d at hm hother
  cases hm with
  | @read k' hread =>
    simp only [Demand.after, Store.state_read]
    by_cases hk : k = k'
    · subst hk
      rw [if_pos rfl, if_pos hread]
    · rw [if_neg hk, if_neg (hother fun he => hk (Demand.read.inj he).symm)]
  | @command c hc =>
    have hk : k ≠ c.key := fun e => h (.inl ⟨c, hc, e.symm⟩)
    rw [if_neg (hother (by simp))]
    cases c <;> simp only [Control.Command.key] at hk <;>
      simp [Demand.after, Store.apply, hk]
  | reset hr => exact absurd (.inr hr) h
  | login | health | rejected | tooLarge | notFound =>
    rw [if_neg (hother (by simp))]
    rfl

/-- **What is left of a key** after requests that overwrite none of its counters: the version, and
the failures less the reads. -/
theorem state_afterAll {k : Key} {rs : List Request} (h : ∀ r ∈ rs, ¬Overwrites r k) (s : Store) :
    (afterAll s rs).state k =
      ⟨(s.state k).version, (s.state k).pending - rs.countP fun r => Reads r k⟩ := by
  induction rs generalizing s with
  | nil => rfl
  | cons r rs ih =>
    have hstep := state_respond (s := s) (h r List.mem_cons_self)
    have hrest := ih (fun r' hr' => h r' (List.mem_cons_of_mem r hr')) (respond s r).2
    change (afterAll (respond s r).2 rs).state k = _
    rw [hrest, hstep, List.countP_cons]
    by_cases hr : Reads r k
    · rw [if_pos hr, if_pos (decide_eq_true hr), Nat.sub_sub, Nat.add_comm 1]
    · simp [hr]

/-! ## Setting a version and arming failures -/

/-- The request is a control call within the limit that gives a service, an item and a number. -/
structure Calls (r : Request) (kind : Control.Kind) (service : String) (item : Item)
    (n : Positive) : Prop where
  controls : Controls r kind
  short : r.body.length ≤ maxBody
  gives : Control.Body.Gives kind service item.name n.val r.body

theorem Calls.commands {r : Request} {kind : Control.Kind} {service : String} {item : Item}
    {n : Positive} (h : Calls r kind service item n) (hs : Text.blank service = false)
    (hn : n.val ≤ kind.greatest) :
    Commands r (kind.command ⟨Text.trim service, item⟩ n) :=
  ⟨kind, h.controls, h.short, Control.ofBytes_of_gives hs hn h.gives⟩

/-- An accepted control call answers with success and has its effect. -/
theorem respond_of_commands {r : Request} {c : Control.Command} (h : Commands r c) (s : Store) :
    (respond s r).1.status = 200 ∧ (respond s r).2 = s.apply c := by
  rw [respond_eq, (Makes.command h).eq_demand]
  exact ⟨status_deliver _ _, rfl⟩

/-- How a read comes out, by the failures that are left. -/
theorem respond_read {s : Store} {r : Request} {k : Key} (hr : Reads r k) (hm : r.method = .get) :
    if 0 < (s.state k).pending then
      (respond s r).1.status = 500 ∧ Value.parse? (respond s r).1.body.bytes =
        some (.object [("errors",
          .array [.string ("injected failure for " ++ k.service ++ "/" ++ k.item.name)])])
    else
      (respond s r).1.status = 200 ∧
        Value.parse? (respond s r).1.body.bytes = some (payload k (s.state k).version) := by
  rw [respond_eq, reads_iff.1 hr, hm]
  have hread := s.fst_read k
  by_cases hp : 0 < (s.state k).pending
  · have hanswer : (Demand.read k).answer s = .error (.injected k) := by
      rw [Demand.answer, hread, if_pos hp]
    rw [if_pos hp, hanswer, ← message_injected]
    exact ⟨rfl, parse?_json 500 rfl rfl⟩
  · have hanswer : (Demand.read k).answer s = .ok (payload k (s.state k).version) := by
      rw [Demand.answer, hread, if_neg hp]
    rw [if_neg hp, hanswer]
    exact ⟨rfl, parse?_json 200 (readable_answer hanswer).1 (readable_answer hanswer).2⟩

/-- **Control calls and reads agree on the key.** In any state a version is set and failures are
armed for a service and an item, in either order: both calls are answered with 200, whatever the
service is called, as long as it is not blank. From then on, as long as no request overwrites a
counter of that key, a question by GET for the path that percent-encodes the trimmed service is a
read of the key. It is answered with 500 and the message that names the key if fewer reads of the
key came before it than failures were armed, and with 200 and the payload of the version otherwise.
-/
theorem respond_after_control (s : Store) {service : String} (hs : Text.blank service = false)
    (item : Item) {version count : Positive} (hversion : version.val ≤ 0x7FFFFFFFFFFFFFFF)
    (hcount : count.val ≤ 0xFFFFFFFF) {set arm : Request}
    (hset : Calls set .setVersion service item version)
    (harm : Calls arm .failNext service item count) {calls : List Request}
    (hcalls : calls = [set, arm] ∨ calls = [arm, set]) :
    (∀ e ∈ transcript id s calls, e.2.status = 200) ∧
      ∀ rs r, (∀ r' ∈ rs, ¬Overwrites r' ⟨Text.trim service, item⟩) → r.method = .get →
        r.path = encodedPath ⟨Text.trim service, item⟩ →
        Reads r ⟨Text.trim service, item⟩ ∧
        let response := (respond (afterAll s (calls ++ rs)) r).1
        if (rs.countP fun r' => Reads r' ⟨Text.trim service, item⟩) < count.val then
          response.status = 500 ∧ Value.parse? response.body.bytes =
            some (.object [("errors", .array [.string
              ("injected failure for " ++ Text.trim service ++ "/" ++ item.name)])])
        else
          response.status = 200 ∧ Value.parse? response.body.bytes =
            some (payload ⟨Text.trim service, item⟩ version) := by
  have hsets := hset.commands hs hversion
  have harms := harm.commands hs hcount
  generalize hk : (⟨Text.trim service, item⟩ : Key) = k at hsets harms ⊢
  have hservice : Text.trim service = k.service := by rw [← hk]
  have hitem : item = k.item := by rw [← hk]
  have hafter : (afterAll s calls).state k = ⟨version, count.val⟩ := by
    rcases hcalls with rfl | rfl <;>
      simp [afterAll, respond_of_commands hsets, respond_of_commands harms, Control.Kind.command,
        Store.apply]
  constructor
  · rcases hcalls with rfl | rfl <;>
      simp [transcript, respond_of_commands hsets, respond_of_commands harms]
  · intro rs r hrs hm hp
    have hr : Reads r k := reads_of_path (.inl hm) hp
    refine ⟨hr, ?_⟩
    have hstate : (afterAll s (calls ++ rs)).state k =
        ⟨version, count.val - rs.countP fun r' => Reads r' k⟩ := by
      rw [afterAll, List.foldl_append]
      have hall := state_afterAll hrs (afterAll s calls)
      rwa [hafter] at hall
    have hread := respond_read (s := afterAll s (calls ++ rs)) hr hm
    simp only [hstate, Nat.sub_pos_iff_lt] at hread
    rw [hservice, hitem]
    exact hread

/-- A service whose name needs every encoding: escapes in the body, percent signs in the path, and
blank characters that are trimmed. -/
theorem respond_after_control_escaped :
    let service := " a/%2F\"é\x07\n"
    let body (kind : Control.Kind) (n : Nat) : List UInt8 :=
      Text.Utf8.encode ((Value.object [("item", .string "eab"), ("service", .string service),
        (kind.field, .integer n)]).write .compact 0)
    let set : Request := ⟨.post, "/control/set-version", body .setVersion 7⟩
    let arm : Request := ⟨.post, "/control/fail-next", body .failNext 1⟩
    let get : Request :=
      ⟨.get, "/v1/secret/data/bootroot/services/%61%2F%25%32%46%22%C3%A9%07/eab", []⟩
    (respond (afterAll .empty [arm, set]) get).1.status = 500 ∧
      (respond (afterAll .empty [arm, set, get]) get).1.status = 200 := by
  intro service body set arm get
  have htrim : Text.trim service = "a/%2F\"é\x07" := by decide
  have hset : Calls set .setVersion service .eab ⟨7, by decide⟩ :=
    ⟨⟨rfl, by decide⟩, by decide, Control.Body.gives_write .setVersion service "eab" (by decide)⟩
  have harm : Calls arm .failNext service .eab ⟨1, by decide⟩ :=
    ⟨⟨rfl, by decide⟩, by decide, Control.Body.gives_write .failNext service "eab" (by decide)⟩
  obtain ⟨-, h⟩ := respond_after_control .empty (by decide : Text.blank service = false) .eab
    (by decide) (by decide) hset harm (.inr rfl)
  have hpath : get.path = encodedPath ⟨Text.trim service, .eab⟩ := by
    rw [htrim]
    decide
  have hget : ¬Overwrites get ⟨Text.trim service, .eab⟩ := by
    have hreads := reads_of_path (.inl rfl) hpath
    rintro (⟨c, hc, -⟩ | hreset)
    · exact nomatch (reads_iff.1 hreads).symm.trans (commands_iff.1 hc)
    · exact nomatch (reads_iff.1 hreads).symm.trans (resets_iff.1 hreset)
  have hreads := (h [] get (by simp) rfl hpath).1
  have hfirst := (h [] get (by simp) rfl hpath).2
  have hsecond := (h [get] get (by simpa using hget) rfl hpath).2
  simp only [List.countP_cons, List.countP_nil, hreads, decide_true, ↓reduceIte] at hfirst hsecond
  exact ⟨hfirst.1, hsecond.1⟩

end CredentialBench.Simulator
