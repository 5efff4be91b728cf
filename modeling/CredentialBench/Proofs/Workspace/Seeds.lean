import CredentialBench.Proofs.Secret.Payload
import CredentialBench.Proofs.Workspace.Index

/-!
# Seeds are never served

What is read from the seed files of a service is what the plan made of its name, through lines, JSON
and TOML (`ConfinedRun.seed?_entry`). Every value begins with `role-` or with `seed-`, and no text
of a payload does, neither the digest nor the bundle (`Seed.Part.foreign_stem`). The name of the
service comes after that, so whatever it imitates, no seed passes for a synchronised secret of any
service (`run_seeds_unserved`).
-/

namespace CredentialBench

/-- A text without the line feed at its end, if there is one. -/
def Text.withoutLineEnd (s : String) : String :=
  if s.toList.getLast? = some '\n' then String.ofList s.toList.dropLast else s

/-- What a text begins with stays if it has no line feed. -/
theorem Text.prefix_withoutLineEnd {stem s : String} (hstem : '\n' ∉ stem.toList)
    (h : stem.toList <+: s.toList) : stem.toList <+: (withoutLineEnd s).toList := by
  unfold withoutLineEnd
  split
  · rename_i hlast
    obtain ⟨cs, hcs⟩ := List.getLast?_eq_some_iff.1 hlast
    rw [hcs, List.prefix_concat_iff] at h
    rw [hcs, List.dropLast_concat, String.toList_ofList]
    refine h.resolve_left fun hall => hstem ?_
    rw [hall]
    exact List.mem_append_right _ (List.mem_singleton_self _)
  · exact h

namespace Workspace

open FileTree CredentialBench.Path

/-! ## What seeds are -/

/-- A value among the seeds of a service. -/
inductive Seed.Part
  /-- The identifier of the role, in a file of its own. -/
  | roleId
  /-- The secret of the first login, in a file of its own. -/
  | secretId
  /-- The name of the key in the binding to an external account. -/
  | kid
  /-- The key in the binding to an external account. -/
  | hmac
  /-- The key shared with the responder to challenges over HTTP, in the agent configuration. -/
  | responderHmac
  deriving DecidableEq

namespace Seed.Part

/-- The value of a part, with the line end that a file of its own has. -/
def value (service : String) : Part → String
  | roleId => "role-" ++ service ++ "\n"
  | secretId => "seed-secret-" ++ service ++ "\n"
  | kid => "seed-kid-" ++ service
  | hmac => "seed-hmac-" ++ service
  | responderHmac => AgentConfig.seedResponderHmac

/-- What the value of a part begins with. -/
def stem : Part → String
  | roleId => "role-"
  | _ => "seed-"

theorem stem_prefix_value (part : Part) (service : String) :
    part.stem.toList <+: (part.value service).toList := by
  cases part with
  | roleId => simp [stem, value]
  | secretId => simp [stem, value]
  | kid => simp [stem, value]
  | hmac => simp [stem, value]
  | responderHmac =>
    show "seed-".toList <+: AgentConfig.seedResponderHmac.toList
    decide

/-- **No payload has a text that begins like a seed.** -/
theorem foreign_stem (part : Part) : Secret.Foreign part.stem where
  opening := by
    intro item
    cases part <;> cases item <;> decide +kernel
  digest := ⟨'-', by cases part <;> decide, by decide⟩

end Seed.Part

/-! ## What is read -/

/-- A value in the binding of a service to an external account. -/
def ServiceEntry.binding? (e : ServiceEntry) (t : FileTree) (name : String) : Option String := do
  let text ← (t.readText e.eabPath).toOption
  let binding ← Json.Value.parse? (Text.Utf8.bytes text)
  (← binding.get? name).string?

/-- A value that is read from the seed files of a service, which are where its entry in the manifest
says. -/
def ServiceEntry.seed? (e : ServiceEntry) (t : FileTree) : Seed.Part → Option String
  | .roleId => (t.readText e.roleIdPath).toOption
  | .secretId => (t.readText e.secretIdPath).toOption
  | .kid => e.binding? t "kid"
  | .hmac => e.binding? t "hmac"
  | .responderHmac => do
    let text ← (t.readText e.agentConfigPath).toOption
    let config ← (AgentConfig.ofToml text).toOption
    return config.responderHmac

variable {issuer : Issuer} {settings : Settings} {s : Scenario} {directory : String} {b b' : Bench}
  {root : Place} {manifest : Manifest}

/-- **A run leaves the seeds to be read as they were meant**, whatever its issuer answers. -/
theorem ConfinedRun.seed?_entry (h : ConfinedRun issuer settings s directory b b' root manifest)
    {x : Host} (hx : x ∈ s.hosts) {y : Service} (hy : y ∈ x.services) (answer : Issued)
    (part : Seed.Part) :
    (y.entry root x.id answer).seed? b'.tree part = some (part.value y.name) := by
  obtain ⟨hrole, hsecret, heab, htoml⟩ := h.readText_service hx hy answer
  have hbinding (name : String) : (y.entry root x.id answer).binding? b'.tree name =
      ((Json.Value.object [("hmac", .string ("seed-hmac-" ++ y.name)),
        ("kid", .string ("seed-kid-" ++ y.name))]).get? name).bind Json.Value.string? := by
    have hparse := parse?_eab y.name
    rw [Content.ofText, Content.toBytes] at hparse
    rw [ServiceEntry.binding?, heab]
    simp only [Except.toOption, Option.bind_eq_bind, Option.bind_some, hparse]
  cases part with
  | roleId =>
    rw [ServiceEntry.seed?, hrole]
    rfl
  | secretId =>
    rw [ServiceEntry.seed?, hsecret]
    rfl
  | kid => exact hbinding "kid"
  | hmac => exact hbinding "hmac"
  | responderHmac =>
    rw [ServiceEntry.seed?, htoml]
    simp only [Except.toOption, Option.bind_eq_bind, Option.bind_some, AgentConfig.ofToml_toToml]
    rfl

/-- **A seed is never mistaken for a synchronised secret.** After a run that succeeds, with any
issuer that keeps to its own files, every value of a service is read from the files that its entry
names, and neither as it stands nor without a line end is it a text in the payload of any key at any
version. -/
theorem run_seeds_unserved (h : ConfinedRun issuer settings s directory b b' root manifest) :
    ∀ x ∈ s.hosts, ∀ y ∈ x.services, ∃ e, manifest.find? x.id y.name = some e ∧
      ∀ part, e.seed? b'.tree part = some (part.value y.name) ∧
        ∀ key version path text, (Secret.payload key version).Leaf path text →
          part.value y.name ≠ text ∧ Text.withoutLineEnd (part.value y.name) ≠ text := by
  intro x hx y hy
  obtain ⟨answer, hfind⟩ := h.find?_entry hx hy
  refine ⟨_, hfind, fun part => ⟨h.seed?_entry hx hy answer part, ?_⟩⟩
  intro key version path text hleaf
  have hstem := part.stem_prefix_value y.name
  have hline : '\n' ∉ part.stem.toList := by cases part <;> decide
  constructor
  · rintro rfl
    exact part.foreign_stem.not_prefix hleaf hstem
  · rintro rfl
    exact part.foreign_stem.not_prefix hleaf (Text.prefix_withoutLineEnd hline hstem)

/-- A service that is called like a key that the store serves. -/
def Scenario.disguised : Scenario :=
  ⟨"s", [⟨"a", [⟨"synced-kid-x-v1", "daemon", "1", none⟩]⟩]⟩

/-- The seed for such a key ends in what is served for a service `x`, and still is served for
none. -/
theorem run_seeds_unserved_disguised :
    ∃ b' manifest e,
      ConfinedRun (.internal 20000 1) .withStub .disguised "/w" ⟨fresh .superuser, []⟩ b' ["w"]
        manifest ∧
      manifest.find? "a" "synced-kid-x-v1" = some e ∧
      e.seed? b'.tree .kid = some "seed-kid-synced-kid-x-v1" ∧
      (Secret.payload ⟨"x", .eab⟩ .one).Leaf ["data", "data", "kid"] "synced-kid-x-v1" ∧
      ∀ key version path,
        ¬ (Secret.payload key version).Leaf path "seed-kid-synced-kid-x-v1" := by
  obtain ⟨b', h⟩ := confinedRun_of_legal .superuser (s := .disguised) rfl (by decide +kernel)
    (by decide +kernel)
  obtain ⟨e, hfind, hparts⟩ := run_seeds_unserved h _ List.mem_cons_self _ List.mem_cons_self
  obtain ⟨hseed, hunserved⟩ := hparts .kid
  refine ⟨b', _, e, h, hfind, hseed, ?_, fun key version path hleaf => ?_⟩
  · exact Secret.leaf_payload_iff.2 (.inl ⟨⟨"kid", "synced-kid-", ""⟩, by decide, rfl, by decide⟩)
  · exact (hunserved key version path _ hleaf).1 rfl

end Workspace

end CredentialBench
