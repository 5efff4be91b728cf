import Mathlib.Data.List.Nodup
import CredentialBench.Proofs.Workspace.Checking
import CredentialBench.Proofs.Workspace.Progress

/-!
# The outline of a workspace

Every place of a workspace, and what stands there. The outline says for a whole scenario what the
steps of its plan mark (`Scenario.marked_iff`). No two of its entries are about one place
(`Scenario.outline_functional`): hosts have their own directories, services their own files, and the
names of a service's files differ in their endings. So the plan of a scenario that is valid is sound
(`Scenario.sound`).
-/

namespace CredentialBench.Workspace

open FileTree CredentialBench.Path

/-! ## Outlines -/

/-- The certificate of a service, if the issuer writes where it is to. -/
def Layout.cert (host : Place) (service : String) : Place := host ++ ["certs", service ++ ".crt"]

/-- The private key of a service, if the issuer writes where it is to. -/
def Layout.key (host : Place) (service : String) : Place := host ++ ["certs", service ++ ".key"]

/-- The seeds and the configuration of a service. -/
def Service.seedOutline (s : Service) (host : Place) (hostId : String) : List (Place × Mark) := [
  (host ++ ["secrets"], .directory),
  (host ++ ["secrets", "services"], .directory),
  (host ++ ["secrets", "services", s.name], .directory),
  (host ++ ["secrets", "services", s.name, "role_id"],
    .owner (.ofText ("role-" ++ s.name ++ "\n"))),
  (host ++ ["secrets", "services", s.name, "secret_id"],
    .owner (.ofText ("seed-secret-" ++ s.name ++ "\n"))),
  (host ++ ["secrets", "services", s.name, "eab.json"],
    .owner (.ofText (Json.Value.object [("hmac", .string ("seed-hmac-" ++ s.name)),
      ("kid", .string ("seed-kid-" ++ s.name))]).compact)),
  (host ++ ["configs", s.name ++ ".toml"],
    .owner (.ofText (AgentConfig.forService s.name hostId s.instanceId).toToml))]

/-- Everything of a service. -/
def Service.outline (s : Service) (host : Place) (hostId : String) : List (Place × Mark) :=
  s.seedOutline host hostId ++
    [(Layout.cert host s.name, .issued), (Layout.key host s.name, .issued)]

/-- The directories of a host before its services. -/
def Host.openingOutline (h : Host) (root : Place) : List (Place × Mark) := [
  (root ++ ["nodes"], .directory),
  (root ++ ["nodes", h.id], .directory),
  (root ++ ["nodes", h.id, "certs"], .directory),
  (root ++ ["nodes", h.id, "configs"], .directory),
  (root ++ ["nodes", h.id, "summaries"], .directory)]

/-- What is installed as the agent, where `stub` is what is copied. -/
def Settings.agentContent (settings : Settings) (stub : Content) : Content :=
  match settings.agentStub with
  | none => .ofText "#!/usr/bin/env sh\nexit 0\n"
  | some _ => stub

/-- What finishes a host. -/
def Host.closingOutline (h : Host) (settings : Settings) (stub : Content) (root : Place) :
    List (Place × Mark) := [
  (root ++ ["nodes", h.id, "state.json"], .default (jsonContent (h.state settings).toJson)),
  (root ++ ["nodes", h.id, "bin"], .directory),
  (root ++ ["nodes", h.id, "bin", "bootroot-agent"], .agent (settings.agentContent stub))]

/-- Everything of a host. -/
def Host.outline (h : Host) (settings : Settings) (stub : Content) (root : Place) :
    List (Place × Mark) :=
  h.openingOutline root ++
    h.services.flatMap (fun s => s.outline (root ++ ["nodes", h.id]) h.id) ++
      h.closingOutline settings stub root

/-- Everything of a workspace. -/
def Scenario.outline (s : Scenario) (settings : Settings) (stub : Content) (root : Place)
    (manifest : Manifest) : List (Place × Mark) :=
  s.hosts.flatMap (fun h => h.outline settings stub root) ++
    [(root ++ ["layout.json"], .default (jsonContent manifest.toJson))]

variable {stub : Content} {settings : Settings} {root host q : Place} {m : Mark} {hostId : String}
  {manifest : Manifest}

theorem Host.mem_outline_of_service {h : Host} {x : Service} (hx : x ∈ h.services)
    (hm : (q, m) ∈ x.outline (Layout.host root h.id) h.id) :
    (q, m) ∈ h.outline settings stub root :=
  List.mem_append_left _ (List.mem_append_right _ (List.mem_flatMap.2 ⟨x, hx, hm⟩))

theorem Scenario.mem_outline_of_host {s : Scenario} {h : Host} (hh : h ∈ s.hosts)
    (hm : (q, m) ∈ h.outline settings stub root) : (q, m) ∈ s.outline settings stub root manifest :=
  List.mem_append_left _ (List.mem_flatMap.2 ⟨h, hh, hm⟩)

/-- The places of an outline do not depend on the manifest. -/
theorem Scenario.exists_mem_outline {s : Scenario} (manifest' : Manifest)
    (h : (q, m) ∈ s.outline settings stub root manifest) :
    ∃ m', (q, m') ∈ s.outline settings stub root manifest' := by
  rcases List.mem_append.1 h with h | h
  · exact ⟨m, List.mem_append_left _ h⟩
  · obtain ⟨rfl, -⟩ := Prod.mk.inj (List.mem_singleton.1 h)
    exact ⟨_, List.mem_append_right _ (List.mem_singleton_self _)⟩

/-! ## Marks of the plan -/

theorem marked_append {xs ys : List Step} :
    Marked stub (xs ++ ys) q m ↔ Marked stub xs q m ∨ Marked stub ys q m := by
  simp only [Marked, List.mem_append, or_and_right, exists_or]

theorem marked_cons {s : Step} {rest : List Step} :
    Marked stub (s :: rest) q m ↔ s.Marks stub q m ∨ Marked stub rest q m :=
  List.exists_mem_cons_iff ..

theorem marked_flatMap {α : Type} {f : α → List Step} {xs : List α} :
    Marked stub (xs.flatMap f) q m ↔ ∃ x ∈ xs, Marked stub (f x) q m := by
  simp only [Marked, List.mem_flatMap]
  exact ⟨fun ⟨s, ⟨x, hx, hs⟩, hm⟩ => ⟨x, hx, s, hs, hm⟩,
    fun ⟨x, hx, s, hs, hm⟩ => ⟨s, ⟨x, hx, hs⟩, hm⟩⟩

theorem marked_nil : ¬ Marked stub [] q m := by
  rintro ⟨s, hs, -⟩
  exact absurd hs List.not_mem_nil

/-- The places on the way from a directory to one two below it. -/
theorem prefix_append_pair {p : Place} {a b : String} :
    q <+: p ++ [a, b] ↔ q <+: p ∨ q = p ++ [a] ∨ q = p ++ [a, b] := by
  have h : p ++ [a, b] = (p ++ [a]) ++ [b] := by simp
  rw [h, List.prefix_concat_iff, List.prefix_concat_iff]
  tauto

/-- The places on the way from a directory to one three below it. -/
theorem prefix_append_triple {p : Place} {a b c : String} :
    q <+: p ++ [a, b, c] ↔ q <+: p ∨ q = p ++ [a] ∨ q = p ++ [a, b] ∨ q = p ++ [a, b, c] := by
  have h : p ++ [a, b, c] = (p ++ [a, b]) ++ [c] := by simp
  rw [h, List.prefix_concat_iff, prefix_append_pair]
  tauto

/-- The steps for a service before its certificate is issued. -/
def Service.seedSteps (s : Service) (host : Place) (hostId : String) : List Step := [
  .directory (host ++ ["secrets", "services", s.name]),
  .write (host ++ ["secrets", "services", s.name, "role_id"]) .owner
    (.ofText ("role-" ++ s.name ++ "\n")),
  .write (host ++ ["secrets", "services", s.name, "secret_id"]) .owner
    (.ofText ("seed-secret-" ++ s.name ++ "\n")),
  .write (host ++ ["secrets", "services", s.name, "eab.json"]) .owner
    (.ofText (Json.Value.object [("hmac", .string ("seed-hmac-" ++ s.name)),
      ("kid", .string ("seed-kid-" ++ s.name))]).compact),
  .write (host ++ ["configs", s.name ++ ".toml"]) .owner
    (.ofText (AgentConfig.forService s.name hostId s.instanceId).toToml)]

theorem Service.steps_eq (s : Service) (settings : Settings) (host : Place) (hostId : String) :
    s.steps settings host hostId =
      s.seedSteps host hostId ++
        [.issue (s.identity hostId settings.domain) (host ++ ["certs"])] := by
  simp only [steps, seedSteps, Layout.seeds, Layout.roleId, Layout.secretId, Layout.eab,
    Layout.agentConfig, Layout.configs, Layout.certs, Seed.roleId, Seed.secretId, Seed.eab,
    List.append_assoc, List.cons_append, List.nil_append]

/-- The steps for a host before its services. -/
def Host.openingSteps (h : Host) (root : Place) : List Step := [
  .directory (root ++ ["nodes", h.id, "certs"]),
  .directory (root ++ ["nodes", h.id, "configs"]),
  .directory (root ++ ["nodes", h.id, "summaries"])]

/-- The steps that finish a host. -/
def Host.closingSteps (h : Host) (settings : Settings) (root : Place) : List Step := [
  .write (root ++ ["nodes", h.id, "state.json"]) .default
    (jsonContent (h.state settings).toJson),
  .directory (root ++ ["nodes", h.id, "bin"]),
  .install settings.agentStub (root ++ ["nodes", h.id, "bin", "bootroot-agent"])]

theorem Host.steps_eq (h : Host) (settings : Settings) (root : Place) :
    h.steps settings root =
      h.openingSteps root ++
        h.services.flatMap (fun s => s.steps settings (root ++ ["nodes", h.id]) h.id) ++
          h.closingSteps settings root := by
  simp only [steps, openingSteps, closingSteps, Layout.host, Layout.certs, Layout.configs,
    Layout.summaries, Layout.state, Layout.agent, Layout.programs, List.append_assoc,
    List.cons_append, List.nil_append]

/-- All steps of a run that writes a manifest in the end. -/
def Scenario.steps (s : Scenario) (settings : Settings) (root : Place) (manifest : Manifest) :
    List Step :=
  s.hostSteps settings root ++ [manifest.step root]

theorem Scenario.mem_hostSteps_of_service {s : Scenario} {h : Host} (hh : h ∈ s.hosts)
    {x : Service} (hx : x ∈ h.services) {step : Step}
    (hstep : step ∈ x.steps settings (Layout.host root h.id) h.id) :
    step ∈ s.hostSteps settings root := by
  refine List.mem_flatMap.2 ⟨h, hh, ?_⟩
  exact List.mem_append_left _ (List.mem_append_right _ (List.mem_flatMap.2 ⟨x, hx, hstep⟩))

/-- What the steps for the seeds of a service mark: the way to its host, and their outline. -/
theorem Service.marked_seeds (s : Service) :
    Marked stub (s.seedSteps host hostId) q m ↔
      (q <+: host ∧ m = .directory) ∨ (q, m) ∈ s.seedOutline host hostId := by
  simp only [seedSteps, marked_cons, marked_nil, or_false, Step.Marks, prefix_append_triple,
    seedOutline, List.mem_cons, List.not_mem_nil, Prod.mk.injEq, or_and_right, or_assoc]

/-- What the steps for a service mark: the way to its host, and its outline. -/
theorem Service.marked_iff (s : Service) :
    Marked stub (s.steps settings host hostId) q m ↔
      (q <+: host ∧ m = .directory) ∨ (q, m) ∈ s.outline host hostId := by
  rw [steps_eq, marked_append, s.marked_seeds, outline, List.mem_append, or_assoc]
  simp only [marked_cons, marked_nil, or_false, Step.Marks, List.mem_cons, List.not_mem_nil,
    Prod.mk.injEq, Identity.outputs, Identity.certPlace, Identity.keyPlace, identity, Layout.cert,
    Layout.key, or_and_right, List.append_assoc, List.cons_append, List.nil_append]

theorem Host.marked_opening (h : Host) :
    Marked stub (h.openingSteps root) q m ↔
      (q <+: root ∧ m = .directory) ∨ (q, m) ∈ h.openingOutline root := by
  simp only [openingSteps, marked_cons, marked_nil, or_false, Step.Marks, prefix_append_triple,
    openingOutline, List.mem_cons, List.not_mem_nil, Prod.mk.injEq, ← or_and_right]
  refine and_congr_left fun _ => ⟨?_, ?_⟩
  · rintro ((h | h | h | h) | (h | h | h | h) | (h | h | h | h)) <;> simp [h]
  · rintro (h | h | h | h | h | h) <;> simp [h]

theorem Host.marked_closing (h : Host) :
    Marked stub (h.closingSteps settings root) q m ↔
      (q <+: Layout.host root h.id ∧ m = .directory) ∨
        (q, m) ∈ h.closingOutline settings stub root := by
  have hinstall : ∀ p, (Step.install settings.agentStub p).Marks stub q m ↔
      q = p ∧ m = .agent (settings.agentContent stub) := by
    intro p
    rw [Settings.agentContent]
    cases settings.agentStub <;> rfl
  rw [closingSteps, marked_cons, marked_cons, marked_cons, hinstall]
  simp only [marked_nil, or_false, Step.Marks, prefix_append_triple, Layout.host,
    prefix_append_pair, closingOutline, List.mem_cons, List.not_mem_nil, Prod.mk.injEq,
    or_and_right]
  constructor
  · rintro (h | (h | h | h | h) | h) <;> simp [h]
  · rintro ((h | h | h) | h | h | h) <;> simp [h]

/-- The way to the directory of a host is in its outline, as far as it is below the workspace. -/
theorem Host.way_outline (h : Host) (hq : q <+: Layout.host root h.id) (hm : m = .directory) :
    (q <+: root ∧ m = .directory) ∨ (q, m) ∈ h.openingOutline root := by
  subst hm
  rcases prefix_append_pair.1 hq with hq | rfl | rfl
  · exact .inl ⟨hq, rfl⟩
  · exact .inr (by simp [openingOutline])
  · exact .inr (by simp [openingOutline])

/-- What the steps for a host mark: the way to the workspace, and its outline. -/
theorem Host.marked_iff (h : Host) :
    Marked stub (h.steps settings root) q m ↔
      (q <+: root ∧ m = .directory) ∨ (q, m) ∈ h.outline settings stub root := by
  rw [steps_eq, outline]
  simp only [marked_append, h.marked_opening, marked_flatMap, Service.marked_iff, h.marked_closing,
    List.mem_append, List.mem_flatMap]
  constructor
  · rintro ((ho | ⟨s, hs, ⟨hq, hm⟩ | hm⟩) | ⟨hq, hm⟩ | hm)
    · exact ho.imp_right fun ho => .inl (.inl ho)
    · exact (h.way_outline hq hm).imp_right fun ho => .inl (.inl ho)
    · exact .inr (.inl (.inr ⟨s, hs, hm⟩))
    · exact (h.way_outline hq hm).imp_right fun ho => .inl (.inl ho)
    · exact .inr (.inr hm)
  · rintro (hq | (hm | ⟨s, hs, hm⟩) | hm)
    · exact .inl (.inl (.inl hq))
    · exact .inl (.inl (.inr hm))
    · exact .inl (.inr ⟨s, hs, .inr hm⟩)
    · exact .inr (.inr hm)

/-- **What the plan of a scenario marks**: its outline, and the way to the workspace if there are
any hosts. -/
theorem Scenario.marked_iff (s : Scenario) :
    Marked stub (s.steps settings root manifest) q m ↔
      (s.hosts ≠ [] ∧ q <+: root ∧ m = .directory) ∨
        (q, m) ∈ s.outline settings stub root manifest := by
  rw [steps, hostSteps, outline]
  simp only [marked_append, marked_flatMap, Host.marked_iff, marked_cons, marked_nil, or_false,
    Manifest.step, Layout.manifest, Step.Marks, List.mem_append, List.mem_flatMap, List.mem_cons,
    List.not_mem_nil, Prod.mk.injEq]
  constructor
  · rintro (⟨h, hh, hq | hm⟩ | hq)
    · exact .inl ⟨List.ne_nil_of_mem hh, hq⟩
    · exact .inr (.inl ⟨h, hh, hm⟩)
    · exact .inr (.inr hq)
  · rintro (⟨hne, hq⟩ | ⟨h, hh, hm⟩ | hq)
    · obtain ⟨h, hh⟩ := List.exists_mem_of_ne_nil _ hne
      exact .inl ⟨h, hh, .inl hq⟩
    · exact .inl ⟨h, hh, .inr hm⟩
    · exact .inr hq

/-- Whom the certificates of a scenario are for, in order. -/
def Scenario.identities (s : Scenario) (domain : String) : List Identity :=
  s.hosts.flatMap fun h => h.services.map fun x => x.identity h.id domain

/-- What an issuer answers for a host that writes where it is to, in the order of the services. -/
def Host.issued (h : Host) (domain : String) (root : Place) : List Issued :=
  h.services.map fun x =>
    (x.identity h.id domain).issued (textOfPlace (Layout.certs (Layout.host root h.id)))

/-- What an issuer answers for a scenario that writes where it is to, in order. -/
def Scenario.issued (s : Scenario) (domain : String) (root : Place) : List Issued :=
  s.hosts.flatMap fun h => h.issued domain root

/-- What is gathered over the steps of services, one thing for each. -/
theorem flatMap_steps_services {α : Type} (f : Step → List α) {g : Service → α} {xs : List Service}
    (h : ∀ x : Service, (x.steps settings host hostId).flatMap f = [g x]) :
    (xs.flatMap fun x => x.steps settings host hostId).flatMap f = xs.map g := by
  rw [List.flatMap_assoc, List.map_eq_flatMap]
  simp only [h]

/-- What is gathered over the steps of a host, if there is nothing but for its services. -/
theorem Host.flatMap_steps {α : Type} (f : Step → List α) (h : Host)
    (hopening : (h.openingSteps root).flatMap f = [])
    (hclosing : (h.closingSteps settings root).flatMap f = [])
    {g : Service → α} (hservice : ∀ x : Service,
      (x.steps settings (Layout.host root h.id) h.id).flatMap f = [g x]) :
    (h.steps settings root).flatMap f = h.services.map g := by
  rw [steps_eq, List.flatMap_append, List.flatMap_append, hopening, hclosing, List.append_nil]
  exact flatMap_steps_services f hservice

theorem Host.flatMap_asks (h : Host) :
    (h.steps settings root).flatMap Step.asks =
      h.services.map fun x => x.identity h.id settings.domain :=
  h.flatMap_steps Step.asks rfl rfl fun _ => rfl

theorem Host.flatMap_answers (h : Host) :
    (h.steps settings root).flatMap Step.answers = h.issued settings.domain root :=
  h.flatMap_steps Step.answers rfl rfl fun _ => rfl

/-- What is gathered over all steps, if there is nothing for a manifest. -/
theorem Scenario.flatMap_steps {α : Type} (f : Step → List α) (s : Scenario)
    (hmanifest : f (manifest.step root) = []) :
    (s.steps settings root manifest).flatMap f = (s.hostSteps settings root).flatMap f := by
  rw [steps, List.flatMap_append, List.flatMap_singleton, hmanifest, List.append_nil]

theorem Scenario.flatMap_asks (s : Scenario) :
    (s.steps settings root manifest).flatMap Step.asks = s.identities settings.domain := by
  rw [s.flatMap_steps Step.asks rfl, hostSteps, List.flatMap_assoc, identities]
  simp only [Host.flatMap_asks]

theorem Scenario.flatMap_answers (s : Scenario) :
    (s.hostSteps settings root).flatMap Step.answers = s.issued settings.domain root := by
  rw [hostSteps, List.flatMap_assoc, issued]
  simp only [Host.flatMap_answers]

/-! ## Valid scenarios -/

/-- The names in a scenario can stand in directories and tell hosts, and the services of a host,
apart. -/
structure Scenario.Valid (s : Scenario) : Prop where
  host : ∀ h ∈ s.hosts, IsName h.id
  hosts : (s.hosts.map (·.id)).Nodup
  service : ∀ h ∈ s.hosts, ∀ x ∈ h.services, IsName x.name
  services : ∀ h ∈ s.hosts, (h.services.map (·.name)).Nodup

theorem Scenario.Usable.isName {name : String} (h : Scenario.Usable name) : IsName name := by
  refine ⟨⟨?_, h.undivided.1⟩, h.notDots.1, h.notDots.2⟩
  rintro rfl
  exact absurd h.notBlank (by decide)

/-- A scenario that passes its check is valid. -/
theorem Scenario.valid_of_check {s : Scenario} (h : s.check = .ok ()) : s.Valid := by
  have haccepted := Scenario.check_eq_ok_iff.1 h
  exact ⟨fun x hx => (haccepted.hosts x hx).isName, haccepted.hostsApart,
    fun x hx y hy => (haccepted.services x hx y hy).isName, haccepted.servicesApart⟩

/-! ## One mark for each place -/

/-- The mark of a place in a host's directory, told from the names that lead there. -/
def Host.markAt (h : Host) (settings : Settings) (stub : Content) : Place → Option Mark
  | ["state.json"] => some (.default (jsonContent (h.state settings).toJson))
  | ["bin", "bootroot-agent"] => some (.agent (settings.agentContent stub))
  | ["certs", file] =>
    if ".crt".toList <:+ file.toList ∨ ".key".toList <:+ file.toList then some .issued else none
  | ["configs", file] => (h.services.find? fun s => s.name ++ ".toml" == file).map fun s =>
      .owner (.ofText (AgentConfig.forService s.name h.id s.instanceId).toToml)
  | ["secrets", "services", service, "role_id"] =>
    some (.owner (.ofText ("role-" ++ service ++ "\n")))
  | ["secrets", "services", service, "secret_id"] =>
    some (.owner (.ofText ("seed-secret-" ++ service ++ "\n")))
  | ["secrets", "services", service, "eab.json"] =>
    some (.owner (.ofText (Json.Value.object [("hmac", .string ("seed-hmac-" ++ service)),
      ("kid", .string ("seed-kid-" ++ service))]).compact))
  | ["summaries", _] => none
  | _ => some .directory

/-- The first of some services whose file has the name of a given one's is that one. -/
theorem find?_service {services : List Service} (hnodup : (services.map (·.name)).Nodup)
    {x : Service} (hx : x ∈ services) :
    services.find? (fun s => s.name ++ ".toml" == x.name ++ ".toml") = some x := by
  induction services with
  | nil => exact absurd hx List.not_mem_nil
  | cons y rest ih =>
    obtain ⟨hy, hrest⟩ := List.nodup_cons.1 hnodup
    rcases List.mem_cons.1 hx with rfl | hx
    · simp
    · have hne : (y.name ++ ".toml" == x.name ++ ".toml") = false := by
        rw [beq_eq_false_iff_ne]
        intro he
        have hname : y.name = x.name := String.append_left_inj _ |>.1 he
        exact hy (List.mem_map.2 ⟨x, hx, hname.symm⟩)
      rw [List.find?_cons, hne]
      exact ih hrest hx

/-- Every entry about a host is about its directory, and tells the mark there. -/
theorem Host.markAt_of_mem (h : Host) (hnames : ∀ x ∈ h.services, IsName x.name)
    (hnodup : (h.services.map (·.name)).Nodup) (hm : (q, m) ∈ h.outline settings stub root) :
    (q = root ++ ["nodes"] ∧ m = .directory) ∨
      ∃ r, q = Layout.host root h.id ++ r ∧ Proper r ∧ h.markAt settings stub r = some m := by
  rw [outline, List.mem_append, List.mem_append, List.mem_flatMap] at hm
  rcases hm with (hm | ⟨x, hx, hm⟩) | hm
  · simp only [openingOutline, List.mem_cons, List.not_mem_nil, or_false, Prod.mk.injEq] at hm
    rcases hm with hm | ⟨rfl, rfl⟩ | ⟨rfl, rfl⟩ | ⟨rfl, rfl⟩ | ⟨rfl, rfl⟩
    · exact .inl hm
    · exact .inr ⟨[], (List.append_nil _).symm, by decide, rfl⟩
    · exact .inr ⟨["certs"], by simp [Layout.host], by decide, rfl⟩
    · exact .inr ⟨["configs"], by simp [Layout.host], by decide, rfl⟩
    · exact .inr ⟨["summaries"], by simp [Layout.host], by decide, rfl⟩
  · have hname := hnames x hx
    have hfile : ∀ {ending : String}, '/' ∉ ending.toList → 2 < ending.length →
        Proper [x.name ++ ending] :=
      fun hslash hlong => .singleton (hname.append hslash hlong)
    have hseeds : ∀ {r : Place}, Proper r → Proper ("secrets" :: "services" :: x.name :: r) :=
      fun hr => .cons (by decide) (.cons (by decide) (.cons hname hr))
    simp only [Service.outline, Service.seedOutline, List.mem_append, List.mem_cons,
      List.not_mem_nil, or_false, Prod.mk.injEq] at hm
    refine .inr ?_
    rcases hm with (⟨rfl, rfl⟩ | ⟨rfl, rfl⟩ | ⟨rfl, rfl⟩ | ⟨rfl, rfl⟩ | ⟨rfl, rfl⟩ | ⟨rfl, rfl⟩ |
      ⟨rfl, rfl⟩) | ⟨rfl, rfl⟩ | ⟨rfl, rfl⟩
    · exact ⟨["secrets"], by simp [Layout.host], by decide, rfl⟩
    · exact ⟨["secrets", "services"], by simp [Layout.host], by decide, rfl⟩
    · exact ⟨["secrets", "services", x.name], by simp [Layout.host], hseeds proper_nil, rfl⟩
    · exact ⟨["secrets", "services", x.name, "role_id"], by simp [Layout.host],
        hseeds (by decide), rfl⟩
    · exact ⟨["secrets", "services", x.name, "secret_id"], by simp [Layout.host],
        hseeds (by decide), rfl⟩
    · exact ⟨["secrets", "services", x.name, "eab.json"], by simp [Layout.host],
        hseeds (by decide), rfl⟩
    · refine ⟨["configs", x.name ++ ".toml"], by simp [Layout.host],
        .cons (by decide) (hfile (by decide) (by decide)), ?_⟩
      change Option.map _ (h.services.find? _) = _
      rw [find?_service hnodup hx]
      rfl
    · refine ⟨["certs", x.name ++ ".crt"], by simp [Layout.cert, Layout.host],
        .cons (by decide) (hfile (by decide) (by decide)), if_pos (.inl ?_)⟩
      rw [String.toList_append]
      exact List.suffix_append _ _
    · refine ⟨["certs", x.name ++ ".key"], by simp [Layout.key, Layout.host],
        .cons (by decide) (hfile (by decide) (by decide)), if_pos (.inr ?_)⟩
      rw [String.toList_append]
      exact List.suffix_append _ _
  · simp only [closingOutline, List.mem_cons, List.not_mem_nil, or_false, Prod.mk.injEq] at hm
    rcases hm with ⟨rfl, rfl⟩ | ⟨rfl, rfl⟩ | ⟨rfl, rfl⟩
    · exact .inr ⟨["state.json"], by simp [Layout.host], by decide, rfl⟩
    · exact .inr ⟨["bin"], by simp [Layout.host], by decide, rfl⟩
    · exact .inr ⟨["bin", "bootroot-agent"], by simp [Layout.host],
        by decide, rfl⟩

/-- The entries about the hosts of a valid scenario. -/
theorem Scenario.Valid.markAt_of_mem {s : Scenario} (hs : s.Valid) {h : Host} (hh : h ∈ s.hosts)
    (hm : (q, m) ∈ h.outline settings stub root) :
    (q = root ++ ["nodes"] ∧ m = .directory) ∨
      ∃ r, q = Layout.host root h.id ++ r ∧ Proper r ∧ h.markAt settings stub r = some m :=
  h.markAt_of_mem (hs.service h hh) (hs.services h hh) hm

/-- Hosts of one name are one host. -/
theorem Scenario.Valid.host_unique {s : Scenario} (hs : s.Valid) {h h' : Host} (hh : h ∈ s.hosts)
    (hh' : h' ∈ s.hosts) (he : h.id = h'.id) : h = h' :=
  List.inj_on_of_nodup_map hs.hosts hh hh' he

/-- The manifest belongs to no host. -/
theorem Scenario.Valid.ne_manifest {s : Scenario} (hs : s.Valid) {h : Host} (hh : h ∈ s.hosts)
    (hm : (q, m) ∈ h.outline settings stub root) : q ≠ root ++ ["layout.json"] := by
  rintro rfl
  rcases hs.markAt_of_mem hh hm with ⟨he, -⟩ | ⟨r, he, -⟩
  · simp at he
  · simp [Layout.host] at he

/-- **No place of a workspace is asked to be two things.** -/
theorem Scenario.outline_functional {s : Scenario} (hs : s.Valid) {m' : Mark}
    (hm : (q, m) ∈ s.outline settings stub root manifest)
    (hm' : (q, m') ∈ s.outline settings stub root manifest) :
    m = m' := by
  rw [outline, List.mem_append, List.mem_flatMap, List.mem_singleton] at hm hm'
  rcases hm with ⟨h, hh, hm⟩ | hm <;> rcases hm' with ⟨h', hh', hm'⟩ | hm'
  · rcases hs.markAt_of_mem hh hm with ⟨he, rfl⟩ | ⟨r, he, -, hr⟩ <;>
      rcases hs.markAt_of_mem hh' hm' with ⟨he', rfl⟩ | ⟨r', he', -, hr'⟩
    · rfl
    · rw [he] at he'
      simp [Layout.host] at he'
    · rw [he'] at he
      simp [Layout.host] at he
    · rw [he] at he'
      simp only [Layout.host, List.append_assoc, List.cons_append, List.nil_append,
        List.append_cancel_left_eq, List.cons.injEq, true_and] at he'
      obtain ⟨hid, rfl⟩ := he'
      obtain rfl := hs.host_unique hh hh' hid
      exact Option.some.inj (hr.symm.trans hr')
  · exact absurd (Prod.mk.inj hm').1 (hs.ne_manifest hh hm)
  · exact absurd (Prod.mk.inj hm).1 (hs.ne_manifest hh' hm')
  · exact (Prod.mk.inj (hm.trans hm'.symm)).2

/-- Every place of a workspace is below its root, and can be written there. -/
theorem Scenario.outline_below {s : Scenario} (hs : s.Valid)
    (hm : (q, m) ∈ s.outline settings stub root manifest) :
    ∃ r, r ≠ [] ∧ Proper r ∧ q = root ++ r := by
  rw [outline, List.mem_append, List.mem_flatMap, List.mem_singleton] at hm
  rcases hm with ⟨h, hh, hm⟩ | hm
  · rcases hs.markAt_of_mem hh hm with ⟨rfl, -⟩ | ⟨r, rfl, hr, -⟩
    · exact ⟨["nodes"], by simp, by decide, rfl⟩
    · refine ⟨"nodes" :: h.id :: r, by simp, ?_, by simp [Layout.host]⟩
      exact .cons (by decide) (.cons (hs.host h hh) hr)
  · obtain ⟨rfl, -⟩ := Prod.mk.inj hm
    exact ⟨["layout.json"], by simp, by decide, rfl⟩

/-- What stands at a place of a host is what its names say. -/
theorem Scenario.Valid.markAt_of_host {s : Scenario} (hs : s.Valid) {h : Host} (hh : h ∈ s.hosts)
    {r : Place} (hm : (Layout.host root h.id ++ r, m) ∈ s.outline settings stub root manifest) :
    h.markAt settings stub r = some m := by
  rw [outline, List.mem_append, List.mem_flatMap, List.mem_singleton] at hm
  rcases hm with ⟨h', hh', hm⟩ | hm
  · rcases hs.markAt_of_mem hh' hm with ⟨he, -⟩ | ⟨r', he, -, hr'⟩
    · simp [Layout.host] at he
    · simp only [Layout.host, List.append_assoc, List.cons_append, List.nil_append,
        List.append_cancel_left_eq, List.cons.injEq, true_and] at he
      obtain ⟨hid, rfl⟩ := he
      obtain rfl := hs.host_unique hh hh' hid
      exact hr'
  · have he := (Prod.mk.inj hm).1
    simp [Layout.host] at he

/-- What the agent will write later is no part of the outline. -/
theorem Scenario.caBundle_notMem_outline {s : Scenario} (hs : s.Valid) {h : Host}
    (hh : h ∈ s.hosts) (service : String) :
    (Layout.caBundle (Layout.host root h.id) service, m) ∉
      s.outline settings stub root manifest := by
  intro hm
  have he : Layout.caBundle (Layout.host root h.id) service =
      Layout.host root h.id ++ ["certs", service ++ "-ca-bundle.pem"] := by
    simp [Layout.caBundle, Layout.certs]
  have hat := hs.markAt_of_host hh (he ▸ hm)
  have hending : ∀ {ending : List Char}, ending <:+ (service ++ "-ca-bundle.pem").toList →
      ending <:+ "-ca-bundle.pem".toList ∨ "-ca-bundle.pem".toList <:+ ending := by
    intro ending h
    rw [String.toList_append] at h
    exact List.suffix_or_suffix_of_suffix h (List.suffix_append _ _)
  have hnone : ¬ (".crt".toList <:+ (service ++ "-ca-bundle.pem").toList ∨
      ".key".toList <:+ (service ++ "-ca-bundle.pem").toList) := by
    rintro (h | h) <;> exact absurd (hending h) (by decide)
  rw [Host.markAt, if_neg hnone] at hat
  cases hat

theorem Scenario.summary_notMem_outline {s : Scenario} (hs : s.Valid) {h : Host}
    (hh : h ∈ s.hosts) (service : String) :
    (Layout.summary (Layout.host root h.id) service, m) ∉
      s.outline settings stub root manifest := by
  intro hm
  have he : Layout.summary (Layout.host root h.id) service =
      Layout.host root h.id ++ ["summaries", service ++ ".json"] := by
    simp [Layout.summary, Layout.summaries]
  have hat := hs.markAt_of_host hh (he ▸ hm)
  cases hat

/-! ## The plan is sound -/

/-- A step is about a place of an outline, if a mark that it gives the place is there. -/
theorem Service.mem_outline_of_places (s : Service) {st : Step} {p : Place}
    (hst : st ∈ s.steps settings host hostId) (hp : p ∈ st.places) :
    ∃ m, (p, m) ∈ s.outline host hostId := by
  have hseed : ∀ i x, (s.seedOutline host hostId)[i]? = some x → x ∈ s.outline host hostId :=
    fun i x h => List.mem_append_left _ (List.mem_of_getElem? h)
  rw [steps_eq] at hst
  simp only [seedSteps, List.mem_append, List.mem_cons, List.not_mem_nil, or_false] at hst
  rcases hst with (rfl | rfl | rfl | rfl | rfl) | rfl
  · obtain rfl := List.mem_singleton.1 hp
    exact ⟨_, hseed 2 _ rfl⟩
  · obtain rfl := List.mem_singleton.1 hp
    exact ⟨_, hseed 3 _ rfl⟩
  · obtain rfl := List.mem_singleton.1 hp
    exact ⟨_, hseed 4 _ rfl⟩
  · obtain rfl := List.mem_singleton.1 hp
    exact ⟨_, hseed 5 _ rfl⟩
  · obtain rfl := List.mem_singleton.1 hp
    exact ⟨_, hseed 6 _ rfl⟩
  · refine ⟨.issued, List.mem_append_right _ ?_⟩
    simp only [Step.places, Identity.outputs, Identity.certPlace, Identity.keyPlace, identity,
      List.append_assoc, List.cons_append, List.nil_append, List.mem_cons, List.not_mem_nil,
      or_false] at hp
    rcases hp with rfl | rfl
    · exact List.mem_cons_self
    · exact List.mem_cons_of_mem _ List.mem_cons_self

theorem Host.mem_outline_of_places (h : Host) (stub : Content) {st : Step} {p : Place}
    (hst : st ∈ h.steps settings root) (hp : p ∈ st.places) :
    ∃ m, (p, m) ∈ h.outline settings stub root := by
  have hopening : ∀ i x, (h.openingOutline root)[i]? = some x → x ∈ h.outline settings stub root :=
    fun i x hx => List.mem_append_left _ (List.mem_append_left _ (List.mem_of_getElem? hx))
  have hclosing : ∀ i x, (h.closingOutline settings stub root)[i]? = some x →
      x ∈ h.outline settings stub root :=
    fun i x hx => List.mem_append_right _ (List.mem_of_getElem? hx)
  rw [steps_eq] at hst
  simp only [openingSteps, closingSteps, List.mem_append, List.mem_cons, List.not_mem_nil, or_false,
    List.mem_flatMap] at hst
  rcases hst with ((rfl | rfl | rfl) | ⟨s, hs, hst⟩) | rfl | rfl | rfl
  · obtain rfl := List.mem_singleton.1 hp
    exact ⟨_, hopening 2 _ rfl⟩
  · obtain rfl := List.mem_singleton.1 hp
    exact ⟨_, hopening 3 _ rfl⟩
  · obtain rfl := List.mem_singleton.1 hp
    exact ⟨_, hopening 4 _ rfl⟩
  · obtain ⟨m, hm⟩ := s.mem_outline_of_places hst hp
    exact ⟨m, mem_outline_of_service hs hm⟩
  · obtain rfl := List.mem_singleton.1 hp
    exact ⟨_, hclosing 0 _ rfl⟩
  · obtain rfl := List.mem_singleton.1 hp
    exact ⟨_, hclosing 1 _ rfl⟩
  · obtain rfl := List.mem_singleton.1 hp
    exact ⟨_, hclosing 2 _ rfl⟩

theorem Scenario.mem_outline_of_places (s : Scenario) (stub : Content) {st : Step} {p : Place}
    (hst : st ∈ s.steps settings root manifest) (hp : p ∈ st.places) :
    ∃ m, (p, m) ∈ s.outline settings stub root manifest := by
  simp only [steps, hostSteps, List.mem_append, List.mem_singleton, List.mem_flatMap] at hst
  rcases hst with ⟨h, hh, hst⟩ | rfl
  · obtain ⟨m, hm⟩ := h.mem_outline_of_places stub hst hp
    exact ⟨m, mem_outline_of_host hh hm⟩
  · obtain rfl := List.mem_singleton.1 hp
    exact ⟨_, List.mem_append_right _ List.mem_cons_self⟩

theorem supported_flatMap {α : Type} {f : α → List Step} {made : List Place} {xs : List α}
    (h : ∀ x ∈ xs, Supported made (f x)) : Supported made (xs.flatMap f) := by
  induction xs with
  | nil => trivial
  | cons x rest ih =>
    rw [List.flatMap_cons]
    refine (h x List.mem_cons_self).append ?_
    exact (ih fun y hy => h y (List.mem_cons_of_mem x hy)).mono fun d hd =>
      List.mem_append_right _ hd

/-- A file in a directory that has been made, or in one above. -/
theorem goes_below {made : List Place} {p d e : Place} {name : String} (hd : d ∈ made)
    (he : e <+: d) (hp : p ∈ [e ++ [name]]) : ∃ d ∈ made, p.dropLast <+: d := by
  obtain rfl := List.mem_singleton.1 hp
  exact ⟨d, hd, by rwa [List.dropLast_concat]⟩

theorem Service.supported (s : Service) {made : List Place} (hcerts : Layout.certs host ∈ made)
    (hconfigs : Layout.configs host ∈ made) : Supported made (s.steps settings host hostId) := by
  have hseeds : Layout.seeds host s.name ∈ [Layout.seeds host s.name] ++ made :=
    List.mem_cons_self
  refine ⟨fun p hp => absurd hp List.not_mem_nil, ?_⟩
  refine ⟨fun p hp => goes_below hseeds List.prefix_rfl hp, ?_⟩
  refine ⟨fun p hp => goes_below hseeds List.prefix_rfl hp, ?_⟩
  refine ⟨fun p hp => goes_below hseeds List.prefix_rfl hp, ?_⟩
  refine ⟨fun p hp => goes_below (List.mem_cons_of_mem _ hconfigs) List.prefix_rfl hp, ?_⟩
  refine ⟨fun p hp => ?_, trivial⟩
  rcases List.mem_cons.1 hp with hp | hp
  · exact goes_below (List.mem_cons_of_mem _ hcerts) List.prefix_rfl (List.mem_singleton.2 hp)
  · exact goes_below (List.mem_cons_of_mem _ hcerts) List.prefix_rfl hp

theorem Host.supported (h : Host) (made : List Place) :
    Supported made (h.steps settings root) := by
  refine Supported.append (Supported.append ?_ (supported_flatMap fun s _ => ?_)) ?_
  · exact ⟨fun p hp => absurd hp List.not_mem_nil, fun p hp => absurd hp List.not_mem_nil,
      fun p hp => absurd hp List.not_mem_nil, trivial⟩
  · exact s.supported (by simp [Step.makes]) (by simp [Step.makes])
  · refine ⟨fun p hp => goes_below (d := Layout.certs (Layout.host root h.id)) ?_ ⟨["certs"], rfl⟩
      hp, ?_⟩
    · simp [Step.makes]
    refine ⟨fun p hp => absurd hp List.not_mem_nil, ?_⟩
    exact ⟨fun p hp => goes_below List.mem_cons_self List.prefix_rfl hp, trivial⟩

/-- **The plan of a valid scenario is sound** below any place. -/
theorem Scenario.sound {s : Scenario} (hs : s.Valid) (hroot : Proper root) :
    Sound root stub (Marked stub (s.steps settings root manifest)) [root]
      (s.steps settings root manifest) := by
  refine ⟨fun st hst p hp => ?_, ?_, fun st hst q m hm => ⟨st, hst, hm⟩, fun q m m' hm hm' => ?_⟩
  · obtain ⟨m, hm⟩ := s.mem_outline_of_places stub hst hp
    obtain ⟨r, hne, hr, rfl⟩ := s.outline_below hs hm
    exact ⟨hroot.append hr, r, hne, rfl⟩
  · rw [steps]
    refine (supported_flatMap fun h _ => h.supported [root]).append ⟨fun p hp => ?_, trivial⟩
    exact goes_below (List.mem_append_right _ List.mem_cons_self) List.prefix_rfl hp
  · have hdisjoint : ∀ {m}, (q, m) ∈ s.outline settings stub root manifest → ¬ q <+: root := by
      intro m hm hq
      obtain ⟨r, hne, -, rfl⟩ := s.outline_below hs hm
      have hlength := hq.length_le
      rw [List.length_append] at hlength
      have hpos : 0 < r.length := List.length_pos_of_ne_nil hne
      omega
    rw [s.marked_iff] at hm hm'
    rcases hm with ⟨-, hq, rfl⟩ | hm <;> rcases hm' with ⟨-, hq', rfl⟩ | hm'
    · rfl
    · exact absurd hq (hdisjoint hm')
    · exact absurd hq' (hdisjoint hm)
    · exact s.outline_functional hs hm hm'

theorem Scenario.marked_below {s : Scenario} (hs : s.Valid) :
    Marking.Below (Marked stub (s.steps settings root manifest)) root := by
  intro q m hm
  rcases s.marked_iff.1 hm with ⟨-, hq, rfl⟩ | hm
  · exact .inr ⟨hq, rfl⟩
  · obtain ⟨r, -, -, rfl⟩ := s.outline_below hs hm
    exact .inl (List.prefix_append root r)

end CredentialBench.Workspace
