import CredentialBench.Proofs.Workspace.AgentConfig
import CredentialBench.Proofs.Workspace.Documents
import CredentialBench.Proofs.Workspace.Separation

/-!
# The manifest as an index

A manifest has one entry for each service of the scenario, in its order, and looking a service up
finds its entry and no other (`Manifest.Indexes`): the lookup takes the first entry of these names,
which is the only one since the names tell hosts, and the services of a host, apart. That is so
whatever an issuer answers. What the other documents say of a service is what its entry says
(`ServiceEntry.Agrees`), although each of them spells the paths in its own way; of the certificate
and the key as well (`ServiceEntry.AgreesOnOutputs`), if the issuer answers with its two outputs.
-/

namespace CredentialBench

theorem Dictionary.get?_of_mem_entries {κ ν : Type} [DecidableEq κ] {d : Dictionary κ ν} {k : κ}
    {v : ν} (h : (k, v) ∈ d.entries) : d.get? k = some v := by
  cases hget : d.get? k with
  | none => simpa using List.lookup_eq_none_iff.1 hget (k, v) h
  | some w =>
    have he := List.inj_on_of_nodup_map d.distinct (mem_entries_of_get? hget) h rfl
    rw [(Prod.mk.inj he).2]

namespace Workspace

open FileTree CredentialBench.Path

/-! ## Entries and services -/

/-- The service that an entry is about, and its host. -/
def ServiceEntry.subject (e : ServiceEntry) : String × Service :=
  (e.host, ⟨e.service, e.deployType, e.instanceId, e.containerName⟩)

/-- The services of a host, each with the host. -/
def Host.subjects (h : Host) : List (String × Service) := h.services.map fun x => (h.id, x)

/-- A manifest lists the hosts and the services of a scenario in order, and finds each service under
its names and nothing under others. -/
structure Manifest.Indexes (m : Manifest) (s : Scenario) : Prop where
  hosts : m.hosts.map (fun h => (h.host, h.services.map (·.subject))) =
    s.hosts.map fun h => (h.id, h.subjects)
  services : m.services = m.hosts.flatMap (·.services)
  /-- There is one entry for each service, about this service. -/
  subjects : m.services.map (·.subject) = s.hosts.flatMap (·.subjects)
  count : m.services.length = s.serviceCount
  found : ∀ h ∈ s.hosts, ∀ x ∈ h.services,
    ∃ e, m.find? h.id x.name = some e ∧ e.subject = (h.id, x)
  /-- Every entry is the one that is found under its names. -/
  sole : ∀ e ∈ m.services, m.find? e.host e.service = some e
  absent : ∀ host service, (∀ h ∈ s.hosts, ∀ x ∈ h.services, (h.id, x.name) ≠ (host, service)) →
    m.find? host service = none

variable {settings : Settings} {s : Scenario} {root : Place} {e : ServiceEntry}
  {host service : String} {issued : List Issued} {m : Manifest}

/-- Where no two entries have the same names, a lookup finds an entry under its names. -/
theorem Manifest.find?_eq_some_iff
    (h : (m.services.map fun e => (e.host, e.service)).Nodup) :
    m.find? host service = some e ↔ e ∈ m.services ∧ e.host = host ∧ e.service = service := by
  have hfound : ∀ {e}, m.find? host service = some e → e.host = host ∧ e.service = service := by
    intro e he
    have hnames := List.find?_some he
    simpa only [Bool.and_eq_true, beq_iff_eq] using hnames
  refine ⟨fun he => ⟨List.mem_of_find?_eq_some he, hfound he⟩, ?_⟩
  rintro ⟨hmem, rfl, rfl⟩
  cases hfind : m.find? e.host e.service with
  | none => simpa using List.find?_eq_none.1 hfind e hmem
  | some e' =>
    obtain ⟨hhost, hservice⟩ := hfound hfind
    have hsame := List.inj_on_of_nodup_map h (List.mem_of_find?_eq_some hfind) hmem
      (Prod.ext hhost hservice)
    rw [hsame]

/-- Whatever is answered for a host, its entries are about its services. -/
theorem Host.subjects_entry (h : Host) (root : Place)
    (hlength : issued.length = h.services.length) :
    (h.entry root issued).services.map (·.subject) = h.subjects := by
  have hzip : (List.zip h.services issued).map Prod.fst = h.services :=
    List.map_fst_zip (Nat.le_of_eq hlength.symm)
  rw [entry, List.map_zipWith, subjects, ← List.map_uncurry_zip_eq_zipWith]
  conv_rhs => rw [← hzip, List.map_map]
  rfl

/-- Whatever is answered for some hosts, the parts of a manifest are about them. -/
theorem subjects_hostEntries (root : Place) (hosts : List Host)
    (hlength : issued.length = (hosts.flatMap (·.services)).length) :
    (hostEntries root hosts issued).map (fun h => (h.host, h.services.map (·.subject))) =
      hosts.map fun h => (h.id, h.subjects) := by
  induction hosts generalizing issued with
  | nil => rfl
  | cons h rest ih =>
    rw [List.flatMap_cons, List.length_append] at hlength
    have hfirst : (issued.take h.services.length).length = h.services.length := by
      rw [List.length_take]
      omega
    have hrest : (issued.drop h.services.length).length = (rest.flatMap (·.services)).length := by
      rw [List.length_drop]
      omega
    rw [hostEntries, List.map_cons, List.map_cons, h.subjects_entry root hfirst, ih hrest]
    rfl

/-- The entries of a manifest are those of services, each with something that was answered. -/
theorem exists_of_mem_hostEntries {hosts : List Host}
    (he : e ∈ (hostEntries root hosts issued).flatMap (·.services)) :
    ∃ h ∈ hosts, ∃ x ∈ h.services, ∃ answer, e = x.entry root h.id answer := by
  induction hosts generalizing issued with
  | nil => cases he
  | cons h rest ih =>
    rw [hostEntries, List.flatMap_cons, List.mem_append] at he
    rcases he with he | he
    · rw [Host.entry, ← List.map_uncurry_zip_eq_zipWith] at he
      obtain ⟨⟨x, answer⟩, hmem, rfl⟩ := List.mem_map.1 he
      exact ⟨h, List.mem_cons_self, x, (List.of_mem_zip hmem).1, answer, rfl⟩
    · obtain ⟨h', hh', hx⟩ := ih he
      exact ⟨h', List.mem_cons_of_mem h hh', hx⟩

/-- The names of hosts and services tell all services of a valid scenario apart. -/
theorem Scenario.Valid.nodup_names (hs : s.Valid) :
    ((s.hosts.flatMap (·.subjects)).map fun x => (x.1, x.2.name)).Nodup := by
  rw [List.map_flatMap, List.nodup_flatMap]
  refine ⟨fun h hh => ?_, (List.pairwise_map.1 hs.hosts).imp fun hne x hx hx' => hne ?_⟩
  · have hnames : (h.services.map (·.name)).Nodup := hs.services h hh
    rw [Host.subjects, List.map_map]
    exact .of_map Prod.snd (by rwa [List.map_map])
  · simp only [Host.subjects, List.map_map, List.mem_map] at hx hx'
    obtain ⟨y, -, rfl⟩ := hx
    obtain ⟨y', -, he⟩ := hx'
    exact (Prod.mk.inj he).1.symm

/-- **The manifest of a valid scenario indexes it**, whatever is answered for its services. -/
theorem Scenario.Valid.indexes (hs : s.Valid) (root : Place)
    (hlength : issued.length = s.serviceCount) : (s.manifest root issued).Indexes s := by
  have hhosts : (s.manifest root issued).hosts.map
      (fun h => (h.host, h.services.map (·.subject))) = s.hosts.map fun h => (h.id, h.subjects) :=
    subjects_hostEntries root s.hosts hlength
  have hsubjects : (s.manifest root issued).services.map (·.subject) =
      s.hosts.flatMap (·.subjects) := by
    have hflat := congrArg (List.flatMap Prod.snd) hhosts
    rw [List.flatMap_map, List.flatMap_map] at hflat
    rw [manifest, Manifest.ofHosts, List.map_flatMap]
    exact hflat
  have hnames : ((s.manifest root issued).services.map fun e => (e.host, e.service)).Nodup := by
    have h := hs.nodup_names
    rwa [← hsubjects, List.map_map] at h
  constructor
  case hosts => exact hhosts
  case services => rfl
  case subjects => exact hsubjects
  case count =>
    have hcount := congrArg List.length hsubjects
    rw [List.length_map] at hcount
    rw [hcount]
    simp [serviceCount, Host.subjects, List.length_flatMap]
  case found =>
    intro h hh x hx
    have hmem : (h.id, x) ∈ (s.manifest root issued).services.map (·.subject) := by
      rw [hsubjects]
      exact List.mem_flatMap.2 ⟨h, hh, List.mem_map.2 ⟨x, hx, rfl⟩⟩
    obtain ⟨e, he, hsubject⟩ := List.mem_map.1 hmem
    refine ⟨e, (Manifest.find?_eq_some_iff hnames).2 ⟨he, ?_, ?_⟩, hsubject⟩
    · exact congrArg Prod.fst hsubject
    · exact congrArg (fun p => p.2.name) hsubject
  case sole => exact fun e he => (Manifest.find?_eq_some_iff hnames).2 ⟨he, rfl, rfl⟩
  case absent =>
    intro host service hnone
    cases hfind : (s.manifest root issued).find? host service with
    | none => rfl
    | some e =>
      obtain ⟨he, rfl, rfl⟩ := (Manifest.find?_eq_some_iff hnames).1 hfind
      obtain ⟨h, hh, x, hx, answer, rfl⟩ := exists_of_mem_hostEntries he
      exact absurd rfl (hnone h hh x hx)

/-! ## Documents that agree -/

/-- What the documents of a workspace say of a service is what its entry says: the state of its
host has the record, and its agent configuration has the profile and no other. -/
structure ServiceEntry.Agrees (e : ServiceEntry) (t : FileTree) (record : ServiceState)
    (profile : Profile) : Prop where
  recorded : ∃ st, HostState.load t e.statePath = .ok st ∧ st.services.get? e.service = some record
  configured : ∃ text config, t.readText e.agentConfigPath = .ok text ∧
    AgentConfig.ofToml text = .ok config ∧ config.profiles = [profile]
  agentConfig : Path.append e.workDir record.agentConfigPath = e.agentConfigPath
  secretId : Path.append e.workDir record.role.secretIdPath = e.secretIdPath
  /-- The role that the record names is the one that is stored for the login. -/
  roleId : t.readText e.roleIdPath = .ok (record.role.roleId ++ "\n")
  /-- The record is about the same service. -/
  recordSubject : e.subject =
    (record.hostname, ⟨record.service, record.deployType, record.instanceId, record.containerName⟩)
  /-- So is the profile. -/
  profileSubject : (profile.hostname, profile.service, profile.instanceId) =
    (e.host, e.service, e.instanceId)
  /-- The agent is to write where the record has the certificate and the key. -/
  profilePaths : (profile.certPath, profile.keyPath) = (record.certPath, record.keyPath)

/-- A record has the certificate and the key where an entry has them. -/
structure ServiceEntry.AgreesOnOutputs (e : ServiceEntry) (record : ServiceState) : Prop where
  cert : Path.append e.workDir record.certPath = e.certPath
  key : Path.append e.workDir record.keyPath = e.keyPath

/-- The profile in the agent configuration of a service. -/
def Service.profile (x : Service) (hostId : String) : Profile where
  service := x.name
  instanceId := x.instanceId
  hostname := hostId
  certPath := "certs/" ++ x.name ++ ".crt"
  keyPath := "certs/" ++ x.name ++ ".key"

/-- The paths that a record gives lead from the directory of the host to the service's files. -/
theorem Service.append_state (x : Service) (host domain : String) {p : Place} (hp : Proper p) :
    Path.append (textOfPlace p) (x.state host domain).agentConfigPath =
        textOfPlace (Layout.agentConfig p x.name) ∧
      Path.append (textOfPlace p) (x.state host domain).certPath =
        textOfPlace (Layout.cert p x.name) ∧
      Path.append (textOfPlace p) (x.state host domain).keyPath =
        textOfPlace (Layout.key p x.name) ∧
      Path.append (textOfPlace p) (x.state host domain).role.secretIdPath =
        textOfPlace (Layout.secretId p x.name) := by
  have happend : ∀ (f : ServiceFile) {more : String},
      '/' :: more.toList = ((f.place x.name).flatMap fun name => '/' :: name.toList) →
      more.toList.head? ≠ some '/' →
      Path.append (textOfPlace p) more = textOfPlace (f.layout p x.name) := by
    intro f more hmore hhead
    have hne : f.place x.name ≠ [] := by cases f <;> simp [ServiceFile.place]
    rw [f.layout_eq]
    refine append_relative hp hne (String.toList_injective ?_) hhead
    rw [toList_textOfPlace hne, String.toList_append]
    exact hmore
  refine ⟨happend .agentConfig ?_ ?_, happend .cert ?_ ?_, happend .key ?_ ?_,
    happend .secretId ?_ ?_⟩ <;> simp [state, ServiceFile.place]

section Runs

variable {issuer : Issuer} {directory : String} {b b' : Bench} {manifest : Manifest}

/-- A run records an answer for each service. -/
theorem ConfinedRun.indexes (h : ConfinedRun issuer settings s directory b b' root manifest) :
    manifest.Indexes s := by
  obtain ⟨hs, issued, hmanifest, hperform⟩ := h.carried_out
  have hlength := performAll_length hperform
  rw [s.flatMap_asks] at hlength
  rw [hmanifest]
  refine hs.indexes root (hlength.trans ?_)
  simp [Scenario.identities, Scenario.serviceCount, List.length_flatMap]

/-- The entry of a service is found under its names. -/
theorem ConfinedRun.find?_entry (h : ConfinedRun issuer settings s directory b b' root manifest)
    {n : Host} (hn : n ∈ s.hosts) {x : Service} (hx : x ∈ n.services) :
    ∃ answer, manifest.find? n.id x.name = some (x.entry root n.id answer) := by
  obtain ⟨-, issued, rfl, -⟩ := h.carried_out
  obtain ⟨e, hfind, hsubject⟩ := h.indexes.found n hn x hx
  obtain ⟨n', -, x', -, answer, rfl⟩ :=
    exists_of_mem_hostEntries (List.mem_of_find?_eq_some hfind)
  obtain ⟨hhost, hservice⟩ := Prod.mk.inj hsubject
  refine ⟨answer, ?_⟩
  have hid : n'.id = n.id := hhost
  obtain rfl : x' = x := hservice
  rw [hfind, hid]

/-- With an issuer that answers with its outputs they are in the entry. -/
theorem ConfinedRun.find?_outputs (h : ConfinedRun issuer settings s directory b b' root manifest)
    (hissuer : issuer.Answers) {n : Host} (hn : n ∈ s.hosts) {x : Service}
    (hx : x ∈ n.services) :
    manifest.find? n.id x.name = some (x.outputEntry root n.id settings.domain) := by
  have hpart : n.entry root (n.issued settings.domain root) ∈ manifest.hosts := by
    rw [h.manifest_eq hissuer, s.hosts_manifest]
    exact List.mem_map.2 ⟨n, hn, rfl⟩
  have hmem : x.outputEntry root n.id settings.domain ∈ manifest.services := by
    rw [h.indexes.services]
    refine List.mem_flatMap.2 ⟨_, hpart, ?_⟩
    rw [n.services_entry]
    exact List.mem_map.2 ⟨x, hx, rfl⟩
  exact h.indexes.sole _ hmem

/-- The texts that a run leaves about a service, each at the path that its entry gives. -/
theorem ConfinedRun.readText_service
    (h : ConfinedRun issuer settings s directory b b' root manifest)
    {n : Host} (hn : n ∈ s.hosts) {x : Service} (hx : x ∈ n.services) (answer : Issued) :
    b'.tree.readText (x.entry root n.id answer).roleIdPath = .ok ("role-" ++ x.name ++ "\n") ∧
      b'.tree.readText (x.entry root n.id answer).secretIdPath =
        .ok ("seed-secret-" ++ x.name ++ "\n") ∧
      b'.tree.readText (x.entry root n.id answer).eabPath =
        .ok (Json.Value.object [("hmac", .string ("seed-hmac-" ++ x.name)),
          ("kid", .string ("seed-kid-" ++ x.name))]).compact ∧
      b'.tree.readText (x.entry root n.id answer).agentConfigPath =
        .ok (AgentConfig.forService x.name n.id x.instanceId).toToml := by
  have hread {p : Place} {text : String}
      (hmem : .write p .owner (.ofText text) ∈ x.steps settings (Layout.host root n.id) n.id) :
      b'.tree.readText (textOfPlace p) = .ok text :=
    h.readText (List.mem_append_left _ (Scenario.mem_hostSteps_of_service hn hx hmem))
  refine ⟨hread ?_, hread ?_, hread ?_, hread ?_⟩ <;>
    simp [Service.steps, Seed.roleId, Seed.secretId, Seed.eab]

/-- **The documents of a run agree** on every service. -/
theorem ConfinedRun.agrees (h : ConfinedRun issuer settings s directory b b' root manifest)
    {n : Host} (hn : n ∈ s.hosts) {x : Service} (hx : x ∈ n.services) (answer : Issued) :
    (x.entry root n.id answer).Agrees b'.tree (x.state n.id settings.domain)
      (x.profile n.id) := by
  have hs := h.carried_out.1
  obtain ⟨hconfig, -, -, hsecret⟩ :=
    x.append_state n.id settings.domain (hs.proper_host h.proper hn)
  obtain ⟨hrole, -, -, htoml⟩ := h.readText_service hn hx answer
  constructor
  case recorded =>
    refine ⟨_, h.load_state hn, Dictionary.get?_of_mem_entries ?_⟩
    rw [Host.entries_state (hs.services n hn)]
    exact List.mem_map.2 ⟨x, hx, rfl⟩
  case configured =>
    exact ⟨_, _, htoml, AgentConfig.ofToml_toToml _, rfl⟩
  case agentConfig => exact hconfig
  case secretId => exact hsecret
  case roleId => exact hrole
  case recordSubject => rfl
  case profileSubject => rfl
  case profilePaths => rfl

/-- They agree on the certificate and the key, if these are where the issuer is to write them. -/
theorem ConfinedRun.agreesOnOutputs
    (h : ConfinedRun issuer settings s directory b b' root manifest) {n : Host} (hn : n ∈ s.hosts)
    {x : Service} (hx : x ∈ n.services) :
    (x.outputEntry root n.id settings.domain).AgreesOnOutputs
      (x.state n.id settings.domain) := by
  have hs := h.carried_out.1
  have hhost := hs.proper_host h.proper hn
  obtain ⟨-, hcert, hkey, -⟩ := x.append_state n.id settings.domain hhost
  obtain ⟨hcert', hkey'⟩ := Service.append_certs (hs.service n hn x hx) hhost
  exact ⟨hcert.trans hcert'.symm, hkey.trans hkey'.symm⟩

/-- **The manifest is a complete index, and the other documents agree with it.** After a run that
succeeds the one on disk lists the services of the scenario in order and finds each of them, and
nothing else; what the state of the host and the agent configuration say of a service is what its
entry says. They have the certificate and the key where the entry has them, if the issuer answers
with the files that it is to write, as those do that settings name. -/
theorem run_indexes (h : ConfinedRun issuer settings s directory b b' root manifest) :
    Manifest.load b'.tree (textOfPlace (root ++ ["layout.json"])) = .ok manifest ∧
      manifest.Indexes s ∧
      ∀ e ∈ manifest.services, ∃ record profile, e.Agrees b'.tree record profile ∧
        (issuer.Answers ∨ (∃ machine today, machine.Confined settings.validityDays ∧
            issuer = settings.issuer machine today) →
          e.AgreesOnOutputs record) := by
  refine ⟨h.load_manifest, h.indexes, fun e he => ?_⟩
  obtain ⟨-, issued, hmanifest, -⟩ := h.carried_out
  have hentry := he
  rw [hmanifest] at hentry
  obtain ⟨n, hn, x, hx, answer, rfl⟩ := exists_of_mem_hostEntries hentry
  refine ⟨_, _, h.agrees hn hx answer, fun hissuer => ?_⟩
  have hanswers : issuer.Answers := by
    rcases hissuer with hanswers | ⟨machine, today, hmachine, rfl⟩
    · exact hanswers
    · exact (settings.honest_issuer today hmachine).answers
  have hsame := (h.find?_outputs hanswers hn hx).symm.trans (h.indexes.sole _ he)
  rw [← Option.some.inj hsame]
  exact h.agreesOnOutputs hn hx

end Runs

/-- The service of a run in a fresh tree is found, and what is on disk agrees. -/
theorem run_indexes_fresh :
    ∃ b' manifest,
      ConfinedRun (.internal 20000 1) .withStub .single "/w" ⟨fresh .superuser, []⟩ b' ["w"]
        manifest ∧
      Manifest.load b'.tree "/w/layout.json" = .ok manifest ∧
      ∃ e record profile, manifest.find? "a" "x" = some e ∧
        e.agentConfigPath = "/w/nodes/a/configs/x.toml" ∧
        e.certPath = "/w/nodes/a/certs/x.crt" ∧ e.Agrees b'.tree record profile ∧
        e.AgreesOnOutputs record := by
  obtain ⟨b', h⟩ := confinedRun_fresh
  have hanswers := (Issuer.honest_internal 20000 1).answers
  obtain ⟨hload, -, hagree⟩ := run_indexes h
  have hfind := h.find?_outputs hanswers List.mem_cons_self List.mem_cons_self
  obtain ⟨record, profile, hagrees, houtputs⟩ := hagree _ (List.mem_of_find?_eq_some hfind)
  exact ⟨b', _, h, hload, _, record, profile, hfind, by decide, by decide, hagrees,
    houtputs (.inl hanswers)⟩

end Workspace

end CredentialBench
