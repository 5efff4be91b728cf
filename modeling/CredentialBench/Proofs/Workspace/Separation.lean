import Mathlib.Data.List.Nodup
import CredentialBench.Proofs.Workspace.Outline

/-!
# Files apart

The names in a scenario become the names of files, whatever they are: a service may be called
`role_id` or `a.crt`, a host `state.json`. Still every file of a host is in the host's own
directory, no two files of a workspace are one, and no file stands where another needs a directory.

A file is named by what it is and whose (`WorkspaceFile`). That names lead apart is one fact about
the places of these: the place of one is on the way to the place of another only if both are the
same (`WorkspaceFile.eq_of_isPrefix`). It holds for all names, since what a service's file ends in
tells which of the files it is; that a scenario has no file twice is where its check comes in.
-/

namespace CredentialBench.Workspace

open CredentialBench.Path

/-! ## What is recorded -/

/-- The files that a manifest records of a service. -/
def ServiceEntry.files (e : ServiceEntry) : List String :=
  [e.roleIdPath, e.secretIdPath, e.eabPath, e.agentConfigPath, e.certPath, e.keyPath,
    e.caBundlePath, e.summaryPath]

/-- The files of a host: its state, its agent, and what is recorded of its services. -/
def HostEntry.files (h : HostEntry) (root : Place) : List String :=
  textOfPlace (Layout.state (Layout.host root h.host)) ::
    textOfPlace (Layout.agent (Layout.host root h.host)) :: h.services.flatMap (·.files)

/-- The files of a workspace: the manifest itself, and those of all hosts. -/
def Manifest.files (m : Manifest) (root : Place) : List String :=
  textOfPlace (Layout.manifest root) :: m.hosts.flatMap (·.files root)

/-! ## Files and their places -/

/-- A file of a service. -/
inductive ServiceFile
  | roleId
  | secretId
  | eab
  | agentConfig
  | cert
  | key
  | caBundle
  | summary
  deriving DecidableEq

namespace ServiceFile

/-- All files of a service, in the order in which they are recorded. -/
def all : List ServiceFile :=
  [roleId, secretId, eab, agentConfig, cert, key, caBundle, summary]

/-- The names that lead from the directory of a host to a file of a service. -/
def place (service : String) : ServiceFile → Place
  | roleId => ["secrets", "services", service, "role_id"]
  | secretId => ["secrets", "services", service, "secret_id"]
  | eab => ["secrets", "services", service, "eab.json"]
  | agentConfig => ["configs", service ++ ".toml"]
  | cert => ["certs", service ++ ".crt"]
  | key => ["certs", service ++ ".key"]
  | caBundle => ["certs", service ++ "-ca-bundle.pem"]
  | summary => ["summaries", service ++ ".json"]

/-- Where the layout of a workspace has a file of a service. -/
def layout (host : Place) (service : String) : ServiceFile → Place
  | roleId => Layout.roleId host service
  | secretId => Layout.secretId host service
  | eab => Layout.eab host service
  | agentConfig => Layout.agentConfig host service
  | cert => Layout.cert host service
  | key => Layout.key host service
  | caBundle => Layout.caBundle host service
  | summary => Layout.summary host service

theorem layout_eq (host : Place) (service : String) (f : ServiceFile) :
    f.layout host service = host ++ f.place service := by
  cases f <;>
    simp [layout, place, Layout.roleId, Layout.secretId, Layout.eab, Layout.seeds,
      Layout.agentConfig, Layout.configs, Layout.cert, Layout.key, Layout.caBundle, Layout.certs,
      Layout.summary, Layout.summaries]

/-- Names with endings are the same only if the endings are, as far as their last characters go. -/
theorem getLast?_of_append_eq {a b x y : String} (h : a ++ x = b ++ y) (hx : x.toList ≠ [])
    (hy : y.toList ≠ []) : x.toList.getLast? = y.toList.getLast? := by
  have hl := congrArg (fun s : String => s.toList.getLast?) h
  simpa only [String.toList_append, List.getLast?_append_of_ne_nil _ hx,
    List.getLast?_append_of_ne_nil _ hy] using hl

/-- **The files of services lead apart**, whatever the services are called. -/
theorem eq_of_isPrefix {n n' : String} {f f' : ServiceFile} (h : f.place n <+: f'.place n') :
    n = n' ∧ f = f' := by
  cases f <;> cases f' <;>
    simp only [place, List.cons_prefix_cons, List.nil_prefix, List.prefix_nil, and_true, true_and,
      String.append_left_inj, String.reduceEq, false_and, and_false, reduceCtorEq] at h ⊢
  -- what is left is one file of two services, or two files in the directory of certificates
  all_goals first
    | exact h
    | exact absurd (getLast?_of_append_eq h (by decide) (by decide)) (by decide)

theorem proper_place {n : String} (h : IsName n) (f : ServiceFile) : Proper (f.place n) := by
  have hseeds : ∀ {name : String}, IsName name → Proper ["secrets", "services", n, name] :=
    fun hname => .cons (by decide) (.cons (by decide) (.cons h (.singleton hname)))
  have hending : ∀ {folder ending : String}, IsName folder → '/' ∉ ending.toList →
      2 < ending.length → Proper [folder, n ++ ending] :=
    fun hfolder hslash hlong => .cons hfolder (.singleton (h.append hslash hlong))
  cases f with
  | roleId => exact hseeds (by decide)
  | secretId => exact hseeds (by decide)
  | eab => exact hseeds (by decide)
  | agentConfig => exact hending (by decide) (by decide) (by decide)
  | cert => exact hending (by decide) (by decide) (by decide)
  | key => exact hending (by decide) (by decide) (by decide)
  | caBundle => exact hending (by decide) (by decide) (by decide)
  | summary => exact hending (by decide) (by decide) (by decide)

/-- What a host has beside the files of its services leads elsewhere. -/
theorem place_apart (n : String) (f : ServiceFile) {name : String}
    (hname : name = "state.json" ∨ name = "bin") (r : Place) :
    ¬ name :: r <+: f.place n ∧ ¬ f.place n <+: name :: r := by
  rcases hname with rfl | rfl <;> cases f <;> simp [place]

end ServiceFile

/-- A file of a workspace. -/
inductive WorkspaceFile
  | manifest
  | state (host : String)
  | agent (host : String)
  | ofService (host service : String) (f : ServiceFile)

/-- A directory of a host, as the names that lead there from the host's own: one that is made before
the services, that of a service's seeds, or that of the agent. -/
def Folder (r : Place) : Prop :=
  r ∈ [["certs"], ["configs"], ["summaries"], ["bin"]] ∨ ∃ n, r = ["secrets", "services", n]

namespace WorkspaceFile

/-- The names that lead from the root of a workspace to a file. -/
def place : WorkspaceFile → Place
  | manifest => ["layout.json"]
  | state host => ["nodes", host, "state.json"]
  | agent host => ["nodes", host, "bin", "bootroot-agent"]
  | ofService host service f => "nodes" :: host :: f.place service

/-- The host that a file belongs to, if it belongs to one. -/
def host? : WorkspaceFile → Option String
  | manifest => none
  | state host => some host
  | agent host => some host
  | ofService host _ _ => some host

/-- The path to a file of the workspace with the given root. -/
def text (root : Place) (f : WorkspaceFile) : String := textOfPlace (root ++ f.place)

/-- **The files of workspaces lead apart**, whatever hosts and services are called. -/
theorem eq_of_isPrefix {f f' : WorkspaceFile} (h : f.place <+: f'.place) : f = f' := by
  have hstate := fun n (g : ServiceFile) => g.place_apart n (.inl rfl) []
  have hagent := fun n (g : ServiceFile) => g.place_apart n (.inr rfl) ["bootroot-agent"]
  cases f <;> cases f' <;>
    simp only [place, List.cons_prefix_cons, List.nil_prefix, List.prefix_nil, and_true, true_and,
      String.reduceEq, and_false, reduceCtorEq, hstate, hagent] at h ⊢
  case state.state => rw [h]
  case agent.agent => rw [h]
  case ofService.ofService =>
    obtain ⟨rfl, hp⟩ := h
    obtain ⟨rfl, rfl⟩ := ServiceFile.eq_of_isPrefix hp
    rfl

/-- No file leads to a directory of a host. -/
theorem not_isPrefix_folder (f : WorkspaceFile) (host : String) {r : Place} (hr : Folder r) :
    ¬ f.place <+: "nodes" :: host :: r := by
  simp only [Folder, List.mem_cons, List.not_mem_nil, or_false] at hr
  cases f with
  | manifest => simp [place]
  | state host' => rcases hr with (rfl | rfl | rfl | rfl) | ⟨n, rfl⟩ <;> simp [place]
  | agent host' => rcases hr with (rfl | rfl | rfl | rfl) | ⟨n, rfl⟩ <;> simp [place]
  | ofService host' n' f =>
    rcases hr with (rfl | rfl | rfl | rfl) | ⟨n, rfl⟩ <;>
      cases f <;> simp [place, ServiceFile.place]

end WorkspaceFile

/-! ## The files of a scenario -/

/-- The files of a host. -/
def Host.files (h : Host) : List WorkspaceFile :=
  .state h.id :: .agent h.id ::
    h.services.flatMap fun x => ServiceFile.all.map (.ofService h.id x.name)

/-- The files of a scenario. -/
def Scenario.files (s : Scenario) : List WorkspaceFile := .manifest :: s.hosts.flatMap (·.files)

variable {settings : Settings} {root : Place} {manifest : Manifest} {domain : String}

theorem Scenario.mem_files_of_host {s : Scenario} {h : Host} (hh : h ∈ s.hosts)
    {f : WorkspaceFile} (hf : f ∈ h.files) : f ∈ s.files :=
  List.mem_cons_of_mem _ (List.mem_flatMap.2 ⟨h, hh, hf⟩)

/-- Whose the files of a host are. -/
theorem Host.mem_files {h : Host} {f : WorkspaceFile} :
    f ∈ h.files ↔ f = .state h.id ∨ f = .agent h.id ∨
      ∃ x ∈ h.services, ∃ g, f = .ofService h.id x.name g := by
  have hall : ∀ g, g ∈ ServiceFile.all := fun g => by cases g <;> decide
  simp [files, hall, eq_comm]

theorem Host.host?_of_mem_files {h : Host} {f : WorkspaceFile} (hf : f ∈ h.files) :
    f.host? = some h.id := by
  rcases mem_files.1 hf with rfl | rfl | ⟨x, -, g, rfl⟩ <;> rfl

theorem Host.nodup_files {h : Host} (hs : (h.services.map (·.name)).Nodup) : h.files.Nodup := by
  have hservices :
      (h.services.flatMap fun x =>
        ServiceFile.all.map (WorkspaceFile.ofService h.id x.name)).Nodup := by
    refine List.nodup_flatMap.2 ⟨fun x _ => ?_, ?_⟩
    · refine List.Nodup.map (fun f g he => ?_) (by decide)
      exact (WorkspaceFile.ofService.inj he).2.2
    · refine (List.pairwise_map.1 hs).imp fun hne f hf hg => ?_
      obtain ⟨g, -, rfl⟩ := List.mem_map.1 hf
      obtain ⟨g', -, he⟩ := List.mem_map.1 hg
      exact hne (WorkspaceFile.ofService.inj he).2.1.symm
  simp [files, hservices]

/-- **No file of a valid scenario is named twice.** -/
theorem Scenario.nodup_files {s : Scenario} (hs : s.Valid) : s.files.Nodup := by
  refine List.nodup_cons.2 ⟨?_, List.nodup_flatMap.2 ⟨fun h hh => ?_, ?_⟩⟩
  · intro hm
    obtain ⟨h, -, hm⟩ := List.mem_flatMap.1 hm
    cases Host.host?_of_mem_files hm
  · exact Host.nodup_files (hs.services h hh)
  · refine (List.pairwise_map.1 hs.hosts).imp fun hne f hf hg => hne ?_
    have he := (Host.host?_of_mem_files hf).symm.trans (Host.host?_of_mem_files hg)
    exact Option.some.inj he

theorem Host.proper_place {h : Host} (hid : IsName h.id) (hnames : ∀ x ∈ h.services, IsName x.name)
    {f : WorkspaceFile} (hf : f ∈ h.files) : Proper f.place := by
  rcases Host.mem_files.1 hf with rfl | rfl | ⟨x, hx, g, rfl⟩
  · exact .cons (by decide) (.cons hid (by decide))
  · exact .cons (by decide) (.cons hid (by decide))
  · exact .cons (by decide) (.cons hid (g.proper_place (hnames x hx)))

theorem Scenario.proper_place {s : Scenario} (hs : s.Valid) {f : WorkspaceFile}
    (hf : f ∈ s.files) : Proper f.place := by
  rcases List.mem_cons.1 hf with rfl | hf
  · decide
  · obtain ⟨h, hh, hf⟩ := List.mem_flatMap.1 hf
    exact Host.proper_place (hs.host h hh) (hs.service h hh) hf

/-! ## What a manifest records -/

/-- The manifest's entry of a service whose issuer answers with its outputs. -/
def Service.outputEntry (x : Service) (root : Place) (host domain : String) : ServiceEntry :=
  x.entry root host
    ((x.identity host domain).issued (textOfPlace (Layout.certs (Layout.host root host))))

theorem Host.services_entry (h : Host) (root : Place) (domain : String) :
    (h.entry root (h.issued domain root)).services =
      h.services.map fun x => x.outputEntry root h.id domain := by
  simp [entry, issued, Service.outputEntry, List.zipWith_map_right]

/-- The parts of a manifest are those of the hosts, each with what is answered for it. -/
theorem hostEntries_issued (hosts : List Host) (root : Place) (domain : String) :
    hostEntries root hosts (hosts.flatMap fun h => h.issued domain root) =
      hosts.map fun h => h.entry root (h.issued domain root) := by
  induction hosts with
  | nil => rfl
  | cons h rest ih =>
    have hlength : (h.issued domain root).length = h.services.length := List.length_map ..
    rw [hostEntries, List.flatMap_cons, ← hlength, List.take_left, List.drop_left, ih,
      List.map_cons]

theorem Scenario.hosts_manifest (s : Scenario) (root : Place) (domain : String) :
    (s.manifest root (s.issued domain root)).hosts =
      s.hosts.map fun h => h.entry root (h.issued domain root) :=
  hostEntries_issued s.hosts root domain

/-- The certificate and the key are recorded where the layout of a workspace has them. -/
theorem Service.append_certs {x : Service} (hx : IsName x.name) {host : Place}
    (hhost : Proper host) :
    Path.append (textOfPlace (Layout.certs host)) (x.name ++ ".crt") =
        textOfPlace (Layout.cert host x.name) ∧
      Path.append (textOfPlace (Layout.certs host)) (x.name ++ ".key") =
        textOfPlace (Layout.key host x.name) := by
  have hcerts : Proper (Layout.certs host) := hhost.append (.singleton (by decide))
  have happend : ∀ ending : String, '/' ∉ ending.toList → 2 < ending.length →
      Path.append (textOfPlace (Layout.certs host)) (x.name ++ ending) =
        textOfPlace (Layout.certs host ++ [x.name ++ ending]) := fun ending hslash hlong =>
    append_textOfPlace hcerts (hx.append hslash hlong).no_slash
  rw [happend ".crt" (by decide) (by decide), happend ".key" (by decide) (by decide)]
  simp [Layout.certs, Layout.cert, Layout.key]

theorem Service.files_outputEntry {x : Service} (hx : IsName x.name) {host : String}
    (hhost : Proper (Layout.host root host)) :
    (x.outputEntry root host domain).files =
      ServiceFile.all.map fun f => WorkspaceFile.text root (.ofService host x.name f) := by
  have htext : ∀ f, WorkspaceFile.text root (.ofService host x.name f) =
      textOfPlace (f.layout (Layout.host root host) x.name) := by
    intro f
    rw [f.layout_eq, WorkspaceFile.text, WorkspaceFile.place, Layout.host]
    simp
  obtain ⟨hcert, hkey⟩ := x.append_certs hx hhost
  simp only [htext, ServiceEntry.files, outputEntry, entry, Identity.issued, Identity.certPath,
    Identity.keyPath, identity, hcert, hkey]
  rfl

/-! ## What the steps are about -/

/-- The files of a host are in its directory. -/
theorem Host.isPrefix_of_mem_files {h : Host} {f : WorkspaceFile} (hf : f ∈ h.files) :
    Layout.host root h.id <+: root ++ f.place := by
  rw [Layout.host, List.prefix_append_right_inj]
  rcases mem_files.1 hf with rfl | rfl | ⟨x, -, g, rfl⟩ <;> simp [WorkspaceFile.place]

/-- The steps for a service make the directory of its seeds, and otherwise write files of it. -/
theorem Service.places_of_steps {x : Service} {host : Place} {id : String} {st : Step} {p : Place}
    (hst : st ∈ x.steps settings host id) (hp : p ∈ st.places) :
    (st = .directory p ∧ p = Layout.seeds host x.name) ∨
      (p ∈ st.files ∧ ∃ f : ServiceFile, p = f.layout host x.name) := by
  simp only [steps, List.mem_cons, List.not_mem_nil, or_false] at hst
  rcases hst with rfl | rfl | rfl | rfl | rfl | rfl
  · obtain rfl := List.mem_singleton.1 hp
    exact .inl ⟨rfl, rfl⟩
  · exact .inr ⟨hp, .roleId, List.mem_singleton.1 hp⟩
  · exact .inr ⟨hp, .secretId, List.mem_singleton.1 hp⟩
  · exact .inr ⟨hp, .eab, List.mem_singleton.1 hp⟩
  · exact .inr ⟨hp, .agentConfig, List.mem_singleton.1 hp⟩
  · refine .inr ⟨hp, ?_⟩
    have hout : p ∈ (x.identity id settings.domain).outputs (Layout.certs host) := hp
    rcases List.mem_pair.1 hout with rfl | rfl
    · exact ⟨.cert, List.append_assoc ..⟩
    · exact ⟨.key, List.append_assoc ..⟩

/-- The steps for a host make its folders, and otherwise write its files. -/
theorem Host.places_of_steps {h : Host} {st : Step} {p : Place}
    (hst : st ∈ h.steps settings root) (hp : p ∈ st.places) :
    (st = .directory p ∧ ∃ r, Folder r ∧ p = Layout.host root h.id ++ r) ∨
      (p ∈ st.files ∧ ∃ f ∈ h.files, p = root ++ f.place) := by
  simp only [steps, List.mem_append, List.mem_cons, List.not_mem_nil, or_false,
    List.mem_flatMap] at hst
  rcases hst with ((rfl | rfl | rfl) | ⟨x, hx, hst⟩) | rfl | rfl | rfl
  · obtain rfl := List.mem_singleton.1 hp
    exact .inl ⟨rfl, ["certs"], .inl (by decide), rfl⟩
  · obtain rfl := List.mem_singleton.1 hp
    exact .inl ⟨rfl, ["configs"], .inl (by decide), rfl⟩
  · obtain rfl := List.mem_singleton.1 hp
    exact .inl ⟨rfl, ["summaries"], .inl (by decide), rfl⟩
  · rcases Service.places_of_steps hst hp with ⟨rfl, rfl⟩ | ⟨hfile, f, rfl⟩
    · exact .inl ⟨rfl, ["secrets", "services", x.name], .inr ⟨x.name, rfl⟩, rfl⟩
    · refine .inr ⟨hfile, .ofService h.id x.name f, mem_files.2 (.inr (.inr ⟨x, hx, f, rfl⟩)), ?_⟩
      rw [f.layout_eq]
      simp [Layout.host, WorkspaceFile.place]
  · refine .inr ⟨hp, .state h.id, mem_files.2 (.inl rfl), ?_⟩
    rw [List.mem_singleton.1 hp]
    simp [Layout.host, Layout.state, WorkspaceFile.place]
  · obtain rfl := List.mem_singleton.1 hp
    exact .inl ⟨rfl, ["bin"], .inl (by decide), rfl⟩
  · refine .inr ⟨hp, .agent h.id, mem_files.2 (.inr (.inl rfl)), ?_⟩
    rw [List.mem_singleton.1 hp]
    simp [Layout.host, Layout.programs, Layout.agent, WorkspaceFile.place]

/-- The steps for a scenario make folders of its hosts, and otherwise write its files. -/
theorem Scenario.places_of_steps {s : Scenario} {st : Step} {p : Place}
    (hst : st ∈ s.steps settings root manifest) (hp : p ∈ st.places) :
    (st = .directory p ∧ ∃ h ∈ s.hosts, ∃ r, Folder r ∧ p = Layout.host root h.id ++ r) ∨
      (p ∈ st.files ∧ ∃ f ∈ s.files, p = root ++ f.place) := by
  rcases List.mem_append.1 hst with hst | hst
  · obtain ⟨h, hh, hst⟩ := List.mem_flatMap.1 hst
    rcases Host.places_of_steps hst hp with ⟨hd, hr⟩ | ⟨hfile, f, hf, he⟩
    · exact .inl ⟨hd, h, hh, hr⟩
    · exact .inr ⟨hfile, f, mem_files_of_host hh hf, he⟩
  · obtain rfl := List.mem_singleton.1 hst
    exact .inr ⟨hp, .manifest, List.mem_cons_self, List.mem_singleton.1 hp⟩

/-! ## Files apart -/

/-- A path leads into a directory: from the root of the tree, through the directory, and without a
name that stays where it is or goes up. -/
structure LeadsInto (d : Place) (path : String) : Prop where
  absolute : (ofText path).absolute = true
  through : d <+: (ofText path).names
  proper : Proper (ofText path).names

theorem LeadsInto.of_isPrefix {d p : Place} (h : d <+: p) (hp : Proper p) :
    LeadsInto d (textOfPlace p) := by
  refine ⟨?_, ?_, ?_⟩ <;> rw [ofText_textOfPlace hp]
  · rfl
  · exact h
  · exact hp

/-- A directory that a run makes or needs: the root, one that a step is to make, or one above. -/
def Scenario.Needs (s : Scenario) (settings : Settings) (root : Place) (manifest : Manifest)
    (d : Place) : Prop :=
  d <+: root ∨ ∃ p, .directory p ∈ s.steps settings root manifest ∧ d <+: p

/-- The files of a workspace with a manifest stay where they belong and do not meet. -/
structure Scenario.Apart (s : Scenario) (settings : Settings) (root : Place)
    (manifest : Manifest) : Prop where
  /-- The entries of a host's services are about the host. -/
  entries : ∀ h ∈ manifest.hosts, ∀ e ∈ h.services, e.host = h.host ∧
    e.workDir = h.workDir ∧ e.statePath = textOfPlace (Layout.state (Layout.host root h.host))
  /-- What is recorded of a host is in its directory. -/
  recorded : ∀ h ∈ manifest.hosts, ∀ path ∈ h.workDir :: h.files root,
    LeadsInto (Layout.host root h.host) path
  /-- What is written for a host is in its directory. -/
  written : ∀ h ∈ s.hosts, ∀ st ∈ h.steps settings root, ∀ p ∈ st.places,
    LeadsInto (Layout.host root h.id) (textOfPlace p)
  /-- Every file that is written is recorded, or the state or agent of a host, or the manifest. -/
  listed : ∀ st ∈ s.steps settings root manifest, ∀ p ∈ st.files,
    textOfPlace p ∈ manifest.files root
  distinct : (manifest.files root).Nodup
  /-- No file is above another. -/
  separate : ∀ f ∈ manifest.files root, ∀ g ∈ manifest.files root,
    (Path.ofText f).names <+: (Path.ofText g).names → f = g
  /-- No file is where a directory is. -/
  vacant : ∀ f ∈ manifest.files root, ¬ s.Needs settings root manifest (Path.ofText f).names

section Valid

variable {s : Scenario} {h : Host} {f g : WorkspaceFile}

theorem Scenario.Valid.names_text (hs : s.Valid) (hroot : Proper root) (hf : f ∈ s.files) :
    (Path.ofText (f.text root)).names = root ++ f.place :=
  congrArg Path.names (ofText_textOfPlace (hroot.append (proper_place hs hf)))

theorem Scenario.Valid.proper_host (hs : s.Valid) (hroot : Proper root) (hh : h ∈ s.hosts) :
    Proper (Layout.host root h.id) :=
  hroot.append (.cons (by decide) (.singleton (hs.host h hh)))

theorem Scenario.Valid.files_entry (hs : s.Valid) (hroot : Proper root) (hh : h ∈ s.hosts) :
    (h.entry root (h.issued domain root)).files root = h.files.map (WorkspaceFile.text root) := by
  have hservices : (h.services.map fun x => x.outputEntry root h.id domain).flatMap (·.files) =
      h.services.flatMap fun x =>
        ServiceFile.all.map fun f => WorkspaceFile.text root (.ofService h.id x.name f) := by
    rw [List.flatMap_map]
    exact List.flatMap_congr fun x hx =>
      Service.files_outputEntry (hs.service h hh x hx) (hs.proper_host hroot hh)
  rw [HostEntry.files, Host.services_entry, hservices]
  simp [Host.entry, Host.files, List.map_flatMap, Function.comp_def, WorkspaceFile.text,
    WorkspaceFile.place, Layout.host, Layout.state, Layout.agent, Layout.programs]

/-- The manifest and what it records are the texts of the files of the scenario. -/
theorem Scenario.Valid.files_manifest (hs : s.Valid) (hroot : Proper root) (domain : String) :
    (s.manifest root (s.issued domain root)).files root =
      s.files.map (WorkspaceFile.text root) := by
  have hhosts : (s.hosts.map fun h => h.entry root (h.issued domain root)).flatMap
      (·.files root) = s.hosts.flatMap fun h => h.files.map (WorkspaceFile.text root) := by
    rw [List.flatMap_map]
    exact List.flatMap_congr fun h hh => hs.files_entry hroot hh
  rw [Manifest.files, s.hosts_manifest, hhosts]
  simp [files, List.map_flatMap, WorkspaceFile.text, WorkspaceFile.place, Layout.manifest]

/-- What is recorded of a host is in its directory. -/
theorem Scenario.Valid.leadsInto_recorded (hs : s.Valid) (hroot : Proper root) (hh : h ∈ s.hosts)
    {path : String} (hpath : path ∈ (h.entry root (h.issued domain root)).workDir ::
      (h.entry root (h.issued domain root)).files root) :
    LeadsInto (Layout.host root h.id) path := by
  rcases List.mem_cons.1 hpath with rfl | hpath
  · exact .of_isPrefix List.prefix_rfl (hs.proper_host hroot hh)
  · rw [hs.files_entry hroot hh] at hpath
    obtain ⟨f, hf, rfl⟩ := List.mem_map.1 hpath
    have hproper := proper_place hs (mem_files_of_host hh hf)
    exact .of_isPrefix (Host.isPrefix_of_mem_files hf) (hroot.append hproper)

/-- What is written for a host is in its directory. -/
theorem Scenario.Valid.leadsInto_written (hs : s.Valid) (hroot : Proper root) (hh : h ∈ s.hosts)
    {st : Step} (hst : st ∈ h.steps settings root) {p : Place} (hp : p ∈ st.places) :
    LeadsInto (Layout.host root h.id) (textOfPlace p) := by
  have hproper : Proper p := by
    obtain ⟨m, hm⟩ := h.mem_outline_of_places (.bytes []) hst hp
    have hmem : (p, m) ∈ s.outline settings (.bytes []) root (.empty s.id) :=
      mem_outline_of_host hh hm
    obtain ⟨r, -, hr, rfl⟩ := s.outline_below hs hmem
    exact hroot.append hr
  refine .of_isPrefix ?_ hproper
  rcases Host.places_of_steps hst hp with ⟨-, r, -, rfl⟩ | ⟨-, f, hf, rfl⟩
  · exact List.prefix_append _ r
  · exact Host.isPrefix_of_mem_files hf

/-- The paths of files lead apart as the files do. -/
theorem Scenario.Valid.eq_of_isPrefix (hs : s.Valid) (hroot : Proper root) (hf : f ∈ s.files)
    (hg : g ∈ s.files)
    (h : (Path.ofText (f.text root)).names <+: (Path.ofText (g.text root)).names) : f = g := by
  rw [hs.names_text hroot hf, hs.names_text hroot hg, List.prefix_append_right_inj] at h
  exact WorkspaceFile.eq_of_isPrefix h

/-- A directory that the run needs is no file. -/
theorem Scenario.not_needs (s : Scenario) (f : WorkspaceFile) :
    ¬ s.Needs settings root manifest (root ++ f.place) := by
  rintro (h | ⟨p, hp, h⟩)
  · have hlength := h.length_le
    rw [List.length_append] at hlength
    have hpos : 0 < f.place.length := by cases f <;> simp [WorkspaceFile.place]
    omega
  · rcases places_of_steps hp List.mem_cons_self with ⟨-, x, -, r, hr, rfl⟩ | ⟨hfile, -⟩
    · rw [Layout.host, List.append_assoc, List.prefix_append_right_inj] at h
      exact f.not_isPrefix_folder x.id hr h
    · cases hfile

end Valid

/-- **Names that pass the check keep files apart**, whatever they are and wherever the workspace
is, if the certificates and keys are where an issuer is to write them. -/
theorem Scenario.apart_of_check {s : Scenario} (hs : s.check = .ok ()) (hroot : Proper root) :
    s.Apart settings root (s.manifest root (s.issued settings.domain root)) := by
  have hvalid := valid_of_check hs
  have hfiles : ∀ {path}, path ∈ (s.manifest root (s.issued settings.domain root)).files root ↔
      ∃ f ∈ s.files, f.text root = path := by
    intro path
    rw [hvalid.files_manifest hroot, List.mem_map]
  constructor
  case entries =>
    intro h hh e he
    rw [s.hosts_manifest] at hh
    obtain ⟨h, -, rfl⟩ := List.mem_map.1 hh
    rw [h.services_entry] at he
    obtain ⟨x, -, rfl⟩ := List.mem_map.1 he
    exact ⟨rfl, rfl, rfl⟩
  case recorded =>
    intro h hh path hpath
    rw [s.hosts_manifest] at hh
    obtain ⟨h, hmem, rfl⟩ := List.mem_map.1 hh
    exact hvalid.leadsInto_recorded hroot hmem hpath
  case written =>
    intro h hh st hst p hp
    exact hvalid.leadsInto_written hroot hh hst hp
  case listed =>
    intro st hst p hp
    rcases places_of_steps hst (st.places_of_files hp) with ⟨rfl, -⟩ | ⟨-, f, hf, rfl⟩
    · cases hp
    · exact hfiles.2 ⟨f, hf, rfl⟩
  case distinct =>
    rw [hvalid.files_manifest hroot]
    refine (nodup_files hvalid).map_on fun f hf g hg he => hvalid.eq_of_isPrefix hroot hf hg ?_
    exact he ▸ List.prefix_rfl
  case separate =>
    intro path hpath path' hpath' h
    obtain ⟨f, hf, rfl⟩ := hfiles.1 hpath
    obtain ⟨g, hg, rfl⟩ := hfiles.1 hpath'
    rw [hvalid.eq_of_isPrefix hroot hf hg h]
  case vacant =>
    intro path hpath
    obtain ⟨f, hf, rfl⟩ := hfiles.1 hpath
    rw [hvalid.names_text hroot hf]
    exact s.not_needs f

/-- A scenario whose names are those of files, or end as files do. -/
def Scenario.crowded : Scenario where
  id := "layout.json"
  hosts := [
    { id := "state.json"
      services := [
        ⟨"role_id", "local", "1", none⟩, ⟨"services", "local", "1", none⟩,
        ⟨"a", "local", "1", none⟩, ⟨"a.crt", "local", "1", none⟩, ⟨"a.key", "local", "1", none⟩,
        ⟨"a-ca-bundle.pem", "local", "1", none⟩] },
    { id := "...", services := [⟨"a", "local", "1", none⟩, ⟨" a", "local", "1", some "certs"⟩] },
    { id := "nodes", services := [] }]

theorem Scenario.apart_of_check_crowded :
    Scenario.crowded.check = .ok () ∧ Proper ["nodes", "layout.json"] ∧
      Scenario.crowded.Apart .default ["nodes", "layout.json"]
        (Scenario.crowded.manifest ["nodes", "layout.json"]
          (Scenario.crowded.issued Settings.default.domain ["nodes", "layout.json"])) :=
  ⟨by decide +kernel, by decide, Scenario.apart_of_check (by decide +kernel) (by decide)⟩

end CredentialBench.Workspace
