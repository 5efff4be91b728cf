import CredentialBench.Proofs.Toml.Reading
import CredentialBench.Workspace.AgentConfig

/-!
# Reading agent configurations back

Every configuration is read back from the TOML that is written for it (`ofToml_toToml`), whatever
its strings hold: the text is read as its sections (`readsAs_toToml`), the sections make its tables
(`addSections?_config`), and the tables are read as the configuration (`decoder_entries`).
-/

namespace CredentialBench.Workspace

open Document Toml
open Entries (Assignment Header)

namespace AgentConfig

/-! ## Lines -/

/-- An assignment of a string. -/
def textAssignment (name s : String) : Assignment := ⟨[], name, .string s⟩

/-- What a profile assigns under its own header. -/
def ownAssignments (p : Profile) : List Assignment := [
  textAssignment "service_name" p.service,
  textAssignment "instance_id" p.instanceId,
  textAssignment "hostname" p.hostname]

/-- What a profile assigns under the header of its paths. -/
def pathAssignments (p : Profile) : List Assignment := [
  textAssignment "cert" p.certPath,
  textAssignment "key" p.keyPath]

/-- The headers of a profile, each with what is assigned under it. -/
def profileSections (p : Profile) : List (Header × List Assignment) := [
  (⟨true, [], "profiles"⟩, ownAssignments p),
  (⟨false, ["profiles"], "paths"⟩, pathAssignments p)]

/-- The list of the trusted fingerprints. -/
def trustedList (c : AgentConfig) : Document := .array (.ofList (c.trusted.map .string))

/-- What is assigned before the first header: the list of profiles, if there is none. -/
def topAssignments (c : AgentConfig) : List Assignment :=
  if c.profiles = [] then [⟨[], "profiles", .array .closed⟩] else []

/-- The headers of a configuration, each with what is assigned under it. -/
def configSections (c : AgentConfig) : List (Header × List Assignment) :=
  (⟨false, [], "acme"⟩, [textAssignment "http_responder_hmac" c.responderHmac]) ::
    (⟨false, [], "trust"⟩, [⟨[], "trusted_ca_sha256", c.trustedList⟩]) ::
      c.profiles.flatMap profileSections

theorem readsAs_profileToml (p : Profile) {rest : List Char} {ls : List Line}
    (h : ReadsAs rest ls) :
    ReadsAs (profileToml p ++ rest) ((profileSections p).flatMap sectionLines ++ ls) := by
  have hkey := h.assignment "key" (by decide) (spellsValue_quotedString p.keyPath)
  have hcert := hkey.assignment "cert" (by decide) (spellsValue_quotedString p.certPath)
  have hpaths := hcert.table ["profiles"] "paths" (spellsPath_pair (by decide) (by decide))
  have hhost := hpaths.emptyLine.assignment "hostname" (by decide)
    (spellsValue_quotedString p.hostname)
  have hid := hhost.assignment "instance_id" (by decide) (spellsValue_quotedString p.instanceId)
  have hservice := hid.assignment "service_name" (by decide) (spellsValue_quotedString p.service)
  have hprofile := hservice.element [] "profiles" (spellsPath_single (by decide))
  unfold profileToml
  simpa [header, profileSections, sectionLines, ownAssignments, pathAssignments, textAssignment]
    using hprofile.emptyLine

theorem readsAs_profiles (ps : List Profile) :
    ReadsAs (ps.flatMap profileToml) ((ps.flatMap profileSections).flatMap sectionLines) := by
  induction ps with
  | nil => exact readsAs_nil
  | cons p ps ih =>
    rw [List.flatMap_cons, List.flatMap_cons, List.flatMap_append]
    exact readsAs_profileToml p ih

/-- The text of a configuration is read as its sections. -/
theorem readsAs_toToml (c : AgentConfig) : ReadsAs c.toToml.toList
    (c.topAssignments.map .assign ++ c.configSections.flatMap sectionLines) := by
  have htrusted := (readsAs_profiles c.profiles).assignment "trusted_ca_sha256" (by decide)
    (spellsValue_stringList c.trusted)
  have htrust := htrusted.table [] "trust" (spellsPath_single (by decide))
  have hhmac := htrust.emptyLine.assignment "http_responder_hmac" (by decide)
    (spellsValue_quotedString c.responderHmac)
  have hacme := hhmac.table [] "acme" (spellsPath_single (by decide))
  rw [toToml, String.toList_ofList, topAssignments, configSections]
  cases hps : c.profiles with
  | nil =>
    have hempty : SpellsValue ['[', ']'] (.array .closed) := spellsValue_stringList []
    have hprofiles := hacme.emptyLine.assignment "profiles" (by decide) hempty
    rw [hps] at hprofiles
    simpa [header, sectionLines, textAssignment, trustedList] using hprofiles
  | cons p ps =>
    rw [hps] at hacme
    simpa [header, sectionLines, textAssignment, trustedList] using hacme

/-! ## Tables -/

/-- A name to which a table gives a string. -/
def textEntry (name s : String) : String × Toml.Node := (name, .value (.string s))

/-- What the table of a profile holds under its own header. -/
def ownEntries (p : Profile) : Entries := [
  textEntry "service_name" p.service,
  textEntry "instance_id" p.instanceId,
  textEntry "hostname" p.hostname]

/-- What the table of the paths of a profile holds. -/
def pathEntries (p : Profile) : Entries := [
  textEntry "cert" p.certPath,
  textEntry "key" p.keyPath]

/-- The table that a profile makes. -/
def profileEntries (p : Profile) : Entries :=
  ownEntries p ++ [("paths", .table .header (pathEntries p))]

/-- The table that the list of no profiles makes, if there is none. -/
def topEntries (c : AgentConfig) : Entries :=
  if c.profiles = [] then [("profiles", .value (.array .closed))] else []

/-- The tables that a configuration makes before its profiles. -/
def baseEntries (c : AgentConfig) : Entries := c.topEntries ++ [
  ("acme", .table .header [textEntry "http_responder_hmac" c.responderHmac]),
  ("trust", .table .header [("trusted_ca_sha256", .value c.trustedList)])]

/-- The array of the tables of some profiles; the first of them makes it. -/
def arrayEntries (ps : List Profile) : Entries :=
  if ps = [] then [] else [("profiles", .tables (ps.map profileEntries))]

/-- The tables of a configuration. -/
def entries (c : AgentConfig) : Entries := c.baseEntries ++ arrayEntries c.profiles

/-- The tables with those of further sections. -/
def addSections? (es : Entries) (ss : List (Header × List Assignment)) : Option Entries :=
  ss.foldlM (fun es s => es.addTable? s.1 s.2) es

/-- A profile adds one table to the array, which the first one makes. -/
theorem addSections?_profile {base : Entries} (hbase : base.lookup "profiles" = none)
    (done : List Profile) (p : Profile) :
    addSections? (base ++ arrayEntries done) (profileSections p) =
      some (base ++ arrayEntries (done ++ [p])) := by
  have hown : Entries.addAll? (ownAssignments p) [] = some (ownEntries p) := rfl
  have hpaths : Entries.addAll? (pathAssignments p) [] = some (pathEntries p) := rfl
  have hunder : (ownEntries p).lookup "paths" = none := rfl
  have hopen : (base ++ arrayEntries done).addTable? ⟨true, [], "profiles"⟩ (ownAssignments p) =
      some (base ++ [("profiles", .tables (done.map profileEntries ++ [ownEntries p]))]) := by
    cases done with
    | nil =>
      rw [arrayEntries, if_pos rfl, List.append_nil]
      exact Entries.addTable?_first hbase hown
    | cons q done => exact Entries.addTable?_further hbase hown _
  have hclose := Entries.addTable?_below hbase hpaths (done.map profileEntries) hunder
  have hall : arrayEntries (done ++ [p]) =
      [("profiles", .tables (done.map profileEntries ++ [profileEntries p]))] := by
    rw [arrayEntries, if_neg (by simp), List.map_append, List.map_singleton]
  rw [addSections?, profileSections, List.foldlM_cons, hopen, hall, Option.bind_eq_bind,
    Option.bind_some, List.foldlM_cons, hclose]
  rfl

theorem addSections?_profiles {base : Entries} (hbase : base.lookup "profiles" = none)
    (done ps : List Profile) :
    addSections? (base ++ arrayEntries done) (ps.flatMap profileSections) =
      some (base ++ arrayEntries (done ++ ps)) := by
  induction ps generalizing done with
  | nil => rw [List.append_nil]; rfl
  | cons p ps ih =>
    have hp := addSections?_profile hbase done p
    unfold addSections? at hp ih ⊢
    rw [List.flatMap_cons, List.foldlM_append, hp, Option.bind_eq_bind, Option.bind_some, ih,
      List.append_assoc, List.singleton_append]

/-- The tables that the sections of a configuration make. -/
theorem addSections?_config (c : AgentConfig) :
    (Entries.addAll? c.topAssignments []).bind (addSections? · c.configSections) =
      some c.entries := by
  by_cases hps : c.profiles = []
  · have htop : Entries.addAll? c.topAssignments [] = some c.topEntries := by
      rw [topAssignments, topEntries, if_pos hps, if_pos hps]
      rfl
    rw [htop, Option.bind_some, entries, baseEntries, topEntries, configSections, hps]
    rfl
  · have hbase : c.baseEntries.lookup "profiles" = none := by
      rw [baseEntries, topEntries, if_neg hps]
      rfl
    have hall := addSections?_profiles hbase [] c.profiles
    rw [arrayEntries, if_pos rfl, List.append_nil, List.nil_append, baseEntries, topEntries,
      if_neg hps] at hall
    rw [topAssignments, if_neg hps, entries, baseEntries, topEntries, if_neg hps]
    exact hall

theorem dropMark_toToml (c : AgentConfig) : dropMark c.toToml.toList = c.toToml.toList := by
  rw [toToml, String.toList_ofList]
  cases c.profiles <;> rfl

theorem document?_toToml (c : AgentConfig) : document? c.toToml = some c.entries.toDocument := by
  have hlines := readsAs_toToml c (c.toToml.toList.length + 1) (Nat.lt_succ_self _)
  have htables : tableOfLines? (c.topAssignments.map .assign ++
      c.configSections.flatMap sectionLines) = some c.entries := by
    rw [tableOfLines?, sections_assign, sections_flatMap, List.append_nil]
    exact addSections?_config c
  rw [document?, dropMark_toToml, hlines, Option.bind_eq_bind, Option.bind_some, htables]
  rfl

/-! ## The configuration -/

theorem profileDecoder_entries (p : Profile) :
    profileDecoder .toml (Entries.toDocument (profileEntries p)) = .ok p := rfl

theorem toItems_eq_ofList (ts : List Entries) :
    Entries.toItems ts = .ofList (ts.map Entries.toDocument) := by
  induction ts with
  | nil => rfl
  | cons t ts ih => 
    rw [Entries.toItems, ih]
    rfl

/-- The document of the table that holds the responder's key. -/
def acmeDocument (c : AgentConfig) : Document :=
  .table (.next (some "http_responder_hmac") (.string c.responderHmac) .closed)

/-- The document of the table that holds the trusted fingerprints. -/
def trustDocument (c : AgentConfig) : Document :=
  .table (.next (some "trusted_ca_sha256") c.trustedList .closed)

theorem trustDecoder_document (c : AgentConfig) :
    trustDecoder .toml c.trustDocument = .ok c.trusted := by
  have hlist : Decoder.string.list .toml c.trustedList = .ok c.trusted :=
    Decoder.list_ofList (fun _ => rfl) c.trusted
  refine Record.decoder_of_audit rfl (Record.ofMembers_map id ?_)
  exact Record.ofMembers_required rfl hlist

/-- A configuration is read from its three parts, in whatever order they come. -/
theorem decoder_of_parts (c : AgentConfig) {ms : Members} {profiles : Document}
    (haudit : Record.audit ["acme", "trust", "profiles"] [] 0 ms = .ok ())
    (hacme : (ms.find? "acme").map (·.2) = some c.acmeDocument)
    (htrust : (ms.find? "trust").map (·.2) = some c.trustDocument)
    (hprofiles : (ms.find? "profiles").map (·.2) = some profiles)
    (hread : profileDecoder.list .toml profiles = .ok c.profiles) :
    decoder .toml (.table ms) = .ok c := by
  have hhmac : acmeDecoder .toml c.acmeDocument = .ok c.responderHmac := rfl
  refine Record.decoder_of_audit haudit (Record.ofMembers_seq (Record.ofMembers_seq
    (Record.ofMembers_map AgentConfig.mk ?_) ?_) ?_)
  · exact Record.ofMembers_required hacme hhmac
  · exact Record.ofMembers_required htrust c.trustDecoder_document
  · exact Record.ofMembers_required hprofiles hread

theorem decoder_entries (c : AgentConfig) : decoder .toml c.entries.toDocument = .ok c := by
  rw [entries, baseEntries, topEntries, arrayEntries]
  by_cases hps : c.profiles = []
  · have hread : profileDecoder.list .toml (.array .closed) = .ok c.profiles := by
      rw [hps]
      rfl
    rw [if_pos hps, if_pos hps]
    exact c.decoder_of_parts rfl rfl rfl rfl hread
  · have hread : profileDecoder.list .toml
        (.array (Entries.toItems (c.profiles.map profileEntries))) = .ok c.profiles := by
      rw [toItems_eq_ofList, List.map_map]
      exact Decoder.list_ofList profileDecoder_entries c.profiles
    rw [if_neg hps, if_neg hps]
    exact c.decoder_of_parts rfl rfl rfl rfl hread

/-- **Every configuration is read back from its TOML.** -/
theorem ofToml_toToml (c : AgentConfig) : ofToml c.toToml = .ok c := by
  rw [ofToml, decode, document?_toToml]
  exact decoder_entries c

/-- **Agent configurations survive TOML for every identity.** What is read has one profile; it
names the service, the instance and the host, and the files that are called after the service. -/
theorem ofToml_forService (service hostname instanceId : String) :
    ofToml (forService service hostname instanceId).toToml =
        .ok (forService service hostname instanceId) ∧
      forService service hostname instanceId =
        { responderHmac := "seed-responder-hmac"
          trusted := ["0000000000000000000000000000000000000000000000000000000000000000"]
          profiles := [{
            service := service
            instanceId := instanceId
            hostname := hostname
            certPath := "certs/" ++ service ++ ".crt"
            keyPath := "certs/" ++ service ++ ".key" }] } :=
  ⟨ofToml_toToml _, rfl⟩

end AgentConfig

end CredentialBench.Workspace
