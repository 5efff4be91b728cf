import Mathlib.Data.List.Nodup
import CredentialBench.Proofs.Document.Records
import CredentialBench.Proofs.FileTree.Operations
import CredentialBench.Proofs.Toml.Printed
import CredentialBench.Simulator.Settings
import CredentialBench.Workspace.Settings

/-!
# Settings files

What the settings of a workspace and those of the simulator are read as from a file of TOML that
gives some of them, in any order and among others (`SettingsFile`, `Gives`). Each setting is what is
given for it, or its default; a number out of range or an unknown backend makes the whole file
unreadable, and only settings that can be read are checked (`load_settingsFile`).
-/

namespace CredentialBench

open Document Toml

/-! ## Fields -/

namespace Document.Record

variable {es : List (String × Document)} {ms : Members} {name : String} {α : Type}
  (h : ms.entries? = some es)

include h

/-- A field that holds a text. -/
theorem ofMembers_text {s? : Option String} (hs : es.lookup name = s?.map .string)
    {value s : String} :
    (defaulted name Decoder.string value).ofMembers .toml ms = .ok s ↔ s = s?.getD value := by
  rw [ofMembers_defaulted_iff h, hs]
  cases s? with
  | none => simp
  | some t => simpa [Decoder.string_eq_ok_iff] using eq_comm

/-- A field that holds a text or nothing. -/
theorem ofMembers_nullableText {s? : Option String} (hs : es.lookup name = s?.map .string)
    {o : Option String} :
    (defaulted name Decoder.string.nullable none).ofMembers .toml ms = .ok o ↔ o = s? := by
  rw [ofMembers_defaulted_iff h, hs]
  cases s? with
  | none => simp
  | some t => simp [Decoder.nullable_eq_ok_iff, Decoder.string_eq_ok_iff]

/-- A field that holds a number within bounds. -/
theorem ofMembers_number {n? : Option Int} (hn : es.lookup name = n?.map .integer) {lo hi : Int}
    {f : Int → α} {value a : α} :
    (defaulted name ((Decoder.integer lo hi).map f) value).ofMembers .toml ms = .ok a ↔
      (∀ n ∈ n?, lo ≤ n ∧ n ≤ hi) ∧ a = (n?.map f).getD value := by
  have hmap : ∀ n, (Decoder.integer lo hi).map f .toml (.integer n) = .ok a ↔
      (lo ≤ n ∧ n ≤ hi) ∧ a = f n := by
    intro n
    by_cases hn : lo ≤ n ∧ n ≤ hi
    · simp [Decoder.map, Decoder.integer, hn, Except.map, eq_comm]
    · simp [Decoder.map, Decoder.integer, hn, Except.map]
  rw [ofMembers_defaulted_iff h, hn]
  cases n? with
  | none => simp
  | some n => simp [hmap]

/-- A field that holds the name of a choice. -/
theorem ofMembers_choice {s? : Option String} (hs : es.lookup name = s?.map .string)
    {variants : List (String × α)} {value a : α} :
    (defaulted name (Decoder.choice variants) value).ofMembers .toml ms = .ok a ↔
      (∀ s ∈ s?, ∃ b, List.lookup s variants = some b) ∧
        a = (s?.bind (List.lookup · variants)).getD value := by
  rw [ofMembers_defaulted_iff h, hs]
  cases s? with
  | none => simp
  | some s =>
    have hpick : Decoder.choice variants .toml (.string s) = Decoder.pick variants s := rfl
    cases hv : List.lookup s variants <;> simp [hpick, Decoder.pick, hv, eq_comm]

/-- A record in a table of different names is what its fields are read as. -/
theorem decoder_members_iff (r : Record α) (hwell : ∀ e ∈ es, e.2.wellFormed = true)
    (hnames : (es.map (·.1)).Nodup) {a : α} :
    r.decoder .toml (.table ms) = .ok a ↔ r.ofMembers .toml ms = .ok a := by
  rw [decoder_table_iff r h hwell]
  exact and_iff_right fun name _ => List.nodup_iff_count_le_one.1 hnames name

end Document.Record

/-! ## Files -/

/-- A file whose text gives values to names, each of them once. -/
structure SettingsFile (t : FileTree) (path : String) (es : List (String × Document)) : Prop where
  content : ∃ text : String, t.fileContent path = .ok (.ofText text) ∧ Printed es text.toList
  names : (es.map (·.1)).Nodup

/-- Under the name of each field stands what is given for it, if anything is; what stands under
other names, and in which order, is left open. -/
def Gives (es : List (String × Document)) (fields : List (String × Option Document)) : Prop :=
  ∀ f ∈ fields, es.lookup f.1 = f.2

variable {t : FileTree} {path : String} {es : List (String × Document)}

/-- A settings file is read as its members. -/
theorem SettingsFile.read (h : SettingsFile t path es) : ∃ text ms,
    t.readText path = .ok text ∧ ms.entries? = some es ∧ (∀ e ∈ es, e.2.wellFormed = true) ∧
      ∀ {α : Type} (d : Decoder α), Toml.decode d text = d .toml (.table ms) := by
  obtain ⟨text, hcontent, hprinted⟩ := h.content
  refine ⟨text, _, FileTree.readText_of_fileContent hcontent, entries?_valueEntries es,
    hprinted.wellFormed, fun d => ?_⟩
  rw [Toml.decode, document?_printed hprinted h.names]

/-! ## Settings of the simulator -/

namespace Simulator.Settings

/-- What is given of the settings of the simulator. -/
structure Given where
  host : Option String
  port : Option Int

namespace Given

/-- Where it is given. -/
def fields (g : Given) : List (String × Option Document) := [
  ("host", g.host.map .string),
  ("port", g.port.map .integer)]

/-- It can be read as settings. -/
def Readable (g : Given) : Prop := ∀ n ∈ g.port, 0 ≤ n ∧ n ≤ 0xFFFF

/-- The settings with what is given, and with the defaults of what is not. -/
def settings (g : Given) : Settings where
  host := g.host.getD default.host
  port := (g.port.map fun n => UInt16.ofNat n.toNat).getD default.port

end Given

theorem decoder_members_iff {ms : Members} (hms : ms.entries? = some es)
    (hwell : ∀ e ∈ es, e.2.wellFormed = true) (hnames : (es.map (·.1)).Nodup) {g : Given}
    (hg : Gives es g.fields) {s : Settings} :
    decoder .toml (.table ms) = .ok s ↔ g.Readable ∧ s = g.settings := by
  have hhost := hg _ (by simp [Given.fields] : ("host", g.host.map .string) ∈ g.fields)
  have hport := hg _ (by simp [Given.fields] : ("port", g.port.map .integer) ∈ g.fields)
  rw [decoder, Record.decoder_members_iff hms _ hwell hnames]
  simp only [Record.ofMembers_seq_iff, Record.ofMembers_map_iff, Record.ofMembers_text hms hhost,
    Decoder.uint16, Record.ofMembers_number hms hport, Given.Readable, Given.settings]
  constructor
  · rintro ⟨_, _, ⟨_, rfl, rfl⟩, ⟨hrange, rfl⟩, rfl⟩
    exact ⟨hrange, rfl⟩
  · rintro ⟨hrange, rfl⟩
    exact ⟨_, _, ⟨_, rfl, rfl⟩, ⟨hrange, rfl⟩, rfl⟩

/-- What a file gives is read, with the defaults for the rest, unless it cannot be read. -/
theorem load_iff (h : SettingsFile t path es) {g : Given} (hg : Gives es g.fields) :
    (∀ s, load t path = .ok s ↔ g.Readable ∧ s = g.settings) ∧
      ((∃ f, load t path = .error (.parse f)) ↔ ¬g.Readable) := by
  obtain ⟨text, ms, htext, hms, hwell, hdecode⟩ := h.read
  have hiff := fun s => decoder_members_iff (s := s) hms hwell h.names hg
  simp only [load, htext, hdecode]
  cases hread : decoder .toml (.table ms) with
  | ok s =>
    have hs := (hiff s).1 hread
    refine ⟨fun s' => ?_, by simp [Except.mapError, hs.1]⟩
    rw [← hiff, hread]
    simp [Except.mapError]
  | error f =>
    have hnot : ¬g.Readable := fun hr => by simpa [hread] using (hiff g.settings).2 ⟨hr, rfl⟩
    simp [Except.mapError, hnot]

end Simulator.Settings

/-! ## Settings of a workspace -/

namespace Workspace.Settings

/-- What is given of the settings of a workspace. -/
structure Given where
  domain : Option String
  storeUrl : Option String
  mount : Option String
  validityDays : Option Int
  backend : Option String
  agentStub : Option String

namespace Given

/-- Where it is given. -/
def fields (g : Given) : List (String × Option Document) := [
  ("domain", g.domain.map .string),
  ("openbao_url", g.storeUrl.map .string),
  ("kv_mount", g.mount.map .string),
  ("cert_validity_days", g.validityDays.map .integer),
  ("issuer", g.backend.map .string),
  ("agent_stub", g.agentStub.map .string)]

/-- It can be read as settings. -/
structure Readable (g : Given) : Prop where
  validityDays : ∀ n ∈ g.validityDays, 0 ≤ n ∧ n ≤ 0xFFFFFFFF
  backend : ∀ name ∈ g.backend, name = "openssl" ∨ name = "rcgen"

/-- The settings with what is given, and with the defaults of what is not. -/
def settings (g : Given) : Settings where
  domain := g.domain.getD default.domain
  storeUrl := g.storeUrl.getD default.storeUrl
  mount := g.mount.getD default.mount
  validityDays := (g.validityDays.map fun n => UInt32.ofNat n.toNat).getD default.validityDays
  backend := (g.backend.map fun name => if name = "rcgen" then .internal else .openssl).getD
    default.backend
  agentStub := g.agentStub

end Given

/-- The names of backends. -/
theorem lookup_backend (name : String) :
    List.lookup name (Backend.all.map fun b => (b.name, b)) =
      if name = "openssl" then some .openssl
      else if name = "rcgen" then some .internal else none := by
  by_cases hopenssl : name = "openssl"
  · rw [if_pos hopenssl, hopenssl]
    rfl
  by_cases hinternal : name = "rcgen"
  · rw [if_neg hopenssl, if_pos hinternal, hinternal]
    rfl
  · simp [Backend.all, Backend.name, hopenssl, hinternal]

theorem decoder_members_iff {ms : Members} (hms : ms.entries? = some es)
    (hwell : ∀ e ∈ es, e.2.wellFormed = true) (hnames : (es.map (·.1)).Nodup) {g : Given}
    (hg : Gives es g.fields) {s : Settings} :
    decoder .toml (.table ms) = .ok s ↔ g.Readable ∧ s = g.settings := by
  obtain ⟨hdomain, hurl, hmount, hdays, hbackend, hstub⟩ :
      es.lookup "domain" = g.domain.map .string ∧ es.lookup "openbao_url" = g.storeUrl.map .string ∧
      es.lookup "kv_mount" = g.mount.map .string ∧
      es.lookup "cert_validity_days" = g.validityDays.map .integer ∧
      es.lookup "issuer" = g.backend.map .string ∧
      es.lookup "agent_stub" = g.agentStub.map .string := by
    simpa [Gives, Given.fields] using hg
  -- of the names that are looked up, only those of backends are found
  have hfound : (∀ name ∈ g.backend,
      ∃ b, List.lookup name (Backend.all.map fun b => (b.name, b)) = some b) ↔
        ∀ name ∈ g.backend, name = "openssl" ∨ name = "rcgen" := by
    refine forall₂_congr fun name _ => ?_
    rw [lookup_backend]
    by_cases hopenssl : name = "openssl"
    · simp [hopenssl]
    · by_cases hinternal : name = "rcgen" <;> simp [hopenssl, hinternal]
  have hvalue : (∀ name ∈ g.backend, name = "openssl" ∨ name = "rcgen") →
      (g.backend.bind fun name => List.lookup name (Backend.all.map fun b => (b.name, b))) =
        g.backend.map fun name => if name = "rcgen" then .internal else .openssl := by
    intro h
    cases hname : g.backend with
    | none => rfl
    | some name => rcases h name hname with rfl | rfl <;> rfl
  have hnone : default.agentStub = none := rfl
  rw [decoder, Record.decoder_members_iff hms _ hwell hnames, hnone]
  simp only [Record.ofMembers_seq_iff, Record.ofMembers_map_iff, Record.ofMembers_text hms hdomain,
    Record.ofMembers_text hms hurl, Record.ofMembers_text hms hmount, Decoder.uint32,
    Record.ofMembers_number hms hdays, Backend.decoder, Record.ofMembers_choice hms hbackend,
    Record.ofMembers_nullableText hms hstub, hfound]
  constructor
  · rintro ⟨_, _, ⟨_, _, ⟨_, _, ⟨_, _, ⟨_, _, ⟨_, rfl, rfl⟩, rfl, rfl⟩, rfl, rfl⟩,
      ⟨hrange, rfl⟩, rfl⟩, ⟨hnames, rfl⟩, rfl⟩, rfl, rfl⟩
    exact ⟨⟨hrange, hnames⟩, by rw [hvalue hnames, Given.settings]⟩
  · rintro ⟨⟨hrange, hnames⟩, rfl⟩
    refine ⟨_, _, ⟨_, _, ⟨_, _, ⟨_, _, ⟨_, _, ⟨_, rfl, rfl⟩, rfl, rfl⟩, rfl, rfl⟩,
      ⟨hrange, rfl⟩, rfl⟩, ⟨hnames, rfl⟩, rfl⟩, rfl, ?_⟩
    rw [hvalue hnames, Given.settings]

/-- Settings fail their check just if no day is given. -/
theorem Given.check_settings {g : Given} (h : g.Readable) :
    g.settings.check = if g.validityDays = some 0 then .error .zeroValidity else .ok () := by
  have hzero : g.settings.validityDays = 0 ↔ g.validityDays = some 0 := by
    rw [Given.settings, ← UInt32.toNat_inj]
    cases hn : g.validityDays with
    | none => simp [default]
    | some n =>
      have hrange := h.validityDays n hn
      have hvalue : (UInt32.ofNat n.toNat).toNat = n.toNat :=
        UInt32.toNat_ofNat_of_lt' (by have hsize : UInt32.size = 4294967296 := rfl; omega)
      simp only [Option.map_some, Option.getD_some, hvalue, Option.some.injEq, UInt32.toNat_zero]
      omega
  rw [check]
  exact if_congr hzero rfl rfl

/-- What a file gives is read and checked, with the defaults for the rest, unless it cannot be
read. -/
theorem load_iff (h : SettingsFile t path es) {g : Given} (hg : Gives es g.fields) :
    (∀ s, load t path = .ok s ↔ g.Readable ∧ g.validityDays ≠ some 0 ∧ s = g.settings) ∧
      ((∃ f, load t path = .error (.load (.parse f))) ↔ ¬g.Readable) ∧
        (load t path = .error .zeroValidity ↔ g.Readable ∧ g.validityDays = some 0) := by
  obtain ⟨text, ms, htext, hms, hwell, hdecode⟩ := h.read
  have hiff := fun s => decoder_members_iff (s := s) hms hwell h.names hg
  simp only [load, htext, ofText, hdecode]
  cases hread : decoder .toml (.table ms) with
  | ok s =>
    obtain ⟨hreadable, rfl⟩ := (hiff s).1 hread
    by_cases hzero : g.validityDays = some 0
    · simp [Except.mapError, Given.check_settings hreadable, hzero, hreadable, bind, Except.bind]
    · simp [Except.mapError, Given.check_settings hreadable, hzero, hreadable, bind, Except.bind,
        pure, Except.pure, eq_comm]
  | error f =>
    have hnot : ¬g.Readable := fun hr => by simpa [hread] using (hiff g.settings).2 ⟨hr, rfl⟩
    simp [Except.mapError, hnot, bind, Except.bind]

end Workspace.Settings

/-! ## Settings files -/

/-- **Settings files are read exactly.** What a file gives is read as it is given, and what it does
not give has its default; the file cannot be read if a number is out of range or a backend is
unknown, and otherwise settings for which no certificate is valid are refused. What a command line
gives replaces host and port of the simulator, each on its own. -/
theorem load_settingsFile (h : SettingsFile t path es) :
    (∀ g : Workspace.Settings.Given, Gives es g.fields →
      (∀ s, Workspace.Settings.load t path = .ok s ↔
        g.Readable ∧ g.validityDays ≠ some 0 ∧ s = g.settings) ∧
      ((∃ f, Workspace.Settings.load t path = .error (.load (.parse f))) ↔ ¬g.Readable) ∧
      (Workspace.Settings.load t path = .error .zeroValidity ↔
        g.Readable ∧ g.validityDays = some 0)) ∧
    ∀ g : Simulator.Settings.Given, Gives es g.fields →
      (∀ s, Simulator.Settings.load t path = .ok s ↔ g.Readable ∧ s = g.settings) ∧
      ((∃ f, Simulator.Settings.load t path = .error (.parse f)) ↔ ¬g.Readable) ∧
      ∀ s host port, Simulator.Settings.load t path = .ok s →
        (s.override host port).host =
            host.getD (g.host.getD Simulator.Settings.default.host) ∧
          (s.override host port).port = port.getD
            ((g.port.map fun n => UInt16.ofNat n.toNat).getD Simulator.Settings.default.port) := by
  refine ⟨fun g hg => Workspace.Settings.load_iff h hg, fun g hg => ?_⟩
  obtain ⟨hread, hfail⟩ := Simulator.Settings.load_iff h hg
  refine ⟨hread, hfail, fun s host port hs => ?_⟩
  obtain ⟨-, rfl⟩ := (hread s).1 hs
  exact ⟨rfl, rfl⟩

/-- A tree with a file of settings for both. -/
def sharedSettings : FileTree where
  nodes := ⟨[(["s"], .file 0o644 (.ofText "'port' = 70000\ncert_validity_days = 0\n"))], by decide⟩
  process := ⟨.superuser, []⟩

/-- The port is too large for the simulator, and no certificate would be valid in the workspace;
neither is a problem of the other. -/
theorem load_settingsFile_shared :
    Workspace.Settings.load sharedSettings "/s" = .error .zeroValidity ∧
      ∃ f, Simulator.Settings.load sharedSettings "/s" = .error (.parse f) := by
  have hport : SpellsScalar (.integer 70000) (integerText 70000) :=
    .integer ⟨by decide, by decide⟩
  have hdays : SpellsScalar (.integer 0) (integerText 0) := .integer ⟨by decide, by decide⟩
  have hfile : SettingsFile sharedSettings "/s"
      [("port", .integer 70000), ("cert_validity_days", .integer 0)] :=
    ⟨⟨_, rfl, .cons (.literal (by simp [isPlain])) hport (.cons (.bare (by decide)) hdays .nil)⟩,
      by decide⟩
  obtain ⟨hworkspace, hsimulator⟩ := load_settingsFile hfile
  have hzero := (hworkspace ⟨none, none, none, some 0, none, none⟩
    (by simp [Gives, Workspace.Settings.Given.fields, List.lookup_cons])).2.2
  have hlarge := (hsimulator ⟨none, some 70000⟩
    (by simp [Gives, Simulator.Settings.Given.fields, List.lookup_cons])).2.1
  refine ⟨hzero.2 ⟨⟨by simp, by simp⟩, rfl⟩, hlarge.2 fun h => ?_⟩
  exact absurd (h 70000 rfl).2 (by decide)

end CredentialBench
