import Mathlib.Data.Prod.Basic
import CredentialBench.Proofs.Workspace.Index
import CredentialBench.Proofs.Workspace.Interruption

/-!
# Runs with any program

Whatever stands in for `openssl`, a run that succeeds leaves every certificate and every key for its
owner alone: the issuer takes the permissions of both back, and that fails where one is missing. A
program may end as it likes, and make, overwrite or delete the two files with any permissions; all
that it must not do is touch other files (`Program.Confined`). The first call that ends without
success or leaves a file out ends the run (`run_anyProgram`).
-/

namespace CredentialBench.Workspace

open FileTree CredentialBench.Path

/-! ## Taking permissions back -/

section Requests

variable {t t' : FileTree} {i : Identity} {certs p : Place}

theorem Request.above (h : Request t i certs) (hp : p ∈ i.outputs certs) :
    t.Grounded p.dropLast := by
  have hplace : p.dropLast = certs := by
    rcases List.mem_pair.1 hp with rfl | rfl <;> exact List.dropLast_concat
  exact hplace ▸ h.grounded

/-- Permissions cannot be taken back where there is nothing. -/
theorem Request.restrict_absent (h : Request t i certs) (hp : p ∈ i.outputs certs) (hl : Legal p)
    (hnone : t.node? p = none) : t.restrict (textOfPlace p) = (.error .noEntry, t) := by
  have hstat := stat_absent (h.proper p hp) (Identity.ne_nil_of_mem_outputs hp) (h.straight p hp)
    hl (h.above hp) hnone
  rw [restrict, setMode, hstat]
  rfl

/-- They can where there is something. -/
theorem Request.restrict_present (h : Request t i certs) (hp : p ∈ i.outputs certs) (hl : Legal p)
    (hthere : t.node? p ≠ none) : ∃ t', t.restrict (textOfPlace p) = (.ok (), t') := by
  obtain ⟨n, hnode⟩ := Option.ne_none_iff_exists'.1 hthere
  have hstat := stat_place (h.proper p hp) (Identity.ne_nil_of_mem_outputs hp) (h.straight p hp)
    hl (h.above hp) hnode
  rw [restrict, setMode, hstat]
  cases n <;> exact ⟨_, rfl⟩

end Requests

/-! ## Programs -/

namespace Issuer

/-- A program ends with success, and both files are there. -/
def Finish.Faultless (finish : Finish) (i : Identity) (certs : Place) : Prop :=
  finish.status = .exited 0 ∧ ∀ q ∈ i.outputs certs, finish.tree.node? q ≠ none

/-- A program does not end so, and the error that is to say why: a bad status comes before a missing
file, and a missing certificate before a missing key. -/
inductive Finish.Fault (finish : Finish) (i : Identity) (certs : Place) : IssueError → Prop
  | status (h : finish.status ≠ .exited 0) :
    Fault finish i certs (.opensslFailed finish.status.text (outputText finish.output))
  | cert (hstatus : finish.status = .exited 0) (h : finish.tree.node? (i.certPlace certs) = none) :
    Fault finish i certs (.write (textOfPlace (i.certPlace certs)) .noEntry)
  | key (hstatus : finish.status = .exited 0) (hcert : finish.tree.node? (i.certPlace certs) ≠ none)
      (h : finish.tree.node? (i.keyPlace certs) = none) :
    Fault finish i certs (.write (textOfPlace (i.keyPlace certs)) .noEntry)

/-- The program that a machine starts for an identity ends so. -/
def Machine.Ends (machine : Machine) (days : UInt32) (i : Identity) (certs : Place) (t : FileTree)
    (finish : Finish) : Prop :=
  ∃ program, machine.Starts none days i certs t program ∧
    program (opensslArguments days i (textOfPlace certs)) t = finish

variable {machine : Machine} {program : Program} {days : UInt32} {finish : Finish} {i : Identity}
  {certs : Place} {t t' : FileTree} {cause : IssueError}

/-- There is an error for every end that is not without fault, and for no other. -/
theorem Finish.exists_fault_iff :
    (∃ cause, finish.Fault i certs cause) ↔ ¬ finish.Faultless i certs := by
  constructor
  · rintro ⟨cause, h | ⟨-, h⟩ | ⟨-, -, h⟩⟩ ⟨hstatus, hthere⟩
    · exact h hstatus
    · exact hthere _ (Request.outputs i certs).1 h
    · exact hthere _ (Request.outputs i certs).2 h
  · intro h
    by_cases hstatus : finish.status = .exited 0
    · by_cases hcert : finish.tree.node? (i.certPlace certs) = none
      · exact ⟨_, .cert hstatus hcert⟩
      · refine ⟨_, .key hstatus hcert (by_contra fun hkey => h ⟨hstatus, fun q hq => ?_⟩)⟩
        rcases List.mem_pair.1 hq with rfl | rfl
        · exact hcert
        · exact hkey
    · exact ⟨_, .status hstatus⟩

/-- **A fault of the program is an error of the issuer**, where the system takes the names of the
files. -/
theorem ofProgram_of_fault (h : program.Confined days) (hreq : Request t i certs)
    (hlegal : ∀ q ∈ i.outputs certs, Legal q)
    (hfinish : program (opensslArguments days i (textOfPlace certs)) t = finish)
    (hfault : finish.Fault i certs cause) :
    (ofProgram program days i (textOfPlace certs) t).1 = .error (.error cause) := by
  obtain ⟨hcert, hkey⟩ := Request.outputs i certs
  have htouched := h t i certs hreq
  rw [hfinish] at htouched
  have hreq' := hreq.keeps htouched.keeps
  rw [ofProgram_eq hreq hfinish]
  cases hfault with
  | status hstatus => rw [if_pos hstatus]
  | cert hstatus hnone =>
    rw [if_neg (not_not.2 hstatus), restrictBoth,
      hreq'.restrict_absent hcert (hlegal _ hcert) hnone]
    rfl
  | key hstatus hthere hnone =>
    obtain ⟨t₁, hr⟩ := hreq'.restrict_present hcert (hlegal _ hcert) hthere
    obtain ⟨-, -, htouched₁, hother⟩ := hreq'.restrict_eq_ok hcert hr
    have hnone₁ := (hother _ (certPlace_ne_keyPlace i certs).symm).trans hnone
    have hr₁ := (hreq'.keeps htouched₁.keeps).restrict_absent hkey (hlegal _ hkey) hnone₁
    rw [if_neg (not_not.2 hstatus), restrictBoth, hr]
    simp only [both, hr₁]

/-- **The issuer that runs `openssl` succeeds after programs without fault only.** -/
theorem exists_faultless_of_openssl (h : machine.Confined days) (hreq : Request t i certs)
    {answer : Issued} (hok : openssl machine none days i (textOfPlace certs) t =
      (.ok answer, t')) :
    ∃ finish, machine.Ends days i certs t finish ∧ finish.Faultless i certs := by
  rcases machine.starts_or none days i certs t with ⟨program, hstarts⟩ | ⟨cause, hr⟩
  · rw [hstarts.openssl_eq] at hok
    obtain ⟨hstatus, -, hboth⟩ := ofProgram_eq_ok (hstarts.confined h) hreq rfl hok
    exact ⟨_, ⟨program, hstarts, rfl⟩, hstatus, fun q hq => (hboth q hq).1⟩
  · rw [hr] at hok
    cases hok

end Issuer

/-! ## Names -/

/-- The system takes a place if it takes one beside it with longer names. -/
theorem legal_beside {p : Place} {d d' file file' : String} (hp : p ≠ [])
    (h : Legal (p ++ [d, file])) (hnul : '\x00' ∉ d'.toList ∧ '\x00' ∉ file'.toList)
    (hd : d'.utf8ByteSize ≤ d.utf8ByteSize) (hfile : file'.utf8ByteSize ≤ file.utf8ByteSize) :
    Legal (p ++ [d', file']) := by
  have hshort := h.short
  have hfits := h.fits
  simp only [List.mem_append, List.mem_cons, List.not_mem_nil, or_false, or_imp, forall_and,
    forall_eq] at hshort
  rw [textOfPlace_append hp (List.cons_ne_nil _ _)] at hfits
  refine ⟨?_, ?_, ?_⟩
  · simp only [List.mem_append, List.mem_cons, List.not_mem_nil, or_false, or_imp, forall_and,
      forall_eq]
    exact ⟨fun name hname => h.no_nul name (List.mem_append_left _ hname), hnul⟩
  · simp only [List.mem_append, List.mem_cons, List.not_mem_nil, or_false, or_imp, forall_and,
      forall_eq]
    exact ⟨hshort.1, Nat.le_trans hd hshort.2.1, Nat.le_trans hfile hshort.2.2⟩
  · rw [textOfPlace_append hp (List.cons_ne_nil _ _)]
    simp [textOfPlace, String.utf8ByteSize_append] at hfits ⊢
    omega

/-- The system takes the outputs of a service if it takes its configuration. -/
theorem Service.legal_outputs (x : Service) {host : Place} (hne : host ≠ [])
    (h : Legal (Layout.agentConfig host x.name)) (hostId domain : String) :
    ∀ q ∈ (x.identity hostId domain).outputs (Layout.certs host), Legal q := by
  have hname : '\x00' ∉ x.name.toList := by
    have hmem := h.no_nul (x.name ++ ".toml") (by simp [Layout.agentConfig])
    exact fun hn => hmem (by simp [hn])
  rw [Layout.agentConfig, Layout.configs, List.append_assoc] at h
  have hbeside : ∀ ending : String, '\x00' ∉ ending.toList →
      ending.utf8ByteSize ≤ ".toml".utf8ByteSize →
      Legal (Layout.certs host ++ [x.name ++ ending]) := by
    intro ending hnul hsize
    rw [Layout.certs, List.append_assoc]
    exact legal_beside hne h ⟨by decide, by simp [hname, hnul]⟩ (by decide)
      (by simpa using hsize)
  intro q hq
  rcases List.mem_pair.1 hq with rfl | rfl
  · exact hbeside ".crt" (by decide) (by decide)
  · exact hbeside ".key" (by decide) (by decide)

/-! ## Plans -/

section Plans

variable {root q : Place} {stub : Content} {M : Marking} {made : List Place} {s : Step}
  {steps rest : List Step} {b b' : Bench} {issuer : Issuer} {i : Identity} {certs : Place}

/-- A certificate that was asked for properly would be again in the end. -/
theorem performAll_request (h : Sound root stub M made steps) (hconfined : issuer.Confined)
    (hu : Under root made b.tree) {issued : List Issued}
    (hok : performAll issuer b steps = (.ok issued, b')) (hi : .issue i certs ∈ steps) :
    Request b'.tree i certs := by
  refine performAll_establishes (Request · i certs) h hconfined hu hok
    (fun h hu hr hreq => ?_) (.inr ⟨_, hi, fun h hu hr => ?_⟩)
  · have htouched := h.perform_touched hconfined hu
    rw [hr] at htouched
    exact hreq.keeps htouched.keeps
  · have htouched := h.perform_touched hconfined hu
    rw [hr] at htouched
    exact (h.request hu).keeps htouched.keeps

/-- The system takes the outputs of a service whose configuration has been written. -/
theorem performAll_legal_outputs {x : Service} {host : Place} {access : Access} {content : Content}
    (h : Sound root stub M made steps) (hconfined : issuer.Confined) (hu : Under root made b.tree)
    {issued : List Issued} (hok : performAll issuer b steps = (.ok issued, b')) (hne : host ≠ [])
    (hmem : .write (Layout.agentConfig host x.name) access content ∈ steps)
    (hostId domain : String) :
    ∀ q ∈ (x.identity hostId domain).outputs (Layout.certs host), Legal q := by
  obtain ⟨m, hm, hcontent⟩ := Step.exists_mark stub (Layout.agentConfig host x.name) access content
  have hholds := performAll_holds h hconfined hu hok (h.marks _ hmem _ m hm) hcontent
    (.inr ⟨access, hmem⟩)
  exact x.legal_outputs hne hholds.legal hostId domain

end Plans

/-! ## Turns -/

variable {s : Scenario} {settings : Settings} {root : Place}

namespace Scenario.Turn

/-- Where the certificate and the key of a turn go. -/
def certs (k : s.Turn) (root : Place) : Place := Layout.certs (Layout.host root k.host.id)

/-- A turn is before another one in the order of the scenario. -/
def Precedes (j k : s.Turn) : Prop :=
  (∃ hosts, k.before = j.before ++ j.host :: hosts) ∨
    (k.before = j.before ∧ k.host = j.host ∧
      ∃ services, k.earlier = j.earlier ++ j.service :: services)

/-- The steps before a turn have those of every turn before it. -/
theorem Precedes.steps_eq {j k : s.Turn} (h : j.Precedes k) :
    ∃ rest, k.steps settings root = j.steps settings root ++
      .issue (j.identity settings.domain) (j.certs root) :: rest := by
  rcases h with ⟨hosts, hbefore⟩ | ⟨hbefore, hhost, services, hearlier⟩
  · rw [steps, steps, hbefore, List.flatMap_append, List.flatMap_cons, Host.steps_eq j.host,
      j.services_eq, List.flatMap_append, List.flatMap_cons, Service.steps_eq]
    simp only [certs, identity, Layout.certs, Layout.host, List.append_assoc, List.cons_append,
      List.nil_append]
    exact ⟨_, rfl⟩
  · rw [steps, steps, hbefore, hhost, hearlier, List.flatMap_append, List.flatMap_cons,
      Service.steps_eq]
    simp only [certs, identity, Layout.certs, Layout.host, List.append_assoc, List.cons_append,
      List.nil_append]
    exact ⟨_, rfl⟩

end Scenario.Turn

/-! ## Runs -/

/-- A run that has `openssl` make the certificates of a valid scenario, in a workspace where there
is no link, with programs that touch no other files than those they are to write. -/
structure ProgramRun (machine : Issuer.Machine) (settings : Settings) (s : Scenario)
    (directory : String) (b : Bench) (root : Place) : Prop where
  backend : settings.backend = .openssl
  confined : machine.Confined settings.validityDays
  started : b.tree.Started
  linkFree : b.tree.LinkFree root
  valid : validate settings s = .ok ()
  prepared : (prepare b directory).1 = .ok root

/-- A run has a turn's certificate asked for, and the program that is started for it ends so. -/
def Call (machine : Issuer.Machine) (today : Nat) (settings : Settings) (directory : String)
    (b : Bench) (root : Place) (k : s.Turn) (finish : Issuer.Finish) : Prop :=
  ∃ issued b₂, performAll (settings.issuer machine today) (prepare b directory).2
      (k.steps settings root) = (.ok issued, b₂) ∧
    machine.Ends settings.validityDays (k.identity settings.domain) (k.certs root) b₂.tree finish

namespace ProgramRun

variable {machine : Issuer.Machine} {today : Nat} {directory : String} {b b' b₂ : Bench}
  {stub : Content} {k : s.Turn} {finish : Issuer.Finish} {cause : IssueError}
  {manifest : Manifest} {issued : List Issued}

theorem issuer_eq (h : ProgramRun machine settings s directory b root) (today : Nat) :
    settings.issuer machine today = .openssl machine none settings.validityDays := by
  rw [Settings.issuer, h.backend]

theorem honest (h : ProgramRun machine settings s directory b root) (today : Nat) :
    (settings.issuer machine today).Honest :=
  settings.honest_issuer today h.confined

theorem prepare_eq (h : ProgramRun machine settings s directory b root) :
    prepare b directory = (.ok root, (prepare b directory).2) := by
  rw [← h.prepared]

theorem under (h : ProgramRun machine settings s directory b root) :
    Under root [root] (prepare b directory).2.tree :=
  prepare_under h.started h.prepare_eq h.linkFree

theorem sound (h : ProgramRun machine settings s directory b root) :
    Sound root stub (Marked stub (s.steps settings root manifest)) [root]
      (s.steps settings root manifest) :=
  s.sound (valid_of_validate h.valid) (prepare_ok h.started h.prepare_eq).1

/-- The certificate of a turn is asked for properly. -/
theorem request (h : ProgramRun machine settings s directory b root)
    (hreached : performAll (settings.issuer machine today) (prepare b directory).2
      (k.steps settings root) = (.ok issued, b₂)) :
    Request b₂.tree (k.identity settings.domain) (k.certs root) :=
  k.request (valid_of_validate h.valid) (prepare_ok h.started h.prepare_eq).1
    (h.honest today).confined h.under hreached

/-- The system takes the names of its files. -/
theorem legal (h : ProgramRun machine settings s directory b root)
    (hreached : performAll (settings.issuer machine today) (prepare b directory).2
      (k.steps settings root) = (.ok issued, b₂)) :
    ∀ q ∈ (k.identity settings.domain).outputs (k.certs root), Legal q := by
  have hsound : Sound root (.bytes []) (Marked (.bytes []) (s.steps settings root (.empty s.id)))
      [root] (k.steps settings root) :=
    k.sound (valid_of_validate h.valid) (prepare_ok h.started h.prepare_eq).1
  have hmem : .write (Layout.agentConfig (Layout.host root k.host.id) k.service.name) .owner
      (.ofText (AgentConfig.forService k.service.name k.host.id k.service.instanceId).toToml) ∈
        k.steps settings root :=
    List.mem_append_right _ (List.mem_append_right _
      (by simp [Service.seedSteps, Layout.agentConfig, Layout.configs]))
  exact performAll_legal_outputs hsound (h.honest today).confined h.under hreached
    (by simp [Layout.host]) hmem _ _

/-- **Where a plan gets past a turn**, the program was called for it and ended without fault. -/
theorem exists_call (h : ProgramRun machine settings s directory b root) {rest : List Step}
    (hok : performAll (settings.issuer machine today) (prepare b directory).2
      (k.steps settings root ++
        .issue (k.identity settings.domain) (k.certs root) :: rest) = (.ok issued, b')) :
    ∃ finish, Call machine today settings directory b root k finish ∧
      finish.Faultless (k.identity settings.domain) (k.certs root) := by
  rw [performAll_append] at hok
  rcases hreached : performAll (settings.issuer machine today) (prepare b directory).2
    (k.steps settings root) with ⟨e | before, b₂⟩ <;> rw [hreached] at hok
  · cases hok
  dsimp only at hok
  rw [performAll_cons, Step.perform, h.issuer_eq] at hok
  rcases hr : Issuer.openssl machine none settings.validityDays (k.identity settings.domain)
    (textOfPlace (k.certs root)) b₂.tree with ⟨e | answer, t'⟩ <;> rw [hr] at hok
  · cases hok
  obtain ⟨finish, hends, hfaultless⟩ :=
    Issuer.exists_faultless_of_openssl h.confined (h.request hreached) hr
  exact ⟨finish, ⟨before, b₂, hreached, hends⟩, hfaultless⟩

/-- **A fault ends the run**, and no other certificate is asked for. -/
theorem run_of_fault (h : ProgramRun machine settings s directory b root)
    (hcall : Call machine today settings directory b root k finish)
    (hfault : finish.Fault (k.identity settings.domain) (k.certs root) cause) :
    ∃ b', run (settings.issuer machine today) settings s directory b =
        (.error (.issue k.service.name cause), b') ∧
      b'.asked = b.asked ++ k.delivered settings.domain ++ [k.identity settings.domain] := by
  obtain ⟨issued, b₂, hreached, program, hstarts, hfinish⟩ := hcall
  have herror : (settings.issuer machine today (k.identity settings.domain)
      (textOfPlace (k.certs root)) b₂.tree).1 = .error (.error cause) := by
    rw [h.issuer_eq, hstarts.openssl_eq]
    exact Issuer.ofProgram_of_fault (hstarts.confined h.confined) (h.request hreached)
      (h.legal hreached) hfinish hfault
  rcases hr : settings.issuer machine today (k.identity settings.domain)
    (textOfPlace (k.certs root)) b₂.tree with ⟨e | answer, t'⟩ <;> rw [hr] at herror <;>
    cases herror
  refine ⟨⟨t', b₂.asked ++ [k.identity settings.domain]⟩,
    k.run_refused h.valid h.prepare_eq hreached hr, ?_⟩
  exact congrArg (· ++ _) (k.asked_of_reached h.started hreached)

/-- The turns before one that is reached had their calls, without fault. -/
theorem earlier_faultless (h : ProgramRun machine settings s directory b root)
    (hcall : Call machine today settings directory b root k finish) {j : s.Turn}
    (hj : j.Precedes k) :
    ∃ finish, Call machine today settings directory b root j finish ∧
      finish.Faultless (j.identity settings.domain) (j.certs root) := by
  obtain ⟨issued, b₂, hreached, -⟩ := hcall
  obtain ⟨rest, hsteps⟩ := hj.steps_eq
  rw [hsteps] at hreached
  exact h.exists_call hreached

/-- Where the manifest is to be no file is written by a run that fails. -/
theorem manifest_of_error (h : ProgramRun machine settings s directory b root) {e : RunError}
    (hrun : run (settings.issuer machine today) settings s directory b = (.error e, b')) :
    b'.tree.node? (Layout.manifest root) = b.tree.node? (Layout.manifest root) ∨
      b.tree.node? (Layout.manifest root) = none ∧
        IsDirectory (b'.tree.node? (Layout.manifest root)) := by
  have hlinks : ∀ root', (prepare b directory).1 = .ok root' → b.tree.LinkFree root' := by
    intro root' hroot
    obtain rfl := Except.ok.inj (h.prepared.symm.trans hroot)
    exact h.linkFree
  rcases run_error_changes (h.honest today).confined h.started hlinks hrun
    (Layout.manifest root) with hsame | ⟨hnone, -, hdir | ⟨hdir, -⟩⟩ | ⟨root', hroot, hne, -⟩
  · exact .inl hsame
  · exact .inr ⟨hnone, hdir ▸ isDirectory_some _⟩
  · exact .inr ⟨hnone, hdir⟩
  · obtain rfl := Except.ok.inj (h.prepared.symm.trans hroot)
    exact absurd rfl hne

/-- **A run that succeeds leaves the outputs for their owner alone**, at the paths that the manifest
records. -/
theorem stat_outputs (h : ProgramRun machine settings s directory b root)
    (hdone : ConfinedRun (settings.issuer machine today) settings s directory b b' root manifest)
    {n : Host} (hn : n ∈ s.hosts) {x : Service} (hx : x ∈ n.services) :
    ∃ e, manifest.find? n.id x.name = some e ∧ ∀ path ∈ [e.certPath, e.keyPath], ∃ q node,
      path = textOfPlace q ∧ b'.tree.stat path = .ok (q, node) ∧ node.mode? = some 0o600 := by
  obtain ⟨-, issued, -, hok⟩ := hdone.carried_out
  have hsound : Sound root (.bytes []) _ [root] (s.steps settings root manifest) := h.sound
  have hconfined := (h.honest today).confined
  have hissue : .issue (x.identity n.id settings.domain) (Layout.certs (Layout.host root n.id)) ∈
      s.steps settings root manifest := Scenario.mem_steps_issue hn hx
  have hconfig : .write (Layout.agentConfig (Layout.host root n.id) x.name) .owner
      (.ofText (AgentConfig.forService x.name n.id x.instanceId).toToml) ∈
        s.steps settings root manifest :=
    List.mem_append_left _ (Scenario.mem_hostSteps_of_service hn hx (by simp [Service.steps]))
  have hreq := performAll_request hsound hconfined h.under hok hissue
  have hlegal := performAll_legal_outputs hsound hconfined h.under hok (by simp [Layout.host])
    hconfig n.id settings.domain
  have hstat : ∀ q ∈ (x.identity n.id settings.domain).outputs
      (Layout.certs (Layout.host root n.id)), ∃ node,
        b'.tree.stat (textOfPlace q) = .ok (q, node) ∧ node.mode? = some 0o600 := by
    intro q hq
    have hfound : ∀ {node}, b'.tree.node? q = some node →
        b'.tree.stat (textOfPlace q) = .ok (q, node) := fun hnode =>
      stat_place (hreq.proper q hq) (Identity.ne_nil_of_mem_outputs hq) (hreq.straight q hq)
        (hlegal q hq) (hreq.above hq) hnode
    have hrestricted := performAll_restricted hsound hconfined (h.honest today).restrictive h.under
      hok hissue hq
    generalize hnode : b'.tree.node? q = node? at hrestricted
    cases hrestricted with
    | file content => exact ⟨_, hfound hnode, rfl⟩
    | directory => exact ⟨_, hfound hnode, rfl⟩
  refine ⟨_, hdone.find?_outputs (h.honest today).answers hn hx, fun path hpath => ?_⟩
  obtain ⟨hcertPath, hkeyPath⟩ := hreq.paths
  obtain ⟨hcert, hkey⟩ := Request.outputs (x.identity n.id settings.domain)
    (Layout.certs (Layout.host root n.id))
  rcases List.mem_pair.1 hpath with rfl | rfl
  · obtain ⟨node, hnode, hmode⟩ := hstat _ hcert
    exact ⟨_, node, hcertPath, (congrArg _ hcertPath).trans hnode, hmode⟩
  · obtain ⟨node, hnode, hmode⟩ := hstat _ hkey
    exact ⟨_, node, hkeyPath, (congrArg _ hkeyPath).trans hnode, hmode⟩

/-- **Whatever program stands in for `openssl`.** If a run succeeds, the certificate and the key
that the manifest on disk has for a service are there, and for the owner alone. And the first call
of the program in the order of the scenario that ends without success, or leaves one of the files
out, ends the run with an error about its service that says so; the program is not called for any
later service, and no manifest is written. -/
theorem run_anyProgram (h : ProgramRun machine settings s directory b root) (today : Nat) :
    (∀ manifest b', run (settings.issuer machine today) settings s directory b =
        (.ok manifest, b') →
      Manifest.load b'.tree (textOfPlace (root ++ ["layout.json"])) = .ok manifest ∧
      (∀ n ∈ s.hosts, ∀ x ∈ n.services, ∃ e, manifest.find? n.id x.name = some e ∧
        ∀ path ∈ [e.certPath, e.keyPath], ∃ q node, path = textOfPlace q ∧
          b'.tree.stat path = .ok (q, node) ∧ node.mode? = some 0o600) ∧
      ∀ k : s.Turn, ∃ finish, Call machine today settings directory b root k finish ∧
        finish.Faultless (k.identity settings.domain) (k.certs root)) ∧
    ∀ (k : s.Turn) finish, Call machine today settings directory b root k finish →
      ¬ finish.Faultless (k.identity settings.domain) (k.certs root) →
      ∃ cause b', finish.Fault (k.identity settings.domain) (k.certs root) cause ∧
        run (settings.issuer machine today) settings s directory b =
          (.error (.issue k.service.name cause), b') ∧
        b'.asked = b.asked ++ k.delivered settings.domain ++ [k.identity settings.domain] ∧
        (b'.tree.node? (Layout.manifest root) = b.tree.node? (Layout.manifest root) ∨
          b.tree.node? (Layout.manifest root) = none ∧
            IsDirectory (b'.tree.node? (Layout.manifest root))) ∧
        ∀ j : s.Turn, j.Precedes k →
          ∃ finish, Call machine today settings directory b root j finish ∧
            finish.Faultless (j.identity settings.domain) (j.certs root) := by
  refine ⟨fun manifest b' hrun => ?_, fun k finish hcall hnot => ?_⟩
  · have hdone : ConfinedRun (settings.issuer machine today) settings s directory b b' root
        manifest := ⟨(h.honest today).confined, h.started, h.linkFree, h.prepared, hrun⟩
    refine ⟨hdone.load_manifest, fun n hn x hx => h.stat_outputs hdone hn hx, fun k => ?_⟩
    obtain ⟨-, issued, -, hok⟩ := hdone.carried_out
    obtain ⟨rest, hsteps⟩ := k.steps_append settings root manifest
    rw [hsteps] at hok
    exact h.exists_call hok
  · obtain ⟨cause, hfault⟩ := Issuer.Finish.exists_fault_iff.2 hnot
    obtain ⟨b', hrun, hasked⟩ := h.run_of_fault hcall hfault
    exact ⟨cause, b', hfault, hrun, hasked, h.manifest_of_error hrun,
      fun j hj => h.earlier_faultless hcall hj⟩

end ProgramRun

/-- A program that writes its two files for all to read, but leaves one key out. -/
def careless (skipped : String) : Issuer.Program := fun words t =>
  let key := words.getD 6 ""
  let t := (t.writePlain (words.getD 8 "") (.ofText "")).2
  ⟨.exited 0, [], if key = skipped then t else (t.writePlain key (.ofText "")).2⟩

/-- A machine with this program. -/
def carelessMachine (skipped : String) : Issuer.Machine where
  openssl? _ := some "/openssl"
  start _ _ := .ok (careless skipped)

theorem Request.touched_writePlain {t : FileTree} {i : Identity} {certs p : Place}
    (h : Request t i certs) (hp : p ∈ i.outputs certs) (content : Content) :
    Touched (outputMarks (i.outputs certs)) t (t.writePlain (textOfPlace p) content).2 := by
  rcases writePlain_place (h.proper p hp) (Identity.ne_nil_of_mem_outputs hp) (h.straight p hp)
    content with ⟨hopen, t', hw, hup⟩ | ⟨-, e, hw⟩ <;> rw [hw]
  · exact .of_written hp hopen.node hup
  · exact .refl _ t

theorem confined_careless (skipped : String) (days : UInt32) :
    (carelessMachine skipped).Confined days := by
  rintro path t program ⟨⟩ t i certs hreq
  obtain ⟨hcert, hkey⟩ := Request.outputs i certs
  have hfirst := hreq.touched_writePlain hcert (.ofText "")
  have hwords : (Issuer.opensslArguments days i (textOfPlace certs)).getD 8 "" =
      textOfPlace (i.certPlace certs) ∧
      (Issuer.opensslArguments days i (textOfPlace certs)).getD 6 "" =
        textOfPlace (i.keyPlace certs) := hreq.paths
  simp only [careless, hwords]
  split
  · exact hfirst
  · exact hfirst.trans (outputMarks_functional _)
      ((hreq.keeps hfirst.keeps).touched_writePlain hkey _)

theorem programRun_careless (skipped : String) (h : validate .default s = .ok ()) :
    ProgramRun (carelessMachine skipped) .default s "/w" ⟨.ofProcess ⟨.superuser, []⟩, []⟩
      ["w"] where
  backend := rfl
  confined := confined_careless skipped _
  started := ⟨grounded_nil _, proper_nil⟩
  linkFree := linkFree_of_entries (fun _ h => absurd h List.not_mem_nil) _
  valid := h
  prepared := by decide +kernel

/-- Two services on one host. -/
def Scenario.pair : Scenario :=
  ⟨"s", [⟨"a", [⟨"x", "daemon", "1", none⟩, ⟨"y", "daemon", "1", none⟩]⟩]⟩

/-- The second one. -/
def Scenario.pairTurn : Scenario.pair.Turn where
  before := []
  host := ⟨"a", [⟨"x", "daemon", "1", none⟩, ⟨"y", "daemon", "1", none⟩]⟩
  after := []
  earlier := [⟨"x", "daemon", "1", none⟩]
  service := ⟨"y", "daemon", "1", none⟩
  later := []
  hosts_eq := rfl
  services_eq := rfl

/-- Whom the second certificate is for. -/
def carelessIdentity : Identity := Scenario.pairTurn.identity Settings.default.domain

/-- Where it goes. -/
def carelessCerts : Place := Scenario.pairTurn.certs ["w"]

/-- The run until it is asked for. -/
def carelessUntil : Except RunError (List Issued) × Bench :=
  performAll (Settings.default.issuer (carelessMachine "/w/nodes/a/certs/y.key") 0)
    (prepare ⟨.ofProcess ⟨.superuser, []⟩, []⟩ "/w").2 (Scenario.pairTurn.steps .default ["w"])

/-- The end of the program that leaves its key out. -/
def carelessFinish : Issuer.Finish :=
  careless "/w/nodes/a/certs/y.key"
    (Issuer.opensslArguments Settings.default.validityDays carelessIdentity
      (textOfPlace carelessCerts)) carelessUntil.2.tree

theorem careless_eq : carelessUntil.1.isOk = true ∧
    carelessFinish.tree.node? (carelessIdentity.certPlace carelessCerts) ≠ none ∧
    carelessFinish.tree.node? (carelessIdentity.keyPlace carelessCerts) = none := by
  decide +kernel

theorem call_careless :
    Call (carelessMachine "/w/nodes/a/certs/y.key") 0 .default "/w"
      ⟨.ofProcess ⟨.superuser, []⟩, []⟩ ["w"] Scenario.pairTurn carelessFinish := by
  have hwords : ∀ w ∈ "/openssl" :: Issuer.opensslArguments Settings.default.validityDays
      carelessIdentity (textOfPlace carelessCerts), '\x00' ∉ w.toList := by
    decide +kernel
  obtain ⟨issued, hreached⟩ : ∃ issued, carelessUntil = (.ok issued, carelessUntil.2) := by
    have hok := careless_eq.1
    rcases hresult : carelessUntil.1 with e | issued
    · rw [hresult] at hok
      cases hok
    · exact ⟨issued, Prod.fst_eq_iff.1 hresult⟩
  have hstarts : (carelessMachine "/w/nodes/a/certs/y.key").Starts none
      Settings.default.validityDays carelessIdentity carelessCerts carelessUntil.2.tree
      (careless "/w/nodes/a/certs/y.key") :=
    ⟨"/openssl", rfl, hwords, rfl⟩
  exact ⟨issued, carelessUntil.2, hreached, careless "/w/nodes/a/certs/y.key", hstarts, rfl⟩

theorem fault_careless {cause : IssueError}
    (h : carelessFinish.Fault carelessIdentity carelessCerts cause) :
    cause = .write "/w/nodes/a/certs/y.key" .noEntry := by
  cases h with
  | status hstatus => exact absurd rfl hstatus
  | cert _ hnone => exact absurd hnone careless_eq.2.1
  | key _ _ _ => decide

/-- Where nothing is left out a run succeeds, and a key that was for all to read is not any more; a
key that is left out ends the run. -/
theorem run_anyProgram_careless :
    (∃ manifest b' q node, run (Settings.default.issuer (carelessMachine "") 0) .default .single
        "/w" ⟨.ofProcess ⟨.superuser, []⟩, []⟩ = (.ok manifest, b') ∧
      b'.tree.stat "/w/nodes/a/certs/x.key" = .ok (q, node) ∧ node.mode? = some 0o600) ∧
    ∃ b', run (Settings.default.issuer (carelessMachine "/w/nodes/a/certs/y.key") 0) .default
        .pair "/w" ⟨.ofProcess ⟨.superuser, []⟩, []⟩ =
          (.error (.issue "y" (.write "/w/nodes/a/certs/y.key" .noEntry)), b') ∧
      b'.asked.map (·.service) = ["x", "y"] ∧
      ∀ mode content, b'.tree.node? ["w", "layout.json"] ≠ some (.file mode content) := by
  constructor
  · have hok : (run (Settings.default.issuer (carelessMachine "") 0) .default .single "/w"
        ⟨.ofProcess ⟨.superuser, []⟩, []⟩).1.isOk = true := by decide +kernel
    rcases hrun : run (Settings.default.issuer (carelessMachine "") 0) .default .single "/w"
      ⟨.ofProcess ⟨.superuser, []⟩, []⟩ with ⟨e | manifest, b'⟩
    · rw [hrun] at hok
      cases hok
    have h := programRun_careless "" (s := .single) rfl
    obtain ⟨-, hfiles, -⟩ := (h.run_anyProgram 0).1 manifest b' hrun
    have hdone : ConfinedRun (Settings.default.issuer (carelessMachine "") 0) .default .single "/w"
        ⟨.ofProcess ⟨.superuser, []⟩, []⟩ b' ["w"] manifest :=
      ⟨(h.honest 0).confined, h.started, h.linkFree, h.prepared, hrun⟩
    obtain ⟨e, hfind, hpaths⟩ := hfiles _ List.mem_cons_self _ List.mem_cons_self
    have hentry := hdone.find?_outputs (h.honest 0).answers List.mem_cons_self List.mem_cons_self
    obtain rfl := Option.some.inj (hfind.symm.trans hentry)
    obtain ⟨q, node, -, hstat, hmode⟩ := hpaths _ (List.mem_cons_of_mem _ List.mem_cons_self)
    exact ⟨manifest, b', q, node, rfl, hstat, hmode⟩
  · have hfault : ¬ carelessFinish.Faultless carelessIdentity carelessCerts :=
      fun h => h.2 _ (Request.outputs _ _).2 careless_eq.2.2
    obtain ⟨cause, b', hcause, hrun, hasked, hmanifest, -⟩ :=
      ((programRun_careless "/w/nodes/a/certs/y.key" rfl).run_anyProgram 0).2 _ _ call_careless
        hfault
    obtain rfl := fault_careless hcause
    have hnone : (FileTree.ofProcess ⟨.superuser, []⟩).node? (Layout.manifest ["w"]) = none := by
      decide
    refine ⟨b', hrun, by rw [hasked]; decide, fun mode content hnode => ?_⟩
    have hfile : b'.tree.node? (Layout.manifest ["w"]) = some (.file mode content) := hnode
    rw [hfile] at hmanifest
    rcases hmanifest with hsame | ⟨-, hdir⟩
    · rw [hnone] at hsame
      cases hsame
    · exact not_isDirectory_file mode content hdir

end CredentialBench.Workspace
