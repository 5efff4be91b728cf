import CredentialBench.Proofs.Json.Writing
import CredentialBench.Proofs.Workspace.Issuers
import CredentialBench.Proofs.Workspace.Outline

/-!
# What a run leaves

A run that succeeds leaves every place of the outline as its mark says, whatever stood there before,
and nothing else has changed but the directories that were missing on the way to the workspace
(`run_materializes`). Where a workspace is begun in an empty directory, the system takes the names,
and what is copied can be read, nothing but an issuer can stop it (`Unhindered.performAll_ok`).
-/

namespace CredentialBench.Workspace

open FileTree CredentialBench.Path

variable {b b' : Bench} {root : Place} {directory : String} {issuer : Issuer}
  {settings : Settings} {s : Scenario} {stub : Content} {manifest : Manifest}

/-! ## The directory of a workspace -/

/-- Preparing makes directories along the path only. -/
theorem prepare_builds (hst : b.tree.Started) (directory : String) :
    b.tree.Builds (Path.ofText directory).absolute (Begins directory)
      (prepare b directory).2.tree ∧ (prepare b directory).2.asked = b.asked := by
  obtain ⟨hb, -⟩ := ensureDirectory_builds hst directory
  rw [prepare]
  rcases hr : b.tree.ensureDirectory directory with ⟨e | u, t⟩ <;> rw [hr] at hb <;> exact ⟨hb, rfl⟩

/-- The place of a prepared workspace, and that it is prepared for good. -/
theorem prepare_ok (hst : b.tree.Started) (h : prepare b directory = (.ok root, b')) :
    Proper root ∧ b'.tree.Grounded root ∧
      ∀ t asked, b'.tree.Keeps t → prepare ⟨t, asked⟩ directory = (.ok root, ⟨t, asked⟩) := by
  obtain ⟨hb, hled⟩ := ensureDirectory_builds hst directory
  rw [prepare] at h
  rcases hr : b.tree.ensureDirectory directory with ⟨e | u, t⟩ <;> rw [hr] at h hb hled
  · cases h
  · obtain ⟨hcanonical, rfl⟩ := Prod.mk.inj h
    cases hstat : t.stat directory with
    | error e =>
      rw [canonical, hstat] at hcanonical
      cases hcanonical
    | ok r =>
      obtain ⟨p, n⟩ := r
      rw [canonical, hstat] at hcanonical
      obtain rfl : p = root := Except.ok.inj hcanonical
      have htext := (stat_eq_ok_iff.1 hstat).1
      obtain ⟨q, hq⟩ := hled _ htext rfl
      have hst' := hb.keeps.started hst
      -- The path is found to lead where its names lead.
      obtain ⟨mode, hfound⟩ := stat_of_leads htext hq
      obtain ⟨rfl, -⟩ := Prod.mk.inj (Except.ok.inj (hfound.symm.trans hstat))
      obtain ⟨hproper, habove, hdir⟩ : Proper q ∧ t.Grounded q.dropLast ∧
          IsDirectory (t.node? q) := by
        obtain ⟨mode', hspot⟩ := hq
        cases locate_settled hst' (fun _ hn => undivided_of_mem_names hn) hspot with
        | found proper above node => exact ⟨proper, above, mode', node⟩
      refine ⟨hproper, ?_, fun t' asked hk => ?_⟩
      · rcases List.eq_nil_or_concat' q with rfl | ⟨d, name, rfl⟩
        · exact grounded_nil t
        · rw [List.dropLast_concat] at habove
          exact habove.concat hdir
      · have hq' := hq.of_keeps hk hst' (hk.directory q hdir)
        obtain ⟨mode', hfound'⟩ := stat_of_leads htext hq'
        rw [prepare, ensureDirectory_of_leads htext hq']
        simp only [canonical, hfound']
        rfl

/-- A workspace can be had at every place that the system takes, where nothing but directories is on
the way; nothing changes below it. -/
theorem prepare_place (hst : b.tree.Started) (hp : Proper root) (hl : Legal root)
    (hc : b.tree.Clear root) :
    (prepare b (textOfPlace root)).1 = .ok root ∧
      ∀ q, ¬ q <+: root → (prepare b (textOfPlace root)).2.tree.node? q = b.tree.node? q := by
  have hok := ensureDirectory_of_clear hst hp hl hc
  have hnode := ensureDirectory_place hst hp hc.straight
  have hb := (ensureDirectory_builds hst (textOfPlace root)).1
  rw [prepare]
  rcases hr : b.tree.ensureDirectory (textOfPlace root) with ⟨e | u, t⟩ <;>
    rw [hr] at hok hnode hb
  · cases hok
  · obtain ⟨-, hg⟩ := ensureDirectory_place_ok hst hp hc.straight hr
    have htext : Path.ofText? (textOfPlace root) = .ok (Path.ofText (textOfPlace root)) := by
      rw [hl.ofText?_eq hp, ofText_textOfPlace hp]
    have hled : t.Leads (Path.ofText (textOfPlace root)).absolute
        (Path.ofText (textOfPlace root)).names root := by
      rw [ofText_textOfPlace hp]
      exact (leads_place_iff hp (hb.keeps.straight hc.straight)).2 ⟨rfl, hg, hl.short⟩
    obtain ⟨mode, hfound⟩ := stat_of_leads htext hled
    have hcanonical : t.canonical (textOfPlace root) = .ok root := by
      rw [canonical, hfound]
      rfl
    exact ⟨congrArg (Except.mapError _) hcanonical,
      fun q hq => (hnode q).resolve_right fun h => hq h.1⟩

/-- A run after the workspace is prepared carries out the plan of a manifest, which is made of what
the issuer answers. -/
theorem run_of_prepare (issuer : Issuer) {b₁ : Bench} (hvalid : validate settings s = .ok ())
    (hprepare : prepare b directory = (.ok root, b₁)) :
    ∃ manifest, (∀ issued b₂, performAll issuer b₁ (s.hostSteps settings root) =
        (.ok issued, b₂) → manifest = s.manifest root issued) ∧
      run issuer settings s directory b =
        ((performAll issuer b₁ (s.steps settings root manifest)).1.map fun _ => manifest,
          (performAll issuer b₁ (s.steps settings root manifest)).2) := by
  rw [run, hvalid, hprepare]
  simp only [Scenario.steps, performAll_append]
  rcases performAll issuer b₁ (s.hostSteps settings root) with ⟨e | issued, b₂⟩
  · exact ⟨s.manifest root [], fun _ _ h => (by cases h), rfl⟩
  · refine ⟨s.manifest root issued, fun _ _ h => (by cases h; rfl), ?_⟩
    simp only [performAll_cons]
    rcases ((s.manifest root issued).step root).perform issuer b₂ with ⟨e | more, b₃⟩ <;> rfl

/-- A run that succeeds: it was checked, prepared, and carried out. -/
theorem run_eq_ok {manifest : Manifest}
    (h : run issuer settings s directory b = (.ok manifest, b')) :
    validate settings s = .ok () ∧ ∃ root b₁ issued, prepare b directory = (.ok root, b₁) ∧
      performAll issuer b₁ (s.steps settings root manifest) = (.ok issued, b') ∧
      manifest = s.manifest root issued := by
  rw [run] at h
  split at h
  · cases h
  rename_i hvalid
  split at h
  · cases h
  rename_i root b₁ hprepare
  split at h
  · cases h
  rename_i issued b₂ hperform
  dsimp only at h
  rcases hlast : ((s.manifest root issued).step root).perform issuer b₂ with ⟨e | more, b₃⟩ <;>
    rw [hlast] at h <;> cases h
  have hnone : more = [] := List.length_eq_zero_iff.1 (Step.perform_length hlast)
  refine ⟨hvalid, root, b₁, issued, hprepare, ?_, rfl⟩
  rw [Scenario.steps, performAll_append, hperform]
  dsimp only
  rw [performAll_cons, hlast, hnone]
  exact Prod.ext (congrArg Except.ok (List.append_nil issued)) rfl

/-- A run of an issuer that answers with its outputs carries out the plan of the manifest that names
them. -/
theorem run_of_answers {b₁ : Bench} (hconfined : issuer.Confined) (hissuer : issuer.Answers)
    (hvalid : validate settings s = .ok ()) (hs : s.Valid)
    (hprepare : prepare b directory = (.ok root, b₁)) (hroot : Proper root)
    (hu : Under root [root] b₁.tree)
    (hmanifest : s.manifest root (s.issued settings.domain root) = manifest) :
    run issuer settings s directory b =
      ((performAll issuer b₁ (s.steps settings root manifest)).1.map fun _ => manifest,
        (performAll issuer b₁ (s.steps settings root manifest)).2) := by
  have hwhole : Sound root (.bytes []) _ [root] (s.steps settings root (s.manifest root [])) :=
    s.sound hs hroot
  have hsound : Sound root (.bytes []) _ [root] (s.hostSteps settings root) := hwhole.left
  rw [run, hvalid, hprepare]
  simp only [Scenario.steps, performAll_append]
  rcases hperform : performAll issuer b₁ (s.hostSteps settings root) with ⟨e | issued, b₂⟩
  · rfl
  · have hissued := performAll_answers hsound hconfined hissuer hu hperform
    rw [s.flatMap_answers] at hissued
    simp only [hissued, hmanifest, performAll_cons]
    rcases (manifest.step root).perform issuer b₂ with ⟨e | more, b₃⟩ <;> rfl

theorem valid_of_validate (h : validate settings s = .ok ()) : s.Valid := by
  rw [validate] at h
  cases hsettings : settings.check with
  | error e =>
    rw [hsettings] at h
    cases h
  | ok u =>
    rw [hsettings] at h
    cases hcheck : s.check with
    | error e =>
      rw [hcheck] at h
      cases h
    | ok u => exact Scenario.valid_of_check hcheck

/-- A prepared workspace, ready for the first step. -/
theorem prepare_under (hst : b.tree.Started) (h : prepare b directory = (.ok root, b'))
    (hlinks : b.tree.LinkFree root) : Under root [root] b'.tree := by
  obtain ⟨hproper, hg, -⟩ := prepare_ok hst h
  have hb := (prepare_builds hst directory).1
  rw [h] at hb
  refine ⟨⟨hb.keeps.started hst, hg, hb.keeps.linkFree hlinks⟩, fun d hd => ?_⟩
  rw [List.mem_singleton.1 hd]
  exact hg

/-- A valid scenario, and a directory for it that is empty once it is there. -/
structure EmptyStart (settings : Settings) (s : Scenario) (directory : String) (b : Bench)
    (root : Place) : Prop where
  valid : validate settings s = .ok ()
  started : b.tree.Started
  prepared : (prepare b directory).1 = .ok root
  empty : ∀ q, root <+: q → q ≠ root → (prepare b directory).2.tree.node? q = none

namespace EmptyStart

/-- An empty directory, or one that can be made, is an empty start. -/
theorem of_clear (hvalid : validate settings s = .ok ()) (hst : b.tree.Started) (hp : Proper root)
    (hl : Legal root) (hc : b.tree.Clear root)
    (hempty : ∀ q, root <+: q → q ≠ root → b.tree.node? q = none) :
    EmptyStart settings s (textOfPlace root) b root := by
  obtain ⟨hprepared, hbelow⟩ := prepare_place hst hp hl hc
  refine ⟨hvalid, hst, hprepared, fun q hq hne => ?_⟩
  rw [hbelow q fun hpre => hne (hpre.eq_of_length_le hq.length_le)]
  exact hempty q hq hne

/-- A free name in a directory is an empty start. -/
theorem of_vacant {d : Place} {name : String} (hvalid : validate settings s = .ok ())
    (hst : b.tree.Started) (hp : Proper (d ++ [name])) (hl : Legal (d ++ [name]))
    (hd : b.tree.Grounded d) (hnone : ∀ e ∈ b.tree.nodes.entries, ¬ d ++ [name] <+: e.1) :
    EmptyStart settings s (textOfPlace (d ++ [name])) b (d ++ [name]) := by
  have hbelow : ∀ q, d ++ [name] <+: q → b.tree.node? q = none := by
    intro q hq
    have hne : q ≠ [] := by
      rintro rfl
      simp at hq
    cases hnode : b.tree.node? q with
    | none => rfl
    | some n => exact absurd hq (hnone _ (mem_entries_of_node? hne hnode))
  refine of_clear hvalid hst hp hl (fun q hq => ?_) fun q hq _ => hbelow q hq
  rcases List.prefix_concat_iff.1 hq with rfl | hq
  · exact .inl (hbelow _ List.prefix_rfl)
  · exact .inr (hd q hq)

theorem prepare_eq (h : EmptyStart settings s directory b root) :
    prepare b directory = (.ok root, (prepare b directory).2) := by
  rw [← h.prepared]

/-- There are no links in an empty directory. -/
theorem linkFree (h : EmptyStart settings s directory b root) : b.tree.LinkFree root := by
  intro q hq target hl
  have hkeeps := (prepare_builds h.started directory).1.keeps
  obtain ⟨-, hg, -⟩ := prepare_ok h.started h.prepare_eq
  have hprepared := (hkeeps.link q target).2 hl
  by_cases hroot : q = root
  · exact hg.node.not_link target (hroot ▸ hprepared)
  · rw [h.empty q hq hroot] at hprepared
    cases hprepared

theorem under (h : EmptyStart settings s directory b root) :
    Under root [root] (prepare b directory).2.tree :=
  prepare_under h.started h.prepare_eq h.linkFree

theorem sound (h : EmptyStart settings s directory b root) :
    Sound root stub (Marked stub (s.steps settings root manifest)) [root]
      (s.steps settings root manifest) :=
  s.sound (valid_of_validate h.valid) (prepare_ok h.started h.prepare_eq).1

/-- There is nothing yet at the places of a run, but for the directories on the way. -/
theorem nothing (h : EmptyStart settings s directory b root) {q : Place} {m : Mark}
    (hm : Marked stub (s.steps settings root manifest) q m) :
    (m = .directory ∧ IsDirectory ((prepare b directory).2.tree.node? q)) ∨
      (prepare b directory).2.tree.node? q = none := by
  rcases s.marked_iff.1 hm with ⟨-, hq, rfl⟩ | hm
  · exact .inl ⟨rfl, h.under.grounded q hq⟩
  · obtain ⟨r, hne, -, rfl⟩ := s.outline_below (valid_of_validate h.valid) hm
    exact .inr (h.empty _ (List.prefix_append _ _) (by simpa using hne))

/-- Where nothing is there yet, no file of a run is locked. -/
theorem unlocked (h : EmptyStart settings s directory b root) :
    ∀ q m, Marked stub (s.steps settings root manifest) q m →
      ¬ (prepare b directory).2.tree.Locked q := by
  intro q m hm hlocked
  rcases h.nothing hm with ⟨-, hdir⟩ | hnone
  · obtain ⟨mode, content, hnode, -⟩ := hlocked
    exact not_isDirectory_file mode content (hnode ▸ hdir)
  · exact not_locked_of_none hnone hlocked

end EmptyStart

/-! ## What is copied as the agent -/

theorem Scenario.mem_steps_install {source : String} (hagent : settings.agentStub = some source)
    {h : Host} (hh : h ∈ s.hosts) :
    .install (some source) (Layout.agent (Layout.host root h.id)) ∈
      s.steps settings root manifest := by
  refine List.mem_append_left _ (List.mem_flatMap.2 ⟨h, hh, List.mem_append_right _ ?_⟩)
  rw [hagent]
  simp

theorem Scenario.agentStub_of_install {source : String} {p : Place}
    (h : .install (some source) p ∈ s.steps settings root manifest) :
    settings.agentStub = some source ∧ s.hosts ≠ [] := by
  simp only [steps, hostSteps, Host.steps, Service.steps, Manifest.step, List.mem_append,
    List.mem_flatMap, List.mem_cons, List.not_mem_nil, or_false, reduceCtorEq, false_or,
    Step.install.injEq, exists_false, and_false] at h
  obtain ⟨x, hx, hagent, -⟩ := h
  exact ⟨hagent.symm, List.ne_nil_of_mem hx⟩

/-- What the file that is copied holds in a tree, if it can be read there. -/
theorem Settings.exists_stub (settings : Settings) (t : FileTree) :
    ∃ stub, ∀ source, settings.agentStub = some source →
      ∀ c, t.fileContent source = .ok c → c = stub := by
  cases settings.agentStub with
  | none => exact ⟨.bytes [], fun _ h => by cases h⟩
  | some source =>
    cases hread : t.fileContent source with
    | error e =>
      refine ⟨.bytes [], fun source' h c hc => ?_⟩
      cases h
      rw [hread] at hc
      cases hc
    | ok content =>
      refine ⟨content, fun source' h c hc => ?_⟩
      cases h
      rw [hread] at hc
      exact (Except.ok.inj hc).symm

/-- What is copied on the way is what the file holds in the end. -/
theorem Scenario.copied_eq (manifest : Manifest) {e t' : FileTree} (hs : s.Valid) (hst : e.Started)
    (hg : e.Grounded root)
    (houtside : ∀ source, settings.agentStub = some source → Outside e root source)
    (hstub : ∀ source, settings.agentStub = some source →
      ∀ c, t'.fileContent source = .ok c → c = stub) :
    ∀ t, Touched (Marked stub (s.steps settings root manifest)) e t →
      Touched (Marked stub (s.steps settings root manifest)) t t' → ∀ source p c,
        .install (some source) p ∈ s.steps settings root manifest →
          t.fileContent source = .ok c → c = stub := by
  intro t ht ht' source p c hmem hread
  have hagent := (s.agentStub_of_install hmem).1
  obtain ⟨q, mode, -, -, -, hend⟩ :=
    (houtside source hagent).stat (s.marked_below hs) hst hg ht ht' hread
  exact hstub source hagent c (fileContent_eq_ok_iff.2 ⟨q, mode, hend⟩)

/-! ## Workspaces that nothing hinders -/

/-- An empty start, with names that the system takes, and a file to copy as the agent that can be
read. -/
structure Unhindered (settings : Settings) (s : Scenario) (directory : String) (b : Bench)
    (root : Place) (stub : Content) : Prop extends EmptyStart settings s directory b root where
  legal : ∀ manifest q m, (q, m) ∈ s.outline settings stub root manifest → Legal q
  copied : ∀ source, settings.agentStub = some source → b.tree.fileContent source = .ok stub

namespace Unhindered

/-- The file that is copied is there when the workspace is prepared, and outside of it. -/
theorem stat_prepared (h : Unhindered settings s directory b root stub) {source : String}
    (hsource : settings.agentStub = some source) :
    ∃ p mode, ¬ root <+: p ∧
      (prepare b directory).2.tree.stat source = .ok (p, .file mode stub) := by
  obtain ⟨p, mode, hstat⟩ := fileContent_eq_ok_iff.1 (h.copied source hsource)
  have hb := (prepare_builds h.started directory).1
  have hnode := stat_node h.started hstat
  have hprepared : (prepare b directory).2.tree.node? p = some (.file mode stub) := by
    rcases hb.node p with he | ⟨hnone, -⟩
    · exact he.trans hnode
    · rw [hnode] at hnone
      cases hnone
  refine ⟨p, mode, fun hp => ?_, stat_of_keeps hb.keeps h.started hstat hprepared fun _ he => by
    cases he⟩
  by_cases hroot : p = root
  · exact not_isDirectory_file mode stub (hprepared ▸ hroot ▸ h.toEmptyStart.under.grounded.node)
  · rw [h.empty p hp hroot] at hprepared
    cases hprepared

theorem outside (h : Unhindered settings s directory b root stub) {source : String}
    (hsource : settings.agentStub = some source) :
    Outside (prepare b directory).2.tree root source := by
  obtain ⟨p, mode, hp, hstat⟩ := h.stat_prepared hsource
  exact outside_of_stat h.toEmptyStart.under.started hstat (fun _ he => by cases he) hp

/-- The file that is copied holds the same all the time. -/
theorem fileContent_stub (h : Unhindered settings s directory b root stub) {M : Marking}
    (hM : M.Below root) {t : FileTree} (ht : Touched M (prepare b directory).2.tree t)
    {source : String} (hsource : settings.agentStub = some source) :
    t.fileContent source = .ok stub := by
  obtain ⟨p, mode, -, hstat⟩ := h.stat_prepared hsource
  have hu := h.toEmptyStart.under
  obtain ⟨q, mode', -, -, -, hend⟩ := (h.outside hsource).stat hM hu.started hu.grounded
    (.refl M _) ht (fileContent_eq_ok_iff.2 ⟨p, mode, hstat⟩)
  exact fileContent_eq_ok_iff.2 ⟨q, mode', hend⟩

/-- The places that a run needs are below the root, and the system takes them. -/
theorem legal_of_places (h : Unhindered settings s directory b root stub) {st : Step}
    (hst : st ∈ s.steps settings root manifest) {p : Place} (hp : p ∈ st.places) : Legal p := by
  obtain ⟨m, hm⟩ := s.mem_outline_of_places stub hst hp
  exact h.legal manifest p m hm

/-- **Only an issuer can stop a plan** where nothing but a part of it has been done, and no file has
been locked since. -/
theorem performAll_ok (h : Unhindered settings s directory b root stub)
    (hconfined : issuer.Confined) (hissuer : issuer.Restrictive) {steps rest : List Step}
    (hsteps : s.steps settings root manifest = steps ++ rest) {t : FileTree}
    (ht : Touched (Marked stub (s.steps settings root manifest)) (prepare b directory).2.tree t)
    (hfree : ∀ q m, Marked stub (s.steps settings root manifest) q m → ¬ t.Locked q)
    (asked : List Identity) (hdelivers : ∀ i ∈ steps.flatMap Step.asks, issuer.Delivers i) :
    ∃ issued b', performAll issuer ⟨t, asked⟩ steps = (.ok issued, b') := by
  have hbelow : Marking.Below (Marked stub (s.steps settings root manifest)) root :=
    s.marked_below (valid_of_validate h.valid)
  have hmem : ∀ st ∈ steps, st ∈ s.steps settings root manifest := fun st hst =>
    hsteps ▸ List.mem_append_left _ hst
  have hsound : Sound root stub (Marked stub (s.steps settings root manifest)) [root]
      (steps ++ rest) := hsteps ▸ h.toEmptyStart.sound
  have hu : Under root [root] (Bench.mk t asked).tree := h.toEmptyStart.under.keeps ht.keeps
  refine performAll_ready hsound.left hconfined hissuer hu h.empty ht hfree
    (fun st hst p => h.legal_of_places (hmem st hst)) (fun t' ht' source p hst => ⟨stub, ?_⟩)
    fun i certs hst => hdelivers i (List.mem_flatMap.2 ⟨_, hst, List.mem_singleton_self i⟩)
  exact h.fileContent_stub hbelow ht' (s.agentStub_of_install (hmem _ hst)).1

/-- A run succeeds there where its issuer delivers. -/
theorem run_ok (h : Unhindered settings s directory b root stub) (hissuer : issuer.Honest)
    (hdelivers : ∀ i ∈ s.identities settings.domain, issuer.Delivers i) :
    ∃ b', run issuer settings s directory b =
      (.ok (s.manifest root (s.issued settings.domain root)), b') := by
  have hrun := run_of_answers hissuer.confined hissuer.answers h.valid (valid_of_validate h.valid)
    h.toEmptyStart.prepare_eq (prepare_ok h.started h.toEmptyStart.prepare_eq).1
    h.toEmptyStart.under rfl
  obtain ⟨issued, b', hok⟩ := h.performAll_ok hissuer.confined hissuer.restrictive
    (List.append_nil _).symm (.refl _ _) h.toEmptyStart.unlocked (prepare b directory).2.asked
    fun i hi => hdelivers i (s.flatMap_asks ▸ hi)
  refine ⟨b', hrun.trans ?_⟩
  rw [hok]
  rfl

end Unhindered

/-! ## Successful runs -/

/-- A run that succeeds where there is no link in the workspace, with an issuer that keeps to its
own files. -/
structure ConfinedRun (issuer : Issuer) (settings : Settings) (s : Scenario) (directory : String)
    (b b' : Bench) (root : Place) (manifest : Manifest) : Prop where
  confined : issuer.Confined
  started : b.tree.Started
  linkFree : b.tree.LinkFree root
  prepared : (prepare b directory).1 = .ok root
  done : run issuer settings s directory b = (.ok manifest, b')

namespace ConfinedRun

theorem prepare_eq (h : ConfinedRun issuer settings s directory b b' root manifest) :
    prepare b directory = (.ok root, (prepare b directory).2) := by
  rw [← h.prepared]

/-- The plan of a valid scenario is carried out in the prepared workspace, and the manifest is made
of the answers. -/
theorem carried_out (h : ConfinedRun issuer settings s directory b b' root manifest) :
    s.Valid ∧ ∃ issued, manifest = s.manifest root issued ∧
      performAll issuer (prepare b directory).2 (s.steps settings root manifest) =
        (.ok issued, b') := by
  obtain ⟨hvalid, root', b₁, issued, hprepare, hperform, hmanifest⟩ := run_eq_ok h.done
  rw [h.prepare_eq] at hprepare
  cases hprepare
  exact ⟨valid_of_validate hvalid, issued, hmanifest, hperform⟩

theorem proper (h : ConfinedRun issuer settings s directory b b' root manifest) : Proper root :=
  (prepare_ok h.started h.prepare_eq).1

theorem under (h : ConfinedRun issuer settings s directory b b' root manifest) :
    Under root [root] (prepare b directory).2.tree :=
  prepare_under h.started h.prepare_eq h.linkFree

theorem sound (h : ConfinedRun issuer settings s directory b b' root manifest) :
    Sound root stub (Marked stub (s.steps settings root manifest)) [root]
      (s.steps settings root manifest) :=
  s.sound h.carried_out.1 h.proper

/-- The manifest has the outputs of the issuer, if these are what it answers with. -/
theorem manifest_eq (h : ConfinedRun issuer settings s directory b b' root manifest)
    (hissuer : issuer.Answers) : manifest = s.manifest root (s.issued settings.domain root) := by
  obtain ⟨-, issued, hmanifest, hperform⟩ := h.carried_out
  have hsound : Sound root (.bytes []) _ [root] (s.steps settings root manifest) := h.sound
  have hissued := performAll_answers hsound h.confined hissuer h.under hperform
  rw [hmanifest, hissued, s.flatMap_steps Step.answers rfl, s.flatMap_answers]

end ConfinedRun

theorem EmptyStart.confinedRun (h : EmptyStart settings s directory b root)
    (hissuer : issuer.Confined)
    (hrun : run issuer settings s directory b = (.ok manifest, b')) :
    ConfinedRun issuer settings s directory b b' root manifest :=
  ⟨hissuer, h.started, h.linkFree, h.prepared, hrun⟩

/-- The binding of a service to an external account reads back as what it is. -/
theorem parse?_eab (service : String) :
    Json.Value.parse? (Content.ofText (Json.Value.object
        [("hmac", .string ("seed-hmac-" ++ service)),
          ("kid", .string ("seed-kid-" ++ service))]).compact).toBytes =
      some (.object [("hmac", .string ("seed-hmac-" ++ service)),
        ("kid", .string ("seed-kid-" ++ service))]) := by
  have hsorted : ["hmac", "kid"].Pairwise (· < ·) := by decide
  let eab : Json.Value := .object [("hmac", .string ("seed-hmac-" ++ service)),
    ("kid", .string ("seed-kid-" ++ service))]
  have hexact : eab.isExact = true := rfl
  have hregular : eab.isRegular Json.Value.maxDepth = true := by
    simp only [eab, Json.Value.isRegular, Json.Value.areRegularMembers, List.map_cons,
      List.map_nil, hsorted, decide_true]
    rfl
  have htext : (Content.ofText eab.compact).toBytes =
      Text.Utf8.encode (Json.Value.write .compact 0 eab) := by
    simp [Content.ofText, Content.toBytes, Text.Utf8.bytes, Json.Value.compact]
  change Json.Value.parse? (Content.ofText eab.compact).toBytes = some eab
  rw [htext]
  exact Json.Value.parse?_write Json.Style.spaced_compact hexact hregular 0

/-- A tree with a workspace in it, what it was before, and what it was when the directory of the
workspace had been made: every place of the outline is as its mark says, and nothing else has
changed but the directories that were missing on the way. Where an issuer writes, a file has not
become a directory, nor a directory a file. -/
structure Materialized (settings : Settings) (s : Scenario) (stub : Content) (root : Place)
    (manifest : Manifest) (directory : String) (t t₁ t' : FileTree) : Prop where
  outline : ∀ q m, (q, m) ∈ s.outline settings stub root manifest → m ≠ .issued →
    m.Leaves (t.node? q) (t'.node? q)
  outputs : ∀ q, (q, .issued) ∈ s.outline settings stub root manifest →
    (TakesFile (t₁.node? q) ∧ TakesFile (t'.node? q)) ∨
      (IsDirectory (t₁.node? q) ∧ IsDirectory (t'.node? q))
  elsewhere : ∀ q, (∀ m, (q, m) ∉ s.outline settings stub root manifest) →
    t'.node? q = t.node? q ∨
      (t.node? q = none ∧ t'.node? q = some (.directory 0o755) ∧ t'.Along directory q)

/-- What a carried out plan has made of a prepared tree, told from the tree before. -/
theorem Materialized.of_performed {t t₁ t' : FileTree} (hst : t.Started)
    (hg : t₁.Grounded root)
    (hb : t.Builds (Path.ofText directory).absolute (Begins directory) t₁)
    (hp : Performed (Marked stub (s.steps settings root manifest)) t₁ t') :
    Materialized settings s stub root manifest directory t t₁ t' := by
  refine ⟨fun q m hm hne => ?_, fun q hm => hp.marked q .issued (s.marked_iff.2 (.inr hm)),
    fun q hq => ?_⟩
  · have hleaves := hp.marked q m (s.marked_iff.2 (.inr hm))
    rcases hb.node q with he | ⟨hnone, hdir, -⟩
    · rwa [he] at hleaves
    · rw [hdir] at hleaves
      rw [hnone]
      exact hleaves.of_made hne
  · refine hb.along hst hp.touched.keeps ?_
    rcases hp.touched.node q with he | ⟨m, hm, hallow⟩
    · exact he
    · rcases s.marked_iff.1 hm with ⟨-, hpre, rfl⟩ | hm
      · exact absurd (hallow.1 ▸ hg q hpre) not_isDirectory_none
      · exact absurd hm (hq m)

/-- Where there was no directory, what is left for its owner alone is a file. -/
theorem Restricted.file_or {n n' : Option Node} (h : Restricted n')
    (hn : (TakesFile n ∧ TakesFile n') ∨ (IsDirectory n ∧ IsDirectory n')) :
    (∃ content, n' = some (.file 0o600 content)) ∨
      (IsDirectory n ∧ n' = some (.directory 0o600)) := by
  cases h with
  | file content => exact .inl ⟨content, rfl⟩
  | directory =>
    rcases hn with ⟨-, hfile⟩ | ⟨hdir, -⟩
    · exact absurd (isDirectory_some _) hfile.not_directory
    · exact .inr ⟨hdir, rfl⟩

/-- The certificate and the key of a service are what its step has had issued. -/
theorem Service.mem_outputs (y : Service) (x : Host) (domain : String) {q : Place}
    (hq : q ∈ [Layout.cert (Layout.host root x.id) y.name,
      Layout.key (Layout.host root x.id) y.name]) :
    q ∈ (y.identity x.id domain).outputs (Layout.certs (Layout.host root x.id)) := by
  simpa [Identity.outputs, Identity.certPlace, Identity.keyPlace, identity, Layout.cert,
    Layout.key, Layout.certs] using hq

/-- Every service has a step that has its certificate issued. -/
theorem Scenario.mem_steps_issue {x : Host} (hx : x ∈ s.hosts) {y : Service}
    (hy : y ∈ x.services) :
    .issue (y.identity x.id settings.domain) (Layout.certs (Layout.host root x.id)) ∈
      s.steps settings root manifest :=
  List.mem_append_left _ (mem_hostSteps_of_service hx hy (by simp [Service.steps]))

/-- The certificates and keys of a run are for their owner alone, if the issuer leaves them so. -/
theorem ConfinedRun.restricted (h : ConfinedRun issuer settings s directory b b' root manifest)
    (hissuer : issuer.Restrictive) {x : Host} (hx : x ∈ s.hosts) {y : Service}
    (hy : y ∈ x.services) {q : Place} (hq : q ∈ [Layout.cert (Layout.host root x.id) y.name,
      Layout.key (Layout.host root x.id) y.name]) : Restricted (b'.tree.node? q) := by
  obtain ⟨-, issued, -, hperform⟩ := h.carried_out
  have hsound : Sound root (.bytes []) _ [root] (s.steps settings root manifest) := h.sound
  exact performAll_restricted hsound h.confined hissuer h.under hperform
    (Scenario.mem_steps_issue hx hy) (y.mem_outputs x settings.domain hq)

/-- The file that a run has copied as the agent is there before and after. -/
theorem ConfinedRun.stat_stub (h : ConfinedRun issuer settings s directory b b' root manifest)
    (houtside : ∀ source, settings.agentStub = some source →
      Outside (prepare b directory).2.tree root source)
    (hstub : ∀ source, settings.agentStub = some source →
      ∀ c, b'.tree.fileContent source = .ok c → c = stub)
    {source : String} (hagent : settings.agentStub = some source) (hhosts : s.hosts ≠ []) :
    ∃ p mode, b'.tree.stat source = .ok (p, .file mode stub) ∧
      b.tree.node? p = some (.file mode stub) := by
  obtain ⟨hs, issued, -, hperform⟩ := h.carried_out
  have hsound : Sound root stub _ [root] (s.steps settings root manifest) := h.sound
  obtain ⟨x, hx⟩ := List.exists_mem_of_ne_nil _ hhosts
  obtain ⟨t, hbefore, hafter, hready⟩ := performAll_ready_of_mem hsound h.confined h.under hperform
    (s.mem_steps_install hagent hx)
  obtain ⟨-, c, hread⟩ := hready.fits
  obtain ⟨p, mode, -, hnode, -, hend⟩ := (houtside source hagent).stat (s.marked_below hs)
    h.under.started h.under.grounded hbefore hafter hread
  obtain rfl := hstub source hagent c (fileContent_eq_ok_iff.2 ⟨p, mode, hend⟩)
  refine ⟨p, mode, hend, ?_⟩
  rcases (prepare_builds h.started directory).1.node p with he | ⟨-, hdir, -⟩
  · exact he ▸ hnode
  · rw [hnode] at hdir
    cases hdir

/-- **What a run that succeeds leaves**, in any tree without links in the workspace, if the issuer
touches no other files than its two: every place of the outline as its mark says, and nothing else
but the directories on the way to the workspace. The agent is a copy of the file that the settings
name, which is not in the workspace. Certificates and keys are for their owner alone if the issuer
is one of those that settings name, or another that leaves them so. The binding to an external
account reads back as what it is, and what the agent will write later is left alone. -/
theorem run_materializes (h : ConfinedRun issuer settings s directory b b' root manifest)
    (houtside : ∀ source, settings.agentStub = some source →
      Outside (prepare b directory).2.tree root source) :
    (∃ stub,
      (∀ source, settings.agentStub = some source → s.hosts ≠ [] →
        ∃ p mode, b'.tree.stat source = .ok (p, .file mode stub) ∧
          b.tree.node? p = some (.file mode stub)) ∧
      Materialized settings s stub root manifest directory b.tree (prepare b directory).2.tree
        b'.tree) ∧
    (issuer.Restrictive ∨ (∃ machine today, machine.Confined settings.validityDays ∧
        issuer = settings.issuer machine today) →
      ∀ x ∈ s.hosts, ∀ y ∈ x.services, ∀ q ∈ [
          root ++ ["nodes", x.id, "certs", y.name ++ ".crt"],
          root ++ ["nodes", x.id, "certs", y.name ++ ".key"]],
        (∃ content, b'.tree.node? q = some (.file 0o600 content)) ∨
          (IsDirectory ((prepare b directory).2.tree.node? q) ∧
            b'.tree.node? q = some (.directory 0o600))) ∧
    ∀ x ∈ s.hosts, ∀ y ∈ x.services,
      (∃ content, b'.tree.node?
          (root ++ ["nodes", x.id, "secrets", "services", y.name, "eab.json"]) =
            some (.file 0o600 content) ∧
        Json.Value.parse? content.toBytes =
          some (.object [("hmac", .string ("seed-hmac-" ++ y.name)),
            ("kid", .string ("seed-kid-" ++ y.name))])) ∧
      ∀ q ∈ [Layout.caBundle (Layout.host root x.id) y.name,
          Layout.summary (Layout.host root x.id) y.name],
        b'.tree.node? q = b.tree.node? q ∨ (b.tree.node? q = none ∧
          b'.tree.node? q = some (.directory 0o755) ∧ b'.tree.Along directory q) := by
  obtain ⟨hs, issued, -, hperform⟩ := h.carried_out
  obtain ⟨stub, hstub⟩ := settings.exists_stub b'.tree
  have hsound : Sound root stub _ [root] (s.steps settings root manifest) := h.sound
  have hperformed := performAll_performed hsound h.confined h.under hperform
    (Scenario.copied_eq manifest hs h.under.started h.under.grounded houtside hstub)
  have hleft : Materialized settings s stub root manifest directory b.tree
      (prepare b directory).2.tree b'.tree :=
    .of_performed h.started h.under.grounded (prepare_builds h.started directory).1 hperformed
  have houtline : ∀ x ∈ s.hosts, ∀ y ∈ x.services, ∀ q m,
      (q, m) ∈ y.outline (Layout.host root x.id) x.id →
        (q, m) ∈ s.outline settings stub root manifest := fun x hx y hy q m hm =>
    Scenario.mem_outline_of_host hx (Host.mem_outline_of_service hy hm)
  refine ⟨⟨stub, fun source => h.stat_stub houtside hstub, hleft⟩,
    fun hissuer x hx y hy q hq => ?_, fun x hx y hy => ⟨?_, fun q hq => hleft.elsewhere q ?_⟩⟩
  · have hrestrictive : issuer.Restrictive := by
      rcases hissuer with hr | ⟨machine, today, hmachine, rfl⟩
      · exact hr
      · exact (settings.honest_issuer today hmachine).restrictive
    have hplace : q ∈ [Layout.cert (Layout.host root x.id) y.name,
        Layout.key (Layout.host root x.id) y.name] := by
      simpa [Layout.cert, Layout.key, Layout.host] using hq
    refine (h.restricted hrestrictive hx hy hplace).file_or
      (hleft.outputs q (houtline x hx y hy q .issued (List.mem_append_right _ ?_)))
    simpa using hplace
  · have hmem := List.mem_of_getElem? (i := 5) (l := y.seedOutline (Layout.host root x.id) x.id) rfl
    have hleaves := hleft.outline _ _ (houtline x hx y hy _ _ (List.mem_append_left _ hmem))
      (by simp)
    rw [Layout.host, List.append_assoc] at hleaves
    exact ⟨_, hleaves.2, parse?_eab y.name⟩
  · intro m
    rcases List.mem_pair.1 hq with rfl | rfl
    · exact Scenario.caBundle_notMem_outline hs hx y.name
    · exact Scenario.summary_notMem_outline hs hx y.name

/-- One service on one host. -/
def Scenario.single : Scenario := ⟨"s", [⟨"a", [⟨"x", "daemon", "1", none⟩]⟩]⟩

/-- Settings with an agent to copy. -/
def Settings.withStub : Settings := { Settings.default with agentStub := some "/stub" }

/-- A tree with an agent to copy, a configuration that all may read, and a file that is no part of a
workspace. -/
def leftovers : FileTree where
  nodes := ⟨[(["stub"], .file 0o755 (.ofText "agent")), (["w"], .directory 0o755),
    (["w", "nodes"], .directory 0o755), (["w", "nodes", "a"], .directory 0o750),
    (["w", "nodes", "a", "configs"], .directory 0o755),
    (["w", "nodes", "a", "configs", "x.toml"], .file 0o777 (.ofText "old")),
    (["w", "other"], .file 0o640 (.ofText "mine"))], by decide⟩
  process := ⟨.owner, []⟩

/-- A run over leftovers writes the configuration anew for its owner alone, copies the agent, and
leaves the other file as it is. -/
theorem run_materializes_leftovers :
    let r := run (.internal 20000 1) .withStub .single "/w" ⟨leftovers, []⟩
    leftovers.Started ∧ leftovers.LinkFree ["w"] ∧
      r.1 = .ok (Scenario.single.manifest ["w"] (Scenario.single.issued "trusted.domain" ["w"])) ∧
      r.2.tree.stat "/stub" = .ok (["stub"], .file 0o755 (.ofText "agent")) ∧
      r.2.tree.node? ["w", "nodes", "a", "configs", "x.toml"] =
        some (.file 0o600 (.ofText (AgentConfig.forService "x" "a" "1").toToml)) ∧
      r.2.tree.node? ["w", "nodes", "a", "bin", "bootroot-agent"] =
        some (.file 0o700 (.ofText "agent")) ∧
      (∃ key, r.2.tree.node? ["w", "nodes", "a", "certs", "x.key"] = some (.file 0o600 key)) ∧
      r.2.tree.node? ["w", "other"] = some (.file 0o640 (.ofText "mine")) := by
  have hst : leftovers.Started := ⟨grounded_nil leftovers, proper_nil⟩
  have hlinks : leftovers.LinkFree ["w"] := linkFree_of_entries (by simp [leftovers]) _
  have hroot : (prepare ⟨leftovers, []⟩ "/w").1 = .ok ["w"] := by decide +kernel
  have hfile : (prepare ⟨leftovers, []⟩ "/w").2.tree.stat "/stub" =
      .ok (["stub"], .file 0o755 (.ofText "agent")) := by decide +kernel
  have hnokey : (prepare ⟨leftovers, []⟩ "/w").2.tree.node? ["w", "nodes", "a", "certs", "x.key"] =
      none := by decide +kernel
  obtain ⟨hok, hstub⟩ :
      (run (.internal 20000 1) .withStub .single "/w" ⟨leftovers, []⟩).1.isOk = true ∧
        (run (.internal 20000 1) .withStub .single "/w" ⟨leftovers, []⟩).2.tree.stat "/stub" =
          .ok (["stub"], .file 0o755 (.ofText "agent")) := by
    decide +kernel
  have hhonest := Issuer.honest_internal 20000 1
  rcases hrun : run (.internal 20000 1) .withStub .single "/w" ⟨leftovers, []⟩ with ⟨e | m, b'⟩ <;>
    rw [hrun] at hok hstub
  · cases hok
  have hconfined : ConfinedRun (.internal 20000 1) .withStub .single "/w" ⟨leftovers, []⟩ b' ["w"]
      m := ⟨hhonest.confined, hst, hlinks, hroot, hrun⟩
  obtain ⟨⟨stub, hcopied, hleft⟩, hprivate, -⟩ := run_materializes hconfined
    fun source hsource => by
      cases hsource
      exact outside_of_stat hconfined.under.started hfile (fun _ he => by cases he) (by decide)
  -- What is copied is what the file holds.
  obtain ⟨p, mode, hp, -⟩ := hcopied "/stub" rfl (by decide)
  rw [hstub] at hp
  cases hp
  have hother : b'.tree.node? ["w", "other"] = leftovers.node? ["w", "other"] := by
    have hnot : ∀ e ∈ Scenario.single.outline .withStub (.ofText "agent") ["w"]
        ⟨"s", [], []⟩, e.1 ≠ ["w", "other"] := by
      decide +kernel
    rcases hleft.elsewhere ["w", "other"] fun m hm => by
      obtain ⟨m', hm'⟩ := Scenario.exists_mem_outline ⟨"s", [], []⟩ hm
      exact hnot _ hm' rfl with h | ⟨h, -⟩
    · exact h
    · cases h
  refine ⟨hst, hlinks, ?_, hstub, ?_, ?_, ?_, hother⟩
  · rw [hconfined.manifest_eq hhonest.answers]
    rfl
  · refine (hleft.outline _ (.owner _) ?_ (by simp)).2
    simp [Scenario.outline, Scenario.single, Host.outline, Service.outline, Service.seedOutline]
  · refine (hleft.outline _ (.agent _) ?_ (by simp)).2
    simp [Scenario.outline, Scenario.single, Host.outline, Host.closingOutline,
      Settings.agentContent, Settings.withStub]
  · rcases hprivate (.inl hhonest.restrictive) _ (List.mem_singleton_self _) _
      (List.mem_singleton_self _) ["w", "nodes", "a", "certs", "x.key"] (by decide) with
      hkey | ⟨hdir, -⟩
    · exact hkey
    · exact absurd (hnokey ▸ hdir) not_isDirectory_none

end CredentialBench.Workspace
