import CredentialBench.Proofs.Workspace.Materialize

/-!
# Runs that fail

A run fails at the first thing that is wrong, and leaves what it has done until then. Settings and
scenarios that are not valid change nothing. An issuer that refuses one service leaves the hosts
and services before it complete, and nothing of what comes after it (`Interruption.run_eq`). No run
that fails writes a manifest (`run_error_changes`).
-/

namespace CredentialBench.Workspace

open FileTree CredentialBench.Path

/-! ## One service's turn -/

/-- A service of a scenario, with the hosts before and after its own, and the services of its host
before and after it. -/
structure Scenario.Turn (s : Scenario) where
  before : List Host
  host : Host
  after : List Host
  earlier : List Service
  service : Service
  later : List Service
  hosts_eq : s.hosts = before ++ host :: after
  services_eq : host.services = earlier ++ service :: later

variable {s : Scenario} {settings : Settings} {root q : Place} {stub : Content} {m : Mark}
  {manifest : Manifest}

namespace Scenario.Turn

/-- The identities before a service's, in order. -/
def delivered (k : s.Turn) (domain : String) : List Identity :=
  k.before.flatMap (fun h => h.services.map fun x => x.identity h.id domain) ++
    k.earlier.map fun x => x.identity k.host.id domain

/-- Whom the service's own certificate is for. -/
def identity (k : s.Turn) (domain : String) : Identity := k.service.identity k.host.id domain

/-- The steps before a service's certificate is issued. -/
def steps (k : s.Turn) (settings : Settings) (root : Place) : List Step :=
  let host := Layout.host root k.host.id
  k.before.flatMap (fun h => h.steps settings root) ++
    (k.host.openingSteps root ++ k.earlier.flatMap (fun x => x.steps settings host k.host.id) ++
      k.service.seedSteps host k.host.id)

/-- What is there before a service's certificate is issued: all of the hosts before its own, and of
its own host the first directories, all of the services before it, and its seeds. -/
def outline (k : s.Turn) (settings : Settings) (stub : Content) (root : Place) :
    List (Place × Mark) :=
  let host := Layout.host root k.host.id
  k.before.flatMap (fun h => h.outline settings stub root) ++
    (k.host.openingOutline root ++ k.earlier.flatMap (fun x => x.outline host k.host.id) ++
      k.service.seedOutline host k.host.id)

/-- What is not there before a service's certificate is issued: the certificate and the key, the end
of its host, the later hosts, and the manifest. -/
def unfinished (k : s.Turn) (root : Place) : List Place := [
  root ++ ["nodes", k.host.id, "certs", k.service.name ++ ".crt"],
  root ++ ["nodes", k.host.id, "certs", k.service.name ++ ".key"],
  root ++ ["nodes", k.host.id, "state.json"],
  root ++ ["nodes", k.host.id, "bin"],
  root ++ ["layout.json"]] ++ k.after.map fun h => root ++ ["nodes", h.id]

theorem steps_append (k : s.Turn) (settings : Settings) (root : Place) (manifest : Manifest) :
    ∃ rest, s.steps settings root manifest = k.steps settings root ++
      .issue (k.identity settings.domain) (Layout.certs (Layout.host root k.host.id)) :: rest := by
  refine ⟨(k.later.flatMap fun x => x.steps settings (Layout.host root k.host.id) k.host.id) ++
    k.host.closingSteps settings root ++ k.after.flatMap (fun h => h.steps settings root) ++
      [manifest.step root], ?_⟩
  rw [Scenario.steps, hostSteps, k.hosts_eq, List.flatMap_append, List.flatMap_cons, Host.steps_eq,
    k.services_eq, List.flatMap_append, List.flatMap_cons, Service.steps_eq, steps]
  simp only [Layout.certs, Layout.host, List.append_assoc, List.cons_append, List.nil_append]
  rfl

/-- The steps up to a turn are sound by themselves. -/
theorem sound (k : s.Turn) (hs : s.Valid) (hroot : Proper root) :
    Sound root stub (Marked stub (s.steps settings root manifest)) [root]
      (k.steps settings root) := by
  obtain ⟨rest, hsteps⟩ := k.steps_append settings root manifest
  have h : Sound root stub (Marked stub (s.steps settings root manifest)) [root]
      (s.steps settings root manifest) := s.sound hs hroot
  rw [hsteps] at h ⊢
  exact h.left

theorem marked_iff (k : s.Turn) :
    Marked stub (k.steps settings root) q m ↔
      (q <+: root ∧ m = .directory) ∨ (q, m) ∈ k.outline settings stub root := by
  simp only [steps, outline, marked_append, marked_flatMap, Host.marked_iff,
    Host.marked_opening, Service.marked_iff, Service.marked_seeds, List.mem_append,
    List.mem_flatMap]
  constructor
  · rintro (⟨h, hh, hq | hm⟩ | ((hq | hm) | ⟨x, hx, ⟨hq, hm⟩ | hm⟩) | ⟨hq, hm⟩ | hm)
    · exact .inl hq
    · exact .inr (.inl ⟨h, hh, hm⟩)
    · exact .inl hq
    · exact .inr (.inr (.inl (.inl hm)))
    · exact (k.host.way_outline hq hm).imp_right fun hm => .inr (.inl (.inl hm))
    · exact .inr (.inr (.inl (.inr ⟨x, hx, hm⟩)))
    · exact (k.host.way_outline hq hm).imp_right fun hm => .inr (.inl (.inl hm))
    · exact .inr (.inr (.inr hm))
  · rintro (hq | ⟨h, hh, hm⟩ | (hm | ⟨x, hx, hm⟩) | hm)
    · exact .inr (.inl (.inl (.inl hq)))
    · exact .inl ⟨h, hh, .inr hm⟩
    · exact .inr (.inl (.inl (.inr hm)))
    · exact .inr (.inl (.inr ⟨x, hx, .inr hm⟩))
    · exact .inr (.inr (.inr hm))

theorem flatMap_asks (k : s.Turn) (settings : Settings) (root : Place) :
    (k.steps settings root).flatMap Step.asks = k.delivered settings.domain := by
  have hearlier : (k.earlier.flatMap fun x =>
      x.steps settings (Layout.host root k.host.id) k.host.id).flatMap Step.asks =
        k.earlier.map fun x => x.identity k.host.id settings.domain :=
    flatMap_steps_services Step.asks fun _ => rfl
  rw [steps, List.flatMap_append, List.flatMap_append, List.flatMap_append, List.flatMap_assoc,
    hearlier, delivered]
  simp only [Host.flatMap_asks]
  simp [Host.openingSteps, Service.seedSteps, Step.asks]

theorem mem_hosts (k : s.Turn) : k.host ∈ s.hosts := by
  rw [k.hosts_eq]
  simp

theorem mem_before (k : s.Turn) {h : Host} (hh : h ∈ k.before) : h ∈ s.hosts := by
  rw [k.hosts_eq]
  exact List.mem_append_left _ hh

/-- The host of a turn is not one of those before or after it. -/
theorem host_ne (k : s.Turn) (hs : s.Valid) :
    (∀ h ∈ k.before, h.id ≠ k.host.id) ∧
      ∀ h ∈ k.after, ∀ h' ∈ k.before ++ [k.host], h.id ≠ h'.id := by
  have hnodup := hs.hosts
  rw [k.hosts_eq, List.map_append, List.map_cons, List.nodup_append, List.nodup_cons] at hnodup
  obtain ⟨-, ⟨hhost, -⟩, hdisjoint⟩ := hnodup
  have hbefore : ∀ h ∈ k.before, ∀ h' ∈ k.host :: k.after, h.id ≠ h'.id := fun h hh h' hh' =>
    hdisjoint h.id (List.mem_map_of_mem hh) h'.id (List.mem_map_of_mem hh')
  refine ⟨fun h hh => hbefore h hh k.host List.mem_cons_self, fun h hh h' hh' => ?_⟩
  rcases List.mem_append.1 hh' with hh' | hh'
  · exact (hbefore h' hh' h (List.mem_cons_of_mem _ hh)).symm
  · obtain rfl := List.mem_singleton.1 hh'
    exact fun he => hhost (he ▸ List.mem_map_of_mem hh)

/-- The service of a turn is not one of those before it. -/
theorem service_ne (k : s.Turn) (hs : s.Valid) : ∀ x ∈ k.earlier, x.name ≠ k.service.name := by
  have hnodup := hs.services k.host k.mem_hosts
  rw [k.services_eq, List.map_append, List.map_cons, List.nodup_append] at hnodup
  exact fun x hx => hnodup.2.2 x.name (List.mem_map_of_mem hx) _ List.mem_cons_self

/-- Where the places are that are there before a service's certificate is issued: in the directories
of the hosts before its own, or at certain names in the directory of its own. -/
theorem outline_cases (k : s.Turn) (hs : s.Valid) (hm : (q, m) ∈ k.outline settings stub root) :
    q = root ++ ["nodes"] ∨ (∃ h ∈ k.before, ∃ r, q = Layout.host root h.id ++ r) ∨
      ∃ r, q = Layout.host root k.host.id ++ r ∧
        (r ∈ [[], ["certs"], ["configs"], ["summaries"]] ∨ r.head? = some "secrets" ∨
          (∃ file, r = ["configs", file]) ∨
          ∃ x ∈ k.earlier, r = ["certs", x.name ++ ".crt"] ∨ r = ["certs", x.name ++ ".key"]) := by
  have hseeds : ∀ x : Service, (q, m) ∈ x.seedOutline (Layout.host root k.host.id) k.host.id →
      ∃ r, q = Layout.host root k.host.id ++ r ∧
        (r.head? = some "secrets" ∨ ∃ file, r = ["configs", file]) := by
    intro x hm
    simp only [Service.seedOutline, List.mem_cons, List.not_mem_nil, or_false,
      Prod.mk.injEq] at hm
    rcases hm with ⟨rfl, -⟩ | ⟨rfl, -⟩ | ⟨rfl, -⟩ | ⟨rfl, -⟩ | ⟨rfl, -⟩ | ⟨rfl, -⟩ | ⟨rfl, -⟩
    all_goals first
      | exact ⟨_, rfl, .inl rfl⟩
      | exact ⟨_, rfl, .inr ⟨_, rfl⟩⟩
  rw [outline, List.mem_append, List.mem_append, List.mem_append, List.mem_flatMap,
    List.mem_flatMap] at hm
  rcases hm with ⟨h, hh, hm⟩ | (hm | ⟨x, hx, hm⟩) | hm
  · rcases hs.markAt_of_mem (k.mem_before hh) hm with ⟨rfl, -⟩ | ⟨r, rfl, -⟩
    · exact .inl rfl
    · exact .inr (.inl ⟨h, hh, r, rfl⟩)
  · simp only [Host.openingOutline, List.mem_cons, List.not_mem_nil, or_false,
      Prod.mk.injEq] at hm
    rcases hm with ⟨rfl, -⟩ | ⟨rfl, -⟩ | ⟨rfl, -⟩ | ⟨rfl, -⟩ | ⟨rfl, -⟩
    · exact .inl rfl
    · exact .inr (.inr ⟨[], (List.append_nil _).symm, by simp⟩)
    · exact .inr (.inr ⟨["certs"], by simp [Layout.host], by simp⟩)
    · exact .inr (.inr ⟨["configs"], by simp [Layout.host], by simp⟩)
    · exact .inr (.inr ⟨["summaries"], by simp [Layout.host], by simp⟩)
  · refine .inr (.inr ?_)
    simp only [Service.outline, List.mem_append, List.mem_cons, List.not_mem_nil, or_false,
      Prod.mk.injEq] at hm
    rcases hm with hm | ⟨rfl, -⟩ | ⟨rfl, -⟩
    · obtain ⟨r, rfl, hr⟩ := hseeds x hm
      exact ⟨r, rfl, .inr (hr.imp_right .inl)⟩
    · exact ⟨["certs", x.name ++ ".crt"], rfl, .inr (.inr (.inr ⟨x, hx, .inl rfl⟩))⟩
    · exact ⟨["certs", x.name ++ ".key"], rfl, .inr (.inr (.inr ⟨x, hx, .inr rfl⟩))⟩
  · obtain ⟨r, rfl, hr⟩ := hseeds k.service hm
    exact .inr (.inr ⟨r, rfl, .inr (hr.imp_right .inl)⟩)

theorem outline_below (k : s.Turn) (hs : s.Valid) (hm : (q, m) ∈ k.outline settings stub root) :
    root <+: q ∧ q ≠ root := by
  rcases k.outline_cases hs hm with rfl | ⟨h, -, r, rfl⟩ | ⟨r, rfl, -⟩
  · exact ⟨List.prefix_append _ _, by simp⟩
  · exact ⟨by simp [Layout.host], by simp [Layout.host]⟩
  · exact ⟨by simp [Layout.host], by simp [Layout.host]⟩

/-- Of the host of a turn there is nothing at any other name. -/
theorem notMem_outline_of_host (k : s.Turn) (hs : s.Valid) {r : Place}
    (hdirs : r ∉ [[], ["certs"], ["configs"], ["summaries"]]) (hsecrets : r.head? ≠ some "secrets")
    (hconfigs : ∀ file, r ≠ ["configs", file])
    (hcerts : ∀ x ∈ k.earlier, r ≠ ["certs", x.name ++ ".crt"] ∧ r ≠ ["certs", x.name ++ ".key"]) :
    (Layout.host root k.host.id ++ r, m) ∉ k.outline settings stub root := by
  intro hm
  rcases k.outline_cases hs hm with he | ⟨h, hh, r', he⟩ | ⟨r', he, hr⟩
  · simp [Layout.host] at he
  · simp only [Layout.host, List.append_assoc, List.cons_append, List.nil_append,
      List.append_cancel_left_eq, List.cons.injEq, true_and] at he
    exact (k.host_ne hs).1 h hh he.1.symm
  · obtain rfl := List.append_cancel_left he
    rcases hr with hr | hr | ⟨file, hr⟩ | ⟨x, hx, hr | hr⟩
    · exact hdirs hr
    · exact hsecrets hr
    · exact hconfigs file hr
    · exact (hcerts x hx).1 hr
    · exact (hcerts x hx).2 hr

/-- **What is not there** before a service's certificate is issued. -/
theorem notMem_outline (k : s.Turn) (hs : s.Valid) (hq : q ∈ k.unfinished root) :
    (q, m) ∉ k.outline settings stub root := by
  have hname : ∀ x ∈ k.earlier, ∀ ending, x.name ++ ending ≠ k.service.name ++ ending :=
    fun x hx ending he => k.service_ne hs x hx (String.append_left_inj _ |>.1 he)
  have hending : ∀ a b : String, a ++ ".crt" ≠ b ++ ".key" := by
    intro a b he
    have hlast := congrArg (fun s : String => s.toList.getLast?) he
    simp at hlast
  have hhost : ∀ r, root ++ "nodes" :: k.host.id :: r = Layout.host root k.host.id ++ r := by
    simp [Layout.host]
  simp only [unfinished, List.mem_append, List.mem_cons, List.not_mem_nil, or_false,
    List.mem_map] at hq
  rcases hq with (rfl | rfl | rfl | rfl | rfl) | ⟨h, hh, rfl⟩
  · rw [hhost]
    refine k.notMem_outline_of_host hs (by simp) (by simp) (by simp) fun x hx => ⟨?_, ?_⟩
    · simpa using (hname x hx ".crt").symm
    · simpa using hending k.service.name x.name
  · rw [hhost]
    refine k.notMem_outline_of_host hs (by simp) (by simp) (by simp) fun x hx => ⟨?_, ?_⟩
    · simpa using (hending x.name k.service.name).symm
    · simpa using (hname x hx ".key").symm
  · rw [hhost]
    exact k.notMem_outline_of_host hs (by simp) (by simp) (by simp) (by simp)
  · rw [hhost]
    exact k.notMem_outline_of_host hs (by simp) (by simp) (by simp) (by simp)
  · intro hm
    rcases k.outline_cases hs hm with he | ⟨h, hh, r', he⟩ | ⟨r', he, -⟩ <;>
      simp [Layout.host] at he
  · intro hm
    rcases k.outline_cases hs hm with he | ⟨h', hh', r', he⟩ | ⟨r', he, -⟩
    · simp at he
    · simp only [Layout.host, List.append_assoc, List.cons_append, List.nil_append,
        List.append_cancel_left_eq, List.cons.injEq, true_and] at he
      exact (k.host_ne hs).2 h hh h' (List.mem_append_left _ hh') he.1
    · simp only [Layout.host, List.append_assoc, List.cons_append, List.nil_append,
        List.append_cancel_left_eq, List.cons.injEq, true_and] at he
      exact (k.host_ne hs).2 h hh k.host (List.mem_append_right _ List.mem_cons_self) he.1

theorem unfinished_below (k : s.Turn) (hq : q ∈ k.unfinished root) : root <+: q ∧ q ≠ root := by
  simp only [unfinished, List.mem_append, List.mem_cons, List.not_mem_nil, or_false,
    List.mem_map] at hq
  rcases hq with (rfl | rfl | rfl | rfl | rfl) | ⟨h, -, rfl⟩ <;> simp

variable {issuer : Issuer} {directory : String} {b b₁ b₂ : Bench} {issued : List Issued}

/-- A turn that is reached asks for its certificate properly. -/
theorem request (k : s.Turn) (hs : s.Valid) (hroot : Proper root) (hissuer : issuer.Confined)
    (hu : Under root [root] b.tree)
    (hreached : performAll issuer b (k.steps settings root) = (.ok issued, b₂)) :
    Request b₂.tree (k.identity settings.domain)
      (Layout.certs (Layout.host root k.host.id)) := by
  obtain ⟨rest, hsteps⟩ := k.steps_append settings root (.empty s.id)
  have hsound : Sound root (.bytes []) _ [root] (s.steps settings root (.empty s.id)) :=
    s.sound hs hroot
  rw [hsteps] at hsound
  obtain ⟨made, hrest, hunder⟩ := hsound.after hissuer hu hreached
  exact hrest.request hunder

/-- **A run ends with the turn** whose certificate is refused. -/
theorem run_refused (k : s.Turn) (hvalid : validate settings s = .ok ())
    (hprepare : prepare b directory = (.ok root, b₁))
    (hreached : performAll issuer b₁ (k.steps settings root) = (.ok issued, b₂))
    {cause : IssueError} {t : FileTree} (hrefused : issuer (k.identity settings.domain)
      (textOfPlace (Layout.certs (Layout.host root k.host.id))) b₂.tree =
        (.error (.error cause), t)) :
    run issuer settings s directory b =
      (.error (.issue k.service.name cause), ⟨t, b₂.asked ++ [k.identity settings.domain]⟩) := by
  obtain ⟨manifest, -, hrun⟩ := run_of_prepare issuer hvalid hprepare
  obtain ⟨rest, hsteps⟩ := k.steps_append settings root manifest
  rw [hrun, hsteps, performAll_append, hreached]
  dsimp only
  rw [performAll_cons, Step.perform, hrefused]
  rfl

/-- Until a turn is reached a certificate has been asked for each service before it. -/
theorem asked_of_reached (k : s.Turn) (hst : b.tree.Started)
    (hreached : performAll issuer (prepare b directory).2 (k.steps settings root) =
      (.ok issued, b₂)) : b₂.asked = b.asked ++ k.delivered settings.domain := by
  rw [performAll_asked hreached, k.flatMap_asks, (prepare_builds hst directory).2]

end Scenario.Turn

/-! ## A run that an issuer interrupts -/

/-- What an interrupted run leaves: the part of the outline that is done before the service's turn,
and nothing else in the workspace. -/
structure Interrupted (settings : Settings) (s : Scenario) (directory : String) (b : Bench)
    (root : Place) (stub : Content) (k : s.Turn) (b' : Bench) : Prop where
  asked : b'.asked = b.asked ++ k.delivered settings.domain ++ [k.identity settings.domain]
  done : ∀ q m, (q, m) ∈ k.outline settings stub root → m ≠ .issued →
    m.Leaves none (b'.tree.node? q)
  issued : ∀ q, (q, .issued) ∈ k.outline settings stub root →
    ∃ content, b'.tree.node? q = some (.file 0o600 content)
  nothing : ∀ q, root <+: q → q ≠ root → (∀ m, (q, m) ∉ k.outline settings stub root) →
    b'.tree.node? q = none
  elsewhere : ∀ q, ¬ root <+: q → b'.tree.node? q = (prepare b directory).2.tree.node? q

namespace Interruption

variable {issuer : Issuer} {directory : String} {b : Bench} {k : s.Turn}

end Interruption

/-- What comes after the refused certificate is not there. -/
theorem Interrupted.absent {directory : String} {b b' : Bench} {k : s.Turn} (hs : s.Valid)
    (h : Interrupted settings s directory b root stub k b') (hq : q ∈ k.unfinished root) :
    b'.tree.node? q = none := by
  obtain ⟨hpre, hne⟩ := k.unfinished_below hq
  exact h.nothing q hpre hne fun m => k.notMem_outline hs hq

/-! ## Runs that fail -/

section Failing

variable {issuer : Issuer} {directory : String} {b b' : Bench}

/-- A prepared run that fails has changed places of hosts only. -/
theorem performAll_error_touched (hs : s.Valid) (hroot : Proper root) (hissuer : issuer.Confined)
    (hu : Under root [root] b.tree) {e : RunError}
    (h : performAll issuer b (s.steps settings root manifest) = (.error e, b')) :
    Touched (Marked stub (s.hostSteps settings root)) b.tree b'.tree := by
  have hwhole : Sound root stub (Marked stub (s.steps settings root manifest)) [root]
      (s.hostSteps settings root ++ [manifest.step root]) := s.sound hs hroot
  have htouched := performAll_touched hwhole.left.own hissuer hu
  rw [Scenario.steps, performAll_append] at h
  rcases hperform : performAll issuer b (s.hostSteps settings root) with ⟨e' | issued, b₂⟩ <;>
    rw [hperform] at h htouched
  · cases h
    exact htouched
  · -- Only the manifest is left, and it is written at once or not at all.
    have hout : Step.Outcome _ b₂ ((manifest.step root).perform issuer b₂) :=
      Step.outcome_of_ne_issue (by simp [Manifest.step]) (hu.toBase.keeps htouched.keeps)
        (hwhole.within _ (List.mem_append_right _ List.mem_cons_self))
    dsimp only at h
    rw [performAll_cons] at h
    cases hr : (manifest.step root).perform issuer b₂ with
    | mk r b₃ =>
      rw [hr] at hout h
      cases hout with
      | done => cases h
      | failed _ _ same =>
        cases h
        rwa [same fun p hp => by cases hp]
      | refused step => cases step

/-- **A run that fails** changes nothing but the directories on the way to the workspace and places
of its hosts, and so never the manifest, as long as the issuer keeps to its own files. A directory
on the way has the permissions of a new one, unless the issuer is asked to write a file in its
place. -/
theorem run_error_changes (hissuer : issuer.Confined) (hst : b.tree.Started)
    (hlinks : ∀ root, (prepare b directory).1 = .ok root → b.tree.LinkFree root) {e : RunError}
    (h : run issuer settings s directory b = (.error e, b')) (q : Place) :
    b'.tree.node? q = b.tree.node? q ∨
      (b.tree.node? q = none ∧ b'.tree.Along directory q ∧
        (b'.tree.node? q = some (.directory 0o755) ∨
          IsDirectory (b'.tree.node? q) ∧ ∃ root, (prepare b directory).1 = .ok root ∧
            ∃ x ∈ s.hosts, ∃ stub, (q, .issued) ∈ x.outline settings stub root)) ∨
      ∃ root, (prepare b directory).1 = .ok root ∧ q ≠ root ++ ["layout.json"] ∧
        ∃ x ∈ s.hosts, ∃ stub m, (q, m) ∈ x.outline settings stub root ∧
          m.Allows (b.tree.node? q) (b'.tree.node? q) := by
  have hb := (prepare_builds hst directory).1
  rcases hvalid : validate settings s with e' | u
  · rw [run, hvalid] at h
    cases h
    exact .inl rfl
  have hs := valid_of_validate hvalid
  rcases hprepare : prepare b directory with ⟨e' | root, b₁⟩
  · rw [run, hvalid, hprepare] at h
    cases h
    rw [hprepare] at hb
    rcases hb.along hst (Keeps.refl _) rfl with hsame | ⟨hnone, hdir, hway⟩
    · exact .inl hsame
    · exact .inr (.inl ⟨hnone, hway, .inl hdir⟩)
  rw [hprepare] at hb hlinks
  have hu := prepare_under hst hprepare (hlinks root rfl)
  have hproper := (prepare_ok hst hprepare).1
  obtain ⟨manifest, -, hrun⟩ := run_of_prepare issuer hvalid hprepare
  rcases hperform : performAll issuer b₁ (s.steps settings root manifest) with ⟨e' | issued, b₂⟩ <;>
    rw [h, hperform] at hrun
  swap
  · cases hrun
  obtain rfl : b' = b₂ := congrArg Prod.snd hrun
  have htouched : Touched (Marked (.bytes []) (s.hostSteps settings root)) b₁.tree b'.tree :=
    performAll_error_touched hs hproper hissuer hu hperform
  rcases htouched.node q with hsame | ⟨m, hm, hallow⟩
  · rcases hb.along hst htouched.keeps hsame with hsame | ⟨hnone, hdir, hway⟩
    · exact .inl hsame
    · exact .inr (.inl ⟨hnone, hway, .inl hdir⟩)
  obtain ⟨x, hx, hm⟩ := marked_flatMap.1 hm
  rcases x.marked_iff.1 hm with ⟨hpre, rfl⟩ | hm
  · exact absurd (hallow.1 ▸ hu.grounded q hpre) not_isDirectory_none
  have hne : q ≠ root ++ ["layout.json"] := hs.ne_manifest hx hm
  rcases hb.node q with hsame | ⟨hnone, hdir, names, hnames, hled⟩
  · exact .inr (.inr ⟨root, rfl, hne, x, hx, .bytes [], m, hm, hsame ▸ hallow⟩)
  · -- A directory has just been made here, so that only an issuer can have changed it.
    rw [hdir] at hallow
    rcases hallow.cases_node with ⟨-, hnode, -⟩ | ⟨-, hfile, -⟩ | ⟨rfl, -, hdir'⟩
    · cases hnode
    · exact absurd (isDirectory_some _) hfile.not_directory
    · have hway := hled.of_keeps htouched.keeps (hb.keeps.started hst) hdir'
      exact .inr (.inl ⟨hnone, ⟨names, hnames, hway⟩,
        .inr ⟨hdir', root, rfl, x, hx, .bytes [], hm⟩⟩)

/-- Three hosts, of which the second has a service whose name cannot stand in a certificate. -/
def Scenario.refused : Scenario := ⟨"s", [
  ⟨"a", [⟨"x", "daemon", "1", none⟩]⟩,
  ⟨"b", [⟨"y", "daemon", "1", none⟩, ⟨"é", "daemon", "1", none⟩, ⟨"z", "daemon", "1", none⟩]⟩,
  ⟨"c", [⟨"w", "daemon", "1", none⟩]⟩]⟩

end Failing

end CredentialBench.Workspace
