import CredentialBench.Proofs.Workspace.Runs

/-!
# What stops a run

Where nothing but a part of a sound plan has been done in a workspace that was empty, its next step
finds what it needs (`Sound.fits`). So there are two things only that can stop it: an issuer that
refuses, and a file that the user may not write (`Sound.perform_cases`). Where neither does, the
plan is carried out to the end (`performAll_ready`). What has been carried out in one workspace can
be led over to any other that has grown out of the same empty one, step by step
(`performAll_of_twin`).
-/

namespace CredentialBench.Workspace

open FileTree CredentialBench.Path

variable {root : Place} {stub : Content} {M : Marking} {made : List Place} {s : Step}
  {steps rest : List Step} {t t' e : FileTree} {b : Bench} {issuer : Issuer} {source : String}

/-! ## Steps that find what they need -/

/-- Where nothing but a part of a sound plan has been done below the root, a file has its place. -/
theorem Sound.placed (h : Sound root stub M made (s :: rest)) (hu : Under root made t)
    (hfresh : ∀ q, root <+: q → q ≠ root → e.node? q = none) (ht : Touched M e t) {p : Place}
    (hp : p ∈ s.files) (hl : Legal p) : t.Placed p := by
  refine ⟨hl, hu.files h.supported p hp, ?_⟩
  obtain ⟨m, hm, hmark⟩ := s.marks_of_files stub hp
  obtain ⟨-, r, hr, rfl⟩ := h.within s List.mem_cons_self p (s.places_of_files hp)
  have hnone : e.node? (root ++ r) = none :=
    hfresh _ (List.prefix_append root r) (by simpa using hr)
  rcases ht.node (root ++ r) with he | ⟨m', hm', hallow⟩
  · rw [he, hnone]
    exact .vacant
  · obtain rfl := h.functional _ m m' (h.marks s List.mem_cons_self _ m hmark) hm'
    rw [hnone] at hallow
    rcases hallow.cases_node with ⟨rfl, -⟩ | ⟨-, -, hfile⟩ | ⟨-, hdir, -⟩
    · exact absurd rfl hm
    · exact hfile
    · exact absurd hdir not_isDirectory_none

/-- **Where nothing but a part of a sound plan has been done below the root, its next step finds
what it needs**, as long as the system takes the places and what is copied can be read. -/
theorem Sound.fits (h : Sound root stub M made (s :: rest)) (hu : Under root made t)
    (hfresh : ∀ q, root <+: q → q ≠ root → e.node? q = none) (ht : Touched M e t)
    (hl : (∀ i certs, s ≠ .issue i certs) → ∀ p ∈ s.places, Legal p)
    (hcopies : ∀ source p, s = .install (some source) p → ∃ c, t.fileContent source = .ok c) :
    s.Fits t := by
  cases s with
  | directory p =>
    obtain ⟨-, r, hr, rfl⟩ := h.within _ List.mem_cons_self p (List.mem_singleton_self p)
    refine ⟨hl (by simp) _ (List.mem_singleton_self _), fun q hq => ?_⟩
    rcases List.prefix_or_prefix_of_prefix hq (List.prefix_append root r) with hqr | hrq
    · exact .inr (hu.grounded q hqr)
    by_cases hroot : q = root
    · exact .inr (hroot ▸ hu.grounded.node)
    rcases ht.node q with he | ⟨m, hm, hallow⟩
    · exact .inl (he.trans (hfresh q hrq hroot))
    · have hmark := h.marks _ List.mem_cons_self q .directory ⟨hq, rfl⟩
      obtain rfl := h.functional q .directory m hmark hm
      exact .inr ⟨_, hallow.2⟩
  | write p access content =>
    have hself : p ∈ (Step.write p access content).places := List.mem_singleton_self p
    exact h.placed hu hfresh ht hself (hl (by simp) p hself)
  | issue i certs => trivial
  | install agent p =>
    have hself : p ∈ (Step.install agent p).places := List.mem_singleton_self p
    have hplaced := h.placed hu hfresh ht hself (hl (by simp) p hself)
    cases agent with
    | none => exact hplaced
    | some source => exact ⟨hplaced, hcopies source p rfl⟩

/-- **How a step ends that finds what it needs**: it is done, or the issuer refuses, or a file is
locked. -/
theorem Sound.perform_cases (h : Sound root stub M made (s :: rest)) (hissuer : issuer.Confined)
    (hu : Under root made b.tree) (hfits : s.Fits b.tree) :
    (∃ issued t stub', s.Ready b.tree ∧ s.Copies b.tree stub' ∧
        Performed (s.Marks stub') b.tree t ∧
          s.perform issuer b = (.ok issued, ⟨t, b.asked ++ s.asks⟩)) ∨
      (∃ i certs failure b', s = .issue i certs ∧
        s.perform issuer b = (.error (.ofIssuer i.service failure), b')) ∨
      ∃ p ∈ s.own, b.tree.Locked p ∧
        s.perform issuer b = (.error (.io (textOfPlace p) .permissionDenied), b) := by
  by_cases hlocked : ∃ p ∈ s.own, b.tree.Locked p
  · obtain ⟨p, hp, hlocked⟩ := hlocked
    exact .inr (.inr ⟨p, hp, hlocked, Step.perform_locked hu.toBase
      (h.within s List.mem_cons_self) hfits hp hlocked⟩)
  · have hready : s.Ready b.tree := ⟨hfits, fun p hp hl => hlocked ⟨p, hp, hl⟩⟩
    have hout := h.outcome hissuer hu
    cases hr : s.perform issuer b with
    | mk r b' =>
      rw [hr] at hout
      cases hout with
      | done stub' ready copies performed =>
        exact .inl ⟨_, _, stub', ready, copies, performed, rfl⟩
      | failed notReady => exact absurd hready notReady
      | refused step => exact .inr (.inl ⟨_, _, _, _, step, rfl⟩)

/-- A place is locked after a step only if it was before, or if an issuer has written it. -/
theorem Sound.locked_perform (h : Sound root stub M made (s :: rest)) (hissuer : issuer.Confined)
    (hu : Under root made b.tree) {b' : Bench} {issued : List Issued}
    (hok : s.perform issuer b = (.ok issued, b')) {q : Place} (hlocked : b'.tree.Locked q) :
    b.tree.Locked q ∨ ∃ i certs, s = .issue i certs ∧ q ∈ i.outputs certs := by
  obtain ⟨stub', hready, -, performed⟩ := h.perform_eq_ok hissuer hu hok
  have huser : b'.tree.user = b.tree.user := performed.touched.keeps.user
  by_cases hq : ∃ m, s.Marks stub' q m
  · obtain ⟨m, hm⟩ := hq
    obtain ⟨mode, content, hnode, hmay⟩ := hlocked
    have hleaves := performed.marked q m hm
    rw [hnode] at hleaves
    rcases Step.cases_marks hm with rfl | ⟨hne, hown⟩ | ⟨-, hissue⟩
    · exact absurd (Mark.leaves_directory hleaves) (not_isDirectory_file mode content)
    · have hwrites := hleaves.mayWrite (u := b.tree.user) hne fun old c hold =>
        eq_true_of_ne_false fun hmay => hready.unlocked q hown ⟨old, c, hold, hmay⟩
      rw [huser, hwrites] at hmay
      cases hmay
    · exact .inr hissue
  · exact .inl (hlocked.congr huser.symm (performed.other q fun m hm => hq ⟨m, hm⟩).symm)

/-! ## Runs that nothing stops -/

/-- An issuer that succeeds where it is asked properly, and where its two files can be written. -/
def Issuer.Delivers (issuer : Issuer) (i : Identity) : Prop :=
  ∀ t certs, Request t i certs → (∀ p ∈ i.outputs certs, t.Open p) →
    ∃ answer, (issuer i (textOfPlace certs) t).1 = .ok answer

/-- Nothing of a plan is locked after a step that succeeds, if nothing was before, and the issuer
leaves its outputs for their owner. -/
theorem Sound.unlocked_perform (h : Sound root stub M made (s :: rest))
    (hconfined : issuer.Confined) (hissuer : issuer.Restrictive) (hu : Under root made b.tree)
    {b' : Bench} {issued : List Issued} (hok : s.perform issuer b = (.ok issued, b'))
    (hfree : ∀ q m, M q m → ¬ b.tree.Locked q) : ∀ q m, M q m → ¬ b'.tree.Locked q := by
  intro q m hm hlocked
  rcases h.locked_perform hconfined hu hok hlocked with hbefore | ⟨i, certs, rfl, hq⟩
  · exact hfree q m hm hbefore
  · have hrestricted := h.restricted_of_issue hissuer hu hok hq
    obtain ⟨mode, content, hnode, hmay⟩ := hlocked
    rw [hnode] at hrestricted
    cases hrestricted
    rw [User.mayWrite_of_bit _ (by decide)] at hmay
    cases hmay

/-- **A sound plan is carried out to the end** in a workspace where nothing else has been done, if
the system takes all places, what is copied can be read, no file is locked, and the issuer
delivers. -/
theorem performAll_ready (h : Sound root stub M made steps) (hconfined : issuer.Confined)
    (hissuer : issuer.Restrictive) (hu : Under root made b.tree)
    (hfresh : ∀ q, root <+: q → q ≠ root → e.node? q = none) (ht : Touched M e b.tree)
    (hfree : ∀ q m, M q m → ¬ b.tree.Locked q) (hl : ∀ s ∈ steps, ∀ p ∈ s.places, Legal p)
    (hcopies : ∀ t, Touched M e t → ∀ source p, .install (some source) p ∈ steps →
      ∃ c, t.fileContent source = .ok c)
    (hdelivers : ∀ i certs, .issue i certs ∈ steps → issuer.Delivers i) :
    ∃ issued b', performAll issuer b steps = (.ok issued, b') := by
  induction steps generalizing b made with
  | nil => exact ⟨[], b, rfl⟩
  | cons s rest ih =>
    have hfits : s.Fits b.tree := h.fits hu hfresh ht (fun _ => hl s List.mem_cons_self)
      fun source p hs => hcopies b.tree ht source p (hs ▸ List.mem_cons_self)
    have hfile : ∀ p ∈ s.files, b.tree.Open p := by
      intro p hp
      obtain ⟨m, -, hm⟩ := s.marks_of_files stub hp
      exact ⟨h.placed hu hfresh ht hp (hl s List.mem_cons_self p (s.places_of_files hp)),
        hfree p m (h.marks s List.mem_cons_self p m hm)⟩
    rcases h.perform_cases hconfined hu hfits with ⟨first, t₁, stub', -, -, performed, hr⟩ |
      ⟨i, certs, failure, b', rfl, hr⟩ | ⟨p, hp, hlocked, -⟩
    · have hfirst := (performed.touched.of_marks stub).mono
        (h.marks s List.mem_cons_self)
      obtain ⟨more, b', hrest⟩ := ih (b := ⟨t₁, b.asked ++ s.asks⟩) h.tail (hu.performed performed)
        (ht.trans h.functional hfirst) (h.unlocked_perform hconfined hissuer hu hr hfree)
        (fun s hs => hl s (List.mem_cons_of_mem _ hs))
        (fun t ht source p hs => hcopies t ht source p (List.mem_cons_of_mem _ hs))
        fun i certs hs => hdelivers i certs (List.mem_cons_of_mem _ hs)
      refine ⟨first ++ more, b', ?_⟩
      rw [performAll_cons, hr]
      dsimp only
      rw [hrest]
      rfl
    · obtain ⟨answer, hanswer⟩ :=
        hdelivers i certs List.mem_cons_self b.tree certs (h.request hu) hfile
      rw [Step.perform] at hr
      rcases hissue : issuer i (textOfPlace certs) b.tree with ⟨e | answer', t'⟩
      · rw [hissue] at hanswer
        cases hanswer
      · rw [hissue] at hr
        cases hr
    · obtain ⟨m, -, -, hm⟩ := s.marks_of_own stub hp
      exact absurd hlocked (hfree p m (h.marks s List.mem_cons_self p m hm))

/-- What is marked is below the root, or a directory on the way there. -/
def Marking.Below (M : Marking) (root : Place) : Prop :=
  ∀ q m, M q m → root <+: q ∨ (q <+: root ∧ m = .directory)

/-- Outside a workspace that is there nothing changes. -/
theorem Touched.outside (h : Touched M t t') (hM : M.Below root) (hg : t.Grounded root) {p : Place}
    (hp : ¬ root <+: p) : t'.node? p = t.node? p := by
  rcases h.node p with he | ⟨m, hm, hallow⟩
  · exact he
  rcases hM p m hm with hbelow | ⟨habove, rfl⟩
  · exact absurd hbelow hp
  · exact absurd (hallow.1 ▸ hg p habove) not_isDirectory_none

/-- A path leads out of a workspace, whatever is put in there. -/
def Outside (t : FileTree) (root : Place) (source : String) : Prop :=
  ∀ t', t.Keeps t' → (∀ q, ¬ root <+: q → t'.node? q = t.node? q) →
    ∀ q n, t'.stat source = .ok (q, n) → ¬ root <+: q

/-- A path that leads to a file or a directory outside a workspace leads out of it. -/
theorem outside_of_stat (hst : t.Started) {p : Place} {n : Node}
    (h : t.stat source = .ok (p, n)) (hlink : ∀ target, n ≠ .link target) (hp : ¬ root <+: p) :
    Outside t root source := by
  intro t' hk hsame q m hq
  have hthere := stat_of_keeps hk hst h ((hsame p hp).trans (stat_node hst h)) hlink
  rw [hthere] at hq
  cases hq
  exact hp

/-- A file outside of a workspace is there as long as the workspace grows. -/
theorem Outside.stat (h : Outside e root source) (hM : M.Below root) (hst : e.Started)
    (hg : e.Grounded root) (ht : Touched M e t) (ht' : Touched M t t') {content : Content}
    (hread : t.fileContent source = .ok content) :
    ∃ p mode, ¬ root <+: p ∧ e.node? p = some (.file mode content) ∧
      t.stat source = .ok (p, .file mode content) ∧
        t'.stat source = .ok (p, .file mode content) := by
  obtain ⟨p, mode, hstat⟩ := fileContent_eq_ok_iff.1 hread
  have hp : ¬ root <+: p :=
    h t ht.keeps (fun q hq => ht.outside hM hg hq) p _ hstat
  have hst' := ht.keeps.started hst
  have hnode := stat_node hst' hstat
  have hthere := (ht'.outside hM (ht.keeps.grounded hg) hp).trans hnode
  exact ⟨p, mode, hp, (ht.outside hM hg hp).symm.trans hnode, hstat,
    stat_of_keeps ht'.keeps hst' hstat hthere fun _ he => by cases he⟩

/-- Two workspaces that have grown out of one empty one, of which the second keeps the ways of the
first. -/
structure Twins (root : Place) (made : List Place) (M : Marking) (e r t : FileTree) : Prop where
  first : Under root made r
  second : Under root made t
  firstGrown : Touched M e r
  secondGrown : Touched M e t
  keeps : r.Keeps t

/-- A step that has been performed in both leaves them so. -/
theorem Twins.performed {r r' : FileTree} (h : Twins root made M e r t) (hM : M.Functional)
    (hmarks : ∀ q m, s.Marks stub q m → M q m) (hr : Performed (s.Marks stub) r r')
    (ht : Performed (s.Marks stub) t t') : Twins root (s.makes ++ made) M e r' t' where
  first := h.first.performed hr
  second := h.second.performed ht
  firstGrown := h.firstGrown.trans hM (hr.touched.mono hmarks)
  secondGrown := h.secondGrown.trans hM (ht.touched.mono hmarks)
  keeps := by
    refine ⟨ht.process.trans (h.keeps.process.trans hr.process.symm), fun q hq => ?_,
      fun q target => ?_⟩
    · by_cases hq' : ∃ m, s.Marks stub q m
      · obtain ⟨m, hm⟩ := hq'
        rcases (hr.marked q m hm).of_isDirectory hq with rfl | hdir
        · exact Mark.leaves_directory (ht.marked q .directory hm)
        · exact (ht.marked q m hm).isDirectory (h.keeps.directory q hdir)
      · have hnone : ∀ m, ¬ s.Marks stub q m := fun m hm => hq' ⟨m, hm⟩
        rw [hr.other q hnone] at hq
        rw [ht.other q hnone]
        exact h.keeps.directory q hq
    · rw [ht.touched.keeps.link, hr.touched.keeps.link, h.keeps.link]

/-- What is copied into the one workspace can be copied into the other. -/
theorem Twins.fileContent {r : FileTree} (h : Twins root made M e r t) (hM : M.Below root)
    (hst : e.Started) (hg : e.Grounded root) (hout : Outside e root source) {content : Content}
    (hread : r.fileContent source = .ok content) : t.fileContent source = .ok content := by
  obtain ⟨q, mode, hq, hnode, hstat, -⟩ :=
    hout.stat hM hst hg h.firstGrown (.refl M r) hread
  have hthere := (h.secondGrown.outside hM hg hq).trans hnode
  exact fileContent_eq_ok_iff.2 ⟨q, mode, stat_of_keeps h.keeps h.first.started hstat hthere
    fun _ he => by cases he⟩

/-- **A step that succeeds in the one workspace** succeeds in the other, or the issuer refuses
there, or a file is locked. -/
theorem Twins.perform_cases {ref : Issuer} {r r' : Bench} {answers : List Issued}
    (htwins : Twins root made M e r.tree b.tree) (h : Sound root stub M made (s :: rest))
    (href : ref.Confined) (hissuer : issuer.Confined) (hst : e.Started) (hg : e.Grounded root)
    (hfresh : ∀ q, root <+: q → q ≠ root → e.node? q = none) (hM : M.Below root)
    (hok : s.perform ref r = (.ok answers, r'))
    (hout : ∀ source p, s = .install (some source) p → Outside e root source)
    (hstub : ∀ source p, s = .install (some source) p → ∀ c,
      r.tree.fileContent source = .ok c → c = stub) :
    (∃ issued t, Performed (s.Marks stub) r.tree r'.tree ∧ Performed (s.Marks stub) b.tree t ∧
        s.perform issuer b = (.ok issued, ⟨t, b.asked ++ s.asks⟩)) ∨
      (∃ i certs failure b', s = .issue i certs ∧
        s.perform issuer b = (.error (.ofIssuer i.service failure), b')) ∨
      ∃ p ∈ s.own, b.tree.Locked p ∧
        s.perform issuer b = (.error (.io (textOfPlace p) .permissionDenied), b) := by
  obtain ⟨stub₁, ready₁, copies₁, performed₁⟩ := h.perform_eq_ok href htwins.first hok
  have hmarks₁ : s.Marks stub₁ = s.Marks stub :=
    Step.marks_of_copies copies₁ fun source p hs hread => hstub source p hs stub₁ hread
  rw [hmarks₁] at performed₁
  have hcopies : ∀ source p, s = .install (some source) p →
      b.tree.fileContent source = .ok stub := by
    rintro source p rfl
    have hread : r.tree.fileContent source = .ok stub₁ := copies₁
    rw [← hstub source p rfl stub₁ hread]
    exact htwins.fileContent hM hst hg (hout source p rfl) hread
  have hfits : s.Fits b.tree := h.fits htwins.second hfresh htwins.secondGrown
    (fun hs p => ready₁.fits.legal hs) fun source p hs => ⟨stub, hcopies source p hs⟩
  rcases h.perform_cases hissuer htwins.second hfits with
    ⟨issued, t, stub₂, -, copies₂, performed₂, hr₂⟩ | hrefused | hlocked
  · have hmarks₂ : s.Marks stub₂ = s.Marks stub := by
      refine Step.marks_of_copies copies₂ fun source p hs hread => ?_
      exact Except.ok.inj (hread.symm.trans (hcopies source p hs))
    exact .inl ⟨issued, t, performed₁, hmarks₂ ▸ performed₂, hr₂⟩
  · exact .inr (.inl hrefused)
  · exact .inr (.inr hlocked)

end CredentialBench.Workspace
