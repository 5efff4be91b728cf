import CredentialBench.Proofs.Workspace.Step

/-!
# What runs change

A plan is sound below a root if its steps are about places there, no two of them mark one place
differently, and each file goes where an earlier step has made the directory (`Sound`). Such a plan
changes marked places only, wherever it stops (`performAll_touched`); if it is carried out to the
end, every place is as its mark says (`performAll_performed`), certificates and keys are for their
owner alone if the issuer leaves them so (`performAll_restricted`), and what the issuer has answered
is told by the steps (`performAll_answers`).
-/

namespace CredentialBench.Workspace

open FileTree CredentialBench.Path

/-! ## Sound plans -/

namespace Step

/-- The directories that a step makes. -/
def makes : Step → List Place
  | directory p => [p]
  | _ => []

/-- The files that a step writes. -/
def files : Step → List Place
  | directory _ => []
  | s => s.places

variable {s : Step} {stub : Content} {p : Place}

theorem places_of_files (h : p ∈ s.files) : p ∈ s.places := by
  cases s with
  | directory _ => exact absurd h List.not_mem_nil
  | write _ _ _ => exact h
  | issue _ _ => exact h
  | install _ _ => exact h

/-- A file has the mark of a file. -/
theorem marks_of_files (stub : Content) (h : p ∈ s.files) :
    ∃ m, m ≠ .directory ∧ s.Marks stub p m := by
  cases s with
  | directory _ => exact absurd h List.not_mem_nil
  | write p' access content =>
    obtain rfl := List.mem_singleton.1 h
    cases access with
    | owner => exact ⟨.owner content, by simp, rfl, rfl⟩
    | default => exact ⟨.default content, by simp, rfl, rfl⟩
  | issue i certs => exact ⟨.issued, by simp, h, rfl⟩
  | install agent p' =>
    obtain rfl := List.mem_singleton.1 h
    cases agent with
    | none => exact ⟨.agent (.ofText agentScript), by simp, rfl, rfl⟩
    | some source => exact ⟨.agent stub, by simp, rfl, rfl⟩

/-- A file that a step writes by itself has the mark of one. -/
theorem marks_of_own (stub : Content) (h : p ∈ s.own) :
    ∃ m, m ≠ .directory ∧ m ≠ .issued ∧ s.Marks stub p m := by
  cases s with
  | directory _ => exact absurd h List.not_mem_nil
  | write p' access content =>
    obtain rfl := List.mem_singleton.1 h
    cases access with
    | owner => exact ⟨.owner content, by simp, by simp, rfl, rfl⟩
    | default => exact ⟨.default content, by simp, by simp, rfl, rfl⟩
  | issue i certs => exact absurd h List.not_mem_nil
  | install agent p' =>
    obtain rfl := List.mem_singleton.1 h
    cases agent with
    | none => exact ⟨.agent (.ofText agentScript), by simp, by simp, rfl, rfl⟩
    | some source => exact ⟨.agent stub, by simp, by simp, rfl, rfl⟩

/-- What a step marks is a directory, one of its own files, or for an issuer to write. -/
theorem cases_marks {m : Mark} (h : s.Marks stub p m) :
    m = .directory ∨ (m ≠ .issued ∧ p ∈ s.own) ∨
      (m = .issued ∧ ∃ i certs, s = .issue i certs ∧ p ∈ i.outputs certs) := by
  cases s with
  | directory _ => exact .inl h.2
  | write p' access content =>
    cases access <;> obtain ⟨rfl, rfl⟩ := h
    · exact .inr (.inl ⟨by simp, List.mem_singleton_self _⟩)
    · exact .inr (.inl ⟨by simp, List.mem_singleton_self _⟩)
  | issue i certs => exact .inr (.inr ⟨h.2, i, certs, rfl, h.1⟩)
  | install agent p' =>
    cases agent <;> obtain ⟨rfl, rfl⟩ := h
    · exact .inr (.inl ⟨by simp, List.mem_singleton_self _⟩)
    · exact .inr (.inl ⟨by simp, List.mem_singleton_self _⟩)

/-- What is copied shows in the marks of copying only. -/
theorem marks_of_copies {t : FileTree} {stub' : Content} (h : s.Copies t stub')
    (hstub : ∀ source p, s = .install (some source) p →
      t.fileContent source = .ok stub' → stub' = stub) : s.Marks stub' = s.Marks stub := by
  cases s with
  | directory _ => rfl
  | write _ access _ => cases access <;> rfl
  | issue _ _ => rfl
  | install agent p =>
    cases agent with
    | none => rfl
    | some source => rw [hstub source p rfl h]

end Step

/-- Every file goes where there is a directory, made before or by an earlier step. -/
def Supported : (made : List Place) → List Step → Prop
  | _, [] => True
  | made, s :: rest =>
    (∀ p ∈ s.files, ∃ d ∈ made, p.dropLast <+: d) ∧ Supported (s.makes ++ made) rest

theorem Supported.mono {made made' : List Place} {steps : List Step} (h : Supported made steps)
    (hm : ∀ d ∈ made, d ∈ made') : Supported made' steps := by
  induction steps generalizing made made' with
  | nil => trivial
  | cons s rest ih =>
    refine ⟨fun p hp => ?_, ih h.2 fun d hd => ?_⟩
    · obtain ⟨d, hd, hpre⟩ := h.1 p hp
      exact ⟨d, hm d hd, hpre⟩
    · rcases List.mem_append.1 hd with hd | hd
      · exact List.mem_append_left _ hd
      · exact List.mem_append_right _ (hm d hd)

theorem Supported.append {made : List Place} {xs ys : List Step} (hx : Supported made xs)
    (hy : Supported (xs.flatMap Step.makes ++ made) ys) : Supported made (xs ++ ys) := by
  induction xs generalizing made with
  | nil => exact hy
  | cons s rest ih =>
    refine ⟨hx.1, ih hx.2 (hy.mono fun d hd => ?_)⟩
    simp only [List.flatMap_cons, List.mem_append] at hd ⊢
    tauto

theorem Supported.left {made : List Place} {xs ys : List Step} (h : Supported made (xs ++ ys)) :
    Supported made xs := by
  induction xs generalizing made with
  | nil => trivial
  | cons s rest ih => exact ⟨h.1, ih h.2⟩

/-- The marks of some steps. -/
def Marked (stub : Content) (steps : List Step) : Marking :=
  fun q m => ∃ s ∈ steps, s.Marks stub q m

/-- A plan that can be carried out below a root without getting in its own way. -/
structure Sound (root : Place) (stub : Content) (M : Marking) (made : List Place)
    (steps : List Step) : Prop where
  within : ∀ s ∈ steps, s.Within root
  supported : Supported made steps
  marks : ∀ s ∈ steps, ∀ q m, s.Marks stub q m → M q m
  functional : M.Functional

section Runs

variable {root : Place} {stub : Content} {M : Marking} {made : List Place} {s : Step}
  {steps rest : List Step} {t t' : FileTree} {b : Bench} {issuer : Issuer}

theorem Sound.tail (h : Sound root stub M made (s :: rest)) :
    Sound root stub M (s.makes ++ made) rest :=
  ⟨fun s hs => h.within s (List.mem_cons_of_mem _ hs), h.supported.2,
    fun s hs => h.marks s (List.mem_cons_of_mem _ hs), h.functional⟩

theorem Sound.left {ys : List Step} (h : Sound root stub M made (steps ++ ys)) :
    Sound root stub M made steps :=
  ⟨fun s hs => h.within s (List.mem_append_left _ hs), h.supported.left,
    fun s hs => h.marks s (List.mem_append_left _ hs), h.functional⟩

/-- A sound plan is sound for its own marks. -/
theorem Sound.own (h : Sound root stub M made steps) :
    Sound root stub (Marked stub steps) made steps := by
  refine ⟨h.within, h.supported, fun s hs q m hm => ⟨s, hs, hm⟩, ?_⟩
  rintro q m m' ⟨s, hs, hm⟩ ⟨s', hs', hm'⟩
  exact h.functional q m m' (h.marks s hs q m hm) (h.marks s' hs' q m' hm')

/-- A tree where a plan can go on: the directories made so far are there. -/
structure Under (root : Place) (made : List Place) (t : FileTree) : Prop extends Base root t where
  made : ∀ d ∈ made, t.Grounded d

theorem Under.keeps (h : Under root made t) (hk : t.Keeps t') : Under root made t' :=
  ⟨h.toBase.keeps hk, fun d hd => hk.grounded (h.made d hd)⟩

theorem Under.files (h : Under root made t) (hs : Supported made (s :: rest)) :
    ∀ p ∈ s.files, t.Grounded p.dropLast := by
  intro p hp
  obtain ⟨d, hd, hpre⟩ := hs.1 p hp
  exact (h.made d hd).of_isPrefix hpre

/-- The directories of a step that has been performed are there. -/
theorem Under.performed (h : Under root made t) (hp : Performed (s.Marks stub) t t') :
    Under root (s.makes ++ made) t' := by
  have hk := h.keeps hp.touched.keeps
  refine ⟨hk.toBase, fun d hd => ?_⟩
  rcases List.mem_append.1 hd with hd | hd
  · cases s with
    | directory p =>
      obtain rfl := List.mem_singleton.1 hd
      exact fun q hq => Mark.leaves_directory (hp.marked q .directory ⟨hq, rfl⟩)
    | write _ _ _ => exact absurd hd List.not_mem_nil
    | issue _ _ => exact absurd hd List.not_mem_nil
    | install _ _ => exact absurd hd List.not_mem_nil
  · exact hk.made d hd

/-- The first step of a sound plan and the others leave all places as their marks say. -/
theorem Sound.performed_cons {t'' : FileTree} (h : Sound root stub M made (s :: rest))
    (hp : Performed (s.Marks stub) t t') (hrest : Performed (Marked stub rest) t' t'') :
    Performed (Marked stub (s :: rest)) t t'' := by
  refine (hp.trans (fun q m m' hm hm' => ?_) hrest).congr fun q m => ?_
  · obtain ⟨s', hs', hm'⟩ := hm'
    exact h.functional q m m' (h.marks s List.mem_cons_self q m hm)
      (h.marks s' (List.mem_cons_of_mem s hs') q m' hm')
  · exact List.exists_mem_cons_iff ..

/-- Certificates go into a directory that is there. -/
theorem Under.certs {i : Identity} {certs : Place} (h : Under root made t)
    (hs : Supported made (.issue i certs :: rest)) : t.Grounded certs := by
  have hcert : i.certPlace certs ∈ (Step.issue i certs).files := List.mem_cons_self
  have hg := h.files hs _ hcert
  rwa [Identity.certPlace, List.dropLast_concat] at hg

theorem Sound.request {i : Identity} {certs : Place}
    (h : Sound root stub M made (.issue i certs :: rest)) (hu : Under root made t) :
    Request t i certs :=
  hu.toBase.request (h.within _ List.mem_cons_self) (hu.certs h.supported)

/-- What the next step of a sound plan does. -/
theorem Sound.outcome (h : Sound root stub M made (s :: rest)) (hissuer : issuer.Confined)
    (hu : Under root made b.tree) : s.Outcome b (s.perform issuer b) := by
  refine Step.outcome hissuer hu.toBase (h.within s List.mem_cons_self) ?_
  rintro i certs rfl
  exact hu.certs h.supported

/-! ## Any run -/

/-- The outcomes of a step change marked places only. -/
theorem Step.Outcome.touched {r : Except RunError (List Issued) × Bench} (h : s.Outcome b r)
    (stub : Content) : Touched (s.Marks stub) b.tree r.2.tree := by
  cases h with
  | done stub' _ _ performed => exact performed.touched.of_marks stub
  | failed _ touched _ => exact touched stub
  | refused _ touched => exact touched stub

/-- Whatever comes of the next step of a sound plan, it touches its own places only. -/
theorem Sound.perform_touched (h : Sound root stub M made (s :: rest)) (hissuer : issuer.Confined)
    (hu : Under root made b.tree) : Touched (s.Marks stub) b.tree (s.perform issuer b).2.tree :=
  (h.outcome hissuer hu).touched stub

/-- What a step that succeeds has found and done. -/
theorem Sound.perform_eq_ok (h : Sound root stub M made (s :: rest)) (hissuer : issuer.Confined)
    (hu : Under root made b.tree) {b' : Bench} {issued : List Issued}
    (hok : s.perform issuer b = (.ok issued, b')) :
    ∃ stub', s.Ready b.tree ∧ s.Copies b.tree stub' ∧
      Performed (s.Marks stub') b.tree b'.tree := by
  have hout := h.outcome hissuer hu
  rw [hok] at hout
  cases hout with
  | done stub' ready copies performed => exact ⟨stub', ready, copies, performed⟩

/-- The plan can go on after a step that succeeds. -/
theorem Sound.under_perform (h : Sound root stub M made (s :: rest)) (hissuer : issuer.Confined)
    (hu : Under root made b.tree) {b' : Bench} {issued : List Issued}
    (hok : s.perform issuer b = (.ok issued, b')) : Under root (s.makes ++ made) b'.tree := by
  obtain ⟨stub', -, -, performed⟩ := h.perform_eq_ok hissuer hu hok
  exact hu.performed performed

/-- The rest of a plan after a first step. -/
theorem performAll_cons (issuer : Issuer) (b : Bench) (s : Step) (rest : List Step) :
    performAll issuer b (s :: rest) =
      match s.perform issuer b with
      | (.error e, b) => (.error e, b)
      | (.ok issued, b) =>
        ((performAll issuer b rest).1.map (issued ++ ·), (performAll issuer b rest).2) := by
  rw [performAll]
  rcases s.perform issuer b with ⟨e | issued, b₁⟩
  · rfl
  · dsimp only
    rcases performAll issuer b₁ rest with ⟨e | more, b₂⟩ <;> rfl

/-- A plan succeeds as its first step and the others do. -/
theorem performAll_cons_eq_ok {b' : Bench} {issued : List Issued}
    (h : performAll issuer b (s :: rest) = (.ok issued, b')) :
    ∃ first b₁ more, s.perform issuer b = (.ok first, b₁) ∧
      performAll issuer b₁ rest = (.ok more, b') ∧ issued = first ++ more := by
  rw [performAll] at h
  rcases hr : s.perform issuer b with ⟨e | first, b₁⟩ <;> rw [hr] at h
  · cases h
  dsimp only at h
  rcases hr' : performAll issuer b₁ rest with ⟨e | more, b₂⟩ <;> rw [hr'] at h <;> cases h
  exact ⟨first, b₁, more, rfl, hr', rfl⟩

theorem performAll_append (issuer : Issuer) (b : Bench) (xs ys : List Step) :
    performAll issuer b (xs ++ ys) =
      match performAll issuer b xs with
      | (.error e, b) => (.error e, b)
      | (.ok issued, b) =>
        ((performAll issuer b ys).1.map (issued ++ ·), (performAll issuer b ys).2) := by
  induction xs generalizing b with
  | nil =>
    change performAll issuer b ys =
      ((performAll issuer b ys).1.map ([] ++ ·), (performAll issuer b ys).2)
    rcases performAll issuer b ys with ⟨e | issued, b'⟩ <;> rfl
  | cons s rest ih =>
    rw [List.cons_append, performAll_cons, performAll_cons]
    rcases s.perform issuer b with ⟨e | first, b₁⟩
    · rfl
    dsimp only
    rw [ih]
    rcases performAll issuer b₁ rest with ⟨e | more, b₂⟩
    · rfl
    change (((performAll issuer b₂ ys).1.map (more ++ ·)).map (first ++ ·),
        (performAll issuer b₂ ys).2) =
      ((performAll issuer b₂ ys).1.map ((first ++ more) ++ ·), (performAll issuer b₂ ys).2)
    rcases performAll issuer b₂ ys with ⟨e | last, b₃⟩
    · rfl
    · simp only [Except.map, List.append_assoc]

/-- **Wherever a sound plan stops, it has changed marked places only**, if the issuer keeps to its
own files. -/
theorem performAll_touched (h : Sound root stub M made steps) (hissuer : issuer.Confined)
    (hu : Under root made b.tree) : Touched M b.tree (performAll issuer b steps).2.tree := by
  induction steps generalizing b made with
  | nil => exact .refl M b.tree
  | cons s rest ih =>
    have htouched := (h.perform_touched hissuer hu).mono (h.marks s List.mem_cons_self)
    rw [performAll_cons]
    rcases hr : s.perform issuer b with ⟨e | issued, b'⟩ <;> rw [hr] at htouched
    · exact htouched
    · exact htouched.trans h.functional (ih h.tail (h.under_perform hissuer hu hr))

/-- When the first steps of a sound plan have succeeded, it can go on with the others. -/
theorem Sound.after {xs ys : List Step} (h : Sound root stub M made (xs ++ ys))
    (hissuer : issuer.Confined) (hu : Under root made b.tree) {b' : Bench} {issued : List Issued}
    (hok : performAll issuer b xs = (.ok issued, b')) :
    ∃ made', Sound root stub M made' ys ∧ Under root made' b'.tree := by
  induction xs generalizing b made issued with
  | nil =>
    cases hok
    exact ⟨made, h, hu⟩
  | cons s rest ih =>
    obtain ⟨first, b₁, more, hr, hrest, -⟩ := performAll_cons_eq_ok hok
    exact ih h.tail (h.under_perform hissuer hu hr) hrest

/-! ## Certificates asked for -/

/-- What an issuer answers to a step that writes where it is to. -/
def Step.answers : Step → List Issued
  | issue i certs => [i.issued (textOfPlace certs)]
  | _ => []

/-- A step asks for its certificate, whether it succeeds or not. -/
theorem Step.perform_asked (s : Step) (issuer : Issuer) (b : Bench) :
    (s.perform issuer b).2.asked = b.asked ++ s.asks := by
  have hfiles : ∀ (path : String) (r : Except OsError Unit × FileTree),
      (b.ofFiles path r).2.asked = b.asked ++ [] := by
    rintro path ⟨e | u, t⟩ <;> exact (List.append_nil _).symm
  cases s with
  | directory p => exact hfiles _ _
  | write p access content => cases access <;> exact hfiles _ _
  | issue i certs =>
    rw [perform]
    rcases issuer i (textOfPlace certs) b.tree with ⟨e | answer, t⟩ <;> rfl
  | install agent p =>
    cases agent with
    | none => exact hfiles _ _
    | some source =>
      rw [perform]
      cases b.tree.fileContent source with
      | error e => exact (List.append_nil _).symm
      | ok content => exact hfiles _ _

/-- A step that succeeds has as many answers as it has asked for certificates. -/
theorem Step.perform_length {b' : Bench} {issued : List Issued}
    (hok : s.perform issuer b = (.ok issued, b')) : issued.length = s.asks.length := by
  have hfiles : ∀ {path : String} {r : Except OsError Unit × FileTree},
      b.ofFiles path r = (.ok issued, b') → issued = [] := by
    rintro path ⟨e | u, t⟩ h <;> cases h
    rfl
  cases s with
  | directory p => exact congrArg List.length (hfiles hok)
  | write p access content => cases access <;> exact congrArg List.length (hfiles hok)
  | issue i certs =>
    rw [perform] at hok
    rcases hr : issuer i (textOfPlace certs) b.tree with ⟨e | answer, t⟩ <;> rw [hr] at hok <;>
      cases hok
    rfl
  | install agent p =>
    cases agent with
    | none => exact congrArg List.length (hfiles hok)
    | some source =>
      rw [perform] at hok
      cases hread : b.tree.fileContent source <;> rw [hread] at hok
      · cases hok
      · exact congrArg List.length (hfiles hok)

/-- Steps that succeed have asked for their certificates in order. -/
theorem performAll_asked {b' : Bench} {issued : List Issued}
    (hok : performAll issuer b steps = (.ok issued, b')) :
    b'.asked = b.asked ++ steps.flatMap Step.asks := by
  induction steps generalizing b issued with
  | nil =>
    cases hok
    exact (List.append_nil _).symm
  | cons s rest ih =>
    obtain ⟨first, b₁, more, hr, hrest, -⟩ := performAll_cons_eq_ok hok
    have hasked := s.perform_asked issuer b
    rw [hr] at hasked
    rw [ih hrest, hasked, List.flatMap_cons, List.append_assoc]

/-- There is an answer for every certificate. -/
theorem performAll_length {b' : Bench} {issued : List Issued}
    (hok : performAll issuer b steps = (.ok issued, b')) :
    issued.length = (steps.flatMap Step.asks).length := by
  induction steps generalizing b issued with
  | nil =>
    cases hok
    rfl
  | cons s rest ih =>
    obtain ⟨first, b₁, more, hr, hrest, rfl⟩ := performAll_cons_eq_ok hok
    rw [List.length_append, Step.perform_length hr, ih hrest, List.flatMap_cons,
      List.length_append]

/-- **What an issuer answers to a sound plan** are its outputs in order, if it answers with its
outputs. -/
theorem performAll_answers (h : Sound root stub M made steps) (hissuer : issuer.Confined)
    (hanswers : issuer.Answers) (hu : Under root made b.tree) {b' : Bench} {issued : List Issued}
    (hok : performAll issuer b steps = (.ok issued, b')) :
    issued = steps.flatMap Step.answers := by
  induction steps generalizing b made issued with
  | nil =>
    cases hok
    rfl
  | cons s rest ih =>
    obtain ⟨first, b₁, more, hr, hrest, rfl⟩ := performAll_cons_eq_ok hok
    rw [List.flatMap_cons, ← ih h.tail (h.under_perform hissuer hu hr) hrest]
    congr 1
    rcases s.issue_or with ⟨i, certs, rfl⟩ | hs
    · rw [Step.perform] at hr
      rcases hissue : issuer i (textOfPlace certs) b.tree with ⟨e | answer, t⟩ <;>
        rw [hissue] at hr <;> cases hr
      exact congrArg (fun answer => [answer])
        (hanswers b.tree i certs answer t (h.request hu) hissue)
    · have hlength := Step.perform_length hr
      cases s with
      | issue i certs => exact absurd rfl (hs i certs)
      | directory _ => exact List.length_eq_zero_iff.1 hlength
      | write _ _ _ => exact List.length_eq_zero_iff.1 hlength
      | install _ _ => exact List.length_eq_zero_iff.1 hlength

/-! ## Runs to the end -/

/-- What holds at first or is brought about by a step, and is kept by every step that succeeds in
its turn, holds when a sound plan has been carried out. -/
theorem performAll_establishes (P : FileTree → Prop) (h : Sound root stub M made steps)
    (hissuer : issuer.Confined) (hu : Under root made b.tree) {b' : Bench} {issued : List Issued}
    (hok : performAll issuer b steps = (.ok issued, b'))
    (hkeeps : ∀ {s made rest b issued b'}, Sound root stub M made (s :: rest) →
      Under root made b.tree → s.perform issuer b = (.ok issued, b') → P b.tree → P b'.tree)
    (hp : P b.tree ∨ ∃ s ∈ steps, ∀ {made rest b issued b'}, Sound root stub M made (s :: rest) →
      Under root made b.tree → s.perform issuer b = (.ok issued, b') → P b'.tree) :
    P b'.tree := by
  -- At every step it holds already, or is still to be brought about.
  induction steps generalizing b made issued with
  | nil =>
    cases hok
    exact hp.resolve_right fun ⟨_, hmem, _⟩ => absurd hmem List.not_mem_nil
  | cons s rest ih =>
    obtain ⟨first, b₁, more, hr, hrest, -⟩ := performAll_cons_eq_ok hok
    refine ih h.tail (h.under_perform hissuer hu hr) hrest ?_
    rcases hp with hp | ⟨s', hmem, hmakes⟩
    · exact .inl (hkeeps h hu hr hp)
    · rcases List.mem_cons.1 hmem with rfl | hmem
      · exact .inl (hmakes h hu hr)
      · exact .inr ⟨s', hmem, hmakes⟩

/-- A plan that is carried out to the end has found every step ready on the way there. -/
theorem performAll_ready_of_mem (h : Sound root stub M made steps) (hissuer : issuer.Confined)
    (hu : Under root made b.tree) {b' : Bench} {issued : List Issued}
    (hok : performAll issuer b steps = (.ok issued, b')) (hs : s ∈ steps) :
    ∃ t, Touched M b.tree t ∧ Touched M t b'.tree ∧ s.Ready t := by
  induction steps generalizing b made issued with
  | nil => exact absurd hs List.not_mem_nil
  | cons first rest ih =>
    have hend := performAll_touched h hissuer hu
    rw [hok] at hend
    obtain ⟨_, b₁, more, hr, hrest, -⟩ := performAll_cons_eq_ok hok
    obtain ⟨stub', ready, -, performed⟩ := h.perform_eq_ok hissuer hu hr
    rcases List.mem_cons.1 hs with rfl | hs
    · exact ⟨b.tree, .refl M b.tree, hend, ready⟩
    · obtain ⟨t, hbefore, hafter, hready⟩ := ih h.tail (h.under_perform hissuer hu hr) hrest hs
      have hfirst := (performed.touched.of_marks stub).mono
        (h.marks first List.mem_cons_self)
      exact ⟨t, hfirst.trans h.functional hbefore, hafter, hready⟩

/-- **A sound plan that is carried out to the end leaves every place as its mark says.** The content
that is copied is that of `stub` at any time on the way. -/
theorem performAll_performed (h : Sound root stub M made steps) (hissuer : issuer.Confined)
    (hu : Under root made b.tree) {b' : Bench} {issued : List Issued}
    (hok : performAll issuer b steps = (.ok issued, b'))
    (hstub : ∀ t, Touched M b.tree t → Touched M t b'.tree → ∀ source p c,
      .install (some source) p ∈ steps → t.fileContent source = .ok c → c = stub) :
    Performed (Marked stub steps) b.tree b'.tree := by
  induction steps generalizing b made issued with
  | nil =>
    cases hok
    refine ⟨rfl, ?_, fun _ _ => rfl⟩
    rintro q m ⟨s, hs, -⟩
    exact absurd hs List.not_mem_nil
  | cons s rest ih =>
    have hend := performAll_touched h hissuer hu
    rw [hok] at hend
    obtain ⟨first, b₁, more, hr, hrest, -⟩ := performAll_cons_eq_ok hok
    obtain ⟨stub', -, copies, performed⟩ := h.perform_eq_ok hissuer hu hr
    have hmarks : s.Marks stub' = s.Marks stub := by
      refine Step.marks_of_copies copies fun source p hs hread => ?_
      exact hstub b.tree (.refl M b.tree) hend source p stub' (hs ▸ List.mem_cons_self) hread
    rw [hmarks] at performed
    have hfirst := performed.touched.mono (h.marks s List.mem_cons_self)
    refine h.performed_cons performed (ih h.tail (hu.performed performed) hrest ?_)
    exact fun t ht ht' source p c hmem =>
      hstub t (hfirst.trans h.functional ht) ht' source p c (List.mem_cons_of_mem s hmem)

/-! ## Restricted outputs -/

/-- A certificate that was issued. -/
theorem Sound.restricted_of_issue {i : Identity} {certs q : Place}
    (h : Sound root stub M made (.issue i certs :: rest)) (hissuer : issuer.Restrictive)
    (hu : Under root made b.tree) {b' : Bench} {issued : List Issued}
    (hok : (Step.issue i certs).perform issuer b = (.ok issued, b')) (hq : q ∈ i.outputs certs) :
    Restricted (b'.tree.node? q) := by
  rw [Step.perform] at hok
  rcases hr : issuer i (textOfPlace certs) b.tree with ⟨e | answer, t'⟩ <;> rw [hr] at hok <;>
    cases hok
  exact hissuer b.tree i certs answer t' (h.request hu) hr q hq

/-- An output that is restricted stays so. -/
theorem Sound.restricted_perform {q : Place} (h : Sound root stub M made (s :: rest))
    (hconfined : issuer.Confined) (hissuer : issuer.Restrictive) (hu : Under root made b.tree)
    {b' : Bench} {issued : List Issued} (hok : s.perform issuer b = (.ok issued, b'))
    (hm : M q .issued) (hq : Restricted (b.tree.node? q)) : Restricted (b'.tree.node? q) := by
  have htouched := h.perform_touched hconfined hu
  rw [hok] at htouched
  rcases htouched.node q with he | ⟨m, hmark, -⟩
  · exact he ▸ hq
  · obtain rfl := h.functional q .issued m hm (h.marks s List.mem_cons_self q m hmark)
    rcases Step.cases_marks hmark with hdir | ⟨hne, -⟩ | ⟨-, i, certs, rfl, hout⟩
    · cases hdir
    · exact absurd rfl hne
    · exact h.restricted_of_issue hissuer hu hok hout

/-- **What a sound plan has had issued is restricted when it has been carried out.** -/
theorem performAll_restricted {i : Identity} {certs q : Place} (h : Sound root stub M made steps)
    (hconfined : issuer.Confined) (hissuer : issuer.Restrictive) (hu : Under root made b.tree)
    {b' : Bench} {issued : List Issued} (hok : performAll issuer b steps = (.ok issued, b'))
    (hi : .issue i certs ∈ steps) (hq : q ∈ i.outputs certs) : Restricted (b'.tree.node? q) := by
  have hm : M q .issued := h.marks _ hi q .issued ⟨hq, rfl⟩
  exact performAll_establishes (Restricted <| ·.node? q) h hconfined hu hok
    (fun h hu hr => h.restricted_perform hconfined hissuer hu hr hm)
    (.inr ⟨_, hi, fun h hu hr => h.restricted_of_issue hissuer hu hr hq⟩)

end Runs

end CredentialBench.Workspace
