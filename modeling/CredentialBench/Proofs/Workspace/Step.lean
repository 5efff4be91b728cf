import CredentialBench.Proofs.FileTree.Operations
import CredentialBench.Workspace.Run

/-!
# What steps change

Every place that a step writes carries a mark, which says what a run makes of it. A step that
succeeds leaves each of its places as the mark says and everything else alone (`Performed`); one
that fails has changed no other places (`Touched`). `Step.outcome` says once for all steps when they
succeed and what they do, for any issuer that touches its two files only (`Issuer.Confined`).
-/

namespace CredentialBench.Workspace

open FileTree CredentialBench.Path

/-! ## Marks -/

/-- What a run makes of a place. -/
inductive Mark
  | directory
  /-- A file for its owner alone. -/
  | owner (content : Content)
  /-- A file that keeps the permissions it has. -/
  | default (content : Content)
  /-- What the issuer writes. -/
  | issued
  /-- An executable file for its owner alone. -/
  | agent (content : Content)

namespace Mark

/-- How a step that succeeds leaves a place: what stood there before, and what stands there after.
Of what an issuer writes it is only known that a file does not become a directory, nor a directory
a file. -/
def Leaves : Mark → (before after : Option Node) → Prop
  | directory, before, after =>
    (before = none ∧ after = some (.directory 0o755)) ∨ (IsDirectory before ∧ after = before)
  | owner content, before, after => TakesFile before ∧ after = some (.file 0o600 content)
  | default content, before, after =>
    TakesFile before ∧ after = some (.file (modeOr 0o644 before) content)
  | issued, before, after =>
    (TakesFile before ∧ TakesFile after) ∨ (IsDirectory before ∧ IsDirectory after)
  | agent content, before, after => TakesFile before ∧ after = some (.file 0o700 content)

/-- What may become of a place by steps that succeed or fail, or when someone else changes a file
that is there. -/
def Allows : Mark → (before after : Option Node) → Prop
  | directory, before, after => before = none ∧ after = some (.directory 0o755)
  | default _, before, after =>
    TakesFile before ∧ ∃ content, after = some (.file (modeOr 0o644 before) content)
  | issued, before, after =>
    (TakesFile before ∧ TakesFile after) ∨ (IsDirectory before ∧ IsDirectory after)
  | _, before, after => TakesFile before ∧ TakesFile after

/-- Two marks that differ in the content of a file at most. -/
inductive Alike : Mark → Mark → Prop
  | refl (m : Mark) : Alike m m
  | default (c c' : Content) : Alike (.default c) (.default c')
  | agent (c c' : Content) : Alike (.agent c) (.agent c')

variable {m m' : Mark} {a b c : Option Node}

theorem Allows.trans (h : m.Allows a b) (h' : m.Allows b c) : m.Allows a c := by
  cases m with
  | directory =>
    obtain ⟨-, rfl⟩ := h
    cases h'.1
  | default content =>
    obtain ⟨ha, x, rfl⟩ := h
    obtain ⟨-, y, rfl⟩ := h'
    exact ⟨ha, y, rfl⟩
  | owner content => exact ⟨h.1, h'.2⟩
  | issued =>
    rcases h with ⟨ha, hb⟩ | ⟨ha, hb⟩ <;> rcases h' with ⟨hb', hc⟩ | ⟨hb', hc⟩
    · exact .inl ⟨ha, hc⟩
    · exact absurd hb' hb.not_directory
    · exact absurd hb hb'.not_directory
    · exact .inr ⟨ha, hc⟩
  | agent content => exact ⟨h.1, h'.2⟩

/-- What a mark allows does not depend on the content. -/
theorem Allows.of_alike (h : m.Allows a b) (hm : m.Alike m') : m'.Allows a b := by
  cases hm with
  | refl => exact h
  | default c c' => exact h
  | agent c c' => exact h

theorem Leaves.allows (h : m.Leaves a b) : b = a ∨ m.Allows a b := by
  cases m with
  | directory => exact h.symm.imp And.right id
  | default content => exact .inr ⟨h.1, content, h.2⟩
  | owner content => exact .inr ⟨h.1, h.2 ▸ .file _ _⟩
  | issued => exact .inr h
  | agent content => exact .inr ⟨h.1, h.2 ▸ .file _ _⟩

theorem Leaves.trans (h : m.Leaves a b) (h' : m.Leaves b c) : m.Leaves a c := by
  cases m with
  | directory =>
    rcases h' with ⟨rfl, rfl⟩ | ⟨-, rfl⟩
    · rcases h with ⟨-, h⟩ | ⟨h, rfl⟩
      · cases h
      · exact absurd h not_isDirectory_none
    · exact h
  | default content =>
    obtain ⟨ha, rfl⟩ := h
    exact ⟨ha, h'.2⟩
  | owner content => exact ⟨h.1, h'.2⟩
  | issued => exact Allows.trans (m := issued) h h'
  | agent content => exact ⟨h.1, h'.2⟩

/-- What steps make of a place: a directory where there was nothing, or nothing or a file where
there was nothing or a file; and an issuer may change a directory that is there. -/
theorem Allows.cases_node (h : m.Allows a b) :
    (m = directory ∧ a = none ∧ IsDirectory b) ∨ (m ≠ directory ∧ TakesFile a ∧ TakesFile b) ∨
      (m = issued ∧ IsDirectory a ∧ IsDirectory b) := by
  cases m with
  | directory => exact .inl ⟨rfl, h.1, _, h.2⟩
  | default content =>
    obtain ⟨ha, x, rfl⟩ := h
    exact .inr (.inl ⟨by simp, ha, .file _ _⟩)
  | owner content => exact .inr (.inl ⟨by simp, h⟩)
  | issued => exact h.symm.elim (fun h => .inr (.inr ⟨rfl, h⟩)) fun h => .inr (.inl ⟨by simp, h⟩)
  | agent content => exact .inr (.inl ⟨by simp, h⟩)

/-- A directory stays one. -/
theorem Allows.isDirectory (h : m.Allows a b) (ha : IsDirectory a) : IsDirectory b := by
  rcases h.cases_node with ⟨-, rfl, -⟩ | ⟨-, hfile, -⟩ | ⟨-, -, hb⟩
  · exact absurd ha not_isDirectory_none
  · exact absurd ha hfile.not_directory
  · exact hb

theorem Leaves.isDirectory (h : m.Leaves a b) (ha : IsDirectory a) : IsDirectory b := by
  rcases h.allows with rfl | h
  · exact ha
  · exact h.isDirectory ha

/-- Only the mark of a directory makes one. -/
theorem Leaves.of_isDirectory (h : m.Leaves a b) (hb : IsDirectory b) :
    m = directory ∨ IsDirectory a := by
  rcases h.allows with rfl | h
  · exact .inr hb
  rcases h.cases_node with ⟨rfl, -⟩ | ⟨-, -, hfile⟩ | ⟨-, ha, -⟩
  · exact .inl rfl
  · exact absurd hb hfile.not_directory
  · exact .inr ha

theorem leaves_directory (h : directory.Leaves a b) : IsDirectory b := by
  rcases h with ⟨-, rfl⟩ | ⟨ha, rfl⟩
  · exact isDirectory_some _
  · exact ha

/-- Where a directory has just been made there might as well have been nothing. -/
theorem Leaves.of_made (h : m.Leaves (some (.directory 0o755)) b) (hm : m ≠ issued) :
    m.Leaves none b := by
  have hdir : IsDirectory (some (.directory 0o755)) := isDirectory_some _
  cases m with
  | directory =>
    rcases h with ⟨h, -⟩ | ⟨-, rfl⟩
    · cases h
    · exact .inl ⟨rfl, rfl⟩
  | default content => exact absurd hdir h.1.not_directory
  | owner content => exact absurd hdir h.1.not_directory
  | issued => exact absurd rfl hm
  | agent content => exact absurd hdir h.1.not_directory

/-- What is left does not depend on what there was before, if there was nothing at all, or what the
mark allows to come of it; but for what an issuer writes. -/
theorem Leaves.unique {a' b' : Option Node} (h : m.Leaves none b) (h' : m.Leaves a' b')
    (ha : a' = none ∨ m.Allows none a') (hm : m ≠ issued) : b' = b := by
  cases m with
  | directory =>
    rcases h with ⟨-, rfl⟩ | ⟨h, -⟩
    · rcases h' with ⟨-, h'⟩ | ⟨hdir, rfl⟩
      · exact h'
      · exact ha.elim (fun hnone => absurd (hnone ▸ hdir) not_isDirectory_none) And.right
    · exact absurd h not_isDirectory_none
  | owner content => exact h'.2.trans h.2.symm
  | agent content => exact h'.2.trans h.2.symm
  | issued => exact absurd rfl hm
  | default content =>
    refine h'.2.trans ?_
    rcases ha with rfl | ⟨-, c, rfl⟩ <;> exact h.2.symm

/-- A file that has just been written is not locked, unless it was before and keeps its
permissions. -/
theorem Leaves.mayWrite {u : User} {mode : Nat} {content : Content}
    (h : m.Leaves a (some (.file mode content))) (hm : m ≠ issued)
    (ha : ∀ old c, a = some (.file old c) → u.mayWrite old = true) : u.mayWrite mode = true := by
  cases m with
  | directory => exact absurd (leaves_directory h) (not_isDirectory_file mode content)
  | owner c =>
    cases h.2
    exact User.mayWrite_of_bit u (by decide)
  | agent c =>
    cases h.2
    exact User.mayWrite_of_bit u (by decide)
  | issued => exact absurd rfl hm
  | default c =>
    obtain ⟨htakes, hafter⟩ := h
    cases htakes with
    | vacant =>
      cases hafter
      exact User.mayWrite_of_bit u (by decide)
    | file old c' =>
      cases hafter
      exact ha old c' rfl

end Mark

/-- Places and their marks. -/
abbrev Marking : Type := Place → Mark → Prop

/-- No place has two marks. -/
def Marking.Functional (M : Marking) : Prop := ∀ q m m', M q m → M q m' → m = m'

/-- The places that have changed are marked, and have become what their marks allow. -/
structure Touched (M : Marking) (t t' : FileTree) : Prop where
  process : t'.process = t.process
  node : ∀ q, t'.node? q = t.node? q ∨ ∃ m, M q m ∧ m.Allows (t.node? q) (t'.node? q)

/-- The marked places are as their marks say, and the others have not changed. -/
structure Performed (M : Marking) (t t' : FileTree) : Prop where
  process : t'.process = t.process
  marked : ∀ q m, M q m → m.Leaves (t.node? q) (t'.node? q)
  other : ∀ q, (∀ m, ¬ M q m) → t'.node? q = t.node? q

section Markings

variable {M N : Marking} {t t' t'' : FileTree}

theorem Touched.refl (M : Marking) (t : FileTree) : Touched M t t := ⟨rfl, fun _ => .inl rfl⟩

/-- What may come of the marked places does not depend on contents. -/
theorem Touched.of_alike (h : Touched M t t')
    (hMN : ∀ q m, M q m → ∃ m', N q m' ∧ m.Alike m') : Touched N t t' := by
  refine ⟨h.process, fun q => (h.node q).imp_right ?_⟩
  rintro ⟨m, hm, hallow⟩
  obtain ⟨m', hm', halike⟩ := hMN q m hm
  exact ⟨m', hm', hallow.of_alike halike⟩

theorem Touched.mono (h : Touched M t t') (hMN : ∀ q m, M q m → N q m) : Touched N t t' :=
  h.of_alike fun q m hm => ⟨m, hMN q m hm, .refl m⟩

theorem Touched.trans (hM : M.Functional) (h : Touched M t t') (h' : Touched M t' t'') :
    Touched M t t'' := by
  refine ⟨h'.process.trans h.process, fun q => ?_⟩
  rcases h.node q with he | ⟨m, hm, hallow⟩ <;> rcases h'.node q with he' | ⟨m', hm', hallow'⟩
  · exact .inl (he'.trans he)
  · exact .inr ⟨m', hm', he ▸ hallow'⟩
  · exact .inr ⟨m, hm, he' ▸ hallow⟩
  · obtain rfl := hM q m m' hm hm'
    exact .inr ⟨m, hm, hallow.trans hallow'⟩

theorem Touched.keeps (h : Touched M t t') : t.Keeps t' := by
  refine ⟨h.process, fun q hq => ?_, fun q target => ?_⟩
  · rcases h.node q with he | ⟨m, -, hallow⟩
    · rwa [he]
    · exact hallow.isDirectory hq
  · rcases h.node q with he | ⟨m, -, hallow⟩
    · rw [he]
    · rcases hallow.cases_node with ⟨-, hnone, hdir⟩ | ⟨-, hfile, hfile'⟩ | ⟨-, hdir, hdir'⟩
      · exact ⟨fun hl => absurd hl (hdir.not_link target), fun hl => by rw [hnone] at hl; cases hl⟩
      · exact ⟨fun hl => absurd hl (hfile'.not_link target),
          fun hl => absurd hl (hfile.not_link target)⟩
      · exact ⟨fun hl => absurd hl (hdir'.not_link target),
          fun hl => absurd hl (hdir.not_link target)⟩

theorem Touched.other (h : Touched M t t') {q : Place} (hq : ∀ m, ¬ M q m) :
    t'.node? q = t.node? q := by
  rcases h.node q with he | ⟨m, hm, -⟩
  · exact he
  · exact absurd hm (hq m)

theorem Performed.touched (h : Performed M t t') : Touched M t t' := by
  refine ⟨h.process, fun q => ?_⟩
  by_cases hq : ∃ m, M q m
  · obtain ⟨m, hm⟩ := hq
    exact (h.marked q m hm).allows.imp_right fun ha => ⟨m, hm, ha⟩
  · exact .inl (h.other q fun m hm => hq ⟨m, hm⟩)

theorem Performed.congr (h : Performed M t t') (hMN : ∀ q m, N q m ↔ M q m) :
    Performed N t t' :=
  ⟨h.process, fun q m hm => h.marked q m ((hMN q m).1 hm),
    fun q hq => h.other q fun m hm => hq m ((hMN q m).2 hm)⟩

/-- A step after another one: their marks together are left as they say, if they agree. -/
theorem Performed.trans (hMN : ∀ q m m', M q m → N q m' → m = m') (h : Performed M t t')
    (h' : Performed N t' t'') : Performed (fun q m => M q m ∨ N q m) t t'' := by
  refine ⟨h'.process.trans h.process, fun q m hm => ?_, fun q hq => ?_⟩
  · by_cases hM : ∃ m, M q m <;> by_cases hN : ∃ m, N q m
    · obtain ⟨m₁, h₁⟩ := hM
      obtain ⟨m₂, h₂⟩ := hN
      have hm₁ : m = m₁ := hm.elim (fun hm => (hMN q m m₂ hm h₂).trans (hMN q m₁ m₂ h₁ h₂).symm)
        fun hm => (hMN q m₁ m h₁ hm).symm
      have hm₂ : m = m₂ := hm₁.trans (hMN q m₁ m₂ h₁ h₂)
      subst hm₁ hm₂
      exact (h.marked q _ h₁).trans (h'.marked q _ h₂)
    · have hm' := hm.resolve_right fun hm => hN ⟨m, hm⟩
      rw [h'.other q fun m hm => hN ⟨m, hm⟩]
      exact h.marked q m hm'
    · have hm' := hm.resolve_left fun hm => hM ⟨m, hm⟩
      rw [← h.other q fun m hm => hM ⟨m, hm⟩]
      exact h'.marked q m hm'
    · exact hm.elim (fun hm => absurd ⟨m, hm⟩ hM) fun hm => absurd ⟨m, hm⟩ hN
  · rw [h'.other q fun m hm => hq m (.inr hm), h.other q fun m hm => hq m (.inl hm)]

end Markings

/-! ## Issuers -/

/-- The place of a certificate in a directory. -/
def Identity.certPlace (i : Identity) (certs : Place) : Place := certs ++ [i.service ++ ".crt"]

/-- The place of a private key in a directory. -/
def Identity.keyPlace (i : Identity) (certs : Place) : Place := certs ++ [i.service ++ ".key"]

/-- The two places that an issuer writes. -/
def Identity.outputs (i : Identity) (certs : Place) : List Place :=
  [i.certPlace certs, i.keyPlace certs]

/-- An issuer is asked for files that can stand in a directory, into one that is there, and not
through links. -/
structure Request (t : FileTree) (i : Identity) (certs : Place) : Prop where
  grounded : t.Grounded certs
  proper : ∀ p ∈ i.outputs certs, Proper p
  straight : ∀ p ∈ i.outputs certs, t.Straight p

/-- Some places, all to be written by an issuer. -/
def outputMarks (outputs : List Place) : Marking := fun q m => q ∈ outputs ∧ m = .issued

/-- An issuer that touches no file but its own two. -/
def Issuer.Confined (issuer : Issuer) : Prop :=
  ∀ t i certs, Request t i certs →
    Touched (outputMarks (i.outputs certs)) t (issuer i (textOfPlace certs) t).2

/-- What is left of the permissions of others: a file or a directory for its owner alone. -/
inductive Restricted : Option Node → Prop
  | file (content : Content) : Restricted (some (.file 0o600 content))
  | directory : Restricted (some (.directory 0o600))

/-- An issuer that succeeds only where both outputs are restricted. -/
def Issuer.Restrictive (issuer : Issuer) : Prop :=
  ∀ t i certs answer t', Request t i certs →
    issuer i (textOfPlace certs) t = (.ok answer, t') → ∀ q ∈ i.outputs certs,
      Restricted (t'.node? q)

/-- An issuer that answers with its two outputs. -/
def Issuer.Answers (issuer : Issuer) : Prop :=
  ∀ t i certs answer t', Request t i certs →
    issuer i (textOfPlace certs) t = (.ok answer, t') → answer = i.issued (textOfPlace certs)

/-! ## Steps -/

namespace Step

/-- The places that a step is about. -/
def places : Step → List Place
  | directory p => [p]
  | write p _ _ => [p]
  | issue i certs => i.outputs certs
  | install _ p => [p]

/-- The files that a step writes by itself; those of a certificate are written by the issuer. -/
def own : Step → List Place
  | write p _ _ => [p]
  | install _ p => [p]
  | _ => []

/-- The marks of a step, where `stub` is what is copied. -/
def Marks (stub : Content) : Step → Marking
  | directory p, q, m => q <+: p ∧ m = .directory
  | write p .owner content, q, m => q = p ∧ m = .owner content
  | write p .default content, q, m => q = p ∧ m = .default content
  | issue i certs, q, m => q ∈ i.outputs certs ∧ m = .issued
  | install none p, q, m => q = p ∧ m = .agent (.ofText agentScript)
  | install (some _) p, q, m => q = p ∧ m = .agent stub

/-- The certificates that a step asks for. -/
def asks : Step → List Identity
  | issue i _ => [i]
  | _ => []

/-- A step finds what it needs, but for the right to write. Whether a certificate is issued is up to
the issuer. -/
def Fits (t : FileTree) : Step → Prop
  | directory p => Legal p ∧ t.Clear p
  | write p _ _ => t.Placed p
  | issue .. => True
  | install none p => t.Placed p
  | install (some source) p => t.Placed p ∧ ∃ content, t.fileContent source = .ok content

/-- A step finds what it needs, and may write its files. -/
structure Ready (t : FileTree) (s : Step) : Prop where
  fits : s.Fits t
  unlocked : ∀ p ∈ s.own, ¬ t.Locked p

/-- What a step copies. -/
def Copies (t : FileTree) (stub : Content) : Step → Prop
  | install (some source) _ => t.fileContent source = .ok stub
  | _ => True

variable {t : FileTree} {s : Step} {p : Place}

/-- Where a step finds what it needs its own files have their places. -/
theorem Fits.placed (h : s.Fits t) (hp : p ∈ s.own) : t.Placed p := by
  cases s with
  | directory _ => exact absurd hp List.not_mem_nil
  | write p' access content =>
    obtain rfl := List.mem_singleton.1 hp
    exact h
  | issue _ _ => exact absurd hp List.not_mem_nil
  | install agent p' =>
    obtain rfl := List.mem_singleton.1 hp
    cases agent with
    | none => exact h
    | some source => exact h.1

/-- The system takes the places of a step that finds what it needs. Those of a certificate are up to
the issuer. -/
theorem Fits.legal (h : s.Fits t) (hs : ∀ i certs, s ≠ .issue i certs) (hp : p ∈ s.places) :
    Legal p := by
  cases s with
  | directory p' =>
    obtain rfl := List.mem_singleton.1 hp
    exact h.1
  | write p' access content => exact (h.placed hp).legal
  | issue i certs => exact absurd rfl (hs i certs)
  | install agent p' => exact (h.placed hp).legal

theorem places_of_own (h : p ∈ s.own) : p ∈ s.places := by
  cases s with
  | directory _ => exact absurd h List.not_mem_nil
  | write _ _ _ => exact h
  | issue _ _ => exact absurd h List.not_mem_nil
  | install _ _ => exact h

/-- A step asks for a certificate or does not. -/
theorem issue_or (s : Step) : (∃ i certs, s = .issue i certs) ∨ ∀ i certs, s ≠ .issue i certs := by
  cases s with
  | issue i certs => exact .inl ⟨i, certs, rfl⟩
  | directory _ => exact .inr (by simp)
  | write _ _ _ => exact .inr (by simp)
  | install _ _ => exact .inr (by simp)

/-- A step is about places below a root, and can be written there. -/
def Within (root : Place) (s : Step) : Prop :=
  ∀ p ∈ s.places, Proper p ∧ ∃ r, r ≠ [] ∧ p = root ++ r

end Step

/-- A tree with the directory of a workspace: no links are in it. -/
structure Base (root : Place) (t : FileTree) : Prop where
  started : t.Started
  grounded : t.Grounded root
  linkFree : t.LinkFree root

section Steps

variable {root : Place} {t t' : FileTree} {b : Bench} {s : Step} {stub : Content} {issuer : Issuer}

theorem Base.keeps (h : Base root t) (hk : t.Keeps t') : Base root t' :=
  ⟨hk.started h.started, hk.grounded h.grounded, hk.linkFree h.linkFree⟩

theorem Base.straight (h : Base root t) (r : Place) : t.Straight (root ++ r) :=
  h.linkFree.straight h.grounded (List.prefix_append root r)

/-- The places of a step below a root can be reached. -/
theorem Base.within (h : Base root t) (hw : s.Within root) {p : Place} (hp : p ∈ s.places) :
    Proper p ∧ p ≠ [] ∧ t.Straight p := by
  obtain ⟨hproper, r, hr, rfl⟩ := hw p hp
  exact ⟨hproper, by simp [hr], h.straight r⟩

/-- What is copied shows in the mark of the agent only. -/
theorem Step.marks_of_stub (stub : Content) {stub' : Content} {q : Place} {m : Mark}
    (h : s.Marks stub' q m) : ∃ m', s.Marks stub q m' ∧ m.Alike m' := by
  cases s with
  | directory p => exact ⟨m, h, .refl m⟩
  | write p access content => cases access <;> exact ⟨m, h, .refl m⟩
  | issue i certs => exact ⟨m, h, .refl m⟩
  | install agent p =>
    cases agent with
    | none => exact ⟨m, h, .refl m⟩
    | some source =>
      obtain ⟨hq, rfl⟩ := h
      exact ⟨.agent stub, ⟨hq, rfl⟩, .agent stub' stub⟩

/-- What may come of the places of a step does not depend on what is copied. -/
theorem Touched.of_marks (stub' : Content) (h : Touched (s.Marks stub) t t') :
    Touched (s.Marks stub') t t' :=
  h.of_alike fun _ _ hm => Step.marks_of_stub stub' hm

/-- What a step comes to. -/
inductive Step.Outcome (s : Step) (b : Bench) : Except RunError (List Issued) × Bench → Prop
  /-- It succeeds. -/
  | done {t' : FileTree} {issued : List Issued} (stub : Content) (ready : s.Ready b.tree)
    (copies : s.Copies b.tree stub) (performed : Performed (s.Marks stub) b.tree t') :
    Outcome s b (.ok issued, ⟨t', b.asked ++ s.asks⟩)
  /-- Something that it needs is missing. -/
  | failed {t' : FileTree} {path : String} {cause : OsError} (ready : ¬ s.Ready b.tree)
    (touched : ∀ stub, Touched (s.Marks stub) b.tree t')
    (same : (∀ p, s ≠ .directory p) → t' = b.tree) :
    Outcome s b (.error (.io path cause), ⟨t', b.asked⟩)
  /-- No certificate is issued. -/
  | refused {t' : FileTree} {i : Identity} {certs : Place} {failure : IssueFailure}
    (step : s = .issue i certs) (touched : ∀ stub, Touched (s.Marks stub) b.tree t') :
    Outcome s b (.error (.ofIssuer i.service failure), ⟨t', b.asked ++ [i]⟩)

theorem Performed.of_updated {p : Place} {n : Node} {m : Mark} (hup : t.Updated p n t')
    (hm : m.Leaves (t.node? p) (some n)) : Performed (fun q m' => q = p ∧ m' = m) t t' := by
  refine ⟨hup.process, ?_, fun q hq => hup.other fun he => hq m ⟨he, rfl⟩⟩
  rintro q m' ⟨rfl, rfl⟩
  rw [hup.same]
  exact hm

/-- A step that writes one file, or nothing where it cannot. -/
theorem Step.outcome_of_file (stub : Content) (m : Mark) {p : Place} {n : Node} {path : String}
    {r : Except OsError Unit × FileTree}
    (hr : (b.tree.Open p ∧ ∃ t', r = (.ok (), t') ∧ b.tree.Updated p n t') ∨
      (¬ b.tree.Open p ∧ ∃ e, r = (.error e, b.tree)))
    (hm : b.tree.Open p → m.Leaves (b.tree.node? p) (some n)) (hcopies : s.Copies b.tree stub)
    (hfits : s.Fits b.tree ↔ b.tree.Placed p) (hown : s.own = [p])
    (hmarks : s.Marks stub = fun q m' => q = p ∧ m' = m) (hasks : s.asks = []) :
    s.Outcome b (b.ofFiles path r) := by
  have hready : s.Ready b.tree ↔ b.tree.Open p := by
    constructor
    · exact fun h => ⟨hfits.1 h.fits, h.unlocked p (hown ▸ List.mem_singleton_self p)⟩
    · refine fun h => ⟨hfits.2 h.toPlaced, fun q hq => ?_⟩
      rw [hown] at hq
      exact List.mem_singleton.1 hq ▸ h.unlocked
  rcases hr with ⟨ho, t', rfl, hup⟩ | ⟨ho, e, rfl⟩
  · have hdone : s.Outcome b (.ok [], ⟨t', b.asked ++ s.asks⟩) :=
      .done stub (hready.2 ho) hcopies (hmarks ▸ .of_updated hup (hm ho))
    rw [hasks, List.append_nil] at hdone
    exact hdone
  · exact .failed (fun h => ho (hready.1 h)) (fun _ => .refl _ _) fun _ => rfl

theorem Step.outcome_directory (hst : b.tree.Started) {p : Place} (hp : Proper p)
    (hs : b.tree.Straight p) :
    (Step.directory p).Outcome b ((Step.directory p).perform issuer b) := by
  have hnode := ensureDirectory_place hst hp hs
  have hprocess := (ensureDirectory_builds hst (textOfPlace p)).1.process
  have hclear := ensureDirectory_of_clear hst hp (t := b.tree)
  rw [perform]
  rcases hr : b.tree.ensureDirectory (textOfPlace p) with ⟨e | u, t'⟩ <;>
    rw [hr] at hnode hprocess hclear
  · refine .failed (fun h => ?_) (fun _ => ⟨hprocess, fun q => (hnode q).imp_right ?_⟩)
      fun h => absurd rfl (h p)
    · cases hclear h.fits.1 h.fits.2
    · rintro ⟨hq, hnone, hdir⟩
      exact ⟨.directory, ⟨hq, rfl⟩, hnone, hdir⟩
  · obtain ⟨hlegal, hg⟩ := ensureDirectory_place_ok hst hp hs hr
    have hbefore : ∀ q, q <+: p → b.tree.node? q = none ∨ IsDirectory (b.tree.node? q) := by
      intro q hq
      rcases hnode q with he | ⟨-, hnone, -⟩
      · exact .inr (he ▸ hg q hq)
      · exact .inl hnone
    have hdone : (Step.directory p).Outcome b (.ok [], ⟨t', b.asked ++ []⟩) := by
      refine .done (.bytes []) ⟨⟨hlegal, hbefore⟩, fun _ h => absurd h List.not_mem_nil⟩ trivial
        ⟨hprocess, ?_, fun q hq => ?_⟩
      · rintro q m ⟨hq, rfl⟩
        rcases hnode q with he | ⟨-, hnone, hdir⟩
        · exact .inr ⟨he ▸ hg q hq, he⟩
        · exact .inl ⟨hnone, hdir⟩
      · rcases hnode q with he | ⟨hpre, -⟩
        · exact he
        · exact absurd ⟨hpre, rfl⟩ (hq .directory)
    rw [List.append_nil] at hdone
    exact hdone

theorem Step.outcome_write {p : Place} (hp : Proper p) (hne : p ≠ []) (hs : b.tree.Straight p)
    (access : Access) (content : Content) :
    (Step.write p access content).Outcome b ((Step.write p access content).perform issuer b) := by
  cases access with
  | owner =>
    exact outcome_of_file (.bytes []) (.owner content)
      (writeWithMode_place hp hne hs privateMode content) (fun ho => ⟨ho.node, rfl⟩) trivial .rfl
      rfl rfl rfl
  | default =>
    exact outcome_of_file (.bytes []) (.default content) (writePlain_place hp hne hs content)
      (fun ho => ⟨ho.node, rfl⟩) trivial .rfl rfl rfl rfl

/-- What an issuer leaves of its two outputs. -/
theorem Request.leaves {i : Identity} {certs : Place} (hreq : Request t i certs)
    (h : Touched (outputMarks (i.outputs certs)) t t') {q : Place} (hq : q ∈ i.outputs certs) :
    Mark.issued.Leaves (t.node? q) (t'.node? q) := by
  rcases h.node q with he | ⟨m, ⟨-, rfl⟩, hallow⟩
  · rw [he]
    cases hnode : t.node? q with
    | none => exact .inl ⟨.vacant, .vacant⟩
    | some n =>
      cases n with
      | directory mode => exact .inr ⟨isDirectory_some mode, isDirectory_some mode⟩
      | file mode content => exact .inl ⟨.file mode content, .file mode content⟩
      | link target => exact absurd hnode (hreq.straight q hq q List.prefix_rfl target)
  · exact hallow

theorem Step.outcome_issue (hissuer : issuer.Confined) {i : Identity} {certs : Place}
    (hreq : Request b.tree i certs) :
    (Step.issue i certs).Outcome b ((Step.issue i certs).perform issuer b) := by
  have htouched := hissuer b.tree i certs hreq
  rw [perform]
  rcases hr : issuer i (textOfPlace certs) b.tree with ⟨e | answer, t'⟩ <;> rw [hr] at htouched
  · exact .refused rfl fun _ => htouched
  · refine .done (.bytes []) ⟨trivial, fun _ h => absurd h List.not_mem_nil⟩ trivial
      ⟨htouched.process, ?_, fun q hq => htouched.other hq⟩
    rintro q m ⟨hq, rfl⟩
    exact hreq.leaves htouched hq

theorem Step.outcome_install {p : Place} (hp : Proper p) (hne : p ≠ [])
    (hs : b.tree.Straight p) (agent : Option String) :
    (Step.install agent p).Outcome b ((Step.install agent p).perform issuer b) := by
  cases agent with
  | none =>
    exact outcome_of_file (.bytes []) (.agent (.ofText agentScript))
      (writeWithMode_place hp hne hs executableMode (.ofText agentScript))
      (fun ho => ⟨ho.node, rfl⟩) trivial .rfl rfl rfl rfl
  | some source =>
    rw [perform]
    cases hread : b.tree.fileContent source with
    | error e =>
      refine .failed (fun h => ?_) (fun _ => .refl _ _) fun _ => rfl
      obtain ⟨-, c, hc⟩ := h.fits
      rw [hread] at hc
      cases hc
    | ok content =>
      exact outcome_of_file content (.agent content)
        (writeWithMode_place hp hne hs executableMode content) (fun ho => ⟨ho.node, rfl⟩) hread
        ⟨fun h => h.1, fun h => ⟨h, content, hread⟩⟩ rfl rfl rfl

/-- What a step does that asks for no certificate, whatever the issuer is. -/
theorem Step.outcome_of_ne_issue (hs : ∀ i certs, s ≠ .issue i certs) (hb : Base root b.tree)
    (hw : s.Within root) : s.Outcome b (s.perform issuer b) := by
  cases s with
  | directory p =>
    obtain ⟨hp, -, hs⟩ := hb.within hw (List.mem_singleton_self p)
    exact outcome_directory hb.started hp hs
  | write p access content =>
    obtain ⟨hp, hne, hs⟩ := hb.within hw (List.mem_singleton_self p)
    exact outcome_write hp hne hs access content
  | issue i certs => exact absurd rfl (hs i certs)
  | install agent p =>
    obtain ⟨hp, hne, hs⟩ := hb.within hw (List.mem_singleton_self p)
    exact outcome_install hp hne hs agent

/-- **A step whose file is locked fails**, and says so of the file. -/
theorem Step.perform_locked (hb : Base root b.tree) (hw : s.Within root) (hfits : s.Fits b.tree)
    {p : Place} (hp : p ∈ s.own) (hlocked : b.tree.Locked p) :
    s.perform issuer b = (.error (.io (textOfPlace p) .permissionDenied), b) := by
  obtain ⟨hproper, hne, hs⟩ := hb.within hw (s.places_of_own hp)
  have hput := fun mode content =>
    put_locked hproper hne hs (hfits.placed hp) hlocked mode content
  cases s with
  | directory _ => exact absurd hp List.not_mem_nil
  | write p' access content =>
    obtain rfl := List.mem_singleton.1 hp
    cases access with
    | owner => rw [perform, writePrivate, writeWithMode, hput]; rfl
    | default => rw [perform, writePlain, hput]; rfl
  | issue _ _ => exact absurd hp List.not_mem_nil
  | install agent p' =>
    obtain rfl := List.mem_singleton.1 hp
    cases agent with
    | none => rw [perform, writeExecutable, writeWithMode, hput]; rfl
    | some source =>
      obtain ⟨-, content, hread⟩ := hfits
      rw [perform, hread]
      dsimp only
      rw [writeExecutable, writeWithMode, hput]
      rfl

/-- A certificate is asked for in the right way. -/
theorem Base.request (hb : Base root t) {i : Identity} {certs : Place}
    (hw : (Step.issue i certs).Within root) (hcerts : t.Grounded certs) : Request t i certs :=
  ⟨hcerts, fun p hp => (hw p hp).1, fun _ hp => (hb.within hw hp).2.2⟩

/-- **What a step does**, and when it succeeds. -/
theorem Step.outcome (hissuer : issuer.Confined) (hb : Base root b.tree) (hw : s.Within root)
    (hcerts : ∀ i certs, s = .issue i certs → b.tree.Grounded certs) :
    s.Outcome b (s.perform issuer b) := by
  rcases s.issue_or with ⟨i, certs, rfl⟩ | hs
  · exact outcome_issue hissuer (hb.request hw (hcerts i certs rfl))
  · exact outcome_of_ne_issue hs hb hw

end Steps

end CredentialBench.Workspace
