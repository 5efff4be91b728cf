import CredentialBench.Proofs.Workspace.Materialize

/-!
# What a plan writes stays written

What the files of a plan hold in the end does not depend on what the issuer makes of its two, as
long as it touches no other file (`Issuer.Confined`): it may leave them out, or write what it likes.
A file that a step of a sound plan has written holds the same text when the plan has been carried
out (`performAll_holds`), since a later step that is about it would write that text again.
-/

namespace CredentialBench.Workspace

open FileTree CredentialBench.Path

/-! ## One step -/

/-- The content with which a file of this mark is written, if the plan has it. -/
def Mark.content? : Mark → Option Content
  | owner content => some content
  | default content => some content
  | _ => none

/-- There is a file with a content, and the way there goes through directories. -/
structure Holds (t : FileTree) (p : Place) (content : Content) : Prop where
  legal : Legal p
  straight : t.Straight p
  above : t.Grounded p.dropLast
  node : ∃ mode, t.node? p = some (.file mode content)

section Steps

variable {root : Place} {stub : Content} {M : Marking} {made : List Place} {s : Step}
  {steps rest : List Step} {t t' : FileTree} {b b' : Bench} {issuer : Issuer} {p : Place} {m : Mark}
  {access : Access} {content : Content}

theorem Holds.keeps (h : Holds t p content) (hk : t.Keeps t') (hp : t'.node? p = t.node? p) :
    Holds t' p content :=
  ⟨h.legal, hk.straight h.straight, hk.grounded h.above, hp ▸ h.node⟩

theorem Holds.readText {text : String} (h : Holds t p (.ofText text)) (hp : Proper p)
    (hne : p ≠ []) : t.readText (textOfPlace p) = .ok text := by
  obtain ⟨mode, hnode⟩ := h.node
  have hstat := stat_place hp hne h.straight h.legal h.above hnode
  exact readText_of_fileContent (fileContent_eq_ok_iff.2 ⟨_, _, hstat⟩)

theorem Step.exists_mark (stub : Content) (p : Place) (access : Access) (content : Content) :
    ∃ m, (Step.write p access content).Marks stub p m ∧ m.content? = some content := by
  cases access with
  | owner => exact ⟨.owner content, ⟨rfl, rfl⟩, rfl⟩
  | default => exact ⟨.default content, ⟨rfl, rfl⟩, rfl⟩

/-- Only a step that writes a file marks it as one with a content. -/
theorem Step.eq_write_of_marks (hs : s.Marks stub p m) (hm : m.content? = some content) :
    ∃ access, s = .write p access content := by
  cases s with
  | directory q =>
    rw [hs.2] at hm
    cases hm
  | write q access content' =>
    cases access <;> obtain ⟨rfl, rfl⟩ := hs <;> cases hm <;> exact ⟨_, rfl⟩
  | issue i certs =>
    rw [hs.2] at hm
    cases hm
  | install agent q =>
    cases agent <;> rw [hs.2] at hm <;> cases hm

/-- A step that writes a file and succeeds. -/
theorem Step.holds_of_write (hb : Base root b.tree)
    (hw : (Step.write p access content).Within root) {issued : List Issued}
    (hok : (Step.write p access content).perform issuer b = (.ok issued, b')) :
    Holds b'.tree p content := by
  have hout : Outcome _ b ((write p access content).perform issuer b) :=
    outcome_of_ne_issue (by simp) hb hw
  rw [hok] at hout
  cases hout with
  | done stub ready copies performed =>
    obtain ⟨-, r, -, rfl⟩ := hw p (List.mem_singleton_self p)
    have hkeeps := performed.touched.keeps
    have hplaced := ready.fits.placed (List.mem_singleton_self (root ++ r))
    refine ⟨hplaced.legal, hkeeps.straight (hb.straight r), hkeeps.grounded hplaced.above, ?_⟩
    cases access with
    | owner => exact ⟨_, (performed.marked _ (.owner content) ⟨rfl, rfl⟩).2⟩
    | default => exact ⟨_, (performed.marked _ (.default content) ⟨rfl, rfl⟩).2⟩

/-- A file that holds what the plan writes still does so after the next step. -/
theorem Sound.holds_perform (h : Sound root stub M made (s :: rest)) (hissuer : issuer.Confined)
    (hu : Under root made b.tree) {issued : List Issued}
    (hok : s.perform issuer b = (.ok issued, b')) (hm : M p m)
    (hcontent : m.content? = some content) (hp : Holds b.tree p content) :
    Holds b'.tree p content := by
  have htouched := h.perform_touched hissuer hu
  rw [hok] at htouched
  rcases htouched.node p with he | ⟨m', hm', -⟩
  · exact hp.keeps htouched.keeps he
  · obtain rfl := h.functional p m m' hm (h.marks s List.mem_cons_self p m' hm')
    obtain ⟨access, rfl⟩ := Step.eq_write_of_marks hm' hcontent
    exact Step.holds_of_write hu.toBase (h.within _ List.mem_cons_self) hok

/-! ## A whole plan -/

/-- **What a sound plan writes is there when it has been carried out.** -/
theorem performAll_holds (h : Sound root stub M made steps) (hissuer : issuer.Confined)
    (hu : Under root made b.tree) {issued : List Issued}
    (hok : performAll issuer b steps = (.ok issued, b')) (hm : M p m)
    (hcontent : m.content? = some content)
    (hp : Holds b.tree p content ∨ ∃ access, .write p access content ∈ steps) :
    Holds b'.tree p content := by
  refine performAll_establishes (Holds · p content) h hissuer hu hok
    (fun h hu hr => h.holds_perform hissuer hu hr hm hcontent) (hp.imp_right ?_)
  rintro ⟨access, hmem⟩
  exact ⟨_, hmem, fun h hu hr => Step.holds_of_write hu.toBase (h.within _ List.mem_cons_self) hr⟩

end Steps

/-! ## A run -/

variable {issuer : Issuer} {settings : Settings} {s : Scenario} {directory : String} {b b' : Bench}
  {root : Place} {manifest : Manifest}

/-- A text that the plan writes is there to read in the end. -/
theorem ConfinedRun.readText (h : ConfinedRun issuer settings s directory b b' root manifest)
    {p : Place} {access : Access} {text : String}
    (hmem : .write p access (.ofText text) ∈ s.steps settings root manifest) :
    b'.tree.readText (textOfPlace p) = .ok text := by
  obtain ⟨-, issued, -, hperform⟩ := h.carried_out
  have hsound : Sound root (.bytes []) (Marked (.bytes []) (s.steps settings root manifest)) [root]
      (s.steps settings root manifest) := h.sound
  obtain ⟨m, hm, hcontent⟩ := Step.exists_mark (.bytes []) p access (.ofText text)
  have hholds := performAll_holds hsound h.confined h.under hperform ⟨_, hmem, hm⟩ hcontent
    (.inr ⟨access, hmem⟩)
  obtain ⟨hp, r, hr, rfl⟩ := hsound.within _ hmem p (List.mem_singleton_self p)
  exact hholds.readText hp (by simp [hr])

end CredentialBench.Workspace
