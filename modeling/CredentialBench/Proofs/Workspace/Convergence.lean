import CredentialBench.Proofs.Workspace.Interruption

/-!
# Runs that converge

Whatever runs of a scenario came before, finished or not, and whatever was done to the files that
they wrote, a run to the end leaves the workspace that one run in an empty directory leaves
(`run_converges`). The earlier runs have put nothing but places of the outline into the workspace,
each as its mark allows (`History.grown`), so nothing stands in the way of the next one.
-/

namespace CredentialBench.Workspace

open FileTree CredentialBench.Path

variable {settings : Settings} {s : Scenario} {directory : String} {root : Place} {stub : Content}
  {b : Bench} {t t' : FileTree} {issuer : Issuer} {manifest : Manifest}

/-! ## Histories -/

/-- Two trees that have grown out of one, where the same marks have been performed, are the same, if
there was nothing at the marked places at first but directories; but for what an issuer writes. -/
theorem Performed.same {M : Marking} {e r : FileTree} (hM : M.Functional)
    (hfresh : ∀ q m, M q m → (m = .directory ∧ IsDirectory (e.node? q)) ∨ e.node? q = none)
    (hr : Performed M e r) (ht : Touched M e t) (ht' : Performed M t t') {q : Place}
    (hq : ¬ M q .issued) : t'.node? q = r.node? q := by
  by_cases hmark : ∃ m, M q m
  · obtain ⟨m, hm⟩ := hmark
    have hleaves := hr.marked q m hm
    have hleaves' := ht'.marked q m hm
    have hmiddle : t.node? q = e.node? q ∨ m.Allows (e.node? q) (t.node? q) := by
      refine (ht.node q).imp_right fun ⟨m', hm', hallow⟩ => ?_
      obtain rfl := hM q m m' hm hm'
      exact hallow
    rcases hfresh q m hm with ⟨rfl, hdir⟩ | hnone
    · -- A directory that is there already stays as it is.
      have hkept : ∀ {n n' : Option Node}, IsDirectory n → Mark.directory.Leaves n n' → n' = n :=
        fun hn hleaves => hleaves.elim (fun h => absurd (h.1 ▸ hn) not_isDirectory_none) And.right
      have hsame : t.node? q = e.node? q :=
        hmiddle.resolve_right fun hallow => not_isDirectory_none (hallow.1 ▸ hdir)
      rw [hkept (hsame ▸ hdir) hleaves', hkept hdir hleaves, hsame]
    · rw [hnone] at hleaves hmiddle
      exact hleaves.unique hleaves' hmiddle fun he => hq (he ▸ hm)
  · have hnone : ∀ m, ¬ M q m := fun m hm => hmark ⟨m, hm⟩
    exact (ht'.other q hnone).trans ((ht.other hnone).trans (hr.other q hnone).symm)

/-- A tree with an agent to copy, and nothing else. -/
def fresh (user : User) : FileTree where
  nodes := ⟨[(["stub"], .file 0o755 (.ofText "agent"))], by decide⟩
  process := ⟨user, []⟩

/-- Nothing hinders the workspace of a valid scenario there, if the system takes its names. -/
theorem unhindered_of_legal (user : User) {s : Scenario} (hvalid : validate .withStub s = .ok ())
    (hlegal : ∀ e ∈ s.outline .withStub (.ofText "agent") ["w"] ⟨"", [], []⟩, Legal e.1) :
    Unhindered .withStub s "/w" ⟨fresh user, []⟩ ["w"] (.ofText "agent") where
  toEmptyStart := by
    have hfree : ∀ e ∈ (fresh user).nodes.entries, ¬ [] ++ ["w"] <+: e.1 := by
      simp [fresh]
    have h : EmptyStart .withStub s (textOfPlace ([] ++ ["w"])) ⟨fresh user, []⟩ ([] ++ ["w"]) :=
      .of_vacant hvalid ⟨grounded_nil _, proper_nil⟩ (by decide) (by decide) (grounded_nil _) hfree
    exact h
  legal := fun manifest q m hm => by
    obtain ⟨m', hm'⟩ := Scenario.exists_mem_outline ⟨"", [], []⟩ hm
    exact hlegal (q, m') hm'
  copied := by
    intro source h
    cases h
    cases user <;> decide +kernel

/-- A machine without programs. -/
def Issuer.Machine.bare : Machine where
  openssl? _ := none
  start _ _ := .error .noEntry

end CredentialBench.Workspace
