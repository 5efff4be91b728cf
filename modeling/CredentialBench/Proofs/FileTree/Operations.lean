import CredentialBench.FileTree.Operations
import CredentialBench.Proofs.FileTree.Resolution
import CredentialBench.Proofs.Text.Utf8

/-!
# What operations change

A directory is had by making directories where a part of its path leads, and nothing else
(`ensureDirectory_builds`). A file is written at its own place and nowhere else, and exactly if the
system takes the place, directories lead there, and there is nothing or a file that the user may
write (`Open`); otherwise the tree stays as it is (`writeWithMode_place`, `writePlain_place`). What
is written along any path is read back along it (`fileContent_of_put`).
-/

namespace CredentialBench.FileTree

open CredentialBench.Path

variable {t t' t'' : FileTree} {p q : Place} {n m : Node} {name : String} {names : List String}
  {absolute : Bool}

/-! ## One place -/

/-- A tree with a node at a place, and otherwise like another. -/
structure Updated (t : FileTree) (p : Place) (n : Node) (t' : FileTree) : Prop where
  process : t'.process = t.process
  node : ∀ q, t'.node? q = if q = p then some n else t.node? q

namespace Updated

theorem of_set (t : FileTree) (hp : p ≠ []) (n : Node) : t.Updated p n (t.set p n) :=
  ⟨rfl, fun q => node?_set t p q n hp⟩

theorem same (h : t.Updated p n t') : t'.node? p = some n := by
  rw [h.node, if_pos rfl]

theorem other (h : t.Updated p n t') (hq : q ≠ p) : t'.node? q = t.node? q := by
  rw [h.node, if_neg hq]

theorem trans (h : t.Updated p n t') (h' : t'.Updated p m t'') : t.Updated p m t'' := by
  refine ⟨h'.process.trans h.process, fun q => ?_⟩
  rw [h'.node, h.node]
  by_cases hq : q = p <;> simp [hq]

/-- A node that is no link keeps the ways in place of another that is none, if a directory is
replaced by a directory. -/
theorem keeps (h : t.Updated p n t') (hdir : IsDirectory (t.node? p) → IsDirectory (some n))
    (hold : ∀ target, t.node? p ≠ some (.link target)) (hnew : ∀ target, n ≠ .link target) :
    t.Keeps t' := by
  refine ⟨h.process, fun q hq => ?_, fun q target => ?_⟩
  · by_cases he : q = p
    · subst he
      rw [h.same]
      exact hdir hq
    · rwa [h.other he]
  · by_cases hq : q = p
    · subst hq
      rw [h.same]
      exact ⟨fun hn => absurd (Option.some.inj hn) (hnew target),
        fun ht => absurd ht (hold target)⟩
    · rw [h.other hq]

end Updated

/-- There is nothing, or a file. -/
inductive TakesFile : Option Node → Prop
  | vacant : TakesFile none
  | file (mode : Nat) (content : Content) : TakesFile (some (.file mode content))

theorem TakesFile.not_directory {n : Option Node} (h : TakesFile n) : ¬ IsDirectory n := by
  rintro ⟨mode, rfl⟩
  cases h

theorem TakesFile.not_link {n : Option Node} (h : TakesFile n) (target : String) :
    n ≠ some (.link target) := by
  rintro rfl
  cases h

/-- A file keeps the ways where there was nothing or another. -/
theorem Updated.keeps_file {mode : Nat} {content : Content}
    (h : t.Updated p (.file mode content) t') (hn : TakesFile (t.node? p)) : t.Keeps t' :=
  h.keeps (fun hdir => absurd hdir hn.not_directory) hn.not_link fun _ he => by cases he

/-- The permissions of a file that is written: those that it has, or the given ones if it is
new. -/
def modeOr (mode : Nat) : Option Node → Nat
  | some (.file old _) => old
  | _ => mode

/-- A place where a file can stand. -/
structure Placed (t : FileTree) (p : Place) : Prop where
  legal : Legal p
  above : t.Grounded p.dropLast
  node : TakesFile (t.node? p)

/-- There is a file that the user may not write. -/
def Locked (t : FileTree) (p : Place) : Prop :=
  ∃ mode content, t.node? p = some (.file mode content) ∧ t.user.mayWrite mode = false

/-- A place where the user can write a file. -/
structure Open (t : FileTree) (p : Place) : Prop extends Placed t p where
  unlocked : ¬ t.Locked p

theorem not_locked_of_none (h : t.node? p = none) : ¬ t.Locked p := by
  rintro ⟨mode, content, hnode, -⟩
  rw [h] at hnode
  cases hnode

theorem not_locked_of_file {mode : Nat} {content : Content}
    (h : t.node? p = some (.file mode content)) (hmay : t.user.mayWrite mode = true) :
    ¬ t.Locked p := by
  rintro ⟨mode', content', hnode, hlocked⟩
  cases h.symm.trans hnode
  rw [hmay] at hlocked
  cases hlocked

/-- A file whose permissions let its owner write it may be written by every user. -/
theorem User.mayWrite_of_bit (u : User) {mode : Nat} (h : mode / 0o200 % 2 = 1) :
    u.mayWrite mode = true := by
  cases u with
  | superuser => rfl
  | owner => exact beq_iff_eq.2 h

/-- What stands at a place, and who the user is, say whether it is locked. -/
theorem Locked.congr (h : t.Locked p) (huser : t'.user = t.user) (hnode : t'.node? p = t.node? p) :
    t'.Locked p := by
  obtain ⟨mode, content, hfile, hlocked⟩ := h
  exact ⟨mode, content, hnode.trans hfile, huser ▸ hlocked⟩

/-! ## Reaching a place -/

/-- What names lead to on a way without links, if they lead anywhere. -/
theorem locate_place_eq_ok_iff {last : Bool} {d : Place} {spot : Spot} (hp : Proper (d ++ [name]))
    (hs : t.Straight (d ++ [name])) :
    t.locate last true (d ++ [name]) = .ok spot ↔
      (∀ n ∈ d ++ [name], n.utf8ByteSize ≤ maxNameBytes) ∧ t.Grounded d ∧
        spot = t.spotAt d name :=
  visit_eq_ok_iff (grounded_nil t) hp hs

/-- Names lead to a directory. -/
def Leads (t : FileTree) (absolute : Bool) (names : List String) (p : Place) : Prop :=
  ∃ mode, t.locate true absolute names = .ok (.found p (.directory mode))

/-- Names that lead to a directory lead there as long as the ways are kept. -/
theorem Leads.of_keeps (h : t.Leads absolute names p) (hk : t.Keeps t') (hst : t.Started)
    (hp : IsDirectory (t'.node? p)) : t'.Leads absolute names p := by
  obtain ⟨mode, hspot⟩ := h
  obtain ⟨mode', hnode⟩ := hp
  exact ⟨mode', locate_of_keeps hk hst (fun hl => hl) hspot hnode fun _ he => by cases he⟩

/-- The names of a place on a way without links lead to a directory exactly if there are directories
all the way and no name is too long. -/
theorem leads_place_iff (hp : Proper p) (hs : t.Straight p) :
    t.Leads true p q ↔ q = p ∧ t.Grounded p ∧ ∀ n ∈ p, n.utf8ByteSize ≤ maxNameBytes := by
  rcases List.eq_nil_or_concat' p with rfl | ⟨d, name, rfl⟩
  · have hroot : t.locate true true [] = .ok (.found [] (.directory directoryMode)) := rfl
    simp [Leads, hroot, grounded_nil, eq_comm]
  constructor
  · rintro ⟨mode, hspot⟩
    obtain ⟨hshort, hg, hspot⟩ := (locate_place_eq_ok_iff hp hs).1 hspot
    rw [spotAt] at hspot
    split at hspot <;> cases hspot
    rename_i hnode
    exact ⟨rfl, hg.concat ⟨mode, hnode⟩, hshort⟩
  · rintro ⟨rfl, hg, hshort⟩
    obtain ⟨mode, hnode⟩ := hg.node
    exact ⟨mode, (locate_place_eq_ok_iff hp hs).2
      ⟨hshort, hg.of_isPrefix ⟨[name], rfl⟩, by rw [spotAt, hnode]⟩⟩

theorem stat_eq_ok_iff {path : String} :
    t.stat path = .ok (p, n) ↔ Path.ofText? path = .ok (Path.ofText path) ∧
      t.locate true (Path.ofText path).absolute (Path.ofText path).steps = .ok (.found p n) := by
  rw [stat]
  constructor
  · intro h
    cases htext : Path.ofText? path with
    | error e =>
      rw [htext] at h
      cases h
    | ok way =>
      obtain rfl := ofText?_eq_ok htext
      rw [htext] at h
      refine ⟨rfl, ?_⟩
      change (t.locate true (Path.ofText path).absolute (Path.ofText path).steps >>= _) = _ at h
      rcases hspot : t.locate true (Path.ofText path).absolute (Path.ofText path).steps with
        e | (⟨q, k⟩ | ⟨d, name⟩) <;> rw [hspot] at h <;> cases h
      rfl
  · rintro ⟨htext, hspot⟩
    rw [htext]
    change (t.locate true (Path.ofText path).absolute (Path.ofText path).steps >>= _) = _
    rw [hspot]
    rfl

/-- What stands at a place is found there. -/
theorem stat_place (hp : Proper p) (hne : p ≠ []) (hs : t.Straight p) (hl : Legal p)
    (hg : t.Grounded p.dropLast) (hn : t.node? p = some n) :
    t.stat (textOfPlace p) = .ok (p, n) := by
  obtain ⟨d, name, rfl⟩ := (List.eq_nil_or_concat' p).resolve_left hne
  rw [List.dropLast_concat] at hg
  have hspot : t.locate true true (d ++ [name]) = .ok (.found (d ++ [name]) n) := by
    rw [locate_place_eq_ok_iff hp hs]
    exact ⟨hl.short, hg, by rw [spotAt, hn]⟩
  rw [stat_eq_ok_iff, ofText_textOfPlace hp]
  exact ⟨hl.ofText?_eq hp, hspot⟩

/-- Nothing is found at a place where nothing stands. -/
theorem stat_absent (hp : Proper p) (hne : p ≠ []) (hs : t.Straight p) (hl : Legal p)
    (hg : t.Grounded p.dropLast) (hn : t.node? p = none) :
    t.stat (textOfPlace p) = .error .noEntry := by
  obtain ⟨d, name, rfl⟩ := (List.eq_nil_or_concat' p).resolve_left hne
  rw [List.dropLast_concat] at hg
  have hspot : t.locate true true (d ++ [name]) = .ok (.vacant d name) := by
    rw [locate_place_eq_ok_iff hp hs]
    exact ⟨hl.short, hg, by rw [spotAt, hn]⟩
  rw [stat, hl.ofText?_eq hp]
  change (t.locate true true (d ++ [name]) >>= _) = _
  rw [hspot]
  rfl

/-- What stands where a path leads is found there in a tree that keeps its ways, too. -/
theorem stat_of_keeps {path : String} (hk : t.Keeps t') (hst : t.Started)
    (h : t.stat path = .ok (p, n)) (hn : t'.node? p = some m) (hlink : ∀ target, m ≠ .link target) :
    t'.stat path = .ok (p, m) := by
  obtain ⟨htext, hspot⟩ := stat_eq_ok_iff.1 h
  exact stat_eq_ok_iff.2 ⟨htext, locate_of_keeps hk hst (fun hl => hl) hspot hn hlink⟩

/-- What a path is found to lead to stands there. -/
theorem stat_node {path : String} (hst : t.Started) (h : t.stat path = .ok (p, n)) :
    t.node? p = some n := by
  obtain ⟨-, hspot⟩ := stat_eq_ok_iff.1 h
  cases locate_settled hst (fun _ hname => undivided_of_mem_steps hname) hspot with
  | found proper above node => exact node

theorem fileContent_eq_ok_iff {path : String} {content : Content} :
    t.fileContent path = .ok content ↔ ∃ q mode, t.stat path = .ok (q, .file mode content) := by
  rw [fileContent]
  constructor
  · intro h
    rcases hstat : t.stat path with e | ⟨q, n⟩ <;> rw [hstat] at h
    · cases h
    · cases n with
      | directory mode => cases h
      | link target => cases h
      | file mode c =>
        cases h
        exact ⟨q, mode, rfl⟩
  · rintro ⟨q, mode, hstat⟩
    rw [hstat]
    rfl

/-! ## Writing files -/

/-- Whether and how a file is written at a place. -/
theorem put_place (hp : Proper p) (hne : p ≠ []) (hs : t.Straight p) (mode : Nat)
    (content : Content) :
    (t.Open p ∧ ∃ t', t.put (textOfPlace p) mode content = .ok t' ∧
      t.Updated p (.file (modeOr mode (t.node? p)) content) t') ∨
    (¬ t.Open p ∧ ∃ e, t.put (textOfPlace p) mode content = .error e) := by
  obtain ⟨d, name, rfl⟩ := (List.eq_nil_or_concat' p).resolve_left hne
  cases htext : ofText? (textOfPlace (d ++ [name])) with
  | error e =>
    refine .inr ⟨fun ho => ?_, e, ?_⟩
    · rw [ho.legal.ofText?_eq hp] at htext
      cases htext
    · rw [put, htext]
      rfl
  | ok path =>
    obtain ⟨rfl, hnul, hfits⟩ := eq_ofPlace_of_ofText? hp htext
    have hiff : ∀ spot, t.locate true true (d ++ [name]) = .ok spot ↔ _ :=
      fun spot => locate_place_eq_ok_iff hp hs
    cases hspot : t.locate true true (d ++ [name]) with
    | error e =>
      refine .inr ⟨fun ho => ?_, e, by simp [put, htext, ofPlace, hspot, bind, Except.bind]⟩
      have hg : t.Grounded d := by simpa using ho.above
      rw [(hiff _).2 ⟨ho.legal.short, hg, rfl⟩] at hspot
      cases hspot
    | ok spot =>
      obtain ⟨hshort, hg, rfl⟩ := (hiff spot).1 hspot
      have hlegal : Legal (d ++ [name]) := ⟨hnul, hshort, hfits⟩
      have habove : t.Grounded (d ++ [name]).dropLast := by simpa using hg
      rw [spotAt] at hspot
      -- What stands at the place decides.
      cases hnode : t.node? (d ++ [name]) with
      | none =>
        rw [hnode] at hspot
        refine .inl ⟨⟨⟨hlegal, habove, hnode ▸ .vacant⟩, not_locked_of_none hnode⟩, _, ?_,
          .of_set t hne _⟩
        simp [put, htext, ofPlace, hspot, bind, Except.bind, modeOr, pure, Except.pure]
      | some n =>
        rw [hnode] at hspot
        cases n with
        | file old c =>
          by_cases hmay : t.user.mayWrite old = true
          · refine .inl ⟨⟨⟨hlegal, habove, hnode ▸ .file old c⟩, not_locked_of_file hnode hmay⟩, _,
              ?_, .of_set t hne _⟩
            simp [put, htext, ofPlace, hspot, hmay, bind, Except.bind, modeOr, pure, Except.pure]
          · have hlocked : t.Locked (d ++ [name]) := ⟨old, c, hnode, Bool.eq_false_iff.2 hmay⟩
            refine .inr ⟨fun ho => ho.unlocked hlocked, .permissionDenied, ?_⟩
            simp [put, htext, ofPlace, hspot, hmay, bind, Except.bind, throw, throwThe,
              MonadExceptOf.throw]
        | directory old =>
          refine .inr ⟨fun ho => ho.node.not_directory ⟨old, hnode⟩, .isDirectory, ?_⟩
          simp [put, htext, ofPlace, hspot, bind, Except.bind, throw, throwThe,
            MonadExceptOf.throw]
        | link target => exact absurd hnode (hs _ List.prefix_rfl target)

/-- **A file with exactly the given permissions and content**, whatever there was before, or nothing
at all. -/
theorem writeWithMode_place (hp : Proper p) (hne : p ≠ []) (hs : t.Straight p) (mode : Nat)
    (content : Content) :
    (t.Open p ∧ ∃ t', t.writeWithMode (textOfPlace p) mode content = (.ok (), t') ∧
      t.Updated p (.file mode content) t') ∨
    (¬ t.Open p ∧ ∃ e, t.writeWithMode (textOfPlace p) mode content = (.error e, t)) := by
  rcases put_place hp hne hs mode content with ⟨ho, t', hput, hup⟩ | ⟨ho, e, hput⟩
  · have hk : t.Keeps t' := hup.keeps_file ho.node
    have hstat := stat_place hp hne (hk.straight hs) ho.legal (hk.grounded ho.above) hup.same
    refine .inl ⟨ho, t'.set p (.file mode content), ?_, hup.trans (.of_set t' hne _)⟩
    rw [writeWithMode, hput]
    change t'.attempt (t'.setMode (textOfPlace p) mode) = _
    rw [setMode, hstat]
    rfl
  · refine .inr ⟨ho, e, ?_⟩
    rw [writeWithMode, hput]

/-- **A file with the given content** that keeps the permissions of the file before, or nothing at
all. -/
theorem writePlain_place (hp : Proper p) (hne : p ≠ []) (hs : t.Straight p) (content : Content) :
    (t.Open p ∧ ∃ t', t.writePlain (textOfPlace p) content = (.ok (), t') ∧
      t.Updated p (.file (modeOr defaultMode (t.node? p)) content) t') ∨
    (¬ t.Open p ∧ ∃ e, t.writePlain (textOfPlace p) content = (.error e, t)) := by
  rcases put_place hp hne hs defaultMode content with ⟨ho, t', hput, hup⟩ | ⟨ho, e, hput⟩
  · exact .inl ⟨ho, t', by rw [writePlain, hput]; rfl, hup⟩
  · exact .inr ⟨ho, e, by rw [writePlain, hput]; rfl⟩

/-- **A file that is locked is not written.** -/
theorem put_locked (hp : Proper p) (hne : p ≠ []) (hs : t.Straight p) (h : t.Placed p)
    (hlocked : t.Locked p) (mode : Nat) (content : Content) :
    t.put (textOfPlace p) mode content = .error .permissionDenied := by
  obtain ⟨d, name, rfl⟩ := (List.eq_nil_or_concat' p).resolve_left hne
  obtain ⟨old, c, hnode, hmay⟩ := hlocked
  have hg : t.Grounded d := by simpa using h.above
  have hspot : t.locate true true (d ++ [name]) = .ok (.found (d ++ [name]) (.file old c)) := by
    rw [locate_place_eq_ok_iff hp hs]
    exact ⟨h.legal.short, hg, by rw [spotAt, hnode]⟩
  simp [put, h.legal.ofText?_eq hp, ofPlace, hspot, hmay, bind, Except.bind, throw, throwThe,
    MonadExceptOf.throw]

theorem readText_of_fileContent {path s : String} (h : t.fileContent path = .ok (.ofText s)) :
    t.readText path = .ok s := by
  have htext : Text.Utf8.text? (Content.ofText s).toBytes = some s :=
    Text.Utf8.text?_eq_some_iff.2 rfl
  simp only [readText, h, bind, Except.bind, htext]
  rfl

/-- A tree with some new directories, each where one of some ways leads. -/
structure Builds (t : FileTree) (absolute : Bool) (ways : List String → Prop) (t' : FileTree) :
    Prop where
  process : t'.process = t.process
  node : ∀ q, t'.node? q = t.node? q ∨
    (t.node? q = none ∧ t'.node? q = some (.directory directoryMode) ∧
      ∃ names, ways names ∧ t'.Leads absolute names q)

namespace Builds

variable {ways ways' : List String → Prop}

theorem refl (t : FileTree) : t.Builds absolute ways t := ⟨rfl, fun _ => .inl rfl⟩

theorem keeps (h : t.Builds absolute ways t') : t.Keeps t' := by
  refine ⟨h.process, fun q hq => ?_, fun q target => ?_⟩
  · rcases h.node q with he | ⟨-, hdir, -⟩
    · rwa [he]
    · exact ⟨_, hdir⟩
  · rcases h.node q with he | ⟨hnone, hdir, -⟩
    · rw [he]
    · rw [hnone, hdir]
      simp

theorem mono (h : t.Builds absolute ways t') (hw : ∀ names, ways names → ways' names) :
    t.Builds absolute ways' t' := by
  refine ⟨h.process, fun q => (h.node q).imp_right ?_⟩
  rintro ⟨hnone, hdir, names, hnames, hled⟩
  exact ⟨hnone, hdir, names, hw names hnames, hled⟩

theorem trans (hs : t.Started) (h : t.Builds absolute ways t') (h' : t'.Builds absolute ways t'') :
    t.Builds absolute ways t'' := by
  refine ⟨h'.process.trans h.process, fun q => ?_⟩
  rcases h'.node q with he' | ⟨hnone', hdir', hled'⟩
  · rcases h.node q with he | ⟨hnone, hdir, names, hnames, hled⟩
    · exact .inl (he'.trans he)
    · exact .inr ⟨hnone, he'.trans hdir, names, hnames,
        hled.of_keeps h'.keeps (h.keeps.started hs) ⟨_, he'.trans hdir⟩⟩
  · rcases h.node q with he | ⟨-, hdir, -⟩
    · exact .inr ⟨he ▸ hnone', hdir', hled'⟩
    · rw [hdir] at hnone'
      cases hnone'

end Builds

/-- A directory is made at a vacant place, to which the names lead from then on. -/
theorem makeDirectory_builds (hs : t.Started) (hn : ∀ n ∈ names, Undivided n)
    (h : t.makeDirectory absolute names = .ok t') :
    t.Builds absolute (· = names) t' ∧ ∃ r, t'.Leads absolute names r := by
  rw [makeDirectory] at h
  cases hspot : t.locate false absolute names with
  | error e =>
    rw [hspot] at h
    cases h
  | ok spot =>
    rw [hspot] at h
    cases spot with
    | found r n => cases h
    | vacant d name =>
      obtain rfl : t.set (d ++ [name]) (.directory directoryMode) = t' := Except.ok.inj h
      have hup : t.Updated (d ++ [name]) (.directory directoryMode)
          (t.set (d ++ [name]) (.directory directoryMode)) := .of_set t (by simp) _
      have hnone : t.node? (d ++ [name]) = none := by
        cases locate_settled hs hn hspot with
        | vacant proper above node => exact node
      have hk := hup.keeps (fun _ => isDirectory_some _) (by rw [hnone]; simp)
        fun target he => by cases he
      have hled : (t.set (d ++ [name]) (.directory directoryMode)).Leads absolute names
          (d ++ [name]) :=
        ⟨_, locate_of_keeps hk hs (fun _ => rfl) hspot hup.same fun target he => by cases he⟩
      refine ⟨⟨hup.process, fun q => ?_⟩, d ++ [name], hled⟩
      by_cases hq : q = d ++ [name]
      · subst hq
        exact .inr ⟨hnone, hup.same, names, rfl, hled⟩
      · exact .inl (hup.other hq)

theorem leadsToDirectory_iff :
    t.leadsToDirectory absolute names = true ↔ ∃ r, t.Leads absolute names r := by
  rw [leadsToDirectory]
  constructor
  · intro h
    split at h
    · rename_i r mode hr
      exact ⟨r, mode, hr⟩
    · cases h
  · rintro ⟨r, mode, hr⟩
    rw [hr]

theorem keepDirectory_builds (absolute : Bool) (hs : t.Started) (hn : ∀ n ∈ names, Undivided n) :
    t.Builds absolute (· = names) (t.keepDirectory absolute names).2 ∧
      ((t.keepDirectory absolute names).1 = .ok () →
        ∃ r, (t.keepDirectory absolute names).2.Leads absolute names r) := by
  rw [keepDirectory]
  cases h : t.makeDirectory absolute names with
  | ok t' =>
    obtain ⟨hb, hled⟩ := makeDirectory_builds hs hn h
    exact ⟨hb, fun _ => hled⟩
  | error e =>
    dsimp only
    split
    · rename_i hled
      exact ⟨.refl t, fun _ => leadsToDirectory_iff.1 hled⟩
    · exact ⟨.refl t, fun h => by cases h⟩

/-- A directory is kept once those above it are made. -/
theorem keep_after_ancestors {ways : List String → Prop} {above : List String} (hs : t.Started)
    (hn : ∀ n ∈ names, Undivided n)
    (hup : t.Builds absolute ways (makeAncestors absolute above t).2) (hself : ways names)
    {r : Except OsError Unit × FileTree}
    (hr : r = match makeAncestors absolute above t with
      | (.ok (), t) => t.keepDirectory absolute names
      | failed => failed) :
    t.Builds absolute ways r.2 ∧ (r.1 = .ok () → ∃ q, r.2.Leads absolute names q) := by
  rcases hanc : makeAncestors absolute above t with ⟨e | u, t'⟩ <;> rw [hanc] at hr hup
  · subst hr
    exact ⟨hup, fun h => by cases h⟩
  · obtain ⟨hb, hled⟩ := keepDirectory_builds absolute (hup.keeps.started hs) hn
    subst hr
    exact ⟨hup.trans hs (hb.mono fun names h => h ▸ hself), hled⟩

theorem makeAncestors_builds (absolute : Bool) (hs : t.Started) (reversed : List String)
    (hn : ∀ n ∈ reversed, Undivided n) :
    t.Builds absolute (· <+: reversed.reverse) (makeAncestors absolute reversed t).2 ∧
      ((makeAncestors absolute reversed t).1 = .ok () →
        ∃ q, (makeAncestors absolute reversed t).2.Leads absolute reversed.reverse q) := by
  induction reversed with
  | nil =>
    refine ⟨.refl t, fun _ => ?_⟩
    have hg : t.Grounded (if absolute then [] else t.start) := by
      split
      exacts [grounded_nil t, hs.grounded]
    obtain ⟨mode, hnode⟩ := hg.node
    refine ⟨if absolute then [] else t.start, mode, ?_⟩
    rw [makeAncestors, List.reverse_nil, locate, maxLinks, follow, visit, hnode]
  | cons name above ih =>
    have hall : ∀ n ∈ (name :: above).reverse, Undivided n := fun n h => hn n (List.mem_reverse.1 h)
    rw [makeAncestors]
    split
    · have hways : ∀ names, names <+: above.reverse → names <+: (name :: above).reverse := by
        intro names h
        rw [List.reverse_cons]
        exact h.trans (List.prefix_append _ _)
      have hup := (ih fun n h => hn n (List.mem_cons_of_mem name h)).1.mono hways
      exact keep_after_ancestors hs hall hup List.prefix_rfl rfl
    · obtain ⟨hb, hled⟩ := keepDirectory_builds absolute hs hall
      exact ⟨hb.mono fun names h => h ▸ List.prefix_rfl, hled⟩

/-- The names of a path without those that stay where they are. -/
def moves (p : Path) : List String := p.names.filter fun n => n != "."

/-- A beginning of a path, with or without the names that stay. -/
def Begins (path : String) (names : List String) : Prop :=
  names <+: (Path.ofText path).names ∨ names <+: moves (Path.ofText path)

/-- **A directory is had by making directories along the path only**, and if it is had the path
leads to one. -/
theorem ensureDirectory_builds (hs : t.Started) (path : String) :
    t.Builds (Path.ofText path).absolute (Begins path) (t.ensureDirectory path).2 ∧
      (∀ p, Path.ofText? path = .ok p → (t.ensureDirectory path).1 = .ok () →
        ∃ r, (t.ensureDirectory path).2.Leads (Path.ofText path).absolute
          (Path.ofText path).names r) := by
  have hself : Begins path (Path.ofText path).names := .inl List.prefix_rfl
  rw [ensureDirectory]
  cases htext : Path.ofText? path with
  | error e =>
    dsimp only
    refine ⟨?_, fun _ hp => by cases hp⟩
    split <;> exact .refl t
  | ok p =>
    obtain rfl := ofText?_eq_ok htext
    have hall : ∀ n ∈ (Path.ofText path).names, Undivided n := fun n h => undivided_of_mem_names h
    dsimp only
    split
    · have habove : ∀ n ∈ (moves (Path.ofText path)).dropLast.reverse, Undivided n := by
        intro n h
        have hmem := List.dropLast_subset _ (List.mem_reverse.1 h)
        exact hall n (List.mem_of_mem_filter hmem)
      have hways : ∀ names, names <+: (moves (Path.ofText path)).dropLast.reverse.reverse →
          Begins path names := by
        intro names h
        rw [List.reverse_reverse] at h
        exact .inr (h.trans (List.dropLast_prefix _))
      have hup := (makeAncestors_builds (Path.ofText path).absolute hs _ habove).1.mono hways
      obtain ⟨hb, hled⟩ := keep_after_ancestors hs hall hup hself rfl
      exact ⟨hb, fun _ _ => hled⟩
    · obtain ⟨hb, hled⟩ := keepDirectory_builds (Path.ofText path).absolute hs hall
      exact ⟨hb.mono fun names h => h ▸ hself, fun _ _ => hled⟩

/-- A place that a beginning of a path leads to. -/
def Along (t : FileTree) (path : String) (q : Place) : Prop :=
  ∃ names, Begins path names ∧ t.Leads (Path.ofText path).absolute names q

/-- A place that nobody has changed since a directory was had is as it was before, or a directory on
the way there. -/
theorem Builds.along {path : String} (hst : t.Started)
    (hb : t.Builds (Path.ofText path).absolute (Begins path) t') (hk : t'.Keeps t'')
    (hq : t''.node? q = t'.node? q) :
    t''.node? q = t.node? q ∨
      (t.node? q = none ∧ t''.node? q = some (.directory directoryMode) ∧ t''.Along path q) := by
  rw [hq]
  refine (hb.node q).imp_right ?_
  rintro ⟨hnone, hdir, names, hnames, hled⟩
  exact ⟨hnone, hdir, names, hnames,
    hled.of_keeps hk (hb.keeps.started hst) ⟨_, hq.trans hdir⟩⟩

/-- A path that leads to a directory does so too when it is looked up to its end. -/
theorem stat_of_leads {path : String} (htext : Path.ofText? path = .ok (Path.ofText path))
    (h : t.Leads (Path.ofText path).absolute (Path.ofText path).names p) :
    ∃ mode, t.stat path = .ok (p, .directory mode) := by
  obtain ⟨mode, hspot⟩ := h
  refine ⟨mode, stat_eq_ok_iff.2 ⟨htext, ?_⟩⟩
  rw [steps]
  split
  · exact locate_append_dot hspot
  · exact hspot

/-- A directory that is there is had without any change. -/
theorem ensureDirectory_of_leads {path : String}
    (htext : Path.ofText? path = .ok (Path.ofText path))
    (h : t.Leads (Path.ofText path).absolute (Path.ofText path).names p) :
    t.ensureDirectory path = (.ok (), t) := by
  obtain ⟨mode, hspot⟩ := h
  obtain ⟨q, n, hfound⟩ := locate_found_false hspot
  have hmake : t.makeDirectory (Path.ofText path).absolute (Path.ofText path).names =
      .error .fileExists := by
    rw [makeDirectory, hfound]
    rfl
  have hled : t.leadsToDirectory (Path.ofText path).absolute (Path.ofText path).names = true :=
    leadsToDirectory_iff.2 ⟨p, mode, hspot⟩
  rw [ensureDirectory, htext]
  simp only [hmake, keepDirectory, hled, ↓reduceIte]

/-! ## Making directories on a way without links -/

theorem names_textOfPlace (hp : Proper p) :
    (Path.ofText (textOfPlace p)).absolute = true ∧ (Path.ofText (textOfPlace p)).names = p ∧
      moves (Path.ofText (textOfPlace p)) = p := by
  rw [ofText_textOfPlace hp]
  refine ⟨rfl, rfl, List.filter_eq_self.2 fun name hname => ?_⟩
  simpa using (hp name hname).ne_dot

/-- A directory at a place makes the missing ones on the way there, and nothing else. -/
theorem ensureDirectory_place (hst : t.Started) (hp : Proper p) (hs : t.Straight p) (q : Place) :
    (t.ensureDirectory (textOfPlace p)).2.node? q = t.node? q ∨
      (q <+: p ∧ t.node? q = none ∧
        (t.ensureDirectory (textOfPlace p)).2.node? q = some (.directory directoryMode)) := by
  obtain ⟨habs, hnames, hmoves⟩ := names_textOfPlace hp
  obtain ⟨hb, -⟩ := ensureDirectory_builds hst (textOfPlace p)
  refine (hb.node q).imp_right ?_
  rintro ⟨hnone, hdir, names, hbegin, hled⟩
  rw [Begins, hnames, hmoves, or_self] at hbegin
  have hs' := (hb.keeps.straight hs).of_isPrefix hbegin
  rw [habs, leads_place_iff (hp.of_isPrefix hbegin) hs'] at hled
  exact ⟨hled.1 ▸ hbegin, hnone, hdir⟩

/-- Where a directory is had at a place, the system takes the place and directories lead there. -/
theorem ensureDirectory_place_ok (hst : t.Started) (hp : Proper p) (hs : t.Straight p)
    (h : t.ensureDirectory (textOfPlace p) = (.ok (), t')) : Legal p ∧ t'.Grounded p := by
  obtain ⟨habs, hnames, -⟩ := names_textOfPlace hp
  obtain ⟨hb, hled⟩ := ensureDirectory_builds hst (textOfPlace p)
  cases htext : ofText? (textOfPlace p) with
  | error e =>
    have hempty : (textOfPlace p).isEmpty = false := by
      rw [Bool.eq_false_iff, ne_eq, String.isEmpty_iff]
      exact textOfPlace_ne_empty p
    rw [ensureDirectory, htext, hempty] at h
    cases h
  | ok path =>
    obtain ⟨-, hnul, hfits⟩ := eq_ofPlace_of_ofText? hp htext
    obtain ⟨r, hr⟩ := hled path htext (by rw [h])
    rw [h] at hr hb
    rw [habs, hnames, leads_place_iff hp (hb.keeps.straight hs)] at hr
    exact ⟨⟨hnul, hr.2.2, hfits⟩, hr.2.1⟩

theorem makeDirectory_of_clear (hp : Proper p) (hshort : ∀ n ∈ p, n.utf8ByteSize ≤ maxNameBytes)
    (hc : t.Clear p) :
    t.makeDirectory true p = .error .noEntry ∨ t.Grounded p.dropLast := by
  rcases List.eq_nil_or_concat' p with rfl | ⟨d, name, rfl⟩
  · exact .inr (grounded_nil t)
  have hvisit : (∃ spot, t.locate false true (d ++ [name]) = .ok spot) ∨
      t.locate false true (d ++ [name]) = .error .noEntry := visit_of_clear hp hshort hc
  rcases hvisit with ⟨spot, hspot⟩ | herr
  · rw [locate_place_eq_ok_iff hp hc.straight] at hspot
    exact .inr (by simpa using hspot.2.1)
  · refine .inl ?_
    rw [makeDirectory, herr]
    rfl

theorem keepDirectory_of_clear (hp : Proper p) (hshort : ∀ n ∈ p, n.utf8ByteSize ≤ maxNameBytes)
    (hc : t.Clear p) (hg : t.Grounded p.dropLast) : (t.keepDirectory true p).1 = .ok () := by
  rw [keepDirectory]
  cases hmake : t.makeDirectory true p with
  | ok t' => rfl
  | error e =>
    have hdir : IsDirectory (t.node? p) := by
      refine (hc p List.prefix_rfl).resolve_left fun hnone => ?_
      have hne : p ≠ [] := by
        rintro rfl
        cases hnone
      obtain ⟨d, name, rfl⟩ := (List.eq_nil_or_concat' p).resolve_left hne
      rw [List.dropLast_concat] at hg
      have hspot : t.locate false true (d ++ [name]) = .ok (.vacant d name) := by
        rw [locate_place_eq_ok_iff hp hc.straight]
        exact ⟨hshort, hg, by rw [spotAt, hnone]⟩
      rw [makeDirectory, hspot] at hmake
      cases hmake
    have hgp : t.Grounded p := by
      rcases List.eq_nil_or_concat' p with rfl | ⟨d, name, rfl⟩
      · exact grounded_nil t
      · rw [List.dropLast_concat] at hg
        exact hg.concat hdir
    have hled : t.leadsToDirectory true p = true :=
      leadsToDirectory_iff.2 ⟨p, (leads_place_iff hp hc.straight).2 ⟨rfl, hgp, hshort⟩⟩
    simp [hled]

/-- Making directories on the way keeps it clear. -/
theorem Builds.clear {ways : List String → Prop} (hb : t.Builds absolute ways t') (hc : t.Clear p) :
    t'.Clear p := by
  intro q hq
  rcases hb.node q with he | ⟨-, hdir, -⟩
  · rw [he]
    exact hc q hq
  · exact .inr ⟨_, hdir⟩

theorem makeAncestors_of_clear (hst : t.Started) (reversed : List String)
    (hp : Proper reversed.reverse)
    (hshort : ∀ n ∈ reversed.reverse, n.utf8ByteSize ≤ maxNameBytes)
    (hc : t.Clear reversed.reverse) :
    (makeAncestors true reversed t).1 = .ok () := by
  induction reversed with
  | nil => rfl
  | cons name above ih =>
    have hpre : above.reverse <+: (name :: above).reverse := by
      rw [List.reverse_cons]
      exact List.prefix_append _ _
    have hpa := hp.of_isPrefix hpre
    have hdrop : (name :: above).reverse.dropLast = above.reverse := by simp
    rw [makeAncestors]
    split
    · obtain ⟨hb, hled⟩ := makeAncestors_builds true hst above
        fun n hn => (hpa n (List.mem_reverse.2 hn)).toUndivided
      have hok := ih hpa (fun n hn => hshort n (hpre.subset hn)) (hc.of_isPrefix hpre)
      obtain ⟨r, hr⟩ := hled hok
      rw [leads_place_iff hpa ((hb.keeps.straight hc.straight).of_isPrefix hpre)] at hr
      rcases hanc : makeAncestors true above t with ⟨e | u, t'⟩ <;> rw [hanc] at hok hb hr
      · cases hok
      · exact keepDirectory_of_clear hp hshort (hb.clear hc) (hdrop ▸ hr.2.1)
    · rename_i hmake
      exact keepDirectory_of_clear hp hshort hc
        ((makeDirectory_of_clear hp hshort hc).resolve_left hmake)

/-- **A directory can be had** at every place that the system takes, where nothing but directories
is on the way. -/
theorem ensureDirectory_of_clear (hst : t.Started) (hp : Proper p) (hl : Legal p) (hc : t.Clear p) :
    (t.ensureDirectory (textOfPlace p)).1 = .ok () := by
  have hpre : p.dropLast <+: p := p.dropLast_prefix
  have hpd := hp.of_isPrefix hpre
  have hmoves : moves (ofPlace p) = p := by
    rw [← ofText_textOfPlace hp]
    exact (names_textOfPlace hp).2.2
  rw [ensureDirectory, hl.ofText?_eq hp]
  dsimp only
  split
  · change (match makeAncestors true (moves (ofPlace p)).dropLast.reverse t with
      | (.ok (), t) => t.keepDirectory true p
      | failed => failed).1 = _
    rw [hmoves]
    obtain ⟨hb, hled⟩ := makeAncestors_builds true hst p.dropLast.reverse
      fun n hn => (hpd n (List.mem_reverse.1 hn)).toUndivided
    have hok := makeAncestors_of_clear hst p.dropLast.reverse
    rw [List.reverse_reverse] at hok hled
    specialize hok hpd (fun n hn => hl.short n (hpre.subset hn)) (hc.of_isPrefix hpre)
    obtain ⟨r, hr⟩ := hled hok
    rw [leads_place_iff hpd ((hb.keeps.straight hc.straight).of_isPrefix hpre)] at hr
    rcases hanc : makeAncestors true p.dropLast.reverse t with ⟨e | u, t'⟩ <;>
      rw [hanc] at hok hb hr
    · cases hok
    · exact keepDirectory_of_clear hp hl.short (hb.clear hc) hr.2.1
  · rename_i hmake
    exact keepDirectory_of_clear hp hl.short hc
      ((makeDirectory_of_clear hp hl.short hc).resolve_left hmake)

end CredentialBench.FileTree
