import Mathlib.Data.List.Basic
import CredentialBench.FileTree.Resolution
import CredentialBench.Proofs.FileTree.Places

/-!
# Where paths lead

On a way without links a path leads exactly where its names say (`visit_eq_ok_iff`). On any way,
links included, what a path leads to is a place written with proper names below directories only
(`locate_settled`), and a path keeps leading there as long as directories stay and no link comes or
goes (`locate_of_keeps`).
-/

namespace CredentialBench.FileTree

open CredentialBench.Path

/-! ## Ways -/

/-- There is a directory, whatever its permissions. -/
def IsDirectory (n : Option Node) : Prop := ∃ mode, n = some (.directory mode)

/-- There are directories all the way to a place, and one there. -/
def Grounded (t : FileTree) (p : Place) : Prop := ∀ q, q <+: p → IsDirectory (t.node? q)

/-- There is no link on the way to a place, and none there. -/
def Straight (t : FileTree) (p : Place) : Prop :=
  ∀ q, q <+: p → ∀ target, t.node? q ≠ some (.link target)

/-- There are directories on the way to a place, and there, as far as there is anything. -/
def Clear (t : FileTree) (p : Place) : Prop :=
  ∀ q, q <+: p → t.node? q = none ∨ IsDirectory (t.node? q)

/-- There is no link at or below a place. -/
def LinkFree (t : FileTree) (root : Place) : Prop :=
  ∀ q, root <+: q → ∀ target, t.node? q ≠ some (.link target)

/-- The program was started in a directory that proper names lead to. -/
structure Started (t : FileTree) : Prop where
  grounded : t.Grounded t.start
  proper : Proper t.start

variable {t t' t'' : FileTree} {p q : Place} {name : String} {names : List String}

theorem isDirectory_some (mode : Nat) : IsDirectory (some (.directory mode)) := ⟨mode, rfl⟩

theorem not_isDirectory_none : ¬ IsDirectory none := fun ⟨_, h⟩ => by cases h

theorem not_isDirectory_file (mode : Nat) (content : Content) :
    ¬ IsDirectory (some (.file mode content)) := fun ⟨_, h⟩ => by cases h

theorem IsDirectory.not_link {n : Option Node} (h : IsDirectory n) (target : String) :
    n ≠ some (.link target) := by
  rintro rfl
  obtain ⟨mode, hmode⟩ := h
  cases hmode

theorem grounded_nil (t : FileTree) : t.Grounded [] := by
  intro q hq
  rw [List.prefix_nil.1 hq]
  exact isDirectory_some directoryMode

theorem Grounded.node (h : t.Grounded p) : IsDirectory (t.node? p) := h p List.prefix_rfl

theorem Grounded.of_isPrefix (h : t.Grounded q) (hp : p <+: q) : t.Grounded p :=
  fun r hr => h r (hr.trans hp)

theorem Grounded.dropLast (h : t.Grounded p) : t.Grounded p.dropLast :=
  h.of_isPrefix p.dropLast_prefix

theorem Grounded.concat (h : t.Grounded p) (hn : IsDirectory (t.node? (p ++ [name]))) :
    t.Grounded (p ++ [name]) := by
  intro q hq
  rcases List.prefix_concat_iff.1 hq with rfl | hq
  · exact hn
  · exact h q hq

theorem Clear.of_isPrefix (h : t.Clear q) (hp : p <+: q) : t.Clear p :=
  fun r hr => h r (hr.trans hp)

theorem Clear.straight (h : t.Clear p) : t.Straight p := by
  intro q hq target hl
  rcases h q hq with hn | hn
  · rw [hl] at hn
    cases hn
  · exact hn.not_link target hl

theorem Straight.of_isPrefix (h : t.Straight q) (hp : p <+: q) : t.Straight p :=
  fun r hr => h r (hr.trans hp)

/-- What stands at a place other than the root is written down. -/
theorem mem_entries_of_node? {n : Node} (hp : p ≠ []) (h : t.node? p = some n) :
    (p, n) ∈ t.nodes.entries := by
  rw [node?, if_neg hp] at h
  exact Dictionary.mem_entries_of_get? h

theorem linkFree_of_entries (h : ∀ e ∈ t.nodes.entries, ∀ target, e.2 ≠ .link target) (p : Place) :
    t.LinkFree p := by
  intro q _ target hl
  by_cases hq : q = []
  · rw [node?, if_pos hq] at hl
    cases hl
  · exact h _ (mem_entries_of_node? hq hl) target rfl

/-- Below a directory without links everything is reached without one. -/
theorem LinkFree.straight (h : t.LinkFree p) (hp : t.Grounded p) (hq : p <+: q) :
    t.Straight q := by
  intro r hr target hl
  rcases List.prefix_or_prefix_of_prefix hr hq with hrp | hpr
  · exact (hp r hrp).not_link target hl
  · exact h r hpr target hl

/-! ## Ways without links -/

/-- What a name leads to in a directory. -/
def spotAt (t : FileTree) (p : Place) (name : String) : Spot :=
  match t.node? (p ++ [name]) with
  | none => .vacant p name
  | some n => .found (p ++ [name]) n

section Visit

variable {last : Bool} {jump : Place → List String → Except OsError Spot}

/-- A proper name is looked up where the visit stands. -/
theorem visit_cons (h : IsName name) (p : Place) (rest : List String) :
    t.visit last jump p (name :: rest) =
      if maxNameBytes < name.utf8ByteSize then .error .nameTooLong
      else
        match t.node? (p ++ [name]) with
        | none => if rest.isEmpty then .ok (.vacant p name) else .error .noEntry
        | some (.directory _) => t.visit last jump (p ++ [name]) rest
        | some (.file mode content) =>
          if rest.isEmpty then .ok (.found (p ++ [name]) (.file mode content))
          else .error .notDirectory
        | some (.link target) =>
          if rest.isEmpty && !last then .ok (.found (p ++ [name]) (.link target))
          else
            let aim := Path.ofText target
            jump (if aim.absolute then [] else p) (aim.steps ++ rest) :=
  (if_neg h.ne_dot).trans (if_neg h.ne_dots)

/-- **Without links, names lead where they say**: exactly if none of them is too long and all but
the last lead through directories. -/
theorem visit_eq_ok_iff {spot : Spot} (hp : t.Grounded p) (hn : Proper (names ++ [name]))
    (hs : t.Straight (p ++ (names ++ [name]))) :
    t.visit last jump p (names ++ [name]) = .ok spot ↔
      (∀ n ∈ names ++ [name], n.utf8ByteSize ≤ maxNameBytes) ∧ t.Grounded (p ++ names) ∧
        spot = t.spotAt (p ++ names) name := by
  induction names generalizing p with
  | nil =>
    have hlink : ∀ target, t.node? (p ++ [name]) ≠ some (.link target) :=
      hs (p ++ [name]) List.prefix_rfl
    rw [List.nil_append, visit_cons (hn name (by simp))]
    by_cases hlong : maxNameBytes < name.utf8ByteSize
    · have hshort : ¬ name.utf8ByteSize ≤ maxNameBytes := by omega
      simp [hlong, hshort]
    · have hshort : name.utf8ByteSize ≤ maxNameBytes := by omega
      rw [if_neg hlong]
      cases hnode : t.node? (p ++ [name]) with
      | none => simp [hshort, hp, spotAt, hnode, eq_comm]
      | some n =>
        cases n with
        | directory mode => simp [hshort, hp, spotAt, hnode, visit, eq_comm]
        | file mode content => simp [hshort, hp, spotAt, hnode, eq_comm]
        | link target => exact absurd hnode (hlink target)
  | cons first rest ih =>
    have hfirst : IsName first := hn first (by simp)
    have hrest : Proper (rest ++ [name]) := fun n h => hn n (List.mem_cons_of_mem first h)
    have hassoc : p ++ first :: (rest ++ [name]) = (p ++ [first]) ++ (rest ++ [name]) := by simp
    have hbelow : p ++ [first] <+: p ++ first :: rest := ⟨rest, by simp⟩
    have hmore : (rest ++ [name]).isEmpty = false := by simp
    rw [List.cons_append] at hs ⊢
    rw [visit_cons hfirst, hmore]
    by_cases hlong : maxNameBytes < first.utf8ByteSize
    · have hshort : ¬ first.utf8ByteSize ≤ maxNameBytes := by omega
      simp [hlong, hshort]
    have hshort : first.utf8ByteSize ≤ maxNameBytes := by omega
    rw [if_neg hlong]
    cases hnode : t.node? (p ++ [first]) with
    | none =>
      refine ⟨fun h => by simp at h, fun ⟨_, hg, _⟩ => ?_⟩
      exact absurd (hnode ▸ hg _ hbelow) not_isDirectory_none
    | some n =>
      cases n with
      | directory mode =>
        have hrec := ih (hp.concat ⟨mode, hnode⟩) hrest (hassoc ▸ hs)
        rw [show p ++ first :: rest = (p ++ [first]) ++ rest by simp]
        refine hrec.trans (and_congr_left fun _ => ?_)
        simp [hshort]
      | file mode content =>
        refine ⟨fun h => by simp at h, fun ⟨_, hg, _⟩ => ?_⟩
        exact absurd (hnode ▸ hg _ hbelow) (not_isDirectory_file mode content)
      | link target =>
        exact absurd hnode (hs (p ++ [first]) ⟨rest ++ [name], by simp⟩ target)

/-- Where nothing but directories is on the way, names of a length that the system takes lead
somewhere, or something on the way is missing. -/
theorem visit_of_clear (hn : Proper names) (hshort : ∀ n ∈ names, n.utf8ByteSize ≤ maxNameBytes)
    (hc : t.Clear (p ++ names)) :
    (∃ spot, t.visit last jump p names = .ok spot) ∨
      t.visit last jump p names = .error .noEntry := by
  induction names generalizing p with
  | nil =>
    rw [visit]
    cases t.node? p with
    | none => exact .inr rfl
    | some n => exact .inl ⟨_, rfl⟩
  | cons first rest ih =>
    have hfirst : ¬ maxNameBytes < first.utf8ByteSize := Nat.not_lt.2 (hshort first (by simp))
    have hassoc : p ++ first :: rest = (p ++ [first]) ++ rest := by simp
    rw [visit_cons (hn first (by simp)), if_neg hfirst]
    rcases hc (p ++ [first]) ⟨rest, by simp⟩ with hnode | ⟨mode, hnode⟩ <;> rw [hnode]
    · by_cases hrest : rest.isEmpty
      · exact .inl ⟨.vacant p first, by simp [hrest]⟩
      · exact .inr (by simp [hrest])
    · exact ih (fun n h => hn n (List.mem_cons_of_mem first h))
        (fun n h => hshort n (List.mem_cons_of_mem first h)) (hassoc ▸ hc)

end Visit

/-! ## Any way -/

/-- What relates two visits wherever it relates what they jump by relates two ways through any
number of links. -/
theorem follow_rel (t t' : FileTree) (last last' : Bool)
    {R : (Place → List String → Except OsError Spot) →
      (Place → List String → Except OsError Spot) → Prop}
    (hstop : R (fun _ _ => .error .linkLoop) fun _ _ => .error .linkLoop)
    (hvisit : ∀ jump jump', R jump jump' → R (t.visit last jump) (t'.visit last' jump'))
    (links : Nat) : R (t.follow last links) (t'.follow last' links) := by
  induction links with
  | zero => exact hvisit _ _ hstop
  | succ links ih => exact hvisit _ _ ih

/-- What is known of a spot: the names that lead there are proper, everything above it is a
directory, and it says what stands there. -/
inductive Spot.Settled (t : FileTree) : Spot → Prop
  | found {p : Place} {n : Node} (proper : Proper p) (above : t.Grounded p.dropLast)
    (node : t.node? p = some n) : Settled t (.found p n)
  | vacant {p : Place} {name : String} (proper : Proper (p ++ [name])) (above : t.Grounded p)
    (node : t.node? (p ++ [name]) = none) : Settled t (.vacant p name)

theorem undivided_of_mem_steps {s : String} (h : name ∈ (Path.ofText s).steps) :
    Undivided name := by
  rw [steps] at h
  split at h
  · rcases List.mem_append.1 h with h | h
    · exact undivided_of_mem_names h
    · rw [List.mem_singleton.1 h]
      decide
  · exact undivided_of_mem_names h

theorem visit_settled {last : Bool} {jump : Place → List String → Except OsError Spot}
    (hjump : ∀ p names spot, t.Grounded p → Proper p → (∀ n ∈ names, Undivided n) →
      jump p names = .ok spot → spot.Settled t)
    (names : List String) (p : Place) {spot : Spot} (hg : t.Grounded p) (hp : Proper p)
    (hn : ∀ n ∈ names, Undivided n) (h : t.visit last jump p names = .ok spot) :
    spot.Settled t := by
  induction names generalizing p with
  | nil =>
    rw [visit] at h
    split at h <;> cases h
    rename_i n hnode
    exact .found hp hg.dropLast hnode
  | cons name rest ih =>
    have hrest : ∀ n ∈ rest, Undivided n := fun n hm => hn n (List.mem_cons_of_mem name hm)
    by_cases hdot : name = "."
    · rw [visit, if_pos hdot] at h
      exact ih p hg hp hrest h
    by_cases hdots : name = ".."
    · rw [visit, if_neg hdot, if_pos hdots] at h
      exact ih p.dropLast hg.dropLast (hp.of_isPrefix p.dropLast_prefix) hrest h
    have hname : IsName name := ⟨hn name List.mem_cons_self, hdot, hdots⟩
    have hbelow : Proper (p ++ [name]) := hp.append (.singleton hname)
    rw [visit_cons hname] at h
    split at h
    · cases h
    split at h
    · rename_i hnode
      split at h <;> cases h
      exact .vacant hbelow hg hnode
    · rename_i hnode
      exact ih (p ++ [name]) (hg.concat ⟨_, hnode⟩) hbelow hrest h
    · rename_i hnode
      split at h <;> cases h
      exact .found hbelow (by simpa using hg) hnode
    · rename_i target hnode
      split at h
      · cases h
        exact .found hbelow (by simpa using hg) hnode
      · have hsteps : ∀ n ∈ (Path.ofText target).steps ++ rest, Undivided n := fun n hm =>
          (List.mem_append.1 hm).elim undivided_of_mem_steps (hrest n)
        refine hjump _ _ spot ?_ ?_ hsteps h <;> split
        exacts [grounded_nil t, hg, proper_nil, hp]

/-- **Whatever a path goes through, it ends at a settled spot**, if the program was started in a
directory. -/
theorem locate_settled {last absolute : Bool} {spot : Spot} (hs : t.Started)
    (hn : ∀ n ∈ names, Undivided n)
    (h : t.locate last absolute names = .ok spot) : spot.Settled t := by
  have hfollow := follow_rel t t last last (R := fun jump _ => ∀ p names spot, t.Grounded p →
      Proper p → (∀ n ∈ names, Undivided n) → jump p names = .ok spot → spot.Settled t)
    (fun _ _ _ _ _ _ h => by cases h)
    fun _ _ hjump p names _ hg hp hn h => visit_settled hjump names p hg hp hn h
  cases absolute with
  | true => exact hfollow _ [] names spot (grounded_nil t) proper_nil hn h
  | false => exact hfollow _ t.start names spot hs.grounded hs.proper hn h

/-! ## Trees that keep their ways -/

/-- A tree that keeps the ways of another: directories stay, and links neither come nor go. -/
structure Keeps (t t' : FileTree) : Prop where
  process : t'.process = t.process
  directory : ∀ p, IsDirectory (t.node? p) → IsDirectory (t'.node? p)
  link : ∀ p target, t'.node? p = some (.link target) ↔ t.node? p = some (.link target)

namespace Keeps

theorem start (h : t.Keeps t') : t'.start = t.start := congrArg Process.start h.process

theorem user (h : t.Keeps t') : t'.user = t.user := congrArg Process.user h.process

theorem refl (t : FileTree) : t.Keeps t := ⟨rfl, fun _ h => h, fun _ _ => .rfl⟩

theorem trans (h : t.Keeps t') (h' : t'.Keeps t'') : t.Keeps t'' :=
  ⟨h'.process.trans h.process, fun p hp => h'.directory p (h.directory p hp),
    fun p target => (h'.link p target).trans (h.link p target)⟩

theorem grounded (h : t.Keeps t') (hp : t.Grounded p) : t'.Grounded p :=
  fun q hq => h.directory q (hp q hq)

theorem started (h : t.Keeps t') (hs : t.Started) : t'.Started :=
  ⟨h.start ▸ h.grounded hs.grounded, h.start ▸ hs.proper⟩

theorem straight (h : t.Keeps t') (hp : t.Straight p) : t'.Straight p :=
  fun q hq target hl => hp q hq target ((h.link q target).1 hl)

theorem linkFree (h : t.Keeps t') (hp : t.LinkFree p) : t'.LinkFree p :=
  fun q hq target hl => hp q hq target ((h.link q target).1 hl)

end Keeps

/-- A name at the end leads to what stands there, if that is no link. -/
theorem visit_last {last : Bool} {jump : Place → List String → Except OsError Spot} {n : Node}
    (hdot : name ≠ ".") (hdots : name ≠ "..") (hshort : ¬ maxNameBytes < name.utf8ByteSize)
    (hnode : t.node? (p ++ [name]) = some n) (hlink : ∀ target, n ≠ .link target) :
    t.visit last jump p [name] = .ok (.found (p ++ [name]) n) := by
  rw [visit, if_neg hdot, if_neg hdots, if_neg hshort, hnode]
  cases n with
  | directory mode =>
    change t.visit last jump (p ++ [name]) [] = _
    rw [visit, hnode]
  | file mode content => rfl
  | link target => exact absurd rfl (hlink target)

theorem visit_of_keeps {last last' : Bool} {jump jump' : Place → List String → Except OsError Spot}
    (hk : t.Keeps t') (hl : last = true → last' = true)
    (hjump : ∀ p names spot n, t.Grounded p → jump p names = .ok spot →
      t'.node? spot.place = some n → (∀ target, n ≠ .link target) →
        jump' p names = .ok (.found spot.place n))
    (names : List String) (p : Place) {spot : Spot} {n : Node} (hg : t.Grounded p)
    (h : t.visit last jump p names = .ok spot) (hnode : t'.node? spot.place = some n)
    (hlink : ∀ target, n ≠ .link target) :
    t'.visit last' jump' p names = .ok (.found spot.place n) := by
  induction names generalizing p with
  | nil =>
    rw [visit] at h
    split at h <;> cases h
    rw [visit]
    change t'.node? p = some n at hnode
    rw [hnode]
    rfl
  | cons name rest ih =>
    by_cases hdot : name = "."
    · rw [visit, if_pos hdot] at h ⊢
      exact ih p hg h
    by_cases hdots : name = ".."
    · rw [visit, if_neg hdot, if_pos hdots] at h ⊢
      exact ih p.dropLast hg.dropLast h
    rw [visit, if_neg hdot, if_neg hdots] at h
    split at h
    · cases h
    rename_i hshort
    -- What the name leads to in the one tree and in the other.
    split at h
    · split at h <;> cases h
      rename_i hrest
      obtain rfl := List.isEmpty_iff.1 hrest
      exact visit_last hdot hdots hshort hnode hlink
    · rename_i hdir
      obtain ⟨mode', hdir'⟩ := hk.directory _ ⟨_, hdir⟩
      rw [visit, if_neg hdot, if_neg hdots, if_neg hshort, hdir']
      exact ih (p ++ [name]) (hg.concat ⟨_, hdir⟩) h
    · split at h <;> cases h
      rename_i hrest
      obtain rfl := List.isEmpty_iff.1 hrest
      exact visit_last hdot hdots hshort hnode hlink
    · rename_i target haim
      have haim' : t'.node? (p ++ [name]) = some (.link target) := (hk.link _ target).2 haim
      split at h
      · cases h
        exact absurd (Option.some.inj (hnode.symm.trans haim')) (hlink target)
      · rename_i hlast
        have hlast' : (rest.isEmpty && !last') = false := by
          cases last <;> cases last' <;> simp_all
        rw [visit, if_neg hdot, if_neg hdots, if_neg hshort, haim']
        simp only [hlast', Bool.false_eq_true, ↓reduceIte]
        refine hjump _ _ spot n ?_ h hnode hlink
        split
        · exact grounded_nil t
        · exact hg

/-- **A path keeps leading where it led**, or would have led to, as long as directories stay and
links neither come nor go: what it leads to is what stands there now. -/
theorem locate_of_keeps {last last' absolute : Bool} {spot : Spot} {n : Node} (hk : t.Keeps t')
    (hs : t.Started) (hl : last = true → last' = true)
    (h : t.locate last absolute names = .ok spot) (hnode : t'.node? spot.place = some n)
    (hlink : ∀ target, n ≠ .link target) :
    t'.locate last' absolute names = .ok (.found spot.place n) := by
  have hfollow := follow_rel t t' last last' (R := fun jump jump' => ∀ p names spot n,
      t.Grounded p → jump p names = .ok spot → t'.node? spot.place = some n →
        (∀ target, n ≠ .link target) → jump' p names = .ok (.found spot.place n))
    (fun _ _ _ _ _ h => by cases h)
    fun _ _ hjump p names _ _ hg h => visit_of_keeps hk hl hjump names p hg h
  rw [locate, hk.start]
  refine hfollow _ _ names spot n ?_ h hnode hlink
  split
  · exact grounded_nil t
  · exact hs.grounded

/-! ## Ways followed to the end -/

section Ends

variable {jump jump' : Place → List String → Except OsError Spot}

theorem visit_found_false {n : Node}
    (hjump : ∀ p names q n, jump p names = .ok (.found q n) →
      ∃ q m, jump' p names = .ok (.found q m))
    (h : t.visit true jump p names = .ok (.found q n)) :
    ∃ q m, t.visit false jump' p names = .ok (.found q m) := by
  induction names generalizing p with
  | nil => exact ⟨q, n, h⟩
  | cons name rest ih =>
    by_cases hdot : name = "."
    · rw [visit, if_pos hdot] at h ⊢
      exact ih h
    by_cases hdots : name = ".."
    · rw [visit, if_neg hdot, if_pos hdots] at h ⊢
      exact ih h
    rw [visit, if_neg hdot, if_neg hdots] at h ⊢
    split at h
    · cases h
    rename_i hshort
    rw [if_neg hshort]
    split at h
    · split at h <;> cases h
    · exact ih h
    · split at h <;> cases h
      rename_i hrest
      exact ⟨_, _, if_pos hrest⟩
    · simp only [Bool.not_true, Bool.and_false, Bool.false_eq_true, ↓reduceIte] at h
      split
      · exact ⟨_, _, rfl⟩
      · exact hjump _ _ q n h

/-- A path that leads to something with the link at its end followed leads to something without. -/
theorem locate_found_false {absolute : Bool} {n : Node}
    (h : t.locate true absolute names = .ok (.found p n)) :
    ∃ q m, t.locate false absolute names = .ok (.found q m) :=
  follow_rel t t true false (R := fun jump jump' => ∀ p names q n,
      jump p names = .ok (.found q n) → ∃ q m, jump' p names = .ok (.found q m))
    (fun _ _ _ _ h => by cases h) (fun _ _ hjump _ _ _ _ h => visit_found_false hjump h)
    maxLinks _ names p n h

theorem visit_append_dot {mode : Nat}
    (hjump : ∀ p names q, jump p names = .ok (.found q (.directory mode)) →
      jump' p (names ++ ["."]) = .ok (.found q (.directory mode)))
    (h : t.visit true jump p names = .ok (.found q (.directory mode))) :
    t.visit true jump' p (names ++ ["."]) = .ok (.found q (.directory mode)) := by
  induction names generalizing p with
  | nil =>
    rw [List.nil_append, visit, if_pos rfl]
    exact h
  | cons name rest ih =>
    rw [List.cons_append]
    by_cases hdot : name = "."
    · rw [visit, if_pos hdot] at h ⊢
      exact ih h
    by_cases hdots : name = ".."
    · rw [visit, if_neg hdot, if_pos hdots] at h ⊢
      exact ih h
    rw [visit, if_neg hdot, if_neg hdots] at h ⊢
    split at h
    · cases h
    rename_i hshort
    rw [if_neg hshort]
    split at h
    · split at h <;> cases h
    · exact ih h
    · split at h <;> cases h
    · simp only [Bool.not_true, Bool.and_false, Bool.false_eq_true, ↓reduceIte] at h ⊢
      rw [← List.append_assoc]
      exact hjump _ _ q h

/-- Where a path leads to a directory, it may stay there for one more name. -/
theorem locate_append_dot {absolute : Bool} {mode : Nat}
    (h : t.locate true absolute names = .ok (.found p (.directory mode))) :
    t.locate true absolute (names ++ ["."]) = .ok (.found p (.directory mode)) :=
  follow_rel t t true true (R := fun jump jump' => ∀ p names q,
      jump p names = .ok (.found q (.directory mode)) →
        jump' p (names ++ ["."]) = .ok (.found q (.directory mode)))
    (fun _ _ _ h => by cases h) (fun _ _ hjump _ _ _ h => visit_append_dot hjump h)
    maxLinks _ names p h

end Ends

end CredentialBench.FileTree
