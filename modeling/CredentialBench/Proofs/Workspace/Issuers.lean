import CredentialBench.Proofs.Workspace.Progress

/-!
# Issuers do what they are for

The issuer that makes certificates itself writes its two files for their owner alone, touches
nothing else, and answers where they are (`Issuer.honest_internal`). One that runs a program takes
the permissions of both files back afterwards, and that fails where one is missing
(`Issuer.restrictBoth_spec`); so it does the same, whatever the program writes and however it ends,
if it touches no other files (`Issuer.honest_openssl`).
-/

namespace CredentialBench.Workspace

open FileTree CredentialBench.Path

variable {t t' : FileTree} {i : Identity} {certs : Place}

/-- An issuer that does what issuers are for: it touches no other files than its two, and where it
says that it has written them they are for their owner alone, and where it answers. -/
structure Issuer.Honest (issuer : Issuer) : Prop where
  confined : issuer.Confined
  restrictive : issuer.Restrictive
  answers : issuer.Answers

/-! ## Requests -/

/-- The paths that an issuer writes to lead to its two places. -/
theorem Request.paths (h : Request t i certs) :
    i.certPath (textOfPlace certs) = textOfPlace (i.certPlace certs) ∧
      i.keyPath (textOfPlace certs) = textOfPlace (i.keyPlace certs) := by
  have hcert : Proper (i.certPlace certs) := h.proper _ List.mem_cons_self
  have hkey : Proper (i.keyPlace certs) :=
    h.proper _ (List.mem_cons_of_mem _ List.mem_cons_self)
  exact ⟨append_textOfPlace hcert.left (hcert.right _ List.mem_cons_self).no_slash,
    append_textOfPlace hkey.left (hkey.right _ List.mem_cons_self).no_slash⟩

theorem Request.keeps (h : Request t i certs) (hk : t.Keeps t') : Request t' i certs :=
  ⟨hk.grounded h.grounded, h.proper, fun p hp => hk.straight (h.straight p hp)⟩

theorem Identity.ne_nil_of_mem_outputs {p : Place} (hp : p ∈ i.outputs certs) : p ≠ [] := by
  rcases List.mem_cons.1 hp with rfl | hp
  · exact List.append_ne_nil_of_right_ne_nil _ (List.cons_ne_nil _ _)
  · obtain rfl := List.mem_singleton.1 hp
    exact List.append_ne_nil_of_right_ne_nil _ (List.cons_ne_nil _ _)

theorem Request.outputs (i : Identity) (certs : Place) :
    i.certPlace certs ∈ i.outputs certs ∧ i.keyPlace certs ∈ i.outputs certs :=
  ⟨List.mem_cons_self, List.mem_cons_of_mem _ List.mem_cons_self⟩

theorem Issuer.certPlace_ne_keyPlace (i : Identity) (certs : Place) :
    i.certPlace certs ≠ i.keyPlace certs := by
  simp [Identity.certPlace, Identity.keyPlace]

/-- A private file at one of the outputs. -/
theorem Request.writePrivate (h : Request t i certs) {p : Place} (hp : p ∈ i.outputs certs)
    (content : Content) :
    (t.Open p ∧ ∃ t', t.writePrivate (textOfPlace p) content = (.ok (), t') ∧
      t.Updated p (.file 0o600 content) t') ∨
    (¬ t.Open p ∧ ∃ e, t.writePrivate (textOfPlace p) content = (.error e, t)) :=
  writeWithMode_place (h.proper p hp) (Identity.ne_nil_of_mem_outputs hp) (h.straight p hp)
    privateMode content

theorem outputMarks_functional (outputs : List Place) : (outputMarks outputs).Functional := by
  rintro q m m' ⟨-, rfl⟩ ⟨-, rfl⟩
  rfl

/-- An output that becomes something else of its kind. -/
theorem Touched.of_output {outputs : List Place} {p : Place} {n : Node} (hp : p ∈ outputs)
    (hup : t.Updated p n t') (hn : Mark.issued.Allows (t.node? p) (some n)) :
    Touched (outputMarks outputs) t t' := by
  refine ⟨hup.process, fun q => ?_⟩
  by_cases hq : q = p
  · subst hq
    rw [hup.same]
    exact .inr ⟨.issued, ⟨hp, rfl⟩, hn⟩
  · exact .inl (hup.other hq)

/-- A file of an issuer that is written anew. -/
theorem Touched.of_written {outputs : List Place} {p : Place} {mode : Nat} {content : Content}
    (hp : p ∈ outputs) (hf : TakesFile (t.node? p)) (hup : t.Updated p (.file mode content) t') :
    Touched (outputMarks outputs) t t' :=
  .of_output hp hup (.inl ⟨hf, .file mode content⟩)

/-! ## Taking permissions back -/

/-- Where permissions are taken back there is a file or a directory. -/
theorem restrict_eq_ok {p : Place} (hp : Proper p) (hne : p ≠ []) (hs : t.Straight p)
    (h : t.restrict (textOfPlace p) = (.ok (), t')) :
    (∃ mode content, t.node? p = some (.file mode content) ∧
      t.Updated p (.file 0o600 content) t') ∨
    (IsDirectory (t.node? p) ∧ t.Updated p (.directory 0o600) t') := by
  rw [restrict, setMode] at h
  rcases hstat : t.stat (textOfPlace p) with e | ⟨q, n⟩ <;> rw [hstat] at h
  · cases h
  obtain ⟨-, hspot⟩ := stat_eq_ok_iff.1 hstat
  obtain ⟨d, name, rfl⟩ := (List.eq_nil_or_concat' p).resolve_left hne
  rw [ofText_textOfPlace hp] at hspot
  obtain ⟨-, -, hat⟩ := (locate_place_eq_ok_iff hp hs).1 hspot
  rw [spotAt] at hat
  split at hat <;> cases hat
  rename_i hnode
  cases n with
  | file mode content =>
    cases h
    exact .inl ⟨mode, content, hnode, .of_set t hne _⟩
  | directory mode =>
    cases h
    exact .inr ⟨⟨mode, hnode⟩, .of_set t hne _⟩
  | link target => exact absurd hnode (hs _ List.prefix_rfl target)

theorem restrict_eq_error {path : String} {e : OsError} (h : t.restrict path = (.error e, t')) :
    t' = t := by
  rw [restrict] at h
  cases hmode : t.setMode path privateMode <;> rw [hmode] at h <;> cases h
  rfl

/-- The permissions of one of the outputs have been taken back. -/
theorem Request.restrict_eq_ok (h : Request t i certs) {p : Place} (hp : p ∈ i.outputs certs)
    (hok : t.restrict (textOfPlace p) = (.ok (), t')) :
    t.node? p ≠ none ∧ Restricted (t'.node? p) ∧ Touched (outputMarks (i.outputs certs)) t t' ∧
      ∀ q, q ≠ p → t'.node? q = t.node? q := by
  rcases Workspace.restrict_eq_ok (h.proper p hp) (Identity.ne_nil_of_mem_outputs hp)
    (h.straight p hp) hok with ⟨mode, content, hnode, hup⟩ | ⟨hdir, hup⟩
  · have hfile : TakesFile (t.node? p) := hnode ▸ .file mode content
    exact ⟨by simp [hnode], hup.same ▸ .file content, .of_written hp hfile hup, fun q => hup.other⟩
  · refine ⟨?_, hup.same ▸ .directory, .of_output hp hup (.inr ⟨hdir, isDirectory_some _⟩),
      fun q => hup.other⟩
    intro hnone
    exact not_isDirectory_none (hnone ▸ hdir)

namespace Issuer

/-! ## Without another program -/

/-- Two private files, the first where there was nothing or a file, are both restricted. -/
theorem restricted_of_both {t'' : FileTree} {cert key : Place} {c c' : Content}
    (hup : t.Updated key (.file 0o600 c) t') (hup' : t'.Updated cert (.file 0o600 c') t'') :
    ∀ q ∈ [cert, key], Restricted (t''.node? q) := by
  intro q hq
  by_cases hcert : q = cert
  · exact hcert ▸ hup'.same ▸ .file c'
  · obtain rfl := (List.mem_pair.1 hq).resolve_left hcert
    rw [hup'.other hcert, hup.same]
    exact .file c

/-- What the issuer comes to that makes certificates itself. -/
theorem internal_spec (today : Nat) (days : UInt32) (hreq : Request t i certs) :
    Touched (outputMarks (i.outputs certs)) t (internal today days i (textOfPlace certs) t).2 ∧
      ∀ answer t', internal today days i (textOfPlace certs) t = (.ok answer, t') →
        answer = i.issued (textOfPlace certs) ∧ ∀ q ∈ i.outputs certs, Restricted (t'.node? q) := by
  obtain ⟨hcert, hkey⟩ := Request.outputs i certs
  obtain ⟨hcertPath, hkeyPath⟩ := hreq.paths
  rw [internal]
  dsimp only
  split
  · exact ⟨.refl _ t, fun _ _ h => by cases h⟩
  split
  · exact ⟨.refl _ t, fun _ _ h => by cases h⟩
  rw [hcertPath, hkeyPath]
  rcases hreq.writePrivate hkey .privateKey with ⟨ho, t₁, hw, hup⟩ | ⟨-, e, hw⟩ <;> rw [hw]
  · have hfirst : Touched (outputMarks (i.outputs certs)) t t₁ := .of_written hkey ho.node hup
    rcases (hreq.keeps hfirst.keeps).writePrivate hcert
      (.certificate (.ofName i.dnsName days.toNat)) with ⟨ho₁, t₂, hw₁, hup₁⟩ | ⟨-, e, hw₁⟩ <;>
      simp only [both, hw₁]
    · refine ⟨hfirst.trans (outputMarks_functional _) (.of_written hcert ho₁.node hup₁), ?_⟩
      rintro answer t' ⟨⟩
      exact ⟨rfl, restricted_of_both hup hup₁⟩
    · exact ⟨hfirst, fun _ _ h => by cases h⟩
  · exact ⟨.refl _ t, fun _ _ h => by cases h⟩

/-- **The issuer that makes certificates itself is honest.** -/
theorem honest_internal (today : Nat) (days : UInt32) : (internal today days).Honest where
  confined _ _ _ hreq := (internal_spec today days hreq).1
  restrictive _ _ _ answer t' hreq hok := ((internal_spec today days hreq).2 answer t' hok).2
  answers _ _ _ answer t' hreq hok := ((internal_spec today days hreq).2 answer t' hok).1

/-- Where its two files can be written, the issuer that makes certificates itself delivers, for a
name of ASCII characters and a day that a certificate can name. -/
theorem delivers_internal {today : Nat} {days : UInt32} {i : Identity}
    (hname : (i.dnsName.toList.any fun c => 0x7F < c.toNat) = false)
    (hdays : today + days.toNat ≤ lastDay) : (internal today days).Delivers i := by
  intro t certs hreq hopen
  obtain ⟨hcert, hkey⟩ := Request.outputs i certs
  obtain ⟨hcertPath, hkeyPath⟩ := hreq.paths
  rw [internal]
  simp only [hname, Bool.false_eq_true, ↓reduceIte, Nat.not_lt.2 hdays]
  rw [hcertPath, hkeyPath]
  rcases hreq.writePrivate hkey .privateKey with ⟨ho, t₁, hw, hup⟩ | ⟨hno, -⟩
  · have hk : t.Keeps t₁ := hup.keeps_file ho.node
    -- The key is written first, and the certificate is another file.
    have hsame := hup.other (certPlace_ne_keyPlace i certs)
    have hopen₁ : t₁.Open (i.certPlace certs) :=
      ⟨⟨(hopen _ hcert).legal, hk.grounded (hopen _ hcert).above, hsame ▸ (hopen _ hcert).node⟩,
        fun hlocked => (hopen _ hcert).unlocked (hlocked.congr hk.user.symm hsame.symm)⟩
    rcases (hreq.keeps hk).writePrivate hcert (.certificate (.ofName i.dnsName days.toNat)) with
      ⟨-, t₂, hw₁, -⟩ | ⟨hno, -⟩
    · exact ⟨_, by simp only [both, hw, hw₁]; rfl⟩
    · exact absurd hopen₁ hno
  · exact absurd (hopen _ hkey) hno

/-! ## With a program -/

variable {program : Program} {days : UInt32} {finish : Finish} {machine : Machine}

/-- A program that touches no other files than those that it is to write: it may make, overwrite or
delete these two, with any permissions, and end in any way. -/
def Program.Confined (program : Program) (days : UInt32) : Prop :=
  ∀ t i certs, Request t i certs → Touched (outputMarks (i.outputs certs)) t
    (program (opensslArguments days i (textOfPlace certs)) t).tree

/-- Taking the permissions of both outputs back, those of the certificate first. -/
def restrictBoth (i : Identity) (certs : Place) (t : FileTree) :
    Except IssueFailure Issued × FileTree :=
  both (textOfPlace (i.certPlace certs)) (t.restrict (textOfPlace (i.certPlace certs)))
    (textOfPlace (i.keyPlace certs)) (fun t => t.restrict (textOfPlace (i.keyPlace certs)))
    (i.issued (textOfPlace certs))

/-- The issuer takes the permissions back after a program that ends with success. -/
theorem ofProgram_eq (hreq : Request t i certs)
    (hfinish : program (opensslArguments days i (textOfPlace certs)) t = finish) :
    ofProgram program days i (textOfPlace certs) t =
      if finish.status ≠ .exited 0 then
        (.error (.error (.opensslFailed finish.status.text (outputText finish.output))),
          finish.tree)
      else restrictBoth i certs finish.tree := by
  rw [ofProgram, hfinish, hreq.paths.1, hreq.paths.2]
  rfl

/-- Both permissions can be taken back only where there is something at both outputs. -/
theorem restrictBoth_spec (h : Request t i certs) :
    Touched (outputMarks (i.outputs certs)) t (restrictBoth i certs t).2 ∧
      ∀ answer t', restrictBoth i certs t = (.ok answer, t') →
        answer = i.issued (textOfPlace certs) ∧
          ∀ q ∈ i.outputs certs, t.node? q ≠ none ∧ Restricted (t'.node? q) := by
  obtain ⟨hcert, hkey⟩ := Request.outputs i certs
  rw [restrictBoth]
  rcases hr : t.restrict (textOfPlace (i.certPlace certs)) with ⟨e | u, t₁⟩
  · obtain rfl := restrict_eq_error hr
    exact ⟨.refl _ _, fun _ _ hok => by cases hok⟩
  obtain ⟨hthere, hrestricted, htouched, hother⟩ := h.restrict_eq_ok hcert hr
  rcases hr₁ : t₁.restrict (textOfPlace (i.keyPlace certs)) with ⟨e | u, t₂⟩ <;>
    simp only [both, hr₁]
  · obtain rfl := restrict_eq_error hr₁
    exact ⟨htouched, fun _ _ hok => by cases hok⟩
  obtain ⟨hthere₁, hrestricted₁, htouched₁, hother₁⟩ :=
    (h.keeps htouched.keeps).restrict_eq_ok hkey hr₁
  refine ⟨htouched.trans (outputMarks_functional _) htouched₁, ?_⟩
  rintro answer t' ⟨⟩
  refine ⟨rfl, fun q hq => ?_⟩
  rcases List.mem_pair.1 hq with rfl | rfl
  · exact ⟨hthere, (hother₁ _ (certPlace_ne_keyPlace i certs)).symm ▸ hrestricted⟩
  · exact ⟨hother _ (certPlace_ne_keyPlace i certs).symm ▸ hthere₁, hrestricted₁⟩

/-- The issuer that runs a program touches no more than the program does. -/
theorem confined_ofProgram (h : program.Confined days) : (ofProgram program days).Confined := by
  intro t i certs hreq
  have htouched := h t i certs hreq
  rw [ofProgram_eq hreq rfl]
  split
  · exact htouched
  · exact htouched.trans (outputMarks_functional _)
      (restrictBoth_spec (hreq.keeps htouched.keeps)).1

/-- The issuer that runs a program succeeds only if both files are there when the program has ended
with success, and then they are restricted. -/
theorem ofProgram_eq_ok (h : program.Confined days) (hreq : Request t i certs)
    (hfinish : program (opensslArguments days i (textOfPlace certs)) t = finish) {answer : Issued}
    (hok : ofProgram program days i (textOfPlace certs) t = (.ok answer, t')) :
    finish.status = .exited 0 ∧ answer = i.issued (textOfPlace certs) ∧
      ∀ q ∈ i.outputs certs, finish.tree.node? q ≠ none ∧ Restricted (t'.node? q) := by
  have htouched := h t i certs hreq
  rw [hfinish] at htouched
  rw [ofProgram_eq hreq hfinish] at hok
  split at hok
  · cases hok
  rename_i hstatus
  exact ⟨not_not.1 hstatus, (restrictBoth_spec (hreq.keeps htouched.keeps)).2 answer t' hok⟩

/-! ## Machines -/

/-- The program in every file that a machine starts touches no other files than those it is to
write. -/
def Machine.Confined (machine : Machine) (days : UInt32) : Prop :=
  ∀ path t program, machine.start path t = .ok program → program.Confined days

/-- A machine finds a program for an identity, takes its words, and starts it. -/
def Machine.Starts (machine : Machine) (binary : Option String) (days : UInt32) (i : Identity)
    (certs : Place) (t : FileTree) (program : Program) : Prop :=
  ∃ path, (binary <|> machine.openssl? t) = some path ∧
    (∀ w ∈ path :: opensslArguments days i (textOfPlace certs), '\x00' ∉ w.toList) ∧
    machine.start path t = .ok program

theorem Machine.Starts.confined {binary : Option String}
    (h : machine.Starts binary days i certs t program) (hmachine : machine.Confined days) :
    program.Confined days := by
  obtain ⟨path, -, -, hstart⟩ := h
  exact hmachine path t program hstart

theorem Machine.Starts.openssl_eq {binary : Option String}
    (h : machine.Starts binary days i certs t program) :
    openssl machine binary days i (textOfPlace certs) t =
      ofProgram program days i (textOfPlace certs) t := by
  obtain ⟨path, hpath, hwords, hstart⟩ := h
  have hnul : ((path :: opensslArguments days i (textOfPlace certs)).any
      fun w => w.toList.contains '\x00') = false := by
    simpa using hwords
  rw [openssl, hpath]
  change ite _ _ _ = _
  rw [hnul, if_neg Bool.false_ne_true, hstart]

/-- Where no program is started nothing is changed. -/
theorem Machine.starts_or (machine : Machine) (binary : Option String) (days : UInt32)
    (i : Identity) (certs : Place) (t : FileTree) :
    (∃ program, machine.Starts binary days i certs t program) ∨
      ∃ cause, openssl machine binary days i (textOfPlace certs) t =
        (.error (.error cause), t) := by
  rw [openssl]
  rcases hpath : (binary <|> machine.openssl? t) with _ | path
  · exact .inr ⟨_, rfl⟩
  change _ ∨ ∃ cause, ite _ _ _ = _
  split
  · exact .inr ⟨_, rfl⟩
  rename_i hnul
  rcases hstart : machine.start path t with e | program
  · exact .inr ⟨_, rfl⟩
  · exact .inl ⟨program, path, hpath, by simpa using hnul, hstart⟩

/-- **The issuer that runs `openssl` is honest**, whatever the program in a file writes to its two
outputs and however it ends. -/
theorem honest_openssl (binary : Option String) (h : machine.Confined days) :
    (openssl machine binary days).Honest where
  confined t i certs hreq := by
    rcases machine.starts_or binary days i certs t with ⟨program, hstarts⟩ | ⟨cause, hr⟩
    · rw [hstarts.openssl_eq]
      exact confined_ofProgram (hstarts.confined h) t i certs hreq
    · rw [hr]
      exact .refl _ t
  restrictive t i certs answer t' hreq hok := by
    rcases machine.starts_or binary days i certs t with ⟨program, hstarts⟩ | ⟨cause, hr⟩
    · rw [hstarts.openssl_eq] at hok
      exact fun q hq => ((ofProgram_eq_ok (hstarts.confined h) hreq rfl hok).2.2 q hq).2
    · rw [hr] at hok
      cases hok
  answers t i certs answer t' hreq hok := by
    rcases machine.starts_or binary days i certs t with ⟨program, hstarts⟩ | ⟨cause, hr⟩
    · rw [hstarts.openssl_eq] at hok
      exact (ofProgram_eq_ok (hstarts.confined h) hreq rfl hok).2.1
    · rw [hr] at hok
      cases hok

end Issuer

/-- **The issuers of settings are honest**, if programs in files touch no other files than those
they are to write. -/
theorem Settings.honest_issuer (settings : Settings) {machine : Issuer.Machine} (today : Nat)
    (h : machine.Confined settings.validityDays) : (settings.issuer machine today).Honest := by
  rw [Settings.issuer]
  split
  · exact Issuer.honest_openssl none h
  · exact Issuer.honest_internal today settings.validityDays

end CredentialBench.Workspace
