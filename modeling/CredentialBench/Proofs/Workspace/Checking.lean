import Mathlib.Data.List.Nodup
import CredentialBench.Workspace.Scenario

/-!
# The first violation of a scenario

What can be wrong with a scenario, and where (`Scenario.HasAt`): each violation has a place in the
document, which is the list of the numbers that lead there, and at one place the violations have the
order in which they are looked for (`Violation.rank`). The check stops at the first problem that it
meets, and remembers the names that it has seen. Both loops are of one kind, so both are shown to
report the first violation of their elements by one induction (`reports_each`), whose invariant is
that the names seen are those of the elements before.

Main statements: `check_eq_ok_iff`, which says which scenarios are accepted, and
`check_reports_first`.
-/

namespace CredentialBench.Workspace.Scenario

/-! ## Violations and their places -/

/-- What is wrong with a name by itself. -/
inductive Misnamed (what : Subject) (name : String) : Violation → Prop
  | blank (h : Text.blank name = true) : Misnamed what name (.blank what)
  | dots (h : name = "." ∨ name = "..") : Misnamed what name (.notSegment what name)
  | divided (h : '/' ∈ name.toList ∨ '\\' ∈ name.toList) :
      Misnamed what name (.notSegment what name)

/-- What is wrong with the host of a number by itself or with those before it. -/
inductive HostFault (hosts : List Host) (i : Nat) (h : Host) : Violation → Prop
  | name {v : Violation} (hv : Misnamed .host h.id v) : HostFault hosts i h v
  | twice {k : Nat} {earlier : Host} (hk : k < i) (he : hosts[k]? = some earlier)
      (hid : earlier.id = h.id) : HostFault hosts i h (.duplicateHost h.id)

/-- What is wrong with the service of a number on a host by itself or with those before it. -/
inductive ServiceFault (host : Host) (j : Nat) (t : Service) : Violation → Prop
  | name {v : Violation} (hv : Misnamed .service t.name v) : ServiceFault host j t v
  | blankInstance (h : Text.blank t.instanceId = true) :
      ServiceFault host j t (.blankInstance t.name host.id)
  | twice {k : Nat} {earlier : Service} (hk : k < j) (he : host.services[k]? = some earlier)
      (hname : earlier.name = t.name) : ServiceFault host j t (.duplicateService t.name host.id)

/-- A scenario has a violation at a place: at its own name, at a host, or at a service of a host. -/
inductive HasAt (s : Scenario) : List Nat → Violation → Prop
  | scenario {v : Violation} (h : Misnamed .scenario s.id v) : HasAt s [] v
  | host {i : Nat} {h : Host} {v : Violation} (hi : s.hosts[i]? = some h)
      (hv : HostFault s.hosts i h v) : HasAt s [i] v
  | service {i j : Nat} {h : Host} {t : Service} {v : Violation} (hi : s.hosts[i]? = some h)
      (hj : h.services[j]? = some t) (hv : ServiceFault h j t v) : HasAt s [i, j] v

/-- The turn of a violation among those at one place: the form of the name, the instance, the
repetition of a name. -/
def Violation.rank : Violation → Nat
  | blank _ | notSegment .. => 0
  | blankInstance .. => 1
  | duplicateHost _ | duplicateService .. => 2

/-- The order of the document, in which a host comes before its services. -/
def NotAfter (p : List Nat) (v : Violation) (q : List Nat) (w : Violation) : Prop :=
  p < q ∨ p = q ∧ v.rank ≤ w.rank

theorem NotAfter.antisymm {p q : List Nat} {v w : Violation} (h : NotAfter p v q w)
    (h' : NotAfter q w p v) : p = q ∧ v.rank = w.rank := by
  rcases h with h | ⟨rfl, h⟩
  · rcases h' with h' | ⟨rfl, -⟩
    · exact absurd h' (List.lt_asymm h)
    · exact absurd h (List.lt_irrefl _)
  · rcases h' with h' | ⟨-, h'⟩
    · exact absurd h' (List.lt_irrefl _)
    · exact ⟨rfl, Nat.le_antisymm h h'⟩

/-! ## Reporting the first one -/

/-- A check reports the first of some violations, and succeeds if there is none. -/
def Reports (P : List Nat → Violation → Prop) : Except Violation Unit → Prop
  | .ok _ => ∀ p v, ¬P p v
  | .error v => ∃ p, P p v ∧ ∀ q w, P q w → NotAfter p v q w

section Reports

variable {P Q : List Nat → Violation → Prop} {a b : Except Violation Unit}

theorem Reports.eq_ok_iff (h : Reports P a) : a = .ok () ↔ ∀ p v, ¬P p v := by
  cases a with
  | ok u => exact ⟨fun _ => h, fun _ => rfl⟩
  | error v =>
    obtain ⟨p, hp, -⟩ := h
    exact ⟨nofun, fun hnone => absurd hp (hnone p v)⟩

/-- What is reported is the first, and the first is what is reported, if a place and a rank tell
violations apart. -/
theorem Reports.eq_error_iff (h : Reports P a)
    (hunique : ∀ {p v w}, P p v → P p w → v.rank = w.rank → v = w) {v : Violation} :
    a = .error v ↔ ∃ p, P p v ∧ ∀ q w, P q w → NotAfter p v q w := by
  cases a with
  | ok u =>
    refine ⟨nofun, ?_⟩
    rintro ⟨p, hp, -⟩
    exact absurd hp (h p v)
  | error w =>
    constructor
    · rintro ⟨⟩
      exact h
    · rintro ⟨p, hp, hfirst⟩
      obtain ⟨q, hq, hfirst'⟩ := h
      obtain ⟨rfl, hrank⟩ := (hfirst q w hq).antisymm (hfirst' p v hp)
      rw [hunique hp hq hrank]

theorem Reports.congr (h : Reports P a) (hPQ : ∀ p v, P p v ↔ Q p v) : Reports Q a := by
  have he : P = Q := funext fun p => funext fun v => propext (hPQ p v)
  exact he ▸ h

/-- One check and then another, if the first is for what comes first. -/
theorem Reports.seq (ha : Reports P a) (hb : Reports Q b)
    (horder : ∀ p v q w, P p v → Q q w → NotAfter p v q w) :
    Reports (fun p v => P p v ∨ Q p v) (a >>= fun _ => b) := by
  cases a with
  | error v =>
    obtain ⟨p, hp, hfirst⟩ := ha
    refine ⟨p, .inl hp, fun q w hq => ?_⟩
    rcases hq with hq | hq
    · exact hfirst q w hq
    · exact horder p v q w hp hq
  | ok u =>
    cases b with
    | error v =>
      obtain ⟨p, hp, hfirst⟩ := hb
      refine ⟨p, .inr hp, fun q w hq => ?_⟩
      rcases hq with hq | hq
      · exact absurd hq (ha q w)
      · exact hfirst q w hq
    | ok u' =>
      rintro p v (h | h)
      · exact ha p v h
      · exact hb p v h

/-- A violation that there is under a condition. -/
def refuseIf (c : Prop) [Decidable c] (v : Violation) : Except Violation Unit :=
  if c then .error v else .ok ()

theorem reports_refuseIf (c : Prop) [Decidable c] (p : List Nat) (v : Violation) :
    Reports (fun q w => c ∧ q = p ∧ w = v) (refuseIf c v) := by
  rw [refuseIf]
  split
  · refine ⟨p, ⟨‹c›, rfl, rfl⟩, ?_⟩
    rintro q w ⟨-, rfl, rfl⟩
    exact .inr ⟨rfl, Nat.le_refl _⟩
  · rintro q w ⟨hc, -⟩
    exact absurd hc ‹¬c›

/-- **A loop that remembers the names it has seen** reports the first violation of its elements, if
each of its steps does so with the names of the elements before. -/
theorem reports_each {α : Type} {name : α → String}
    {run : List String → List α → Except Violation Unit}
    {step : List String → α → Except Violation Unit} (hnil : ∀ seen, run seen [] = .ok ())
    (hcons : ∀ seen x rest,
      run seen (x :: rest) = (step seen x >>= fun _ => run (name x :: seen) rest))
    {F : Nat → α → List Nat → Violation → Prop} {xs : List α}
    (hstep : ∀ done x rest, xs = done ++ x :: rest →
      Reports (F done.length x) (step (done.map name).reverse x))
    (horder : ∀ i x p v j y q w, i < j → F i x p v → F j y q w → NotAfter p v q w) :
    Reports (fun p v => ∃ i x, xs[i]? = some x ∧ F i x p v) (run [] xs) := by
  have hsuffix (done rest : List α) (hxs : xs = done ++ rest) :
      Reports (fun p v => ∃ i x, done.length ≤ i ∧ xs[i]? = some x ∧ F i x p v)
        (run (done.map name).reverse rest) := by
    induction rest generalizing done with
    | nil =>
      rw [hnil]
      rintro p v ⟨i, x, hi, hx, -⟩
      rw [hxs, List.append_nil, List.getElem?_eq_none hi] at hx
      cases hx
    | cons x rest ih =>
      have hx : xs[done.length]? = some x := by simp [hxs]
      have hrest := ih (done ++ [x]) (by simp [hxs])
      rw [List.map_append, List.reverse_append] at hrest
      rw [hcons]
      refine ((hstep done x rest hxs).seq hrest ?_).congr fun p v => ?_
      · rintro p v q w hp ⟨j, y, hj, -, hq⟩
        rw [List.length_append, List.length_singleton] at hj
        exact horder _ x p v j y q w hj hp hq
      · constructor
        · rintro (h | ⟨i, y, hi, hy, h⟩)
          · exact ⟨_, x, Nat.le_refl _, hx, h⟩
          · rw [List.length_append] at hi
            exact ⟨i, y, by omega, hy, h⟩
        · rintro ⟨i, y, hi, hy, h⟩
          rcases Nat.eq_or_lt_of_le hi with rfl | hlt
          · rw [hx, Option.some.injEq] at hy
            exact .inl (hy ▸ h)
          · exact .inr ⟨i, y, by rwa [List.length_append], hy, h⟩
  refine (hsuffix [] xs rfl).congr fun p v => ?_
  simp

/-- The names of the elements before one are those that are met at a smaller number. -/
theorem mem_seen_iff {α : Type} {name : α → String} {xs done rest : List α} {x : α}
    (hxs : xs = done ++ x :: rest) {n : String} :
    n ∈ (done.map name).reverse ↔ ∃ k y, k < done.length ∧ xs[k]? = some y ∧ name y = n := by
  rw [List.mem_reverse, List.mem_map]
  constructor
  · rintro ⟨y, hy, rfl⟩
    obtain ⟨k, hk, rfl⟩ := List.getElem_of_mem hy
    exact ⟨k, _, hk, by rw [hxs, List.getElem?_append_left hk, List.getElem?_eq_getElem hk], rfl⟩
  · rintro ⟨k, y, hk, hy, rfl⟩
    rw [hxs, List.getElem?_append_left hk] at hy
    exact ⟨y, List.mem_of_getElem? hy, rfl⟩

end Reports

/-! ## The checks -/

theorem isSegment_eq_false_iff {name : String} : isSegment name = false ↔
    (name = "." ∨ name = "..") ∨ '/' ∈ name.toList ∨ '\\' ∈ name.toList := by
  simp only [isSegment, Bool.and_eq_false_iff, bne_eq_false_iff_eq, Bool.not_eq_false',
    List.contains_eq_mem, decide_eq_true_eq]
  tauto

/-- A blank name is a single segment, so that only one of the two can be wrong with a name. -/
theorem isSegment_of_blank {name : String} (h : Text.blank name = true) :
    isSegment name = true := by
  rw [Text.blank, List.all_eq_true] at h
  rw [← Bool.not_eq_false, isSegment_eq_false_iff]
  rintro ((rfl | rfl) | hc | hc)
  · exact absurd (h '.' (by decide)) (by decide)
  · exact absurd (h '.' (by decide)) (by decide)
  · exact absurd (h _ hc) (by decide)
  · exact absurd (h _ hc) (by decide)

theorem checkName_eq_error_iff {what : Subject} {name : String} {v : Violation} :
    checkName what name = .error v ↔ Misnamed what name v := by
  rw [checkName]
  constructor
  · intro h
    split at h
    · rename_i hblank
      exact Except.error.inj h ▸ .blank hblank
    · split at h
      · rename_i hseg
        rw [Bool.not_eq_true', isSegment_eq_false_iff] at hseg
        exact Except.error.inj h ▸ hseg.elim .dots .divided
      · cases h
  · intro h
    -- what is not a single segment is not blank, so that the first test does not catch it
    have hnot (hseg : isSegment name = false) : ¬Text.blank name = true :=
      fun hblank => Bool.false_ne_true (hseg ▸ isSegment_of_blank hblank)
    cases h with
    | blank h => rw [if_pos h]
    | dots h =>
      have hseg := isSegment_eq_false_iff.2 (.inl h)
      rw [if_neg (hnot hseg), if_pos (by rw [hseg]; rfl)]
    | divided h =>
      have hseg := isSegment_eq_false_iff.2 (.inr h)
      rw [if_neg (hnot hseg), if_pos (by rw [hseg]; rfl)]

theorem Misnamed.unique {what : Subject} {name : String} {v w : Violation}
    (hv : Misnamed what name v) (hw : Misnamed what name w) : v = w :=
  Except.error.inj ((checkName_eq_error_iff.2 hv).symm.trans (checkName_eq_error_iff.2 hw))

theorem Misnamed.rank_eq {what : Subject} {name : String} {v : Violation}
    (h : Misnamed what name v) : v.rank = 0 := by
  cases h <;> rfl

theorem reports_checkName (what : Subject) (name : String) (p : List Nat) :
    Reports (fun q v => q = p ∧ Misnamed what name v) (checkName what name) := by
  cases hc : checkName what name with
  | error v =>
    refine ⟨p, ⟨rfl, checkName_eq_error_iff.1 hc⟩, ?_⟩
    rintro q w ⟨rfl, hw⟩
    exact .inr ⟨rfl, (checkName_eq_error_iff.1 hc).rank_eq ▸ Nat.zero_le _⟩
  | ok u =>
    rintro q v ⟨-, hv⟩
    exact nomatch hc ▸ checkName_eq_error_iff.2 hv

/-- The check of one service, where services of the names `seen` came before. -/
def checkService (host : String) (seen : List String) (t : Service) : Except Violation Unit := do
  checkName .service t.name
  refuseIf (Text.blank t.instanceId = true) (.blankInstance t.name host)
  refuseIf (t.name ∈ seen) (.duplicateService t.name host)

/-- The check of one host, where hosts of the names `seen` came before. -/
def checkHost (seen : List String) (h : Host) : Except Violation Unit := do
  checkName .host h.id
  refuseIf (h.id ∈ seen) (.duplicateHost h.id)
  checkServices h.id [] h.services

theorem checkServices_cons (host : String) (seen : List String) (t : Service)
    (rest : List Service) :
    checkServices host seen (t :: rest) =
      (checkService host seen t >>= fun _ => checkServices host (t.name :: seen) rest) := by
  rw [checkServices, checkService]
  cases checkName .service t.name with
  | error v => rfl
  | ok u =>
    by_cases hblank : Text.blank t.instanceId = true <;> by_cases hseen : t.name ∈ seen <;>
      simp only [refuseIf, hblank, hseen, if_true, if_false] <;> rfl

theorem checkHosts_cons (seen : List String) (h : Host) (rest : List Host) :
    checkHosts seen (h :: rest) =
      (checkHost seen h >>= fun _ => checkHosts (h.id :: seen) rest) := by
  rw [checkHosts, checkHost]
  cases checkName .host h.id with
  | error v => rfl
  | ok u => by_cases hseen : h.id ∈ seen <;> simp only [refuseIf, hseen, if_true, if_false] <;> rfl

theorem reports_checkService {h : Host} {j : Nat} {t : Service} {seen : List String}
    (hseen : t.name ∈ seen ↔ ∃ k x, k < j ∧ h.services[k]? = some x ∧ x.name = t.name)
    (p : List Nat) :
    Reports (fun q v => q = p ∧ ServiceFault h j t v) (checkService h.id seen t) := by
  have hinstance := reports_refuseIf (Text.blank t.instanceId = true) p (.blankInstance t.name h.id)
  have htwice := reports_refuseIf (t.name ∈ seen) p (.duplicateService t.name h.id)
  have hguards := hinstance.seq htwice (by
    rintro _ _ _ _ ⟨-, rfl, rfl⟩ ⟨-, rfl, rfl⟩
    exact .inr ⟨rfl, Nat.le_succ 1⟩)
  refine (((reports_checkName .service t.name p).seq hguards ?_).congr fun q v => ?_)
  · rintro q v q' w ⟨rfl, hv⟩ hw
    rw [NotAfter, hv.rank_eq]
    rcases hw with ⟨-, rfl, -⟩ | ⟨-, rfl, -⟩ <;> exact .inr ⟨rfl, Nat.zero_le _⟩
  · constructor
    · rintro (⟨rfl, hv⟩ | ⟨hblank, rfl, rfl⟩ | ⟨hmem, rfl, rfl⟩)
      · exact ⟨rfl, .name hv⟩
      · exact ⟨rfl, .blankInstance hblank⟩
      · obtain ⟨k, x, hk, hx, hname⟩ := hseen.1 hmem
        exact ⟨rfl, .twice hk hx hname⟩
    · rintro ⟨rfl, hv⟩
      cases hv with
      | name hv => exact .inl ⟨rfl, hv⟩
      | blankInstance hblank => exact .inr (.inl ⟨hblank, rfl, rfl⟩)
      | twice hk hx hname => exact .inr (.inr ⟨hseen.2 ⟨_, _, hk, hx, hname⟩, rfl, rfl⟩)

theorem reports_checkServices (h : Host) (i : Nat) :
    Reports (fun p v => ∃ j t, h.services[j]? = some t ∧ p = [i, j] ∧ ServiceFault h j t v)
      (checkServices h.id [] h.services) := by
  refine reports_each (fun _ => rfl) (checkServices_cons h.id) ?_ ?_
  · intro done t rest hts
    exact reports_checkService (mem_seen_iff hts) _
  · rintro j t p v k x q w hlt ⟨rfl, -⟩ ⟨rfl, -⟩
    exact .inl (List.cons_lt_cons_iff.2 (.inr ⟨rfl, List.cons_lt_cons_iff.2 (.inl hlt)⟩))

/-- What is wrong with a host or with one of its services, and where. -/
def HostHasAt (hosts : List Host) (i : Nat) (h : Host) (p : List Nat) (v : Violation) : Prop :=
  (p = [i] ∧ HostFault hosts i h v) ∨
    ∃ j t, h.services[j]? = some t ∧ p = [i, j] ∧ ServiceFault h j t v

theorem HostHasAt.exists_eq_cons {hosts : List Host} {i : Nat} {h : Host} {p : List Nat}
    {v : Violation} (hv : HostHasAt hosts i h p v) : ∃ r, p = i :: r := by
  rcases hv with ⟨rfl, -⟩ | ⟨j, t, -, rfl, -⟩
  · exact ⟨[], rfl⟩
  · exact ⟨[j], rfl⟩

theorem reports_checkHost {hosts : List Host} {i : Nat} {h : Host} {seen : List String}
    (hseen : h.id ∈ seen ↔ ∃ k x, k < i ∧ hosts[k]? = some x ∧ x.id = h.id) :
    Reports (HostHasAt hosts i h) (checkHost seen h) := by
  have htwice := reports_refuseIf (h.id ∈ seen) [i] (.duplicateHost h.id)
  have hrest := htwice.seq (reports_checkServices h i) (by
    rintro _ _ _ _ ⟨-, rfl, rfl⟩ ⟨j, t, -, rfl, -⟩
    exact .inl (List.cons_lt_cons_iff.2 (.inr ⟨rfl, List.nil_lt_cons ..⟩)))
  refine (((reports_checkName .host h.id [i]).seq hrest ?_).congr fun q v => ?_)
  · rintro q v q' w ⟨rfl, hv⟩ hw
    rcases hw with ⟨-, rfl, -⟩ | ⟨j, t, -, rfl, -⟩
    · exact .inr ⟨rfl, hv.rank_eq ▸ Nat.zero_le _⟩
    · exact .inl (List.cons_lt_cons_iff.2 (.inr ⟨rfl, List.nil_lt_cons ..⟩))
  · constructor
    · rintro (⟨rfl, hv⟩ | ⟨hmem, rfl, rfl⟩ | hv)
      · exact .inl ⟨rfl, .name hv⟩
      · obtain ⟨k, x, hk, hx, hid⟩ := hseen.1 hmem
        exact .inl ⟨rfl, .twice hk hx hid⟩
      · exact .inr hv
    · rintro (⟨rfl, hv⟩ | hv)
      · cases hv with
        | name hv => exact .inl ⟨rfl, hv⟩
        | twice hk hx hid => exact .inr (.inl ⟨hseen.2 ⟨_, _, hk, hx, hid⟩, rfl, rfl⟩)
      · exact .inr (.inr hv)

theorem reports_checkHosts (hosts : List Host) :
    Reports (fun p v => ∃ i h, hosts[i]? = some h ∧ HostHasAt hosts i h p v)
      (checkHosts [] hosts) := by
  refine reports_each (fun _ => rfl) checkHosts_cons ?_ ?_
  · intro done h rest hhs
    exact reports_checkHost (mem_seen_iff hhs)
  · intro i h p v k x q w hlt hv hw
    obtain ⟨r, rfl⟩ := hv.exists_eq_cons
    obtain ⟨r', rfl⟩ := hw.exists_eq_cons
    exact .inl (List.cons_lt_cons_iff.2 (.inl hlt))

/-- **The check of a scenario** reports the first of its violations. -/
theorem reports_check (s : Scenario) : Reports s.HasAt s.check := by
  refine (((reports_checkName .scenario s.id []).seq (reports_checkHosts s.hosts) ?_).congr
    fun p v => ?_)
  · rintro p v q w ⟨rfl, -⟩ ⟨i, h, -, hw⟩
    obtain ⟨r, rfl⟩ := hw.exists_eq_cons
    exact .inl (List.nil_lt_cons ..)
  · constructor
    · rintro (⟨rfl, hv⟩ | ⟨i, h, hi, ⟨rfl, hv⟩ | ⟨j, t, hj, rfl, hv⟩⟩)
      · exact .scenario hv
      · exact .host hi hv
      · exact .service hi hj hv
    · intro hv
      cases hv with
      | scenario hv => exact .inl ⟨rfl, hv⟩
      | host hi hv => exact .inr ⟨_, _, hi, .inl ⟨rfl, hv⟩⟩
      | service hi hj hv => exact .inr ⟨_, _, hi, .inr ⟨_, _, hj, rfl, hv⟩⟩

/-! ## What is accepted -/

/-- A name that can stand in a directory: it is not blank, does not stay or go up, and no slash of
either kind divides it. -/
structure Usable (name : String) : Prop where
  notBlank : Text.blank name = false
  notDots : name ≠ "." ∧ name ≠ ".."
  undivided : '/' ∉ name.toList ∧ '\\' ∉ name.toList

/-- A scenario whose names are usable and tell hosts, and the services of a host, apart. -/
structure Accepted (s : Scenario) : Prop where
  id : Usable s.id
  hosts : ∀ h ∈ s.hosts, Usable h.id
  hostsApart : (s.hosts.map (·.id)).Nodup
  services : ∀ h ∈ s.hosts, ∀ t ∈ h.services, Usable t.name
  instances : ∀ h ∈ s.hosts, ∀ t ∈ h.services, Text.blank t.instanceId = false
  servicesApart : ∀ h ∈ s.hosts, (h.services.map (·.name)).Nodup

theorem usable_iff {what : Subject} {name : String} :
    Usable name ↔ ∀ v, ¬Misnamed what name v := by
  constructor
  · rintro ⟨hblank, hdots, hdivided⟩ v hv
    cases hv with
    | blank h => exact Bool.false_ne_true (hblank ▸ h)
    | dots h => exact h.elim hdots.1 hdots.2
    | divided h => exact h.elim hdivided.1 hdivided.2
  · intro h
    refine ⟨Bool.eq_false_iff.2 fun hb => h _ (.blank hb), ?_, ?_⟩
    · exact ⟨fun hd => h _ (.dots (.inl hd)), fun hd => h _ (.dots (.inr hd))⟩
    · exact ⟨fun hd => h _ (.divided (.inl hd)), fun hd => h _ (.divided (.inr hd))⟩

/-- Names are distinct when none of them is met again. -/
theorem nodup_map_iff {α : Type} {name : α → String} {xs : List α} :
    (xs.map name).Nodup ↔
      ∀ (k j : Nat) (x y : α), k < j → xs[k]? = some x → xs[j]? = some y → name x ≠ name y := by
  rw [List.nodup_iff_getElem?_ne_getElem?]
  constructor
  · intro h k j x y hkj hx hy hname
    have hj : j < (xs.map name).length := by
      simpa using (List.getElem?_eq_some_iff.1 hy).1
    exact h k j hkj hj (by simp [hx, hy, hname])
  · intro h k j hkj hj hname
    rw [List.length_map] at hj
    have hk : k < xs.length := Nat.lt_trans hkj hj
    refine h k j _ _ hkj (List.getElem?_eq_getElem hk) (List.getElem?_eq_getElem hj) ?_
    simpa [hk, hj] using hname

theorem accepted_iff {s : Scenario} : s.Accepted ↔ ∀ p v, ¬s.HasAt p v := by
  constructor
  · rintro ⟨hid, hhosts, happart, hservices, hinstances, hsapart⟩ p v hv
    cases hv with
    | scenario h => exact usable_iff.1 hid v h
    | host hi h =>
      cases h with
      | name h => exact usable_iff.1 (hhosts _ (List.mem_of_getElem? hi)) v h
      | twice hk he h => exact nodup_map_iff.1 happart _ _ _ _ hk he hi h
    | service hi hj h =>
      have hh := List.mem_of_getElem? hi
      have ht := List.mem_of_getElem? hj
      cases h with
      | name h => exact usable_iff.1 (hservices _ hh _ ht) v h
      | blankInstance h => exact Bool.false_ne_true (hinstances _ hh _ ht ▸ h)
      | twice hk he h => exact nodup_map_iff.1 (hsapart _ hh) _ _ _ _ hk he hj h
  · intro hnone
    constructor
    case id => exact usable_iff.2 fun v h => hnone _ v (.scenario h)
    case hosts =>
      intro h hh
      obtain ⟨i, hi⟩ := List.mem_iff_getElem?.1 hh
      exact usable_iff.2 fun v h => hnone _ v (.host hi (.name h))
    case hostsApart =>
      exact nodup_map_iff.2 fun k j x y hkj hx hy hid => hnone _ _ (.host hy (.twice hkj hx hid))
    case services =>
      intro h hh t ht
      obtain ⟨i, hi⟩ := List.mem_iff_getElem?.1 hh
      obtain ⟨j, hj⟩ := List.mem_iff_getElem?.1 ht
      exact usable_iff.2 fun v h => hnone _ v (.service hi hj (.name h))
    case instances =>
      intro h hh t ht
      obtain ⟨i, hi⟩ := List.mem_iff_getElem?.1 hh
      obtain ⟨j, hj⟩ := List.mem_iff_getElem?.1 ht
      exact Bool.eq_false_iff.2 fun hblank => hnone _ _ (.service hi hj (.blankInstance hblank))
    case servicesApart =>
      intro h hh
      obtain ⟨i, hi⟩ := List.mem_iff_getElem?.1 hh
      exact nodup_map_iff.2 fun k j x y hkj hx hy hname =>
        hnone _ _ (.service hi hy (.twice hkj hx hname))

/-- **The scenarios that are accepted.** -/
theorem check_eq_ok_iff {s : Scenario} : s.check = .ok () ↔ s.Accepted := by
  rw [accepted_iff]
  exact (reports_check s).eq_ok_iff

/-! ## The first violation -/

theorem HostFault.unique {hosts : List Host} {i : Nat} {h : Host} {v w : Violation}
    (hv : HostFault hosts i h v) (hw : HostFault hosts i h w) (hrank : v.rank = w.rank) :
    v = w := by
  cases hv with
  | name hv =>
    cases hw with
    | name hw => exact hv.unique hw
    | twice => exact nomatch hv.rank_eq.symm.trans hrank
  | twice =>
    cases hw with
    | name hw => exact nomatch hrank.trans hw.rank_eq
    | twice => rfl

theorem ServiceFault.unique {h : Host} {j : Nat} {t : Service} {v w : Violation}
    (hv : ServiceFault h j t v) (hw : ServiceFault h j t w) (hrank : v.rank = w.rank) :
    v = w := by
  cases hv with
  | name hv =>
    cases hw with
    | name hw => exact hv.unique hw
    | blankInstance => exact nomatch hv.rank_eq.symm.trans hrank
    | twice => exact nomatch hv.rank_eq.symm.trans hrank
  | blankInstance =>
    cases hw with
    | name hw => exact nomatch hrank.trans hw.rank_eq
    | blankInstance => rfl
    | twice => exact nomatch hrank
  | twice =>
    cases hw with
    | name hw => exact nomatch hrank.trans hw.rank_eq
    | blankInstance => exact nomatch hrank
    | twice => rfl

/-- At one place there is one violation of each rank. -/
theorem HasAt.unique {s : Scenario} {p : List Nat} {v w : Violation} (hv : s.HasAt p v)
    (hw : s.HasAt p w) (hrank : v.rank = w.rank) : v = w := by
  cases hv with
  | scenario hv =>
    cases hw with
    | scenario hw => exact hv.unique hw
  | host hi hv =>
    cases hw with
    | host hi' hw =>
      cases Option.some.inj (hi.symm.trans hi')
      exact hv.unique hw hrank
  | service hi hj hv =>
    cases hw with
    | service hi' hj' hw =>
      cases Option.some.inj (hi.symm.trans hi')
      cases Option.some.inj (hj.symm.trans hj')
      exact hv.unique hw hrank

/-- **The check of a scenario accepts exactly the usable and unambiguous ones**, and otherwise
reports the violation that is first in the order of the document. -/
theorem check_reports_first (s : Scenario) :
    (s.check = .ok () ↔ s.Accepted) ∧
      ∀ v, s.check = .error v ↔ ∃ p, s.HasAt p v ∧ ∀ q w, s.HasAt q w → NotAfter p v q w :=
  ⟨check_eq_ok_iff, fun _ => (reports_check s).eq_error_iff HasAt.unique⟩

-- the host that is there twice comes before what is wrong with its service
example : check ⟨"s", [⟨"a", []⟩, ⟨"b", [⟨"x", "", "1", none⟩]⟩, ⟨"a", [⟨"..", "", "", none⟩]⟩]⟩ =
    .error (.duplicateHost "a") := by
  decide

end CredentialBench.Workspace.Scenario
