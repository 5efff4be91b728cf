import Mathlib.Data.List.Basic
import CredentialBench.FileTree.Path

/-!
# The texts of places

A place is written as the names that lead to it, and read back as these names
(`ofText_textOfPlace`), as long as each of them can stand in a directory (`IsName`). The system
takes the text unless it holds U+0000 or is too long, and it takes each name up to a length of its
own (`Legal`).
-/

namespace CredentialBench.Path

/-! ## Names -/

/-- A name that is not empty and that no slash divides, as the names of a path are. -/
structure Undivided (name : String) : Prop where
  ne_empty : name ≠ ""
  no_slash : '/' ∉ name.toList

/-- A name that can stand in a directory: it neither stays where it is nor goes up. -/
structure IsName (name : String) : Prop extends Undivided name where
  ne_dot : name ≠ "."
  ne_dots : name ≠ ".."

instance (name : String) : Decidable (Undivided name) :=
  decidable_of_iff (name ≠ "" ∧ '/' ∉ name.toList) ⟨fun h => ⟨h.1, h.2⟩, fun h => ⟨h.1, h.2⟩⟩

instance (name : String) : Decidable (IsName name) :=
  decidable_of_iff (Undivided name ∧ name ≠ "." ∧ name ≠ "..")
    ⟨fun h => ⟨h.1, h.2.1, h.2.2⟩, fun h => ⟨h.1, h.2, h.3⟩⟩

/-- A name with an ending that no slash divides, and that is longer than two dots. -/
theorem IsName.append {name ending : String} (h : IsName name) (hslash : '/' ∉ ending.toList)
    (hlong : 2 < ending.length) : IsName (name ++ ending) := by
  have hlength : 2 < (name ++ ending).length := by
    rw [String.length_append]
    omega
  refine ⟨⟨?_, ?_⟩, ?_, ?_⟩
  · intro he
    rw [he] at hlength
    exact absurd hlength (by decide)
  · rw [String.toList_append, List.mem_append]
    rintro (hmem | hmem)
    · exact h.no_slash hmem
    · exact hslash hmem
  · intro he
    rw [he] at hlength
    exact absurd hlength (by decide)
  · intro he
    rw [he] at hlength
    exact absurd hlength (by decide)

/-- A place whose names can all stand in directories. -/
def Proper (p : Place) : Prop := ∀ name ∈ p, IsName name

instance (p : Place) : Decidable (Proper p) := List.decidableBAll _ p

theorem proper_nil : Proper [] := fun _ h => absurd h List.not_mem_nil

theorem Proper.cons {name : String} {p : Place} (h : IsName name) (hp : Proper p) :
    Proper (name :: p) :=
  List.forall_mem_cons.2 ⟨h, hp⟩

theorem Proper.append {p q : Place} (hp : Proper p) (hq : Proper q) : Proper (p ++ q) :=
  fun name h => (List.mem_append.1 h).elim (hp name) (hq name)

theorem Proper.singleton {name : String} (h : IsName name) : Proper [name] :=
  fun _ h' => List.mem_singleton.1 h' ▸ h

theorem Proper.left {p q : Place} (h : Proper (p ++ q)) : Proper p :=
  fun name hn => h name (List.mem_append_left q hn)

theorem Proper.right {p q : Place} (h : Proper (p ++ q)) : Proper q :=
  fun name hn => h name (List.mem_append_right p hn)

theorem Proper.of_isPrefix {p q : Place} (h : Proper q) (hp : p <+: q) : Proper p :=
  fun name hn => h name (hp.subset hn)

/-! ## Texts -/

/-- The text of a place that is not the root: each name with a slash before it. -/
theorem toList_textOfPlace {p : Place} (h : p ≠ []) :
    (textOfPlace p).toList = p.flatMap fun name => '/' :: name.toList := by
  cases p with
  | nil => exact absurd rfl h
  | cons a r => simp [textOfPlace, List.flatMap_map]

theorem textOfPlace_ne_empty (p : Place) : textOfPlace p ≠ "" := by
  intro he
  have hl := congrArg String.toList he
  cases p with
  | nil => exact absurd he (by decide)
  | cons a r => simp [toList_textOfPlace (List.cons_ne_nil a r)] at hl

theorem head?_textOfPlace (p : Place) : (textOfPlace p).toList.head? = some '/' := by
  cases p with
  | nil => rfl
  | cons a r => rw [toList_textOfPlace (List.cons_ne_nil a r)]; rfl

/-- The text of a place ends in a slash only at the root. -/
theorem getLast?_textOfPlace {p : Place} (h : Proper p) (hne : p ≠ []) :
    (textOfPlace p).toList.getLast? ≠ some '/' := by
  obtain ⟨q, name, rfl⟩ := (List.eq_nil_or_concat' p).resolve_left hne
  have hname : IsName name := h name (by simp)
  have hlast : (textOfPlace (q ++ [name])).toList.getLast? = name.toList.getLast? := by
    have hn : name.toList ≠ [] := fun he => hname.ne_empty (String.toList_injective he)
    obtain ⟨c, hc⟩ := Option.ne_none_iff_exists'.1 (mt List.getLast?_eq_none_iff.1 hn)
    rw [toList_textOfPlace hne, List.flatMap_append, List.getLast?_append]
    simp [List.getLast?_cons, hc]
  rw [hlast]
  exact fun he => hname.no_slash (List.mem_of_getLast? he)

/-- Dividing the text of a place at its slashes gives its names. -/
theorem filter_split_textOfPlace {p : Place} (h : Proper p) (hne : p ≠ []) :
    (Text.split '/' (textOfPlace p).toList).filter (fun n => !n.isEmpty) = p.map String.toList := by
  have hparts : p.map String.toList ≠ [] := fun he => hne (List.map_eq_nil_iff.1 he)
  have htext : (textOfPlace p).toList = '/' :: Text.join '/' (p.map String.toList) := by
    rw [toList_textOfPlace hne, ← Text.flatMap_cons_eq_join '/' hparts, List.flatMap_map]
  have hslash : ∀ n ∈ p.map String.toList, '/' ∉ n := by
    intro n hn
    obtain ⟨name, hname, rfl⟩ := List.mem_map.1 hn
    exact (h name hname).no_slash
  rw [htext, Text.split, if_pos rfl, Text.split_join '/' hparts hslash,
    List.filter_cons_of_neg (by simp), List.filter_eq_self.2]
  intro n hn
  obtain ⟨name, hname, rfl⟩ := List.mem_map.1 hn
  have hempty : name.toList ≠ [] := fun he =>
    (h name hname).ne_empty (String.toList_injective he)
  simpa using hempty

/-- **A place is read back from its text.** -/
theorem ofText_textOfPlace {p : Place} (h : Proper p) : ofText (textOfPlace p) = ofPlace p := by
  by_cases hne : p = []
  · subst hne
    decide
  have hslash : ((textOfPlace p).toList.getLast? == some '/') = false :=
    beq_eq_false_iff_ne.2 (getLast?_textOfPlace h hne)
  rw [ofText, filter_split_textOfPlace h hne, head?_textOfPlace, hslash]
  simp [ofPlace, List.map_map]

/-- The names of a path are undivided. -/
theorem undivided_of_mem_names {s name : String} (h : name ∈ (ofText s).names) :
    Undivided name := by
  obtain ⟨part, hpart, rfl⟩ := List.mem_map.1 h
  obtain ⟨hpart, hne⟩ := List.mem_filter.1 hpart
  refine ⟨?_, ?_⟩
  · intro he
    have hnil : part = [] := by simpa using congrArg String.toList he
    simp [hnil] at hne
  · rw [String.toList_ofList]
    exact Text.notMem_of_mem_split hpart

/-! ## What the system takes -/

/-- A place that the system takes: no name is too long or holds U+0000, and the whole text is not
too long. -/
structure Legal (p : Place) : Prop where
  no_nul : ∀ name ∈ p, '\x00' ∉ name.toList
  short : ∀ name ∈ p, name.utf8ByteSize ≤ maxNameBytes
  fits : (textOfPlace p).utf8ByteSize ≤ maxBytes

instance (p : Place) : Decidable (Legal p) :=
  decidable_of_iff ((∀ name ∈ p, '\x00' ∉ name.toList) ∧
      (∀ name ∈ p, name.utf8ByteSize ≤ maxNameBytes) ∧ (textOfPlace p).utf8ByteSize ≤ maxBytes)
    ⟨fun h => ⟨h.1, h.2.1, h.2.2⟩, fun h => ⟨h.1, h.2, h.3⟩⟩

theorem ofText?_eq_ok {s : String} {path : Path} (h : ofText? s = .ok path) :
    path = ofText s := by
  rw [ofText?] at h
  split at h
  · cases h
  split at h
  · cases h
  split at h <;> cases h
  rfl

theorem nul_mem_textOfPlace_iff (p : Place) :
    '\x00' ∈ (textOfPlace p).toList ↔ ∃ name ∈ p, '\x00' ∈ name.toList := by
  cases p with
  | nil => decide
  | cons a r => simp [toList_textOfPlace (List.cons_ne_nil a r)]

/-- A place is read from its text exactly if the text holds no U+0000 and is not too long. -/
theorem ofText?_textOfPlace {p : Place} (h : Proper p) :
    ofText? (textOfPlace p) =
      if '\x00' ∈ (textOfPlace p).toList then .error .nulInPath
      else if maxBytes < (textOfPlace p).utf8ByteSize then .error .nameTooLong
      else .ok (ofPlace p) := by
  have hempty : (textOfPlace p).isEmpty = false := by
    rw [Bool.eq_false_iff, ne_eq, String.isEmpty_iff]
    exact textOfPlace_ne_empty p
  rw [ofText?, ofText_textOfPlace h, hempty]
  simp only [List.contains_iff_mem, Bool.false_eq_true, ↓reduceIte]

theorem Legal.ofText?_eq {p : Place} (h : Proper p) (hl : Legal p) :
    ofText? (textOfPlace p) = .ok (ofPlace p) := by
  rw [ofText?_textOfPlace h, if_neg, if_neg (Nat.not_lt.2 hl.fits)]
  rw [nul_mem_textOfPlace_iff]
  rintro ⟨name, hname, hnul⟩
  exact hl.no_nul name hname hnul

/-- What is read from the text of a place, if anything is, is the place. -/
theorem eq_ofPlace_of_ofText? {p : Place} (h : Proper p) {path : Path}
    (hp : ofText? (textOfPlace p) = .ok path) :
    path = ofPlace p ∧ (∀ name ∈ p, '\x00' ∉ name.toList) ∧
      (textOfPlace p).utf8ByteSize ≤ maxBytes := by
  rw [ofText?_textOfPlace h] at hp
  split at hp
  · cases hp
  rename_i hnul
  split at hp
  · cases hp
  rename_i hfits
  refine ⟨(Except.ok.inj hp).symm, fun name hname hn => hnul ?_, Nat.not_lt.1 hfits⟩
  exact (nul_mem_textOfPlace_iff p).2 ⟨name, hname, hn⟩

theorem textOfPlace_append {p q : Place} (hp : p ≠ []) (hq : q ≠ []) :
    textOfPlace (p ++ q) = textOfPlace p ++ textOfPlace q := by
  apply String.toList_injective
  rw [String.toList_append, toList_textOfPlace hp, toList_textOfPlace hq,
    toList_textOfPlace (List.append_ne_nil_of_left_ne_nil hp q), List.flatMap_append]

/-- A path that does not start at the root, appended to the text of a place, leads on from there. -/
theorem append_relative {p q : Place} (h : Proper p) (hq : q ≠ []) {more : String}
    (hmore : "/" ++ more = textOfPlace q) (hhead : more.toList.head? ≠ some '/') :
    append (textOfPlace p) more = textOfPlace (p ++ q) := by
  have hempty : (textOfPlace p).isEmpty = false := by
    rw [Bool.eq_false_iff, ne_eq, String.isEmpty_iff]
    exact textOfPlace_ne_empty p
  rw [append, beq_eq_false_iff_ne.2 hhead, hempty]
  by_cases hne : p = []
  · subst hne
    exact hmore
  · have hlast : ((textOfPlace p).toList.getLast? == some '/') = false :=
      beq_eq_false_iff_ne.2 (getLast?_textOfPlace h hne)
    rw [hlast, textOfPlace_append hne hq, ← hmore, ← String.append_assoc]
    rfl

/-- A name appended to the text of a place makes the text of the place below it. -/
theorem append_textOfPlace {p : Place} (h : Proper p) {name : String} (hn : '/' ∉ name.toList) :
    append (textOfPlace p) name = textOfPlace (p ++ [name]) := by
  refine append_relative h (List.cons_ne_nil name []) ?_ fun he => hn (List.mem_of_head? he)
  simp [textOfPlace]

end CredentialBench.Path
