/-!
# Dividing text

A text is divided at every occurrence of one character; joining the parts with that character gives
the text back (`join_split`), and dividing a joined list of parts that do not hold the character
gives the parts back (`split_join`).
-/

namespace CredentialBench.Text

/-- The parts of a text between the occurrences of a character. -/
def split (sep : Char) : List Char → List (List Char)
  | [] => [[]]
  | c :: rest =>
    if c = sep then [] :: split sep rest
    else
      match split sep rest with
      | [] => [[c]]
      | part :: more => (c :: part) :: more

/-- The parts with the character between each two. -/
def join (sep : Char) : List (List Char) → List Char
  | [] => []
  | [part] => part
  | part :: more => part ++ sep :: join sep more

theorem split_ne_nil (sep : Char) (cs : List Char) : split sep cs ≠ [] := by
  cases cs with
  | nil => simp [split]
  | cons c rest =>
    simp only [split]
    split
    · simp
    · split <;> simp

theorem join_cons_of_ne_nil (sep : Char) (part : List Char) {more : List (List Char)}
    (h : more ≠ []) : join sep (part :: more) = part ++ sep :: join sep more := by
  cases more with
  | nil => exact absurd rfl h
  | cons _ _ => rfl

theorem mem_join {sep c : Char} {parts : List (List Char)} (h : c ∈ join sep parts) :
    c = sep ∨ ∃ part ∈ parts, c ∈ part := by
  induction parts with
  | nil => exact absurd h List.not_mem_nil
  | cons part more ih =>
    cases more with
    | nil => exact .inr ⟨part, List.mem_cons_self, h⟩
    | cons p ps =>
      rcases List.mem_append.1 h with h | h
      · exact .inr ⟨part, List.mem_cons_self, h⟩
      rcases List.mem_cons.1 h with h | h
      · exact .inl h
      rcases ih h with h | ⟨q, hq, hc⟩
      · exact .inl h
      · exact .inr ⟨q, List.mem_cons_of_mem part hq, hc⟩

/-- Each part with the character before it, or the character between each two and one more before
them all. -/
theorem flatMap_cons_eq_join (sep : Char) {parts : List (List Char)} (h : parts ≠ []) :
    (parts.flatMap fun part => sep :: part) = sep :: join sep parts := by
  induction parts with
  | nil => exact absurd rfl h
  | cons part more ih =>
    cases more with
    | nil => simp [join]
    | cons p ps =>
      rw [List.flatMap_cons, ih (List.cons_ne_nil p ps),
        join_cons_of_ne_nil sep part (List.cons_ne_nil p ps), List.cons_append]

theorem join_split (sep : Char) (cs : List Char) : join sep (split sep cs) = cs := by
  induction cs with
  | nil => rfl
  | cons c rest ih =>
    simp only [split]
    split
    · rename_i h
      rw [join_cons_of_ne_nil sep [] (split_ne_nil sep rest), ih, h]
      rfl
    · cases hs : split sep rest with
      | nil => exact absurd hs (split_ne_nil sep rest)
      | cons part more =>
        rw [hs] at ih
        cases more with
        | nil => simpa [join] using ih
        | cons p ps => simpa [join] using ih

theorem notMem_of_mem_split {sep : Char} {cs part : List Char} (h : part ∈ split sep cs) :
    sep ∉ part := by
  induction cs generalizing part with
  | nil => simp_all [split]
  | cons c rest ih =>
    simp only [split] at h
    split at h
    · rcases List.mem_cons.1 h with rfl | h
      · exact List.not_mem_nil
      · exact ih h
    · rename_i hc
      cases hs : split sep rest with
      | nil => exact absurd hs (split_ne_nil sep rest)
      | cons first more =>
        rw [hs] at h ih
        rcases List.mem_cons.1 h with rfl | h
        · intro hmem
          rcases List.mem_cons.1 hmem with rfl | hmem
          · exact hc rfl
          · exact ih List.mem_cons_self hmem
        · exact ih (List.mem_cons_of_mem first h)

/-- A part is what is left of the text when everything else is taken away. -/
theorem sublist_of_mem_split {sep : Char} {cs part : List Char} (h : part ∈ split sep cs) :
    part.Sublist cs := by
  have hjoin : ∀ parts : List (List Char), part ∈ parts → part.Sublist (join sep parts) := by
    intro parts
    induction parts with
    | nil => exact fun h => absurd h List.not_mem_nil
    | cons first more ih =>
      intro h
      cases more with
      | nil => exact List.mem_singleton.1 h ▸ List.Sublist.refl part
      | cons p ps =>
        rw [join_cons_of_ne_nil sep first (List.cons_ne_nil p ps)]
        rcases List.mem_cons.1 h with rfl | h
        · exact List.sublist_append_left part _
        · refine (ih h).trans ?_
          exact (List.sublist_cons_self sep _).trans (List.sublist_append_right first _)
  have h := hjoin _ h
  rwa [join_split] at h

theorem split_append (sep : Char) {part : List Char} (h : sep ∉ part) (rest : List Char) :
    split sep (part ++ sep :: rest) = part :: split sep rest := by
  induction part with
  | nil => simp [split]
  | cons c cs ih =>
    simp only [List.mem_cons, not_or] at h
    have hc : ¬ c = sep := fun e => h.1 e.symm
    simp [split, hc, ih h.2]

theorem split_of_notMem (sep : Char) {part : List Char} (h : sep ∉ part) :
    split sep part = [part] := by
  induction part with
  | nil => rfl
  | cons c cs ih =>
    simp only [List.mem_cons, not_or] at h
    have hc : ¬ c = sep := fun e => h.1 e.symm
    simp [split, hc, ih h.2]

theorem split_join (sep : Char) {parts : List (List Char)} (hne : parts ≠ [])
    (h : ∀ part ∈ parts, sep ∉ part) : split sep (join sep parts) = parts := by
  induction parts with
  | nil => exact absurd rfl hne
  | cons part more ih =>
    cases more with
    | nil => exact split_of_notMem sep (h part (by simp))
    | cons p ps =>
      rw [join_cons_of_ne_nil sep part (by simp), split_append sep (h part (by simp)),
        ih (by simp) fun q hq => h q (by simp [hq])]

/-- A text that begins with joined parts and the character has these parts and those of the rest. -/
theorem split_join_append (sep : Char) {parts : List (List Char)} (hne : parts ≠ [])
    (h : ∀ part ∈ parts, sep ∉ part) (rest : List Char) :
    split sep (join sep parts ++ sep :: rest) = parts ++ split sep rest := by
  induction parts with
  | nil => exact absurd rfl hne
  | cons part more ih =>
    have hpart : sep ∉ part := h part List.mem_cons_self
    cases more with
    | nil => exact split_append sep hpart rest
    | cons p ps =>
      rw [join_cons_of_ne_nil sep part (List.cons_ne_nil p ps), List.append_assoc,
        List.cons_append, split_append sep hpart,
        ih (List.cons_ne_nil p ps) fun q hq => h q (List.mem_cons_of_mem part hq)]
      rfl

/-- What is divided on both sides of an occurrence is divided as a whole. -/
theorem split_append_cons (sep : Char) (xs ys : List Char) :
    split sep (xs ++ sep :: ys) = split sep xs ++ split sep ys := by
  have h := split_join_append sep (split_ne_nil sep xs) (fun _ => notMem_of_mem_split) ys
  rwa [join_split] at h

/-- A text is told by its parts. -/
theorem split_inj {sep : Char} {xs ys : List Char} : split sep xs = split sep ys ↔ xs = ys := by
  constructor
  · intro h
    rw [← join_split sep xs, h, join_split]
  · rintro rfl
    rfl

/-- A list is divided in one way only at the last occurrence of an element. -/
theorem append_cons_inj_last {α : Type} {a : α} {xs ys xs' ys' : List α} (h : a ∉ ys) (h' : a ∉ ys')
    (he : xs ++ a :: ys = xs' ++ a :: ys') : xs = xs' ∧ ys = ys' := by
  -- one list before the element is a part of the other, and the rest of that would hold the element
  rcases List.append_eq_append_iff.1 he with ⟨mid, hx, hy⟩ | ⟨mid, hx, hy⟩
  · cases mid with
    | nil => exact ⟨by simpa using hx.symm, (List.cons.inj hy).2⟩
    | cons b mid =>
      obtain ⟨-, rfl⟩ := List.cons.inj hy
      exact absurd (List.mem_append_right mid List.mem_cons_self) h
  · cases mid with
    | nil => exact ⟨by simpa using hx, (List.cons.inj hy).2.symm⟩
    | cons b mid =>
      obtain ⟨-, rfl⟩ := List.cons.inj hy
      exact absurd (List.mem_append_right mid List.mem_cons_self) h'

/-- Nor in two ways where a property ends. -/
theorem append_inj_of_all {α : Type} {p : α → Bool} {xs ys xs' ys' : List α}
    (h : ∀ x ∈ xs, p x = true) (hy : ∀ y ∈ ys.head?, p y = false) (h' : ∀ x ∈ xs', p x = true)
    (hy' : ∀ y ∈ ys'.head?, p y = false) (he : xs ++ ys = xs' ++ ys') : xs = xs' ∧ ys = ys' := by
  induction xs generalizing xs' with
  | nil =>
    cases xs' with
    | nil => exact ⟨rfl, he⟩
    | cons x xs' =>
      have hp := hy x (by rw [show ys = x :: (xs' ++ ys') from he]; rfl)
      exact absurd (h' x List.mem_cons_self) (by rw [hp]; decide)
  | cons x xs ih =>
    cases xs' with
    | nil =>
      have hp := hy' x (by rw [show ys' = x :: (xs ++ ys) from he.symm]; rfl)
      exact absurd (h x List.mem_cons_self) (by rw [hp]; decide)
    | cons x' xs' =>
      obtain ⟨rfl, hrest⟩ := List.cons.inj he
      obtain ⟨rfl, rfl⟩ := ih (fun y hm => h y (List.mem_cons_of_mem x hm))
        (fun y hm => h' y (List.mem_cons_of_mem x hm)) hrest
      exact ⟨rfl, rfl⟩

end CredentialBench.Text
