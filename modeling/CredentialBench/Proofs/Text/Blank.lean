import CredentialBench.Text.Blank
import Mathlib.Data.List.DropRight

/-!
# Trimmed texts

A text is its own trim exactly when no blank character stands at either end of it
(`trim_eq_self_iff`). What trimming leaves is such a text, so that trimming twice is trimming once
(`trim_trim`).
-/

namespace CredentialBench.Text

/-- No blank character stands at either end of a text. -/
structure IsTrimmed (s : String) : Prop where
  head : ∀ c ∈ s.toList.head?, isBlank c = false
  last : ∀ c ∈ s.toList.getLast?, isBlank c = false

theorem trimChars_eq_rdropWhile (cs : List Char) :
    trimChars cs = (cs.dropWhile isBlank).rdropWhile isBlank := rfl

theorem head_trimChars {cs : List Char} {c : Char} (h : c ∈ (trimChars cs).head?) :
    isBlank c = false := by
  obtain ⟨r, hr⟩ := List.head?_eq_some_iff.1 h
  rw [trimChars_eq_rdropWhile] at hr
  -- what is dropped at the end leaves the first character where it was
  obtain ⟨t, ht⟩ := List.rdropWhile_prefix isBlank (cs.dropWhile isBlank)
  rw [hr, List.cons_append] at ht
  exact head_dropWhile_isBlank ht.symm

theorem last_trimChars {cs : List Char} {c : Char} (h : c ∈ (trimChars cs).getLast?) :
    isBlank c = false := by
  rw [trimChars_eq_rdropWhile] at h
  have hne : (cs.dropWhile isBlank).rdropWhile isBlank ≠ [] := by
    intro hnil
    simp [hnil] at h
  have hlast := List.rdropWhile_last_not isBlank (cs.dropWhile isBlank) hne
  rw [List.getLast?_eq_getLast_of_ne_nil hne, Option.mem_some_iff] at h
  simpa [h] using hlast

theorem isTrimmed_trim (s : String) : IsTrimmed (trim s) := by
  rw [trim]
  constructor <;> rw [String.toList_ofList]
  · exact fun c => head_trimChars
  · exact fun c => last_trimChars

/-- Nothing is dropped at the start of a text whose first character is kept. -/
theorem dropWhile_of_head {p : Char → Bool} {cs : List Char} (h : ∀ c ∈ cs.head?, p c = false) :
    cs.dropWhile p = cs := by
  cases cs with
  | nil => rfl
  | cons c r => rw [List.dropWhile_cons_of_neg]; simpa using h c rfl

/-- Nothing is dropped at the end of a text whose last character is kept. -/
theorem rdropWhile_of_last {p : Char → Bool} {cs : List Char}
    (h : ∀ c ∈ cs.getLast?, p c = false) : cs.rdropWhile p = cs := by
  rw [List.rdropWhile_eq_self_iff]
  intro hne
  simpa using h _ (List.getLast?_eq_getLast_of_ne_nil hne)

theorem IsTrimmed.trim_eq {s : String} (h : IsTrimmed s) : trim s = s := by
  rw [trim, trimChars_eq_rdropWhile, dropWhile_of_head h.head, rdropWhile_of_last h.last,
    String.ofList_toList]

theorem trim_eq_self_iff {s : String} : trim s = s ↔ IsTrimmed s :=
  ⟨fun h => h ▸ isTrimmed_trim s, IsTrimmed.trim_eq⟩

/-- **Trimming twice is trimming once.** -/
theorem trim_trim (s : String) : trim (trim s) = trim s := (isTrimmed_trim s).trim_eq

/-- Trimming takes away no character of a kind that no blank one is of. -/
theorem countP_trim {p : Char → Bool} (h : ∀ c, isBlank c = true → p c = false) (s : String) :
    (trim s).toList.countP p = s.toList.countP p := by
  have hdrop (cs : List Char) : (cs.dropWhile isBlank).countP p = cs.countP p := by
    induction cs with
    | nil => rfl
    | cons c cs ih =>
      rw [List.dropWhile_cons]
      split
      · rename_i hc
        rw [ih, List.countP_cons_of_neg (by simp [h c hc])]
      · rfl
  rw [trim, trimChars, String.toList_ofList, List.countP_reverse, hdrop, List.countP_reverse, hdrop]

end CredentialBench.Text
