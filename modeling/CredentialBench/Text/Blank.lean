/-!
# Blank characters

The white space of Unicode's `White_Space` property, the texts made of nothing else, and the
trimming of a text at both ends. Trimming a text leaves nothing exactly when the text is blank
(`trim_eq_empty_iff`).
-/

namespace CredentialBench.Text

/-- The characters of Unicode's `White_Space` property. -/
def isBlank (c : Char) : Bool :=
  (0x09 ≤ c.toNat && c.toNat ≤ 0x0D) || c.toNat == 0x20 || c.toNat == 0x85 || c.toNat == 0xA0 ||
    c.toNat == 0x1680 || (0x2000 ≤ c.toNat && c.toNat ≤ 0x200A) || c.toNat == 0x2028 ||
    c.toNat == 0x2029 || c.toNat == 0x202F || c.toNat == 0x205F || c.toNat == 0x3000

/-- A text is blank when it holds blank characters only; the empty text is blank. -/
def blank (s : String) : Bool := s.toList.all isBlank

/-- The characters without the blank ones at either end. -/
def trimChars (cs : List Char) : List Char :=
  ((cs.dropWhile isBlank).reverse.dropWhile isBlank).reverse

/-- The text without the blank characters at either end. -/
def trim (s : String) : String := String.ofList (trimChars s.toList)

theorem dropWhile_isBlank_eq_nil_iff {cs : List Char} :
    cs.dropWhile isBlank = [] ↔ ∀ c ∈ cs, isBlank c = true := by
  induction cs with
  | nil => simp
  | cons c r ih => by_cases h : isBlank c = true <;> simp [h, ih]

theorem head_dropWhile_isBlank {cs r : List Char} {c : Char} (h : cs.dropWhile isBlank = c :: r) :
    isBlank c = false := by
  induction cs with
  | nil => simp at h
  | cons d t ih =>
    by_cases hd : isBlank d = true
    · exact ih (by simpa [List.dropWhile_cons, hd] using h)
    · simp only [List.dropWhile_cons, hd, Bool.false_eq_true, ↓reduceIte, List.cons.injEq] at h
      simpa [← h.1] using hd

theorem trimChars_eq_nil_iff {cs : List Char} : trimChars cs = [] ↔ cs.all isBlank = true := by
  rw [trimChars, List.reverse_eq_nil_iff, dropWhile_isBlank_eq_nil_iff, List.all_eq_true]
  constructor
  · intro h
    cases hd : cs.dropWhile isBlank with
    | nil => exact dropWhile_isBlank_eq_nil_iff.1 hd
    | cons c r =>
      have := h c (by simp [hd])
      simp [head_dropWhile_isBlank hd] at this
  · intro h
    simp [dropWhile_isBlank_eq_nil_iff.2 h]

theorem dropWhile_eq_self {p : Char → Bool} {cs : List Char} (h : ∀ c ∈ cs, p c = false) :
    cs.dropWhile p = cs := by
  cases cs with
  | nil => rfl
  | cons c cs => rw [List.dropWhile_cons, h c List.mem_cons_self]; rfl

/-- A text without blank characters is trimmed already. -/
theorem trim_eq_self {s : String} (h : ∀ c ∈ s.toList, isBlank c = false) : trim s = s := by
  rw [trim, trimChars, dropWhile_eq_self h,
    dropWhile_eq_self fun c hc => h c (List.mem_reverse.1 hc), List.reverse_reverse,
    String.ofList_toList]

theorem trim_eq_empty_iff {s : String} : trim s = "" ↔ blank s = true := by
  rw [blank, ← trimChars_eq_nil_iff, trim]
  constructor
  · intro h
    simpa using congrArg String.toList h
  · intro h
    simp [h]

end CredentialBench.Text
