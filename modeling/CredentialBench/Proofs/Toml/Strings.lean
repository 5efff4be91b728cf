import Mathlib.Tactic.SplitIfs
import CredentialBench.Toml.Printer
import CredentialBench.Toml.Reader

/-!
# Reading strings of TOML back

Whatever characters a string holds, the reader takes it back from every form that it may be given
(`SpellsString`), up to its closing delimiter and no further (`string?_spelled`); what the writer
gives it is one of them (`spellsString_quotedString`). In a basic string each character is read back
from what shows it (`Shows`); a literal string holds nothing that its delimiter could be taken for
(`Literal`). What follows a string must not be a quote, since one more quote would belong to the
string.
-/

namespace CredentialBench.Toml

/-! ## Basic strings -/

/-- How a basic string shows one character: by an escape of one letter, by its number, as it stands
or, on several lines, by a line feed. -/
inductive Shows (lines : Bool) (c : Char) : List Char → Prop
  | letter {e : Char} (h : escape? e = some c) : Shows lines c ['\\', e]
  | number {x y z w : Char} (h : scalar? [x, y, z, w] = some c) :
      Shows lines c ['\\', 'u', x, y, z, w]
  | lineFeed (hlines : lines = true) (h : c = '\n') : Shows lines c ['\n']
  | plain (hp : isPlain c = true) (hq : c ≠ '"') (he : c ≠ '\\') : Shows lines c [c]

theorem isPlain_of_needsEscape {c : Char} (h : needsEscape c = false) (hn : c ≠ '\n') :
    isPlain c = true := by
  simp only [needsEscape, Bool.or_eq_false_iff, Bool.and_eq_false_iff, decide_eq_false_iff_not,
    bne_eq_false_iff_eq, beq_eq_false_iff_ne, ne_eq] at h
  simp only [isPlain, Bool.or_eq_true, Bool.and_eq_true, decide_eq_true_eq, beq_iff_eq, bne_iff_ne]
  rcases h with ⟨(hlow | ht) | hn', hdelete⟩
  · exact .inr ⟨Nat.not_lt.1 hlow, hdelete⟩
  · exact .inl ht
  · exact absurd hn' hn

theorem toNat_lt_of_needsEscape {c : Char} (h : needsEscape c = true) : c.toNat < 0x80 := by
  simp only [needsEscape, Bool.or_eq_true, Bool.and_eq_true, decide_eq_true_eq, beq_iff_eq] at h
  omega

/-- The number of a character of ASCII is read back from its digits. -/
theorem scalar?_hexPadded {n : Nat} (h : n < 0x80) :
    scalar? ((Text.hexPadded 4 n).map Char.toUpper) = some (Char.ofNat n) := by
  revert h
  revert n
  decide +kernel

theorem shows_escapedChar (lines : Bool) (c : Char) : Shows lines c (escapedChar lines c) := by
  unfold escapedChar
  split_ifs with hb ht hn hl hf hr hq he hc
  · exact .letter (by rw [hb]; rfl)
  · exact .letter (by rw [ht]; rfl)
  · exact .lineFeed hl hn
  · exact .letter (by rw [hn]; rfl)
  · exact .letter (by rw [hf]; rfl)
  · exact .letter (by rw [hr]; rfl)
  · exact .letter (by rw [hq]; rfl)
  · exact .letter (by rw [he]; rfl)
  · have hscalar := scalar?_hexPadded (toNat_lt_of_needsEscape hc)
    rw [Char.ofNat_toNat] at hscalar
    exact .number hscalar
  · exact .plain (isPlain_of_needsEscape (Bool.eq_false_iff.2 hc) hn) hq he

/-- No letter of an escape announces a number. -/
theorem ne_of_escape? {e c : Char} (h : escape? e = some c) : e ≠ 'u' ∧ e ≠ 'U' := by
  constructor <;> rintro rfl <;> cases h

theorem basic?_of_shows {c : Char} {cs : List Char} (h : Shows false c cs) (rest : List Char) :
    basic? (cs ++ rest) = (basic? rest).map fun r => (c :: r.1, r.2) := by
  cases h with
  | letter h =>
    obtain ⟨hu, hU⟩ := ne_of_escape? h
    cases hrest : basic? rest <;> simp [basic?, hu, hU, h, hrest]
  | number h => cases hrest : basic? rest <;> simp [basic?, h, hrest]
  | lineFeed hlines => cases hlines
  | plain hp hq he => simp [basic?, hp, he]

theorem basicLines?_of_shows {c : Char} {cs : List Char} (h : Shows true c cs)
    (rest : List Char) :
    basicLines? .none (cs ++ rest) = (basicLines? .none rest).map fun r => (c :: r.1, r.2) := by
  cases h with
  | letter h =>
    obtain ⟨hu, hU⟩ := ne_of_escape? h
    rw [List.cons_append, basicLines?.eq_def]
    simp [hu, hU, h]
  | number h =>
    rw [List.cons_append, basicLines?.eq_def]
    cases hrest : basicLines? .none rest <;> simp [h, hrest]
  | lineFeed hlines h =>
    subst h
    rw [List.cons_append, basicLines?.eq_def]
    simp
  | plain hp hq he =>
    have hr : c ≠ '\r' := by rintro rfl; cases hp
    have hn : c ≠ '\n' := by rintro rfl; cases hp
    rw [List.cons_append, basicLines?.eq_def]
    simp [hp, hq, he, hr, hn]

/-- How a basic string shows its characters, one after another. -/
inductive Shown (lines : Bool) : List Char → List Char → Prop
  | nil : Shown lines [] []
  | cons {c : Char} {cs shown text : List Char} (h : Shows lines c shown)
      (hcs : Shown lines cs text) : Shown lines (c :: cs) (shown ++ text)

theorem shown_escaped (lines : Bool) (cs : List Char) :
    Shown lines cs (cs.flatMap (escapedChar lines)) := by
  induction cs with
  | nil => exact .nil
  | cons c cs ih => exact .cons (shows_escapedChar lines c) ih

/-- What takes each character from what shows it takes a whole string from what shows it. -/
theorem read_shown {read : List Char → Option (List Char × List Char)} {lines : Bool}
    (hread : ∀ {c cs}, Shows lines c cs → ∀ rest,
      read (cs ++ rest) = (read rest).map fun r => (c :: r.1, r.2))
    {close rest : List Char} (hclose : read close = some ([], rest)) {cs text : List Char}
    (h : Shown lines cs text) : read (text ++ close) = some (cs, rest) := by
  induction h with
  | nil => exact hclose
  | cons h _ ih =>
    rw [List.append_assoc, hread h, ih]
    rfl

theorem basic?_of_shown {cs text : List Char} (h : Shown false cs text) (rest : List Char) :
    basic? (text ++ '"' :: rest) = some (cs, rest) :=
  read_shown basic?_of_shows rfl h

/-- A further quote behind the closing delimiter would be the string's own. -/
theorem basicLines?_tripled {rest : List Char} (h : rest.head? ≠ some '"') :
    basicLines? .none (tripled '"' ++ rest) = some ([], rest) := by
  cases rest with
  | nil => rfl
  | cons x rest =>
    have hx : x ≠ '"' := fun hx => h (hx ▸ rfl)
    rw [tripled, List.cons_append, basicLines?.eq_def]
    simp [hx]

theorem basicLines?_of_shown {cs text : List Char} (h : Shown true cs text) {rest : List Char}
    (hrest : rest.head? ≠ some '"') :
    basicLines? .none (text ++ (tripled '"' ++ rest)) = some (cs, rest) :=
  read_shown basicLines?_of_shows (basicLines?_tripled hrest) h

/-! ## Literal strings -/

theorem literal?_append {cs : List Char} (h : ∀ c ∈ cs, isPlain c = true ∧ c ≠ '\'')
    (rest : List Char) : literal? (cs ++ '\'' :: rest) = some (cs, rest) := by
  induction cs with
  | nil => rfl
  | cons c cs ih =>
    obtain ⟨⟨hp, hq⟩, hcs⟩ := List.forall_mem_cons.1 h
    simp [literal?, hp, ih hcs]

theorem literalLines?_tripled {rest : List Char} (h : rest.head? ≠ some '\'') :
    literalLines? (tripled '\'' ++ rest) = some ([], rest) := by
  cases rest with
  | nil => rfl
  | cons x rest =>
    have hx : x ≠ '\'' := fun hx => h (hx ▸ rfl)
    simp [tripled, literalLines?, hx]

/-- What a literal string of several lines may hold. -/
structure Literal (cs : List Char) : Prop where
  plain : ∀ c ∈ cs, isPlain c = true ∨ c = '\n'
  no_triple : hasTripleQuote cs = false
  no_last : cs.getLast? ≠ some '\''

/-- A character that does not begin a delimiter stands for itself. -/
theorem literalLines?_cons {c : Char} {cs : List Char} (hc : isPlain c = true ∨ c = '\n')
    (h : ¬ tripled '\'' <+: c :: cs) :
    literalLines? (c :: cs) = (literalLines? cs).map fun r => (c :: r.1, r.2) := by
  have hr : c ≠ '\r' := by
    rintro rfl
    rcases hc with hc | hc <;> cases hc
  have hq {rest : List Char} (hc : c = '\'') (hcs : cs = '\'' :: '\'' :: rest) : False :=
    h ⟨rest, by rw [hc, hcs]; rfl⟩
  rw [literalLines?, if_pos (by simpa using hc)]
  · exact fun rest hc hcs => hq hc hcs
  · exact fun rest hc hcs => hq hc hcs
  · exact fun rest hc hcs => hq hc hcs
  · exact fun rest hc => absurd hc hr

theorem Literal.tail {c : Char} {cs : List Char} (h : Literal (c :: cs)) : Literal cs where
  plain := (List.forall_mem_cons.1 h.plain).2
  no_triple := by
    have := h.no_triple
    rw [hasTripleQuote.eq_def] at this
    split at this <;> simp_all
  no_last := by
    cases cs with
    | nil => nofun
    | cons d cs => simpa using h.no_last

/-- No delimiter begins within a literal string, even with its closing one behind it. -/
theorem Literal.not_prefix {c : Char} {cs : List Char} (h : Literal (c :: cs)) (rest : List Char) :
    ¬ tripled '\'' <+: c :: (cs ++ (tripled '\'' ++ rest)) := by
  intro hp
  match cs, h with
  | [], h =>
    obtain rfl : '\'' = c := by simpa [tripled] using hp
    exact h.no_last rfl
  | [d], h =>
    obtain ⟨-, rfl⟩ : '\'' = c ∧ '\'' = d := by simpa [tripled] using hp
    exact h.no_last rfl
  | d :: e :: cs, h =>
    obtain ⟨rfl, rfl, rfl⟩ : '\'' = c ∧ '\'' = d ∧ '\'' = e := by simpa [tripled] using hp
    cases h.no_triple

theorem literalLines?_append {cs : List Char} (hc : Literal cs) {rest : List Char}
    (h : rest.head? ≠ some '\'') :
    literalLines? (cs ++ (tripled '\'' ++ rest)) = some (cs, rest) := by
  induction cs with
  | nil => exact literalLines?_tripled h
  | cons c cs ih =>
    rw [List.cons_append, literalLines?_cons (hc.plain c List.mem_cons_self) (hc.not_prefix rest),
      ih hc.tail]
    rfl

/-! ## Strings -/

theorem literal_of_prefersLiteral {cs : List Char} (h : prefersLiteral cs = true) : Literal cs := by
  simp only [prefersLiteral, Bool.and_eq_true, Bool.not_eq_true', List.any_eq_false,
    bne_iff_ne] at h
  obtain ⟨⟨⟨-, hescape⟩, htriple⟩, hlast⟩ := h
  refine ⟨fun c hc => ?_, htriple, hlast⟩
  by_cases hn : c = '\n'
  · exact .inr hn
  · exact .inl (isPlain_of_needsEscape (Bool.eq_false_iff.2 (hescape c hc)) hn)

theorem string?_tripled_basic (cs : List Char) : string? (tripled '"' ++ cs) =
    (basicLines? .none (dropLineEnd cs)).map fun r => (String.ofList r.1, r.2) :=
  rfl

theorem string?_tripled_literal (cs : List Char) : string? (tripled '\'' ++ cs) =
    (literalLines? (dropLineEnd cs)).map fun r => (String.ofList r.1, r.2) :=
  rfl

theorem string?_basic {cs : List Char} (h : ¬ ['"', '"'] <+: cs) :
    string? ('"' :: cs) = (basic? cs).map fun r => (String.ofList r.1, r.2) := by
  have hcs (rest : List Char) : cs ≠ '"' :: '"' :: rest := fun hcs => h ⟨rest, hcs.symm⟩
  simp [string?]

theorem string?_literal {cs : List Char} (h : ¬ ['\'', '\''] <+: cs) :
    string? ('\'' :: cs) = (literal? cs).map fun r => (String.ofList r.1, r.2) := by
  have hcs (rest : List Char) : cs ≠ '\'' :: '\'' :: rest := fun hcs => h ⟨rest, hcs.symm⟩
  simp [string?]

/-- No literal string on one line begins with a quote, and behind an empty one stands only its
closing quote. -/
theorem not_prefix_literal {cs : List Char} (hq : '\'' ∉ cs) {rest : List Char}
    (hrest : rest.head? ≠ some '\'') : ¬ ['\'', '\''] <+: cs ++ '\'' :: rest := by
  rintro ⟨tail, htail⟩
  cases cs with
  | nil =>
    obtain rfl : '\'' :: tail = rest := by simpa using htail
    exact hrest rfl
  | cons c cs =>
    obtain ⟨rfl, -⟩ := List.cons.inj htail
    exact hq List.mem_cons_self

theorem dropLineEnd_lineFeed (cs : List Char) : dropLineEnd ('\n' :: cs) = cs := rfl

/-- A literal string without line feeds does not begin with a line end. -/
theorem Literal.dropLineEnd_append {cs : List Char} (h : Literal cs) (hn : '\n' ∉ cs)
    (rest : List Char) :
    dropLineEnd (cs ++ (tripled '\'' ++ rest)) = cs ++ (tripled '\'' ++ rest) := by
  cases cs with
  | nil => rfl
  | cons c cs =>
    have hcn : c ≠ '\n' := fun hc => hn (hc ▸ List.mem_cons_self)
    have hcr : c ≠ '\r' := by
      rintro rfl
      rcases h.plain _ List.mem_cons_self with hc | hc <;> cases hc
    simp [dropLineEnd, lineEnd?, hcn, hcr]

/-- No string on one line begins with a quote once it is escaped, and behind an empty one stands
only its closing quote. -/
theorem not_prefix_shown {cs text : List Char} (h : Shown false cs text) {rest : List Char}
    (hrest : rest.head? ≠ some '"') : ¬ ['"', '"'] <+: text ++ '"' :: rest := by
  cases h with
  | nil =>
    intro hp
    obtain ⟨tail, htail⟩ := hp
    obtain rfl : '"' :: tail = rest := by simpa using htail
    exact hrest rfl
  | cons hshows _ =>
    cases hshows with
    | letter h => simp
    | number h => simp
    | lineFeed hlines => cases hlines
    | plain _ hq => simp [hq.symm]

/-- The forms of a string: basic and literal ones, on one line or on several. One of several lines
begins below its opening delimiter, unless it has no line feed after all. -/
inductive SpellsString (s : String) : List Char → Prop
  | basic {text : List Char} (h : Shown false s.toList text) :
      SpellsString s ('"' :: text ++ ['"'])
  | basicLines {text : List Char} (h : Shown true s.toList text) :
      SpellsString s (tripled '"' ++ '\n' :: text ++ tripled '"')
  | literal (h : ∀ c ∈ s.toList, isPlain c = true ∧ c ≠ '\'') :
      SpellsString s ('\'' :: s.toList ++ ['\''])
  | literalLines (h : Literal s.toList) :
      SpellsString s (tripled '\'' ++ '\n' :: s.toList ++ tripled '\'')
  | literalTripled (h : Literal s.toList) (hn : '\n' ∉ s.toList) :
      SpellsString s (tripled '\'' ++ s.toList ++ tripled '\'')

/-- The form that the writer gives a string is one of its forms. -/
theorem spellsString_quotedString (s : String) : SpellsString s (quotedString s) := by
  rw [quotedString]
  split_ifs with hliteral hfeed hquote hfeed
  · exact .literalLines (literal_of_prefersLiteral hliteral)
  · exact .literalTripled (literal_of_prefersLiteral hliteral) (by simpa using hfeed)
  · refine .literal fun c hc => ⟨?_, fun hq => hquote (by simpa [hq] using hc)⟩
    exact ((literal_of_prefersLiteral hliteral).plain c hc).resolve_right fun hn =>
      hfeed (by simpa [hn] using hc)
  · exact .basicLines (shown_escaped true s.toList)
  · exact .basic (shown_escaped false s.toList)

/-- What spells a string begins with a quote. -/
theorem SpellsString.exists_cons {s : String} {text : List Char} (h : SpellsString s text) :
    ∃ cs, text = '"' :: cs ∨ text = '\'' :: cs := by
  cases h with
  | basic => exact ⟨_, .inl rfl⟩
  | basicLines => exact ⟨_, .inl rfl⟩
  | literal => exact ⟨_, .inr rfl⟩
  | literalLines => exact ⟨_, .inr rfl⟩
  | literalTripled => exact ⟨_, .inr rfl⟩

/-- **A string is read back from each of its forms**, and reading ends where it ends, if no quote
follows. -/
theorem string?_spelled {s : String} {text : List Char} (h : SpellsString s text)
    (rest : List Char) (hd : rest.head? ≠ some '"') (hs : rest.head? ≠ some '\'') :
    string? (text ++ rest) = some (s, rest) := by
  cases h with
  | basic h =>
    rw [List.cons_append, List.cons_append, List.append_assoc, List.singleton_append,
      string?_basic (not_prefix_shown h hd), basic?_of_shown h, Option.map_some,
      String.ofList_toList]
  | basicLines h =>
    rw [List.append_assoc, List.append_assoc, string?_tripled_basic, List.cons_append,
      dropLineEnd_lineFeed, basicLines?_of_shown h hd, Option.map_some, String.ofList_toList]
  | literal h =>
    have hquote : '\'' ∉ s.toList := fun hq => (h _ hq).2 rfl
    rw [List.cons_append, List.cons_append, List.append_assoc, List.singleton_append,
      string?_literal (not_prefix_literal hquote hs), literal?_append h, Option.map_some,
      String.ofList_toList]
  | literalLines h =>
    rw [List.append_assoc, List.append_assoc, string?_tripled_literal, List.cons_append,
      dropLineEnd_lineFeed, literalLines?_append h hs, Option.map_some, String.ofList_toList]
  | literalTripled h hn =>
    rw [List.append_assoc, List.append_assoc, string?_tripled_literal, h.dropLineEnd_append hn,
      literalLines?_append h hs, Option.map_some, String.ofList_toList]

end CredentialBench.Toml
