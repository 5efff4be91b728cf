import CredentialBench.Proofs.Text.Numeral
import CredentialBench.Proofs.Toml.Reading

/-!
# Printed documents

A document of strings and integers, one under a name on each line (`Printed`), is read back as these
members in their order (`document?_printed`), in whatever form names and strings are written. An
integer is written in decimal with a sign if it is negative; the reader tries a date, a time and a
fraction first, and finds none of them where a line ends behind the digits.
-/

namespace CredentialBench.Toml

open Entries (Assignment)

variable {cs rest : List Char} {n : Nat} {c : Char}

/-! ## Digits up to the end of a line -/

/-- Decimal digits. -/
def Digits (cs : List Char) : Prop := ∀ c ∈ cs, ∃ d < 10, Text.hexValue? c = some d

theorem digits_toDigits (n : Nat) : Digits (Nat.toDigits 10 n) :=
  (Text.numeral_toDigits (by decide) (by decide) n).isDigit

/-- The values of digits. -/
def values (cs : List Char) : List Nat := cs.map fun c => (Text.hexValue? c).getD 0

theorem ofDigits_values (n : Nat) : ofDigits 10 (values (Nat.toDigits 10 n)) = n := by
  rw [ofDigits, values, List.foldl_map]
  exact (Text.numeral_toDigits (by decide) (by decide) n).value

theorem digit?_eq_some {d : Nat} (hc : Text.hexValue? c = some d) (hd : d < 10) :
    digit? 10 c = some d := by
  simp [digit?, hc, hd]

/-- A digit is none of the characters that stand between digits or before them. -/
theorem Digits.ne (h : Digits cs) (hc : c ∈ cs) {x : Char} (hx : digit? 10 x = none) : c ≠ x := by
  rintro rfl
  obtain ⟨d, hd, hc⟩ := h c hc
  rw [digit?_eq_some hc hd] at hx
  cases hx

theorem digitsFrom_append (h : Digits cs) (rest : List Char) :
    digitsFrom 10 (cs ++ '\n' :: rest) = (values cs, '\n' :: rest) := by
  induction cs with
  | nil => simp [digitsFrom, digit?, Text.hexValue?, values]
  | cons c cs ih =>
    obtain ⟨⟨d, hd, hc⟩, hcs⟩ := List.forall_mem_cons.1 h
    have hunderscore : c ≠ '_' := h.ne List.mem_cons_self (by decide)
    simp [digitsFrom, hunderscore, digit?_eq_some hc hd, ih hcs, values, hc]

theorem whole?_append (n : Nat) (rest : List Char) :
    whole? (Nat.toDigits 10 n ++ '\n' :: rest) =
      some (values (Nat.toDigits 10 n), '\n' :: rest) := by
  obtain ⟨c, cs, hcs⟩ := List.exists_cons_of_ne_nil (Nat.toDigits_ne_nil (n := n) (b := 10))
  by_cases hc : c = '0'
  · have hn : n = 0 := Text.eq_zero_of_head?_toDigits (by rw [hcs, hc]; rfl)
    rw [hn]
    rfl
  · have hdigits := digits_toDigits n
    rw [hcs] at hdigits ⊢
    obtain ⟨⟨d, hd, hvalue⟩, hmore⟩ := List.forall_mem_cons.1 hdigits
    simp [whole?, hc, digits?, digit?_eq_some hvalue hd, digitsFrom_append hmore, values, hvalue]

/-- A number of a fixed width leaves some of the digits. -/
theorem fixed?_append (h : Digits cs) {width : Nat} {r : Nat × List Char}
    (hr : fixed? width (cs ++ '\n' :: rest) = some r) :
    ∃ more, Digits more ∧ r.2 = more ++ '\n' :: rest := by
  induction width generalizing cs r with
  | zero =>
    obtain rfl := Option.some.inj hr
    exact ⟨cs, h, rfl⟩
  | succ width ih =>
    cases cs with
    | nil => cases hr
    | cons c cs =>
      obtain ⟨⟨d, hd, hc⟩, hcs⟩ := List.forall_mem_cons.1 h
      simp only [List.cons_append, fixed?, digit?_eq_some hc hd, Option.bind_eq_bind,
        Option.bind_some, Option.bind_eq_some_iff] at hr
      obtain ⟨r', hr', he⟩ := hr
      obtain ⟨more, hmore, hrest⟩ := ih hcs hr'
      exact ⟨more, hmore, by rw [← Option.some.inj he, hrest]⟩

theorem after?_append (h : Digits cs) (hx : digit? 10 c = none) (hc : c ≠ '\n') :
    after? c (cs ++ '\n' :: rest) = none := by
  cases cs with
  | nil => simp [after?, Ne.symm hc]
  | cons x cs => simp [after?, h.ne List.mem_cons_self hx]

/-- Where a line ends behind digits, there is no date and no time. -/
theorem moment?_digits (h : Digits cs) : moment? (cs ++ '\n' :: rest) = none := by
  have hafter : ∀ {width : Nat} {r : Nat × List Char} (x : Char), digit? 10 x = none → x ≠ '\n' →
      fixed? width (cs ++ '\n' :: rest) = some r → after? x r.2 = none := by
    intro width r x hx hline hr
    obtain ⟨more, hmore, he⟩ := fixed?_append h hr
    rw [he, after?_append hmore hx hline]
  have hdate : skipDate? (cs ++ '\n' :: rest) = none := by
    cases hr : fixed? 4 (cs ++ '\n' :: rest) with
    | none => simp [skipDate?, hr]
    | some r => simp [skipDate?, hr, hafter '-' (by decide) (by decide) hr]
  have hminutes : skipMinutes? (cs ++ '\n' :: rest) = none := by
    cases hr : fixed? 2 (cs ++ '\n' :: rest) with
    | none => simp [skipMinutes?, hr]
    | some r => simp [skipMinutes?, hr, hafter ':' (by decide) (by decide) hr]
  simp [moment?, hdate, skipTime?, hminutes]

/-! ## Integers -/

/-- An integer as it is written. -/
def integerText (n : Int) : List Char :=
  (if n < 0 then ['-'] else []) ++ Nat.toDigits 10 n.natAbs

/-- The decimal numeral of a number begins with a digit. -/
theorem exists_toDigits (n : Nat) :
    ∃ c cs, Nat.toDigits 10 n = c :: cs ∧ ∀ x, digit? 10 x = none → c ≠ x := by
  obtain ⟨c, cs, hcs⟩ := List.exists_cons_of_ne_nil (Nat.toDigits_ne_nil (n := n) (b := 10))
  refine ⟨c, cs, hcs, fun x hx => (digits_toDigits n).ne ?_ hx⟩
  rw [hcs]
  exact List.mem_cons_self

/-- The sign of an integer is read apart from its digits. -/
theorem sign_integerText (n : Int) (rest : List Char) :
    sign (integerText n ++ rest) = (decide (n < 0), Nat.toDigits 10 n.natAbs ++ rest) := by
  rw [integerText]
  by_cases hn : n < 0
  · simp [hn, sign]
  · obtain ⟨c, cs, hcs, hc⟩ := exists_toDigits n.natAbs
    simp only [hn, hcs, if_false, List.nil_append, List.cons_append, decide_false]
    unfold sign
    split
    · next heq => exact absurd (List.cons.inj heq).1 (hc '-' (by decide))
    · next heq => exact absurd (List.cons.inj heq).1 (hc '+' (by decide))
    · rfl

theorem moment?_integerText (n : Int) (rest : List Char) :
    moment? (integerText n ++ '\n' :: rest) = none := by
  rw [integerText]
  by_cases hn : n < 0
  · simp [hn, moment?, skipDate?, skipTime?, skipMinutes?, fixed?, digit?, Text.hexValue?]
  · simpa [hn] using moment?_digits (digits_toDigits n.natAbs)

theorem decimal?_integerText (n : Int) (rest : List Char) :
    decimal? (integerText n ++ '\n' :: rest) = none := by
  simp [decimal?, sign_integerText, whole?_append, exponent?]

theorem special?_integerText (n : Int) (rest : List Char) :
    special? (integerText n ++ '\n' :: rest) = none := by
  obtain ⟨c, cs, hcs, hc⟩ := exists_toDigits n.natAbs
  have hletter : ∀ {negative negative' : Bool} {x : Char} {more : List Char},
      digit? 10 x = none → (negative, c :: cs ++ '\n' :: rest) ≠ (negative', x :: more) :=
    fun hx h => hc _ hx (List.cons.inj (Prod.mk.inj h).2).1
  rw [special?, sign_integerText, hcs]
  split
  · next heq => exact absurd heq (hletter (by decide))
  · next heq => exact absurd heq (hletter (by decide))
  · next heq => exact absurd heq (hletter (by decide))
  · next heq => exact absurd heq (hletter (by decide))
  · rfl

/-- The integers of 64 bits. -/
def IsInt64 (n : Int) : Prop := -0x8000000000000000 ≤ n ∧ n ≤ 0x7FFFFFFFFFFFFFFF

theorem integer?_integerText {n : Int} (hn : IsInt64 n) (rest : List Char) :
    integer? (integerText n ++ '\n' :: rest) = some (.integer n, '\n' :: rest) := by
  -- a numeral that begins with a zero ends with it, so no letter that names a base follows
  have hbase : ∀ {x : Char} {more : List Char}, x ≠ '\n' →
      integerText n ++ '\n' :: rest ≠ '0' :: x :: more := by
    intro x more hx h
    have hsign : ¬n < 0 := by
      intro hneg
      simp [integerText, hneg] at h
    have hzero : n.natAbs = 0 := by
      refine Text.eq_zero_of_head?_toDigits ?_
      obtain ⟨c, cs, hcs, -⟩ := exists_toDigits n.natAbs
      rw [integerText, if_neg hsign, hcs] at h
      rw [hcs, (List.cons.inj h).1]
      rfl
    rw [integerText, if_neg hsign, hzero] at h
    exact hx (List.cons.inj (List.cons.inj h).2).1.symm
  unfold integer?
  split
  · next heq => exact absurd heq (hbase (by decide))
  · next heq => exact absurd heq (hbase (by decide))
  · next heq => exact absurd heq (hbase (by decide))
  · simp only [sign_integerText, whole?_append, Option.bind_eq_bind, Option.bind_some,
      ofDigits_values]
    obtain ⟨hlow, hhigh⟩ := hn
    by_cases hneg : n < 0
    · have habs : -(n.natAbs : Int) = n := by omega
      have hbound : n.natAbs ≤ 0x8000000000000000 := by omega
      simp only [hneg, habs, hbound, decide_true, if_true]
      rfl
    · have habs : (n.natAbs : Int) = n := by omega
      have hbound : n.natAbs ≤ 0x7FFFFFFFFFFFFFFF := by omega
      simp only [hneg, habs, hbound, decide_false, if_true]
      rfl

/-- An integer begins with a digit or a minus. -/
theorem exists_integerText (n : Int) :
    ∃ c cs, integerText n = c :: cs ∧ ∀ x, digit? 10 x = none → x ≠ '-' → c ≠ x := by
  obtain ⟨c, cs, hcs, hc⟩ := exists_toDigits n.natAbs
  by_cases hneg : n < 0
  · exact ⟨'-', _, by rw [integerText, if_pos hneg]; rfl, fun x _ hx => hx.symm⟩
  · exact ⟨c, cs, by rw [integerText, if_neg hneg, hcs]; rfl, fun x hx _ => hc x hx⟩

theorem scalar_integerText {n : Int} (hn : IsInt64 n) (rest : List Char) :
    scalar (integerText n ++ '\n' :: rest) = some (.integer n, '\n' :: rest) := by
  obtain ⟨c, cs, hcs, hc⟩ := exists_integerText n
  unfold scalar
  split
  · next heq =>
    rw [hcs] at heq
    exact absurd (List.cons.inj heq).1 (hc 't' (by decide) (by decide))
  · next heq =>
    rw [hcs] at heq
    exact absurd (List.cons.inj heq).1 (hc 'f' (by decide) (by decide))
  · rw [moment?_integerText, decimal?_integerText, special?_integerText, integer?_integerText hn]
    rfl

theorem spellsValue_integer {n : Int} (hn : IsInt64 n) :
    SpellsValue (integerText n) (.integer n) := by
  obtain ⟨c, cs, hcs, hc⟩ := exists_integerText n
  constructor
  case first =>
    intro x hx
    rw [hcs] at hx
    obtain rfl := Option.some.inj hx
    rw [isSpace, Bool.or_eq_false_iff, beq_eq_false_iff_ne, beq_eq_false_iff_ne]
    exact ⟨hc ' ' (by decide) (by decide), hc '\t' (by decide) (by decide)⟩
  case read =>
    intro rest
    rw [← scalar_integerText hn rest, hcs, List.cons_append, value?.eq_def]
    dsimp only
    split
    · next heq => exact absurd (List.cons.inj heq).1 (hc '[' (by decide) (by decide))
    · next heq => exact absurd (List.cons.inj heq).1 (hc '\x7b' (by decide) (by decide))
    · next heq => exact absurd (List.cons.inj heq).1 (hc '"' (by decide) (by decide))
    · next heq => exact absurd (List.cons.inj heq).1 (hc '\'' (by decide) (by decide))
    · rfl

/-! ## Documents -/

/-- A text that spells a string or an integer. -/
inductive SpellsScalar : Document → List Char → Prop
  | string {s : String} {text : List Char} (h : SpellsString s text) : SpellsScalar (.string s) text
  | integer {n : Int} (hn : IsInt64 n) : SpellsScalar (.integer n) (integerText n)

/-- A text that gives values to names, one on each line. -/
inductive Printed : List (String × Document) → List Char → Prop
  | nil : Printed [] []
  | cons {name : String} {v : Document} {es : List (String × Document)} {key text rest : List Char}
      (hkey : SpellsKey name key) (hv : SpellsScalar v text) (h : Printed es rest) :
      Printed ((name, v) :: es) (key ++ ([' ', '=', ' '] ++ text) ++ '\n' :: rest)

variable {es : List (String × Document)} {text : List Char} {v : Document}

/-- Strings and integers can be printed under any names. -/
theorem exists_printed (h : ∀ e ∈ es, (∃ s, e.2 = .string s) ∨ ∃ n, IsInt64 n ∧ e.2 = .integer n) :
    ∃ text, Printed es text := by
  induction es with
  | nil => exact ⟨[], .nil⟩
  | cons e es ih =>
    obtain ⟨name, v⟩ := e
    obtain ⟨rest, hrest⟩ := ih fun e he => h e (List.mem_cons_of_mem _ he)
    have hkey := SpellsKey.basic (shown_escaped false name.toList)
    rcases h _ List.mem_cons_self with ⟨s, rfl⟩ | ⟨n, hn, rfl⟩
    · exact ⟨_, .cons hkey (.string (spellsString_quotedString s)) hrest⟩
    · exact ⟨_, .cons hkey (.integer hn) hrest⟩

theorem SpellsScalar.spellsValue (h : SpellsScalar v text) : SpellsValue text v := by
  cases h with
  | string h => exact spellsValue_string h
  | integer hn => exact spellsValue_integer hn

/-- The line that gives a name its value. -/
def assignmentOf (e : String × Document) : Assignment := ⟨[], e.1, e.2⟩

theorem SpellsScalar.wellFormed (h : SpellsScalar v text) : v.wellFormed = true := by
  cases h <;> rfl

theorem Printed.wellFormed (h : Printed es text) : ∀ e ∈ es, e.2.wellFormed = true := by
  induction h with
  | nil => simp
  | cons _ hv _ ih => exact List.forall_mem_cons.2 ⟨hv.wellFormed, ih⟩

theorem Printed.readsAs (h : Printed es text) :
    ReadsAs text (es.map fun e => .assign (assignmentOf e)) := by
  induction h with
  | nil => exact readsAs_nil
  | cons hkey hv _ ih => exact ih.assign hkey hv.spellsValue

/-- The table in which names have values. -/
def valueEntries (es : List (String × Document)) : Entries := es.map fun e => (e.1, .value e.2)

theorem addAll?_assignments {done : List (String × Document)}
    (h : ((done ++ es).map (·.1)).Nodup) :
    Entries.addAll? (es.map assignmentOf) (valueEntries done) =
      some (valueEntries (done ++ es)) := by
  induction es generalizing done with
  | nil => rw [List.append_nil]; rfl
  | cons e es ih =>
    have hnew : (valueEntries done).lookup e.1 = none := by
      refine List.lookup_eq_none_iff.2 fun entry hentry => ?_
      obtain ⟨d, hd, rfl⟩ := List.mem_map.1 hentry
      rw [List.map_append, List.nodup_append] at h
      have hne := h.2.2 d.1 (List.mem_map_of_mem hd) e.1 (by simp)
      simpa using hne.symm
    have hadd : (valueEntries done).addDotted? [] e.1 e.2 = some (valueEntries (done ++ [e])) := by
      have hconcat : valueEntries (done ++ [e]) = valueEntries done ++ [(e.1, .value e.2)] := by
        simp [valueEntries]
      simp [Entries.addDotted?, Entries.update?, Entries.add?, hnew, hconcat]
    rw [List.append_cons] at h ⊢
    rw [Entries.addAll?, List.map_cons, List.foldlM_cons, assignmentOf, hadd, Option.bind_eq_bind,
      Option.bind_some]
    exact ih h

/-- The members of such a table are what it was made of. -/
theorem entries?_valueEntries (es : List (String × Document)) :
    (Entries.toMembers (valueEntries es)).entries? = some es := by
  induction es with
  | nil => rfl
  | cons e es ih =>
    rw [valueEntries, List.map_cons, Entries.toMembers, Document.Members.entries?]
    rw [valueEntries] at ih
    rw [ih]
    rfl

/-- No byte order mark stands before a name. -/
theorem Printed.dropMark (h : Printed es text) : dropMark text = text := by
  cases h with
  | nil => rfl
  | cons hkey =>
    obtain ⟨c, cs, rfl, hc⟩ := hkey.exists_cons
    unfold Toml.dropMark
    split
    · next heq => exact absurd (List.cons.inj heq).1 (hc.ne (by decide))
    · rfl

/-- **A printed document is read back**, its members in order. -/
theorem document?_printed {s : String} (h : Printed es s.toList) (hnames : (es.map (·.1)).Nodup) :
    document? s = some (.table (Entries.toMembers (valueEntries es))) := by
  have hlines := h.readsAs (s.toList.length + 1) (Nat.lt_succ_self _)
  have htable : tableOfLines? (es.map fun e => .assign (assignmentOf e)) =
      some (valueEntries es) := by
    have hsections : sections (es.map fun e => .assign (assignmentOf e)) =
        (es.map assignmentOf, []) := by
      simpa [sections, Function.comp_def] using sections_assign (es.map assignmentOf) []
    have hadd : Entries.addAll? (es.map assignmentOf) (valueEntries []) =
        some (valueEntries ([] ++ es)) := addAll?_assignments hnames
    rw [tableOfLines?, hsections]
    change (Entries.addAll? (es.map assignmentOf) (valueEntries [])).bind _ = _
    rw [hadd]
    rfl
  rw [document?, h.dropMark, hlines, Option.bind_eq_bind, Option.bind_some, htable]
  rfl

end CredentialBench.Toml
