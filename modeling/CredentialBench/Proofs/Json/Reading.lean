import CredentialBench.Proofs.Json.Grammar

/-!
# Reading what the grammar derives

Every text that spells a document is read as that document, to its end. A numeral is the only token
that does not show its own end, so what follows it must not go on with it (`Numeral.Stops`). The
fuel of the reader is enough for every text: two calls for each byte at most.

Main statement: `ofBytes_of_spells`.
-/

namespace CredentialBench.Json

/-! ## Numerals -/

namespace Numeral

/-- No byte that could go on with a numeral is next. -/
def Stops (bs : List UInt8) : Prop :=
  ∀ b r, bs = b :: r → digit? b = none ∧ b ≠ 0x2E ∧ b ≠ 0x65 ∧ b ≠ 0x45

theorem stops_nil : Stops [] := by
  intro b r h
  cases h

theorem stops_cons {b : UInt8} (r : List UInt8) (h : digit? b = none)
    (h' : b ≠ 0x2E ∧ b ≠ 0x65 ∧ b ≠ 0x45) : Stops (b :: r) := by
  rintro _ _ ⟨⟩
  exact ⟨h, h'⟩

theorem digit?_digitByte {d : Nat} (h : d < 10) : digit? (digitByte d) = some d := by
  revert h; revert d; decide

theorem digitByte_ne {d : Nat} (h : d < 10) {b : UInt8} (hb : digit? b = none) :
    digitByte d ≠ b := by
  rintro rfl
  rw [digit?_digitByte h] at hb
  cases hb

theorem isSpace_digitByte {d : Nat} (h : d < 10) : isSpace (digitByte d) = false := by
  revert h; revert d; decide

/-- The first byte of some digits. -/
theorem Digits.head {ds : List Nat} (h : Digits ds) :
    ∃ d r, d < 10 ∧ ds.map digitByte = digitByte d :: r := by
  obtain ⟨d, r, rfl⟩ := List.exists_cons_of_ne_nil h.ne_nil
  exact ⟨d, _, h.lt_ten d (by simp), rfl⟩

/-- Digits end where no digit is next. -/
theorem digits_append {ds : List Nat} (h : ∀ d ∈ ds, d < 10) {rest : List UInt8}
    (hr : ∀ b r, rest = b :: r → digit? b = none) :
    digits (ds.map digitByte ++ rest) = (ds, rest) := by
  induction ds with
  | nil =>
    cases rest with
    | nil => rfl
    | cons b r => simp [digits, hr b r rfl]
  | cons d ds ih =>
    have hd := digit?_digitByte (h d (by simp))
    simp [digits, hd, ih fun d' hd' => h d' (by simp [hd'])]

theorem digits?_append {ds : List Nat} (h : Digits ds) {rest : List UInt8}
    (hr : ∀ b r, rest = b :: r → digit? b = none) :
    digits? (ds.map digitByte ++ rest) = some (ds, rest) := by
  rw [digits?, digits_append h.lt_ten hr]
  cases ds with
  | nil => exact absurd rfl h.ne_nil
  | cons d ds => rfl

theorem whole?_append {ds : List Nat} (h : Whole ds) {rest : List UInt8}
    (hr : ∀ b r, rest = b :: r → digit? b = none) :
    whole? (ds.map digitByte ++ rest) = some (ds, rest) := by
  rw [whole?, digits_append h.lt_ten hr]
  match ds, h with
  | [], h => exact absurd rfl h.ne_nil
  | [d], _ => cases d <;> rfl
  | 0 :: d :: ds, h => cases h.zero_alone _ rfl
  | (d + 1) :: d' :: ds, _ => rfl

theorem fraction?_append {fs : List UInt8} {fraction : Option (List Nat)}
    (h : SpellsFraction fs fraction) {rest : List UInt8}
    (hr : ∀ b r, rest = b :: r → digit? b = none ∧ b ≠ 0x2E) :
    fraction? (fs ++ rest) = some (fraction, rest) := by
  cases h with
  | absent =>
    cases rest with
    | nil => rfl
    | cons b r =>
      have hb := (hr b r rfl).2
      simp only [List.nil_append, fraction?]
      split
      · rename_i heq
        exact absurd (List.cons.inj heq).1 hb
      · rfl
  | digits h =>
    rw [List.cons_append, fraction?, digits?_append h fun b r e => (hr b r e).1]
    rfl

theorem exponent?_append {es : List UInt8} {exponent : Option (Bool × List Nat)}
    (h : SpellsExponent es exponent) {rest : List UInt8} (hr : Stops rest) :
    exponent? (es ++ rest) = some (exponent, rest) := by
  cases h with
  | absent =>
    cases rest with
    | nil => rfl
    | cons b r =>
      obtain ⟨-, -, he, hE⟩ := hr b r rfl
      simp [exponent?, he, hE]
  | @digits e sign negative ds he hs h =>
    have hds := digits?_append h fun b r e => (hr b r e).1
    obtain ⟨d, r, hd, hhead⟩ := h.head
    rw [List.cons_append, List.append_assoc]
    unfold exponent?
    simp only [he, ↓reduceIte]
    cases hs with
    | plus | minus => simp [hds]
    | absent =>
      -- the first digit is taken neither for a plus nor for a minus
      rw [hhead] at hds
      rw [List.nil_append, hhead, List.cons_append]
      split
      · rename_i heq
        exact absurd (List.cons.inj heq).1 (digitByte_ne hd rfl)
      · rename_i heq
        exact absurd (List.cons.inj heq).1 (digitByte_ne hd rfl)
      · rw [← List.cons_append, hds]
        rfl

/-- Neither a fraction nor an exponent begins with a digit. -/
theorem not_digit_of_spells {fs es : List UInt8} {fraction : Option (List Nat)}
    {exponent : Option (Bool × List Nat)} (hf : SpellsFraction fs fraction)
    (he : SpellsExponent es exponent) {rest : List UInt8} (hr : Stops rest) :
    (∀ b r, es ++ rest = b :: r → digit? b = none ∧ b ≠ 0x2E) ∧
      ∀ b r, fs ++ (es ++ rest) = b :: r → digit? b = none := by
  have hes : ∀ b r, es ++ rest = b :: r → digit? b = none ∧ b ≠ 0x2E := by
    intro b r hbr
    cases he with
    | absent => exact ⟨(hr b r hbr).1, (hr b r hbr).2.1⟩
    | digits he _ _ =>
      obtain ⟨rfl, -⟩ := List.cons.inj hbr
      rcases he with rfl | rfl <;> decide
  refine ⟨hes, fun b r hbr => ?_⟩
  cases hf with
  | absent => exact (hes b r hbr).1
  | digits _ =>
    obtain ⟨rfl, -⟩ := List.cons.inj hbr
    decide

theorem read?_of_spells {bs : List UInt8} {n : Numeral} (h : Spells bs n) {rest : List UInt8}
    (hr : Stops rest) : read? (bs ++ rest) = some (n, rest) := by
  obtain @⟨negative, whole, fs, es, fraction, exponent, hw, hf, he⟩ := h
  obtain ⟨hes, hfs⟩ := not_digit_of_spells hf he hr
  have hwhole := whole?_append hw hfs
  have hf := fraction?_append hf hes
  have he := exponent?_append he hr
  cases negative with
  | true => simp [read?, hwhole, hf, he]
  | false =>
    obtain ⟨d, r, hd, hhead⟩ := hw.head
    rw [hhead] at hwhole
    simp only [read?, Bool.false_eq_true, ↓reduceIte, List.nil_append, List.append_assoc, hhead]
    rw [List.cons_append] at hwhole ⊢
    split
    · rename_i heq
      exact absurd (List.cons.inj heq).1 (digitByte_ne hd rfl)
    · simp [hwhole, hf, he]

/-- A numeral begins with a minus or with a digit. -/
theorem Spells.head {bs : List UInt8} {n : Numeral} (h : Spells bs n) :
    ∃ b r, bs = b :: r ∧ (b = 0x2D ∨ ∃ d < 10, b = digitByte d) := by
  obtain @⟨negative, whole, fs, es, fraction, exponent, hw, hf, he⟩ := h
  obtain ⟨d, r, hd, hhead⟩ := hw.head
  cases negative with
  | true => exact ⟨0x2D, _, rfl, .inl rfl⟩
  | false => exact ⟨digitByte d, r ++ (fs ++ es), by simp [hhead], .inr ⟨d, hd, rfl⟩⟩

end Numeral

/-! ## Strings -/

theorem Piece.read?_of_spells {bs : List UInt8} {ps : List Piece} (h : Piece.Spells bs ps)
    (rest : List UInt8) : Piece.read? (bs ++ 0x22 :: rest) = some (ps, rest) := by
  induction h with
  | nil => rfl
  | @plain b bs ps hl hq he h ih =>
    have hl : ¬b.toNat < 0x20 := Nat.not_lt.2 hl
    simp [Piece.read?, he, hl, ih]
  | @letter e b bs ps he h ih =>
    have hu : e ≠ 0x75 := by
      rintro rfl
      cases he
    simp [Piece.read?, hu, he, ih]
  | unit hn h ih => simp [Piece.read?, hn, ih]

/-! ## White space -/

theorem space_nil : Space [] := by
  intro b hb
  cases hb

theorem skipSpace_append {ws : List UInt8} (hw : Space ws) (bs : List UInt8) :
    skipSpace (ws ++ bs) = skipSpace bs := by
  induction ws with
  | nil => rfl
  | cons b ws ih =>
    have hb : isSpace b = true := hw b (by simp)
    simpa [skipSpace, hb] using ih fun b' hb' => hw b' (by simp [hb'])

theorem skipSpace_cons {b : UInt8} (h : isSpace b = false) (bs : List UInt8) :
    skipSpace (b :: bs) = b :: bs := by
  simp [skipSpace, h]

theorem stops_append {ws rest : List UInt8} (hw : Space ws) (hr : Numeral.Stops rest) :
    Numeral.Stops (ws ++ rest) := by
  cases ws with
  | nil => exact hr
  | cons b ws =>
    have hb : isSpace b = true := hw b (by simp)
    simp only [isSpace, Bool.or_eq_true, beq_iff_eq] at hb
    refine Numeral.stops_cons _ ?_ ?_ <;> rcases hb with ((rfl | rfl) | rfl) | rfl <;> decide

/-! ## Documents -/

theorem document_space {b : UInt8} (h : isSpace b = true) (fuel : Nat) (bs : List UInt8) :
    document fuel (b :: bs) = document fuel bs := by
  cases fuel with
  | zero => rfl
  | succ fuel => simp only [document, skipSpace, List.dropWhile_cons, h, ↓reduceIte]

theorem word_append (w : String) (doc : Document) (rest : List UInt8) :
    word w doc (Text.Utf8.bytes w ++ rest) = (doc, some rest) := by
  have hp : (Text.Utf8.bytes w).isPrefixOf (Text.Utf8.bytes w ++ rest) = true :=
    List.isPrefixOf_iff_prefix.2 (List.prefix_append _ _)
  simp [word, word?, hp]

/-- A document is neither empty nor does it begin with a closing bracket. -/
theorem Spells.head {bs : List UInt8} {doc : Document} :
    Spells bs doc → ∀ rest, ∃ b r, skipSpace (bs ++ rest) = b :: r ∧ b ≠ 0x5D
  | .space hb h, rest => by
    obtain ⟨b, r, hs, hne⟩ := h.head rest
    exact ⟨b, r, by simpa [skipSpace, hb] using hs, hne⟩
  | .null, _ => ⟨0x6E, _, rfl, by decide⟩
  | .boolean true, _ => ⟨0x74, _, rfl, by decide⟩
  | .boolean false, _ => ⟨0x66, _, rfl, by decide⟩
  | .numeral h, rest => by
    obtain ⟨b, r, rfl, rfl | ⟨d, hd, rfl⟩⟩ := h.head
    · exact ⟨0x2D, r ++ rest, rfl, by decide⟩
    · exact ⟨Numeral.digitByte d, r ++ rest, skipSpace_cons (Numeral.isSpace_digitByte hd) _,
        Numeral.digitByte_ne hd rfl⟩
  | .string _ _, _ => ⟨0x22, _, rfl, by decide⟩
  | .unreadable _ _, _ => ⟨0x22, _, rfl, by decide⟩
  | .emptyArray _, _ => ⟨0x5B, _, rfl, by decide⟩
  | .array _, _ => ⟨0x5B, _, rfl, by decide⟩
  | .emptyTable _, _ => ⟨0x7B, _, rfl, by decide⟩
  | .table _, _ => ⟨0x7B, _, rfl, by decide⟩

theorem Spells.length_pos {bs : List UInt8} {doc : Document} (h : Spells bs doc) :
    0 < bs.length := by
  obtain ⟨b, r, hs, -⟩ := h.head []
  cases bs with
  | nil => cases hs
  | cons b bs => simp

theorem SpellsItems.head {bs : List UInt8} {is : Document.Items} (h : SpellsItems bs is)
    (rest : List UInt8) : ∃ b r, skipSpace (bs ++ rest) = b :: r ∧ b ≠ 0x5D := by
  cases h with
  | last h _ | next h _ _ =>
    rw [List.append_assoc]
    exact h.head _

/-- A member begins with the quote that opens its name. -/
theorem SpellsMembers.head {bs : List UInt8} {ms : Document.Members} (h : SpellsMembers bs ms)
    (rest : List UInt8) : ∃ r, skipSpace (bs ++ rest) = 0x22 :: r := by
  cases h with
  | last hn _ _ | next hn _ _ _ =>
    obtain ⟨hw, -, -⟩ := hn
    simp only [List.append_assoc, List.cons_append, skipSpace_append hw]
    exact ⟨_, skipSpace_cons rfl _⟩

/-- A numeral is read where a document may stand. -/
theorem document_numeral {bs : List UInt8} {n : Numeral} (h : Numeral.Spells bs n) (fuel : Nat)
    {rest : List UInt8} (hr : Numeral.Stops rest) :
    document (fuel + 1) (bs ++ rest) = (n.document, some rest) := by
  have hread := Numeral.read?_of_spells h hr
  obtain ⟨b, r, rfl, hb⟩ := h.head
  have hkind : isSpace b = false ∧ b ≠ 0x22 ∧ b ≠ 0x5B ∧ b ≠ 0x7B ∧ b ≠ 0x6E ∧ b ≠ 0x74 ∧
      b ≠ 0x66 := by
    rcases hb with rfl | ⟨d, hd, rfl⟩
    · decide
    · have hne {b : UInt8} (hb : Numeral.digit? b = none) := Numeral.digitByte_ne hd hb
      exact ⟨Numeral.isSpace_digitByte hd, hne rfl, hne rfl, hne rfl,
        hne rfl, hne rfl, hne rfl⟩
  obtain ⟨hs, h₁, h₂, h₃, h₄, h₅, h₆⟩ := hkind
  rw [List.cons_append] at hread ⊢
  simp only [document, skipSpace_cons hs, h₁, h₂, h₃, h₄, h₅, h₆, ↓reduceIte, hread]

/-- The members from one on, once its name and its value are read: either the object ends or another
member follows. -/
theorem members_name {ns : List UInt8} {name : Option String} (h : SpellsName ns name) {fuel : Nat}
    {bs rest : List UInt8} {doc : Document} (hd : document fuel bs = (doc, some rest))
    (rest' : List UInt8) :
    (skipSpace rest = 0x7D :: rest' →
      members (fuel + 1) (ns ++ bs) = (.next name doc .closed, some rest')) ∧
    (skipSpace rest = 0x2C :: rest' →
      members (fuel + 1) (ns ++ bs) =
        (.next name doc (members fuel rest').1, (members fuel rest').2)) := by
  obtain @⟨ws, ws', ns, ps, hw, h, hw'⟩ := h
  have hread := Piece.read?_of_spells h (ws' ++ 0x3A :: bs)
  constructor <;> intro hs <;>
    simp only [List.append_assoc, List.cons_append, List.nil_append, members, skipSpace_append hw,
      skipSpace_cons (b := 0x22) rfl, hread, skipSpace_append hw', skipSpace_cons (b := 0x3A) rfl,
      hd, hs]

mutual

theorem document_of_spells {bs : List UInt8} {doc : Document} :
    Spells bs doc → ∀ {fuel : Nat} {rest : List UInt8}, 2 * bs.length + 1 ≤ fuel →
      Numeral.Stops rest → document fuel (bs ++ rest) = (doc, some rest)
  | .space hb h, fuel, rest, hf, hr => by
    rw [List.length_cons] at hf
    rw [List.cons_append, document_space hb]
    exact document_of_spells h (by omega) hr
  | .null, fuel + 1, rest, _, _ => word_append "null" .null rest
  | .boolean true, fuel + 1, rest, _, _ => word_append "true" (.boolean true) rest
  | .boolean false, fuel + 1, rest, _, _ => word_append "false" (.boolean false) rest
  | .numeral h, fuel + 1, rest, _, hr => document_numeral h fuel hr
  | .string h hs, fuel + 1, rest, _, _ => by
    have hread := Piece.read?_of_spells h rest
    simp [document, skipSpace_cons (b := 0x22) rfl, hread, hs]
  | .unreadable h hs, fuel + 1, rest, _, _ => by
    have hread := Piece.read?_of_spells h rest
    simp [document, skipSpace_cons (b := 0x22) rfl, hread, hs]
  | .emptyArray hw, fuel + 1, rest, _, _ => by
    simp [document, skipSpace_cons (b := 0x5B) rfl, skipSpace_append hw,
      skipSpace_cons (b := 0x5D) rfl]
  | @Spells.array bs is h, fuel + 1, rest, hf, _ => by
    rw [List.length_cons] at hf
    have hitems : items fuel (bs ++ rest) = (is, some rest) := items_of_spells h (by omega)
    obtain ⟨b, r, hs, hne⟩ := h.head rest
    rw [List.cons_append]
    simp [document, skipSpace_cons (b := 0x5B) rfl, hs, hne, hitems]
  | .emptyTable hw, fuel + 1, rest, _, _ => by
    simp [document, skipSpace_cons (b := 0x7B) rfl, skipSpace_append hw,
      skipSpace_cons (b := 0x7D) rfl]
  | @Spells.table bs ms h, fuel + 1, rest, hf, _ => by
    rw [List.length_cons] at hf
    have hmembers : members fuel (bs ++ rest) = (ms, some rest) :=
      members_of_spells h (by omega)
    obtain ⟨r, hs⟩ := h.head rest
    rw [List.cons_append]
    simp [document, skipSpace_cons (b := 0x7B) rfl, hs, hmembers]

theorem items_of_spells {bs : List UInt8} {is : Document.Items} :
    SpellsItems bs is → ∀ {fuel : Nat} {rest : List UInt8}, 2 * bs.length ≤ fuel →
      items fuel (bs ++ rest) = (is, some rest)
  | @SpellsItems.last bs ws doc h hw, fuel, rest, hf => by
    simp only [List.length_append, List.length_singleton] at hf
    obtain ⟨fuel, rfl⟩ := Nat.exists_eq_add_of_le' (show 1 ≤ fuel by omega)
    have hdoc : document fuel (bs ++ (ws ++ 0x5D :: rest)) = (doc, some (ws ++ 0x5D :: rest)) :=
      document_of_spells h (by omega) (stops_append hw (Numeral.stops_cons _ rfl (by decide)))
    simp only [List.append_assoc, List.singleton_append, items, hdoc]
    simp [skipSpace_append hw, skipSpace_cons (b := 0x5D) rfl]
  | @SpellsItems.next bs ws bs' doc is h hw hr, fuel, rest, hf => by
    simp only [List.length_append, List.length_cons] at hf
    obtain ⟨fuel, rfl⟩ := Nat.exists_eq_add_of_le' (show 1 ≤ fuel by omega)
    have hpos := h.length_pos
    have hdoc : document fuel (bs ++ (ws ++ 0x2C :: (bs' ++ rest))) =
        (doc, some (ws ++ 0x2C :: (bs' ++ rest))) :=
      document_of_spells h (by omega) (stops_append hw (Numeral.stops_cons _ rfl (by decide)))
    have hrest : items fuel (bs' ++ rest) = (is, some rest) := items_of_spells hr (by omega)
    simp only [List.append_assoc, List.cons_append, items, hdoc]
    simp [skipSpace_append hw, skipSpace_cons (b := 0x2C) rfl, hrest]

theorem members_of_spells {bs : List UInt8} {ms : Document.Members} :
    SpellsMembers bs ms → ∀ {fuel : Nat} {rest : List UInt8}, 2 * bs.length ≤ fuel →
      members fuel (bs ++ rest) = (ms, some rest)
  | @SpellsMembers.last ns bs ws name doc hn h hw, fuel, rest, hf => by
    simp only [List.length_append, List.length_singleton] at hf
    obtain ⟨fuel, rfl⟩ := Nat.exists_eq_add_of_le' (show 1 ≤ fuel by omega)
    have hdoc : document fuel (bs ++ (ws ++ 0x7D :: rest)) = (doc, some (ws ++ 0x7D :: rest)) :=
      document_of_spells h (by omega) (stops_append hw (Numeral.stops_cons _ rfl (by decide)))
    have hend : skipSpace (ws ++ 0x7D :: rest) = 0x7D :: rest := by
      rw [skipSpace_append hw, skipSpace_cons rfl]
    simp only [List.append_assoc, List.singleton_append, (members_name hn hdoc rest).1 hend]
  | @SpellsMembers.next ns bs ws bs' name doc ms hn h hw hr, fuel, rest, hf => by
    simp only [List.length_append, List.length_cons] at hf
    obtain ⟨fuel, rfl⟩ := Nat.exists_eq_add_of_le' (show 1 ≤ fuel by omega)
    have hpos := h.length_pos
    have hdoc : document fuel (bs ++ (ws ++ 0x2C :: (bs' ++ rest))) =
        (doc, some (ws ++ 0x2C :: (bs' ++ rest))) :=
      document_of_spells h (by omega) (stops_append hw (Numeral.stops_cons _ rfl (by decide)))
    have hrest : members fuel (bs' ++ rest) = (ms, some rest) := members_of_spells hr (by omega)
    have hcomma : skipSpace (ws ++ 0x2C :: (bs' ++ rest)) = 0x2C :: (bs' ++ rest) := by
      rw [skipSpace_append hw, skipSpace_cons rfl]
    simp only [List.append_assoc, List.cons_append, (members_name hn hdoc _).2 hcomma, hrest]

end

/-- **A text that spells a document is read as that document, to its end.** -/
theorem ofBytes_of_spells {bs ws : List UInt8} {doc : Document} (h : Spells bs doc)
    (hw : Space ws) : Reading.ofBytes (bs ++ ws) = ⟨doc, true⟩ := by
  have hstops : Numeral.Stops ws := by
    simpa using stops_append hw Numeral.stops_nil
  have hspace : skipSpace ws = [] := by
    simpa [skipSpace] using skipSpace_append hw []
  have hread : document (2 * (bs ++ ws).length + 1) (bs ++ ws) = (doc, some ws) :=
    document_of_spells h (by rw [List.length_append]; omega) hstops
  rw [Reading.ofBytes, hread]
  simp only [hspace, List.isEmpty_nil]

section Decode

variable {α : Type} {d : Document.Decoder α} {a : α}

/-- A text is decoded as its document is read. -/
theorem decode_eq_of_spells {bs ws : List UInt8} {doc : Document} (h : Spells bs doc)
    (hw : Space ws) : decode d (bs ++ ws) = d .json doc := by
  rw [decode, ofBytes_of_spells h hw]
  cases d .json doc <;> rfl

theorem decode_of_spells {bs ws : List UInt8} {doc : Document} (h : Spells bs doc)
    (hw : Space ws) (ha : d .json doc = .ok a) : decode d (bs ++ ws) = .ok a :=
  (decode_eq_of_spells h hw).trans ha

/-- What is decoded has been read from some document. -/
theorem exists_of_decode {bs : List UInt8} (h : decode d bs = .ok a) :
    ∃ doc, d .json doc = .ok a := by
  rw [decode] at h
  cases hd : d .json (Reading.ofBytes bs).document with
  | error fault =>
    rw [hd] at h
    cases h
  | ok b =>
    rw [hd] at h
    cases hc : (Reading.ofBytes bs).complete with
    | false =>
      rw [hc] at h
      cases h
    | true =>
      rw [hc] at h
      cases h
      exact ⟨_, hd⟩

end Decode

end CredentialBench.Json
