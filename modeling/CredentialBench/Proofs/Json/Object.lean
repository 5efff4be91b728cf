import CredentialBench.Proofs.Document.Records
import CredentialBench.Proofs.Json.Writing

/-!
# Objects by their members

An object taken apart into its members as they are written: each name, however it is escaped, with
the text of its value (`SpellsObject`). Every text that spells a document is well formed and spells
no other one, so what a member holds is told by its text (`held`, `SpellsObject.table`). The texts
that spell integers are the literals without fraction and exponent, minus zero apart
(`spells_integer_iff`).
-/

namespace CredentialBench.Json

/-- The members of an object as they are written: each name, and the text of its value. -/
abbrev Written : Type := List (String × List UInt8)

/-- The members of an object, of which there is at least one, and its closing brace. -/
inductive SpellsWritten : List UInt8 → Written → Prop
  | last {ns bs ws : List UInt8} {name : String} {doc : Document} (hn : SpellsName ns (some name))
      (h : Spells bs doc) (hw : Space ws) :
      SpellsWritten (ns ++ (bs ++ (ws ++ [0x7D]))) [(name, bs)]
  | next {ns bs ws bs' : List UInt8} {name : String} {doc : Document} {vs : Written}
      (hn : SpellsName ns (some name)) (h : Spells bs doc) (hw : Space ws)
      (hr : SpellsWritten bs' vs) :
      SpellsWritten (ns ++ (bs ++ (ws ++ 0x2C :: bs'))) ((name, bs) :: vs)

/-- An object, with white space around it. -/
inductive SpellsObject : List UInt8 → Written → Prop
  | empty {before ws after : List UInt8} (hb : Space before) (hw : Space ws) (ha : Space after) :
      SpellsObject (before ++ 0x7B :: (ws ++ [0x7D]) ++ after) []
  | members {before bs after : List UInt8} {vs : Written} (hb : Space before)
      (h : SpellsWritten bs vs) (ha : Space after) : SpellsObject (before ++ 0x7B :: bs ++ after) vs

/-- An integer literal, with white space before it: decimal digits, perhaps behind a minus. Minus
zero is none. -/
inductive SpellsInteger : List UInt8 → Int → Prop
  | space {b : UInt8} {bs : List UInt8} {n : Int} (hb : isSpace b = true)
      (h : SpellsInteger bs n) : SpellsInteger (b :: bs) n
  | natural {ds : List Nat} (h : Numeral.Whole ds) :
      SpellsInteger (ds.map Numeral.digitByte) (Numeral.ofDigits ds)
  | negative {ds : List Nat} (h : Numeral.Whole ds) (hpos : 0 < Numeral.ofDigits ds) :
      SpellsInteger (0x2D :: ds.map Numeral.digitByte) (-(Numeral.ofDigits ds : Int))

/-! ## What a text holds -/

/-- The document that a text is read as. -/
def held (bs : List UInt8) : Document := (Reading.ofBytes bs).document

/-- **A text spells one document at most**: the one that it is read as. -/
theorem Spells.held_eq {bs : List UInt8} {doc : Document} (h : Spells bs doc) : held bs = doc := by
  have hread := ofBytes_of_spells h space_nil
  rw [List.append_nil] at hread
  rw [held, hread]

theorem held_eq_iff {bs : List UInt8} (h : Spells bs (held bs)) {doc : Document} :
    held bs = doc ↔ Spells bs doc :=
  ⟨fun e => e ▸ h, Spells.held_eq⟩

/-- A numeral is the integer that its digits write if it has neither a fraction nor an exponent,
64 bits hold it, and it is not minus zero. -/
theorem Numeral.document_eq_integer_iff {n : Numeral} {k : Int} :
    n.document = .integer k ↔ n.fraction = none ∧ n.exponent = none ∧
      (if n.negative then 0 < ofDigits n.whole ∧ k = -(ofDigits n.whole : Int)
        else k = ofDigits n.whole) ∧
      -0x8000000000000000 ≤ k ∧ k ≤ 0xFFFFFFFFFFFFFFFF := by
  obtain ⟨negative, whole, fraction, exponent⟩ := n
  cases hf : (Numeral.mk negative whole fraction exponent).float? <;> cases fraction <;>
    cases exponent <;> simp [document, hf]
  all_goals (cases negative <;> simp <;> grind)

theorem Numeral.document_wellFormed (n : Numeral) : n.document.wellFormed = true := by
  cases hf : n.float? <;> simp only [document, hf] <;> repeat' split
  all_goals rfl

mutual

theorem Spells.wellFormed {bs : List UInt8} {doc : Document} :
    Spells bs doc → doc.wellFormed = true
  | .space _ h => h.wellFormed
  | .null => rfl
  | .boolean _ => rfl
  | @Spells.numeral _ n _ => n.document_wellFormed
  | .string _ _ => rfl
  | .unreadable _ _ => rfl
  | .emptyArray _ => rfl
  | .array h => h.wellFormed
  | .emptyTable _ => rfl
  | .table h => h.wellFormed

theorem SpellsItems.wellFormed {bs : List UInt8} {is : Document.Items} :
    SpellsItems bs is → is.wellFormed = true
  | .last h _ => by simp [Document.Items.wellFormed, h.wellFormed]
  | .next h _ hr => by simp [Document.Items.wellFormed, h.wellFormed, hr.wellFormed]

theorem SpellsMembers.wellFormed {bs : List UInt8} {ms : Document.Members} :
    SpellsMembers bs ms → ms.wellFormed = true
  | .last _ h _ => by simp [Document.Members.wellFormed, h.wellFormed]
  | .next _ h _ hr => by simp [Document.Members.wellFormed, h.wellFormed, hr.wellFormed]

end

/-! ## Integers -/

theorem SpellsInteger.spells {bs : List UInt8} {n : Int} (h : SpellsInteger bs n)
    (hlo : -0x8000000000000000 ≤ n) (hhi : n ≤ 0xFFFFFFFFFFFFFFFF) : Spells bs (.integer n) := by
  induction h with
  | space hb _ ih => exact .space hb (ih hlo hhi)
  | @natural ds h =>
    have hspells := @Numeral.Spells.mk false _ _ _ _ _ h .absent .absent
    have hdoc : (Numeral.mk false ds none none).document = .integer (Numeral.ofDigits ds) :=
      Numeral.document_eq_integer_iff.2 ⟨rfl, rfl, rfl, hlo, hhi⟩
    have := Spells.numeral hspells
    rw [hdoc] at this
    simpa using this
  | @negative ds h hpos =>
    have hspells := @Numeral.Spells.mk true _ _ _ _ _ h .absent .absent
    have hdoc : (Numeral.mk true ds none none).document = .integer (-(Numeral.ofDigits ds : Int)) :=
      Numeral.document_eq_integer_iff.2 ⟨rfl, rfl, ⟨hpos, rfl⟩, hlo, hhi⟩
    have := Spells.numeral hspells
    rw [hdoc] at this
    simpa using this

theorem Numeral.Spells.integer {bs : List UInt8} {n : Numeral} (h : Numeral.Spells bs n) {k : Int}
    (hk : n.document = .integer k) : SpellsInteger bs k := by
  obtain ⟨hfraction, hexponent, hvalue, -⟩ := document_eq_integer_iff.1 hk
  obtain @⟨negative, whole, fs, es, fraction, exponent, hw, hf, he⟩ := h
  dsimp only at hfraction hexponent hvalue
  subst hfraction hexponent
  cases hf
  cases he
  cases negative with
  | true =>
    obtain ⟨hpos, rfl⟩ := hvalue
    simpa using SpellsInteger.negative hw hpos
  | false =>
    obtain rfl := hvalue
    simpa using SpellsInteger.natural hw

theorem Spells.integer {bs : List UInt8} {n : Int} {doc : Document} :
    Spells bs doc → doc = .integer n →
      SpellsInteger bs n ∧ -0x8000000000000000 ≤ n ∧ n ≤ 0xFFFFFFFFFFFFFFFF
  | .space hb h, e => (h.integer e).imp_left (.space hb)
  | .numeral h, e => ⟨h.integer e, (Numeral.document_eq_integer_iff.1 e).2.2.2⟩

/-- **What spells an integer** is an integer literal that 64 bits hold. -/
theorem spells_integer_iff {bs : List UInt8} {n : Int} :
    Spells bs (.integer n) ↔
      SpellsInteger bs n ∧ -0x8000000000000000 ≤ n ∧ n ≤ 0xFFFFFFFFFFFFFFFF :=
  ⟨fun h => h.integer rfl, fun ⟨h, hlo, hhi⟩ => h.spells hlo hhi⟩

/-! ## Members -/

/-- The members with what their texts hold. -/
def Written.held (vs : Written) : List (String × Document) := vs.map fun v => (v.1, Json.held v.2)

theorem SpellsWritten.members {bs : List UInt8} {vs : Written} (h : SpellsWritten bs vs) :
    (∃ ms, SpellsMembers bs ms ∧ ms.entries? = some vs.held) ∧
      ∀ v ∈ vs, Spells v.2 (Json.held v.2) := by
  induction h with
  | @last ns bs ws name doc hn h hw =>
    rw [List.forall_mem_singleton, h.held_eq]
    refine ⟨⟨_, .last hn h hw, ?_⟩, h⟩
    rw [Written.held, List.map_singleton, h.held_eq]
    rfl
  | @next ns bs ws bs' name doc vs hn h hw _ ih =>
    obtain ⟨⟨ms, hms, hes⟩, hvs⟩ := ih
    rw [List.forall_mem_cons, h.held_eq]
    have hcons : Written.held ((name, bs) :: vs) = (name, doc) :: vs.held := by
      rw [Written.held, List.map_cons, h.held_eq, Written.held]
    refine ⟨⟨_, .next hn h hw hms, ?_⟩, h, hvs⟩
    rw [Document.Members.entries?, hes, hcons]
    rfl

/-- **An object is read as the table of its members**, each with what its text holds. -/
theorem SpellsObject.table {bs : List UInt8} {vs : Written} (h : SpellsObject bs vs) :
    (∃ text after ms, bs = text ++ after ∧ Space after ∧ Spells text (.table ms) ∧
      ms.entries? = some vs.held) ∧ ∀ v ∈ vs, Spells v.2 (Json.held v.2) := by
  cases h with
  | empty hb hw ha =>
    exact ⟨⟨_, _, _, rfl, ha, (Spells.emptyTable hw).spaces hb, rfl⟩, nofun⟩
  | members hb h ha =>
    obtain ⟨⟨ms, hms, hes⟩, hvs⟩ := h.members
    exact ⟨⟨_, _, _, rfl, ha, (Spells.table hms).spaces hb, hes⟩, hvs⟩

end CredentialBench.Json
