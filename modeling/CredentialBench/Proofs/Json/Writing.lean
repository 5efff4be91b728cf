import Mathlib.Tactic.SplitIfs
import CredentialBench.Dictionary
import CredentialBench.Json.Printer
import CredentialBench.Proofs.Json.Reading

/-!
# Reading what the writer writes

The document that a value stands for (`Value.toDocument`), and the proof that the writer's text
spells it in every style whose breaks are white space. The one thing that a text cannot carry
exactly is a number beyond 64 bits, so values are asked to hold none (`Value.isExact`); binary64
numbers are left out altogether. Whatever may stand in a string is escaped and read back.

Main statements: `spells_write`, `ofBytes_write`, `parse?_write`.
-/

namespace CredentialBench.Json

open Text (Utf8.encode Utf8.encode_cons Utf8.encode_append Utf8.encode_nil)

/-! ## Numbers -/

namespace Numeral

/-- The decimal digits of a number, the first one zero only for zero. -/
def decimal (n : Nat) : List Nat :=
  if n < 10 then [n] else decimal (n / 10) ++ [n % 10]

/-- The numeral of an integer. -/
def ofInt (n : Int) : Numeral := ⟨n < 0, decimal n.natAbs, none, none⟩

theorem lt_ten_of_mem_decimal (n : Nat) : ∀ d ∈ decimal n, d < 10 := by
  fun_induction decimal n with
  | case1 n h => simpa using h
  | case2 n h ih =>
    intro d hd
    rcases List.mem_append.1 hd with hd | hd
    · exact ih d hd
    · rw [List.mem_singleton.1 hd]
      exact Nat.mod_lt _ (by omega)

theorem head_decimal (n : Nat) : ∃ d r, decimal n = d :: r ∧ (d = 0 → n = 0) := by
  fun_induction decimal n with
  | case1 n h => exact ⟨n, [], rfl, id⟩
  | case2 n h ih =>
    obtain ⟨d, r, hd, h0⟩ := ih
    refine ⟨d, r ++ [n % 10], by rw [hd]; rfl, fun hz => ?_⟩
    have := h0 hz
    omega

theorem whole_decimal (n : Nat) : Whole (decimal n) where
  ne_nil := by
    obtain ⟨d, r, hd, -⟩ := head_decimal n
    rw [hd]
    exact List.cons_ne_nil d r
  lt_ten := lt_ten_of_mem_decimal n
  zero_alone rest h := by
    obtain ⟨d, r, hd, h0⟩ := head_decimal n
    obtain ⟨rfl, rfl⟩ := List.cons.inj (hd.symm.trans h)
    rw [h0 rfl, decimal, if_pos (by omega)] at h
    exact (List.cons.inj h).2.symm

theorem ofDigits_append_singleton (ds : List Nat) (d : Nat) :
    ofDigits (ds ++ [d]) = ofDigits ds * 10 + d := by
  simp [ofDigits]

theorem ofDigits_decimal (n : Nat) : ofDigits (decimal n) = n := by
  fun_induction decimal n with
  | case1 n h => simp [ofDigits]
  | case2 n h ih =>
    rw [ofDigits_append_singleton, ih]
    omega

theorem encode_digitChar {d : Nat} (h : d < 10) :
    String.utf8EncodeChar (Nat.digitChar d) = [digitByte d] := by
  revert h; revert d; decide

theorem encode_toDigits (n : Nat) :
    Utf8.encode (Nat.toDigits 10 n) = (decimal n).map digitByte := by
  fun_induction decimal n with
  | case1 n h =>
    rw [Nat.toDigits_of_lt_base h, Utf8.encode_cons, encode_digitChar h]
    rfl
  | case2 n h ih =>
    have hlast : n % 10 < 10 := Nat.mod_lt _ (by omega)
    rw [Nat.toDigits_of_base_le (by omega) (by omega), Utf8.encode_append, ih,
      Utf8.encode_cons, encode_digitChar hlast, List.map_append]
    rfl

/-- A number below a power of ten takes no more digits than that. -/
theorem length_encode_toDigits_le {n k : Nat} (hk : 0 < k) (h : n < Nat.pow 10 k) :
    (Utf8.encode (Nat.toDigits 10 n)).length ≤ k := by
  have hlength : (decimal n).length = (Nat.toDigits 10 n).length := by
    fun_induction decimal n with
    | case1 n hn =>
      rw [Nat.toDigits_of_lt_base hn]
      rfl
    | case2 n hn ih =>
      rw [Nat.toDigits_of_base_le (by omega) (by omega), List.length_append, List.length_append,
        ih (by omega)]
      rfl
  rw [encode_toDigits, List.length_map, hlength]
  exact (Nat.length_toDigits_le_iff (by omega) hk).2 h

theorem spells_ofInt (n : Int) : Spells (Utf8.encode (toString n).toList) (ofInt n) := by
  have hbytes : Utf8.encode (toString n).toList =
      (if decide (n < 0) = true then [0x2D] else []) ++
        ((decimal n.natAbs).map digitByte ++ ([] ++ [])) := by
    rw [Int.toString_eq_repr, Int.repr_eq_if]
    by_cases hn : n < 0
    · have habs : (-n).toNat = n.natAbs := by omega
      rw [if_neg (by omega), String.toList_append, Nat.toList_repr, habs, Utf8.encode_append,
        encode_toDigits, List.append_nil, List.append_nil, decide_eq_true hn]
      rfl
    · have habs : n.toNat = n.natAbs := by omega
      rw [if_pos (by omega), Nat.toList_repr, habs, encode_toDigits, List.append_nil,
        List.append_nil, decide_eq_false hn]
      rfl
  rw [hbytes]
  exact .mk (whole_decimal n.natAbs) .absent .absent

/-- Whether an integer is one of 64 bits, with or without a sign. -/
def isInteger64 (n : Int) : Bool := -0x8000000000000000 ≤ n && n ≤ 0xFFFFFFFFFFFFFFFF

theorem document_ofInt {n : Int} (h : isInteger64 n = true) : (ofInt n).document = .integer n := by
  simp only [isInteger64, Bool.and_eq_true, decide_eq_true_eq] at h
  by_cases hn : n < 0
  · have hm : 0 < n.natAbs ∧ n.natAbs ≤ 0x8000000000000000 := by omega
    have hneg : -(n.natAbs : Int) = n := by omega
    simp only [document, ofInt, hn, decide_true, ↓reduceIte, ofDigits_decimal, hm, and_self, hneg]
  · have hm : n.natAbs ≤ 0xFFFFFFFFFFFFFFFF := by omega
    have hpos : (n.natAbs : Int) = n := by omega
    simp only [document, ofInt, hn, decide_false, Bool.false_eq_true, ↓reduceIte, ofDigits_decimal,
      hm, hpos]

end Numeral

/-! ## Strings -/

/-- The parts of which the writer makes a character. -/
def pieces (c : Char) : List Piece :=
  if c.toNat < 0x20 ∧ c ∉ ['\n', '\r', '\t', '\x08', '\x0c'] then [.unit c.toNat]
  else (String.utf8EncodeChar c).map .byte

namespace Piece

theorem spells_bytes {cs bs : List UInt8} {ps : List Piece}
    (hc : ∀ b ∈ cs, 0x20 ≤ b.toNat ∧ b ≠ 0x22 ∧ b ≠ 0x5C) (h : Spells bs ps) :
    Spells (cs ++ bs) (cs.map .byte ++ ps) := by
  induction cs with
  | nil => exact h
  | cons b cs ih =>
    obtain ⟨hl, hq, he⟩ := hc b List.mem_cons_self
    exact .plain hl hq he (ih fun b' hb' => hc b' (List.mem_cons_of_mem b hb'))

/-- The byte of a hexadecimal digit. -/
def hexByte (d : Nat) : UInt8 := UInt8.ofNat (Text.hexDigit d).toNat

/-- The number of a control character is written by four digits and read back. -/
theorem unit?_hexPadded {n : Nat} (h : n < 0x20) :
    Utf8.encode (Text.hexPadded 4 n) = [0x30, 0x30, hexByte (n / 16), hexByte (n % 16)] ∧
      unit? 0x30 0x30 (hexByte (n / 16)) (hexByte (n % 16)) = some n := by
  revert h; revert n; decide

theorem spells_escapedChar (c : Char) {bs : List UInt8} {ps : List Piece} (h : Spells bs ps) :
    Spells (Utf8.encode (escapedChar c) ++ bs) (pieces c ++ ps) := by
  unfold escapedChar
  split_ifs with hq he hn hr ht hb hf hl
  · subst hq; exact .letter rfl h
  · subst he; exact .letter rfl h
  · subst hn; exact .letter rfl h
  · subst hr; exact .letter rfl h
  · subst ht; exact .letter rfl h
  · subst hb; exact .letter rfl h
  · subst hf; exact .letter rfl h
  · obtain ⟨hhex, hunit⟩ := unit?_hexPadded hl
    have hp : pieces c = [.unit c.toNat] := by
      rw [pieces, if_pos ⟨hl, by simp [hn, hr, ht, hb, hf]⟩]
    rw [hp, Utf8.encode_append, hhex]
    exact .unit hunit h
  · have hp : pieces c = (String.utf8EncodeChar c).map .byte := by
      rw [pieces, if_neg fun hc => hl hc.1]
    rw [hp, Utf8.encode_cons, Utf8.encode_nil, List.append_nil]
    refine spells_bytes (fun b hb => ?_) h
    by_cases ha : c.toNat < 0x80
    · rw [Text.Utf8.utf8EncodeChar_ascii ha, List.mem_singleton] at hb
      have hbc : b.toNat = c.toNat := by
        rw [hb, UInt8.toNat_ofNat']
        omega
      refine ⟨by omega, ?_, ?_⟩
      · rintro rfl
        exact hq (Char.toNat_inj.1 hbc.symm)
      · rintro rfl
        exact he (Char.toNat_inj.1 hbc.symm)
    · have hb := Text.Utf8.le_of_mem_utf8EncodeChar (Nat.not_lt.1 ha) hb
      refine ⟨by omega, ?_, ?_⟩ <;> rintro rfl <;> exact absurd hb (by decide)

theorem spells_escaped (cs : List Char) :
    Spells (Utf8.encode (cs.flatMap escapedChar)) (cs.flatMap pieces) := by
  induction cs with
  | nil => exact .nil
  | cons c cs ih =>
    rw [List.flatMap_cons, List.flatMap_cons, Utf8.encode_append]
    exact spells_escapedChar c ih

theorem bytes?_map_byte (cs : List UInt8) (ps : List Piece) :
    bytes? (cs.map .byte ++ ps) = (bytes? ps).map (cs ++ ·) := by
  induction cs with
  | nil => simp
  | cons b cs ih =>
    rw [List.map_cons, List.cons_append, bytes?, ih, Option.map_map]
    rfl

/-- A unit below the surrogates is a character, whatever follows. -/
theorem bytes?_unit {n : Nat} (h : n < 0xD800) (ps : List Piece) :
    bytes? (.unit n :: ps) = (bytes? ps).map (String.utf8EncodeChar (Char.ofNat n) ++ ·) := by
  have h₁ : ¬(0xD800 ≤ n ∧ n < 0xDC00) := by omega
  have h₂ : ¬(0xDC00 ≤ n ∧ n < 0xE000) := by omega
  have h₃ : ¬(0xD800 ≤ n ∧ n < 0xE000) := by omega
  match ps with
  | [] | .byte _ :: _ => simp [bytes?, h₃]
  | .unit m :: ps => rw [bytes?, if_neg h₁, if_neg h₂]

theorem bytes?_pieces (c : Char) (ps : List Piece) :
    bytes? (pieces c ++ ps) = (bytes? ps).map (String.utf8EncodeChar c ++ ·) := by
  unfold pieces
  split_ifs with h
  · have hn : c.toNat < 0xD800 := by omega
    rw [List.singleton_append, bytes?_unit hn, Char.ofNat_toNat]
  · exact bytes?_map_byte _ ps

theorem bytes?_flatMap_pieces (cs : List Char) :
    bytes? (cs.flatMap pieces) = some (Utf8.encode cs) := by
  induction cs with
  | nil => rfl
  | cons c cs ih => rw [List.flatMap_cons, bytes?_pieces, ih, Option.map_some, Utf8.encode_cons]

/-- **What stands escaped in a string is the text itself.** -/
theorem text?_flatMap_pieces (s : String) : text? (s.toList.flatMap pieces) = some s := by
  rw [text?, bytes?_flatMap_pieces, Option.bind_some, Text.Utf8.text?, Text.Utf8.decode?_encode,
    Option.map_some, String.ofList_toList]

end Piece

theorem encode_quotedString (s : String) :
    Utf8.encode (quotedString s) =
      0x22 :: (Utf8.encode (s.toList.flatMap escapedChar) ++ [0x22]) := by
  rw [quotedString, Utf8.encode_cons, Utf8.encode_append]
  rfl

/-- A string takes at most six bytes for each of its characters. -/
theorem length_encode_quotedString_le (s : String) :
    (Utf8.encode (quotedString s)).length ≤ 6 * s.length + 2 := by
  have hchar (c : Char) : (Utf8.encode (escapedChar c)).length ≤ 6 := by
    unfold escapedChar
    split_ifs with _ _ _ _ _ _ _ hl
    all_goals try exact Nat.le_of_ble_eq_true rfl
    · rw [Utf8.encode_append, List.length_append, (Piece.unit?_hexPadded hl).1]
      exact Nat.le_of_ble_eq_true rfl
    · have := c.utf8Size_le_four
      simp
      omega
  have hchars (cs : List Char) : (Utf8.encode (cs.flatMap escapedChar)).length ≤ 6 * cs.length := by
    induction cs with
    | nil => exact Nat.le_refl 0
    | cons c cs ih =>
      have := hchar c
      rw [List.flatMap_cons, Utf8.encode_append, List.length_append, List.length_cons]
      omega
  have := hchars s.toList
  rw [String.length_toList] at this
  rw [encode_quotedString, List.length_cons, List.length_append, List.length_singleton]
  omega

/-- What stands between two tokens is white space in every place. -/
structure Style.Spaced (style : Style) : Prop where
  lineBreak : ∀ depth, Space (Utf8.encode (style.lineBreak depth))
  colon : ∃ ws, Utf8.encode style.colon = 0x3A :: ws ∧ Space ws

theorem Style.spaced_compact : Style.compact.Spaced where
  lineBreak _ := space_nil
  colon := ⟨[], rfl, space_nil⟩

theorem Style.spaced_indented : Style.indented.Spaced where
  lineBreak depth := by
    intro b hb
    have hspaces : ∀ k, ∀ b ∈ Utf8.encode (List.replicate k ' '), isSpace b = true := by
      intro k
      induction k with
      | zero => exact space_nil
      | succ k ih =>
        intro b hb
        rcases List.mem_append.1 hb with hb | hb
        · rw [List.mem_singleton.1 hb]
          rfl
        · exact ih b hb
    rcases List.mem_cons.1 hb with rfl | hb
    · rfl
    · exact hspaces _ b hb
  colon := ⟨[0x20], rfl, fun b hb => List.mem_singleton.1 hb ▸ rfl⟩

theorem Spells.spaces {ws bs : List UInt8} {doc : Document} (hw : Space ws) (h : Spells bs doc) :
    Spells (ws ++ bs) doc := by
  induction ws with
  | nil => exact h
  | cons b ws ih =>
    exact .space (hw b List.mem_cons_self) (ih fun b' hb' => hw b' (List.mem_cons_of_mem b hb'))

/-- The bytes of the brackets and of the comma. -/
theorem encodeChar_punctuation :
    String.utf8EncodeChar '[' = [0x5B] ∧ String.utf8EncodeChar ']' = [0x5D] ∧
      String.utf8EncodeChar '\x7b' = [0x7B] ∧ String.utf8EncodeChar '\x7d' = [0x7D] ∧
      String.utf8EncodeChar ',' = [0x2C] := by
  decide

/-! ## Values -/

namespace Value

mutual

/-- The document that a value stands for. -/
def toDocument : Value → Document
  | null => .null
  | boolean b => .boolean b
  | integer n => .integer n
  | float bits => .float bits
  | string s => .string s
  | array vs => .array (toItems vs)
  | object ms => .table (toMembers ms)

/-- The items of an array that holds some values. -/
def toItems : List Value → Document.Items
  | [] => .closed
  | v :: vs => .next (toDocument v) (toItems vs)

/-- The members of a table that holds some values under their names. -/
def toMembers : List (String × Value) → Document.Members
  | [] => .closed
  | (name, v) :: ms => .next (some name) (toDocument v) (toMembers ms)

end

mutual

/-- Whether every number in a value is an integer of 64 bits. -/
def isExact : Value → Bool
  | integer n => Numeral.isInteger64 n
  | float _ => false
  | array vs => areExact vs
  | object ms => areExactMembers ms
  | null | boolean _ | string _ => true

/-- Whether every number in some values is an integer of 64 bits. -/
def areExact : List Value → Bool
  | [] => true
  | v :: vs => isExact v && areExact vs

/-- Whether every number in some members is an integer of 64 bits. -/
def areExactMembers : List (String × Value) → Bool
  | [] => true
  | (_, v) :: ms => isExact v && areExactMembers ms

end

end Value

section Writing

variable {style : Style} (hs : style.Spaced)

include hs

/-- A name with its colon; the white space after that belongs to the value. -/
theorem spells_name (depth : Nat) (name : String) :
    ∃ ns ws, SpellsName ns (some name) ∧ Space ws ∧ ∀ bs,
      Utf8.encode (style.lineBreak depth) ++
        (Utf8.encode (quotedString name) ++ (Utf8.encode style.colon ++ bs)) =
          ns ++ (ws ++ bs) := by
  obtain ⟨ws, hcolon, hws⟩ := hs.colon
  have hname := SpellsName.mk (hs.lineBreak depth) (Piece.spells_escaped name.toList) space_nil
  rw [Piece.text?_flatMap_pieces] at hname
  refine ⟨_, ws, hname, hws, fun bs => ?_⟩
  simp [encode_quotedString, hcolon]

mutual

theorem spells_write : (v : Value) → v.isExact = true → (depth : Nat) →
    Spells (Utf8.encode (v.write style depth)) v.toDocument
  | .null, _, _ => .null
  | .boolean b, _, _ => by
    cases b
    · exact .boolean false
    · exact .boolean true
  | .integer n, h, _ => by
    rw [Value.toDocument, ← Numeral.document_ofInt h]
    exact .numeral (Numeral.spells_ofInt n)
  | .string s, _, _ => by
    rw [Value.write, encode_quotedString]
    exact .string (Piece.spells_escaped s.toList) (Piece.text?_flatMap_pieces s)
  | .array [], _, _ => .emptyArray space_nil
  | .array (v :: vs), h, depth => by
    simp only [Value.isExact, Value.areExact, Bool.and_eq_true] at h
    have hv := (spells_write v h.1 (depth + 1)).spaces (hs.lineBreak (depth + 1))
    have hvs := spells_writeItems vs h.2 (depth + 1) hv (hs.lineBreak depth)
    have harray := Spells.array hvs
    simpa [Value.write, Value.toDocument, Value.toItems, encodeChar_punctuation] using harray
  | .object [], _, _ => .emptyTable space_nil
  | .object ((name, v) :: ms), h, depth => by
    simp only [Value.isExact, Value.areExactMembers, Bool.and_eq_true] at h
    obtain ⟨ns, ws, hn, hws, hbytes⟩ := spells_name hs (depth + 1) name
    have hv := (spells_write v h.1 (depth + 1)).spaces hws
    have hms := spells_writeMembers ms h.2 (depth + 1) hn hv (hs.lineBreak depth)
    have htable := Spells.table hms
    simpa [Value.write, Value.toDocument, Value.toMembers, encodeChar_punctuation, hbytes]
      using htable

theorem spells_writeItems : (vs : List Value) → Value.areExact vs = true → (depth : Nat) →
    {bs ws : List UInt8} → {doc : Document} → Spells bs doc → Space ws →
    SpellsItems (bs ++ (Utf8.encode (Value.writeItems style depth vs) ++ (ws ++ [0x5D])))
      (.next doc (Value.toItems vs))
  | [], _, _, _, _, _, h, hw => .last h hw
  | v :: vs, hvs, depth, bs, ws, doc, h, hw => by
    simp only [Value.areExact, Bool.and_eq_true] at hvs
    have hv := (spells_write v hvs.1 depth).spaces (hs.lineBreak depth)
    have hnext := SpellsItems.next h space_nil (spells_writeItems vs hvs.2 depth hv hw)
    simpa [Value.writeItems, Value.toItems, encodeChar_punctuation] using hnext

theorem spells_writeMembers : (ms : List (String × Value)) → Value.areExactMembers ms = true →
    (depth : Nat) → {ns bs ws : List UInt8} → {name : Option String} → {doc : Document} →
    SpellsName ns name → Spells bs doc → Space ws →
    SpellsMembers
      (ns ++ (bs ++ (Utf8.encode (Value.writeMembers style depth ms) ++ (ws ++ [0x7D]))))
      (.next name doc (Value.toMembers ms))
  | [], _, _, _, _, _, _, _, hn, h, hw => .last hn h hw
  | (name', v) :: ms, hms, depth, ns, bs, ws, name, doc, hn, h, hw => by
    simp only [Value.areExactMembers, Bool.and_eq_true] at hms
    obtain ⟨ns', ws', hn', hws', hbytes⟩ := spells_name hs depth name'
    have hv := (spells_write v hms.1 depth).spaces hws'
    have hnext := SpellsMembers.next hn h space_nil (spells_writeMembers ms hms.2 depth hn' hv hw)
    simpa [Value.writeMembers, Value.toMembers, encodeChar_punctuation, hbytes] using hnext

end

/-- **What is written is read as the document that was meant**, to the end of the text. -/
theorem ofBytes_write {v : Value} (h : v.isExact = true) (depth : Nat) :
    Reading.ofBytes (Utf8.encode (v.write style depth)) = ⟨v.toDocument, true⟩ := by
  have hread := ofBytes_of_spells (spells_write hs v h depth) space_nil
  rwa [List.append_nil] at hread

/-- A typed reading of what is written reads the value itself. -/
theorem decode_write {α : Type} (d : Document.Decoder α) {v : Value} (h : v.isExact = true)
    (depth : Nat) : decode d (Utf8.encode (v.write style depth)) = d .json v.toDocument := by
  have hread := decode_eq_of_spells (d := d) (spells_write hs v h depth) space_nil
  rwa [List.append_nil] at hread

end Writing

/-! ## Reading a value back -/

namespace Value

mutual

/-- Whether a value is one that a text may mean: the members of every object in the order of their
names, each once, and nothing nested deeper than `depth`. -/
def isRegular (depth : Nat) : Value → Bool
  | array vs => depth != 0 && areRegular (depth - 1) vs
  | object ms =>
    depth != 0 && decide ((ms.map (·.1)).Pairwise (· < ·)) && areRegularMembers (depth - 1) ms
  | null | boolean _ | integer _ | float _ | string _ => true

/-- Whether some values are ones that a text may mean. -/
def areRegular (depth : Nat) : List Value → Bool
  | [] => true
  | v :: vs => isRegular depth v && areRegular depth vs

/-- Whether the values of some members are ones that a text may mean. -/
def areRegularMembers (depth : Nat) : List (String × Value) → Bool
  | [] => true
  | (_, v) :: ms => isRegular depth v && areRegularMembers depth ms

end

/-- A member behind all others in the order of names is put last. -/
theorem setMember_of_lt {name : String} (v : Value) {ms : List (String × Value)}
    (h : ∀ m ∈ ms, m.1 < name) : setMember name v ms = ms ++ [(name, v)] := by
  induction ms with
  | nil => rfl
  | cons m ms ih =>
    have hm : m.1 < name := h m List.mem_cons_self
    have hne : name ≠ m.1 := fun he => absurd hm (he ▸ String.lt_irrefl _)
    rw [setMember, if_neg (String.lt_asymm hm), if_neg hne,
      ih fun m' hm' => h m' (List.mem_cons_of_mem m hm'), List.cons_append]

/-- Members in the order of their names are put together as they are. -/
theorem foldl_setMember {ms : List (String × Value)} (h : (ms.map (·.1)).Pairwise (· < ·)) :
    ms.foldl (fun done m => setMember m.1 m.2 done) [] = ms :=
  foldl_eq_append (R := fun m m' => m.1 < m'.1) (fun _ m hm => setMember_of_lt m.2 hm)
    (List.pairwise_map.1 h)

mutual

theorem ofDocument?_toDocument : (v : Value) → (depth : Nat) → v.isRegular depth = true →
    ofDocument? depth v.toDocument = some v
  | null, _, _ => rfl
  | boolean _, _, _ => rfl
  | integer _, _, _ => rfl
  | float _, _, _ => rfl
  | string _, _, _ => rfl
  | array vs, depth, h => by
    simp only [isRegular, Bool.and_eq_true, bne_iff_ne] at h
    rw [toDocument, ofDocument?, if_neg h.1, ofItems?_toItems vs _ h.2, Option.map_some]
  | object ms, depth, h => by
    simp only [isRegular, Bool.and_eq_true, bne_iff_ne, decide_eq_true_eq] at h
    obtain ⟨⟨hdepth, hnames⟩, hms⟩ := h
    rw [toDocument, ofDocument?, if_neg hdepth, ofMembers?_toMembers ms _ hms, Option.map_some,
      foldl_setMember hnames]

theorem ofItems?_toItems : (vs : List Value) → (depth : Nat) → areRegular depth vs = true →
    ofItems? depth (toItems vs) = some vs
  | [], _, _ => rfl
  | v :: vs, depth, h => by
    simp only [areRegular, Bool.and_eq_true] at h
    rw [toItems, ofItems?, ofDocument?_toDocument v depth h.1, ofItems?_toItems vs depth h.2]
    rfl

theorem ofMembers?_toMembers : (ms : List (String × Value)) → (depth : Nat) →
    areRegularMembers depth ms = true → ofMembers? depth (toMembers ms) = some ms
  | [], _, _ => rfl
  | (name, v) :: ms, depth, h => by
    simp only [areRegularMembers, Bool.and_eq_true] at h
    rw [toMembers, ofMembers?, ofDocument?_toDocument v depth h.1,
      ofMembers?_toMembers ms depth h.2]
    rfl

end

/-- **What is written is read back.** -/
theorem parse?_write {style : Style} (hs : style.Spaced) {v : Value} (h : v.isExact = true)
    (h' : v.isRegular maxDepth = true) (depth : Nat) :
    parse? (Utf8.encode (v.write style depth)) = some v := by
  rw [parse?, ofBytes_write hs h]
  exact ofDocument?_toDocument v maxDepth h'

end Value

end CredentialBench.Json
