import CredentialBench.Net.Url
import CredentialBench.Proofs.Text.Utf8

/-!
# Reading percent-encoded bytes

A byte string with every byte in `%` form is decoded to itself (`decode_encodeAll`), and nothing in
it divides a path or ends one (`mem_encodeAll`). Encoding some characters of a text, percent signs
and hexadecimal digits aside, leaves what the text is decoded to (`decode_encodeSet`): it makes no
group of a percent sign that began none. What decoding does to any bytes whatever is told without it
by `Decodes` (`decode_eq_iff`).
-/

namespace CredentialBench.Percent

open Text

/-- An upper-case digit is a letter or a digit of ASCII, with the value that it was written for. -/
theorem upperDigit {n : Nat} (h : n < 16) :
    (hexDigit n).toUpper.toNat < 0x80 ∧ (hexDigit n).toUpper.isAlphanum = true ∧
      hexValue? (hexDigit n).toUpper = some n := by
  revert h; revert n; decide

theorem decode_encodeByte (b : UInt8) (rest : List UInt8) :
    decode (Utf8.encode (encodeByte b) ++ rest) = b :: decode rest := by
  have hb : b.toNat < 256 := b.toNat_lt
  obtain ⟨hhi, -, hhiValue⟩ := upperDigit (n := b.toNat / 16) (by omega)
  obtain ⟨hlo, -, hloValue⟩ := upperDigit (n := b.toNat % 16) (by omega)
  have hbyte : byte? (UInt8.ofNat (hexDigit (b.toNat / 16)).toUpper.toNat)
      (UInt8.ofNat (hexDigit (b.toNat % 16)).toUpper.toNat) = some b := by
    rw [byte?, Utf8.char_ofNat_byte hhi, Utf8.char_ofNat_byte hlo, hhiValue, hloValue]
    simp only [Option.bind_eq_bind, Option.bind_some, Option.pure_def, Option.some.injEq]
    rw [show b.toNat / 16 * 16 + b.toNat % 16 = b.toNat by omega, UInt8.ofNat_toNat]
  have hpercent : String.utf8EncodeChar '%' = [0x25] := by decide
  simp only [encodeByte, Utf8.encode_cons, Utf8.encode_nil, hpercent, Utf8.utf8EncodeChar_ascii hhi,
    Utf8.utf8EncodeChar_ascii hlo, List.cons_append, List.nil_append, decode, hbyte]

theorem decode_encodeAll_append (bs rest : List UInt8) :
    decode (Utf8.encode (encodeAll bs) ++ rest) = bs ++ decode rest := by
  induction bs with
  | nil => rfl
  | cons b bs ih =>
    rw [encodeAll, List.flatMap_cons, Utf8.encode_append, List.append_assoc, decode_encodeByte]
    exact congrArg (b :: ·) ih

/-- **What is percent-encoded is decoded to itself.** -/
theorem decode_encodeAll (bs : List UInt8) : decode (Utf8.encode (encodeAll bs)) = bs := by
  have h := decode_encodeAll_append bs []
  rwa [List.append_nil, decode, List.append_nil] at h

/-- Percent signs, letters and digits are all that stands in percent-encoded bytes. -/
theorem mem_encodeAll {bs : List UInt8} {c : Char} (h : c ∈ encodeAll bs) :
    c = '%' ∨ c.isAlphanum = true := by
  obtain ⟨b, -, hc⟩ := List.mem_flatMap.1 h
  have hb : b.toNat < 256 := b.toNat_lt
  simp only [encodeByte, List.mem_cons, List.not_mem_nil, or_false] at hc
  rcases hc with rfl | rfl | rfl
  · exact .inl rfl
  · exact .inr (upperDigit (n := b.toNat / 16) (by omega)).2.1
  · exact .inr (upperDigit (n := b.toNat % 16) (by omega)).2.1

/-- Decoding makes no more bytes of a kind that percent signs are of: a group has one of its own. -/
theorem countP_decode_le {p : UInt8 → Bool} (h : p 0x25 = true) (bs : List UInt8) :
    (decode bs).countP p ≤ bs.countP p := by
  fun_induction decode bs with
  | case1 => exact Nat.le_refl 0
  | case2 a b rest x hx ih =>
    have hle : (if p x = true then 1 else 0) ≤ 1 := by split <;> omega
    simp only [List.countP_cons, h, ↓reduceIte]
    omega
  | case3 a b rest hx ih =>
    rw [List.countP_cons, List.countP_cons]
    omega
  | case4 x rest hx ih =>
    rw [List.countP_cons, List.countP_cons]
    omega

/-! ## What is decoded -/

/-- A byte is the hexadecimal digit of a value, in either case. -/
def IsDigit (b : UInt8) (n : Nat) : Prop :=
  n < 16 ∧ (Char.ofNat b.toNat = hexDigit n ∨ Char.ofNat b.toNat = (hexDigit n).toUpper)

theorem isDigit_iff {b : UInt8} {n : Nat} :
    IsDigit b n ↔ hexValue? (Char.ofNat b.toNat) = some n := by
  have hvalue : ∀ m < 256, ∀ n ∈ hexValue? (Char.ofNat m),
      n < 16 ∧ (Char.ofNat m = hexDigit n ∨ Char.ofNat m = (hexDigit n).toUpper) := by
    decide +kernel
  constructor
  · rintro ⟨hn, h | h⟩
    · rw [h, hexValue?_hexDigit hn]
    · rw [h, (upperDigit hn).2.2]
  · exact fun h => hvalue b.toNat b.toNat_lt n h

/-- What begins with two digits, so that a percent sign before it begins a group. -/
def BeginsGroup (bs : List UInt8) : Prop :=
  ∃ a b rest hi lo, bs = a :: b :: rest ∧ IsDigit a hi ∧ IsDigit b lo

/-- A text is decoded to some bytes, read off from left to right: each percent sign with two digits
after it is the byte that they write, and everything else stands for itself. -/
inductive Decodes : List UInt8 → List UInt8 → Prop
  | nil : Decodes [] []
  | group {a b : UInt8} {hi lo : Nat} {bs xs : List UInt8} (ha : IsDigit a hi) (hb : IsDigit b lo)
      (h : Decodes bs xs) : Decodes (0x25 :: a :: b :: bs) (UInt8.ofNat (hi * 16 + lo) :: xs)
  | percent {bs xs : List UInt8} (hbs : ¬BeginsGroup bs) (h : Decodes bs xs) :
      Decodes (0x25 :: bs) (0x25 :: xs)
  | other {b : UInt8} {bs xs : List UInt8} (hb : b ≠ 0x25) (h : Decodes bs xs) :
      Decodes (b :: bs) (b :: xs)

theorem byte?_eq_some_iff {a b x : UInt8} :
    byte? a b = some x ↔ ∃ hi lo, IsDigit a hi ∧ IsDigit b lo ∧ x = UInt8.ofNat (hi * 16 + lo) := by
  simp only [byte?, isDigit_iff, Option.bind_eq_bind, Option.bind_eq_some_iff, Option.pure_def,
    Option.some.injEq]
  constructor
  · rintro ⟨hi, hhi, lo, hlo, rfl⟩
    exact ⟨hi, lo, hhi, hlo, rfl⟩
  · rintro ⟨hi, lo, hhi, hlo, rfl⟩
    exact ⟨hi, hhi, lo, hlo, rfl⟩

/-- **Decoding is what it is meant to be.** -/
theorem decode_eq_iff {bs xs : List UInt8} : decode bs = xs ↔ Decodes bs xs := by
  constructor
  · rintro rfl
    fun_induction decode bs with
    | case1 => exact .nil
    | case2 a b rest x hx ih =>
      obtain ⟨hi, lo, ha, hb, rfl⟩ := byte?_eq_some_iff.1 hx
      exact .group ha hb ih
    | case3 a b rest hx ih =>
      refine .percent ?_ ih
      rintro ⟨a', b', rest', hi, lo, he, ha, hb⟩
      cases he
      rw [byte?_eq_some_iff.2 ⟨hi, lo, ha, hb, rfl⟩] at hx
      cases hx
    | case4 x rest hx ih =>
      by_cases h : x = 0x25
      · subst h
        refine .percent ?_ ih
        rintro ⟨a, b, rest', -, -, rfl, -, -⟩
        exact hx a b rest' rfl rfl
      · exact .other h ih
  · intro h
    induction h with
    | nil => rfl
    | group ha hb _ ih =>
      rw [decode, byte?_eq_some_iff.2 ⟨_, _, ha, hb, rfl⟩, ih]
    | @percent bs xs hbs _ ih =>
      match bs with
      | [] | [_] => simpa [decode] using ih
      | a :: b :: rest =>
        have hnone : byte? a b = none := by
          refine Option.eq_none_iff_forall_ne_some.2 fun x hx => hbs ?_
          obtain ⟨hi, lo, ha, hb, -⟩ := byte?_eq_some_iff.1 hx
          exact ⟨a, b, rest, hi, lo, rfl, ha, hb⟩
        rw [decode, hnone, ih]
    | other hb _ ih =>
      rw [decode, ih]
      exact fun _ _ _ he => absurd he hb

/-! ## Encoding a part of a text -/

/-- Where no percent sign is, decoding changes nothing and looks at nothing beyond. -/
theorem decode_append {bs : List UInt8} (h : 0x25 ∉ bs) (rest : List UInt8) :
    decode (bs ++ rest) = bs ++ decode rest := by
  induction bs with
  | nil => rfl
  | cons b bs ih =>
    rw [List.mem_cons, not_or] at h
    rw [List.cons_append, List.cons_append, decode, ih h.2]
    exact fun _ _ _ he => absurd he.symm h.1

/-- No digit comes next. -/
def NoDigit (bs : List UInt8) : Prop :=
  ∀ b r, bs = b :: r → hexValue? (Char.ofNat b.toNat) = none

/-- A percent sign that no digit follows stands for itself. -/
theorem decode_percent {bs : List UInt8} (h : NoDigit bs) :
    decode (0x25 :: bs) = 0x25 :: decode bs := by
  match bs with
  | [] | [_] => simp [decode]
  | a :: b :: rest => simp [decode, byte?, h a (b :: rest) rfl]

/-- A percent sign that one digit alone follows stands for itself. -/
theorem decode_percent_one {a : UInt8} {bs : List UInt8} (h : NoDigit bs) :
    decode (0x25 :: a :: bs) = 0x25 :: decode (a :: bs) := by
  cases bs with
  | nil => simp [decode]
  | cons b rest =>
    cases ha : hexValue? (Char.ofNat a.toNat) <;> simp [decode, byte?, ha, h b rest rfl]

theorem lt_of_hexValue? {c : Char} {n : Nat} (h : hexValue? c = some n) : c.toNat < 0x80 := by
  rw [hexValue?] at h
  split at h
  · rename_i hc
    exact Nat.lt_of_le_of_lt hc.2 (by decide)
  split at h
  · rename_i hc
    exact Nat.lt_of_le_of_lt hc.2 (by decide)
  split at h
  · rename_i hc
    exact Nat.lt_of_le_of_lt hc.2 (by decide)
  · cases h

/-- A character that is no digit does not begin with one. -/
theorem noDigit_utf8EncodeChar {c : Char} (h : hexValue? c = none) (rest : List UInt8) :
    NoDigit (String.utf8EncodeChar c ++ rest) := by
  by_cases hc : c.toNat < 0x80
  · rw [Utf8.utf8EncodeChar_ascii hc]
    rintro b r he
    cases he
    rwa [Utf8.char_ofNat_byte hc]
  · rintro b r he
    cases hbytes : String.utf8EncodeChar c with
    | nil => exact absurd hbytes String.utf8EncodeChar_ne_nil
    | cons b' bs =>
      rw [hbytes] at he
      cases he
      have hle : 0x80 ≤ b.toNat := by
        refine Utf8.le_of_mem_utf8EncodeChar (Nat.le_of_not_lt hc) ?_
        rw [hbytes]
        exact List.mem_cons_self
      have hb : b.toNat < 256 := b.toNat_lt
      cases hx : hexValue? (Char.ofNat b.toNat) with
      | none => rfl
      | some n =>
        have hlt := lt_of_hexValue? hx
        rw [Utf8.toNat_ofNat (.inl (by omega))] at hlt
        omega

/-- A set of characters without percent signs and hexadecimal digits. -/
structure Harmless (set : Char → Bool) : Prop where
  percent : set '%' = false
  digit : ∀ c n, hexValue? c = some n → set c = false

theorem harmless_pathSet : Harmless Net.Url.pathSet := by
  have hdigits : ∀ n < 0x80, hexValue? (Char.ofNat n) = none ∨
      Net.Url.pathSet (Char.ofNat n) = false := by decide
  refine ⟨by decide, fun c n h => ?_⟩
  rcases hdigits c.toNat (lt_of_hexValue? h) with hc | hc
  · rw [Char.ofNat_toNat, h] at hc
    cases hc
  · rwa [Char.ofNat_toNat] at hc

section EncodeSet

open Net.Url (encodeSet)

variable {set : Char → Bool}

theorem encodeSet_cons (c : Char) (cs : List Char) :
    encodeSet set (c :: cs) =
      (if set c then encodeAll (String.utf8EncodeChar c) else [c]) ++ encodeSet set cs :=
  List.flatMap_cons

theorem noDigit_encodeSet {c : Char} (h : hexValue? c = none) (cs : List Char) :
    NoDigit (Utf8.encode (encodeSet set (c :: cs))) := by
  rw [encodeSet_cons, Utf8.encode_append]
  split
  · cases hbytes : String.utf8EncodeChar c with
    | nil => exact absurd hbytes String.utf8EncodeChar_ne_nil
    | cons b bs =>
      rintro _ _ ⟨⟩
      decide
  · rw [Utf8.encode_cons, Utf8.encode_nil, List.append_nil]
    exact noDigit_utf8EncodeChar h _

theorem percent_notMem_utf8EncodeChar {c : Char} (h : c ≠ '%') :
    0x25 ∉ String.utf8EncodeChar c := by
  by_cases hc : c.toNat < 0x80
  · rw [Utf8.utf8EncodeChar_ascii hc, List.mem_singleton]
    intro he
    exact h (by rw [← Utf8.char_ofNat_byte hc, ← he]; decide)
  · intro hm
    exact absurd (Utf8.le_of_mem_utf8EncodeChar (Nat.le_of_not_lt hc) hm) (by decide)

/-- **Encoding more of a text does not change what it is decoded to.** -/
theorem decode_encodeSet (h : Harmless set) (cs : List Char) :
    decode (Utf8.encode (encodeSet set cs)) = decode (Utf8.encode cs) := by
  have hpercent : String.utf8EncodeChar '%' = [0x25] := by decide
  match cs with
  | [] => rfl
  | c :: cs =>
    by_cases hc : c = '%'
    · subst hc
      rw [encodeSet_cons, if_neg (by simp [h.percent]), Utf8.encode_append, Utf8.encode_cons,
        Utf8.encode_cons, hpercent]
      -- a group is left as it is; a percent sign that begins none stands for itself in both texts
      match cs with
      | [] => rfl
      | d :: cs =>
        cases hd : hexValue? d with
        | none =>
          have ih := decode_encodeSet h (d :: cs)
          exact ((decode_percent (noDigit_encodeSet hd cs)).trans (congrArg _ ih)).trans
            (decode_percent (noDigit_utf8EncodeChar hd (Utf8.encode cs))).symm
        | some m =>
          have hset : set d = false := h.digit d m hd
          have hbytes := Utf8.utf8EncodeChar_ascii (lt_of_hexValue? hd)
          rw [encodeSet_cons, hset, if_neg Bool.false_ne_true, Utf8.encode_append, Utf8.encode_cons,
            Utf8.encode_cons, Utf8.encode_nil, hbytes]
          match cs with
          | [] => rfl
          | e :: cs =>
            cases he : hexValue? e with
            | none =>
              have ih := decode_encodeSet h (d :: e :: cs)
              rw [encodeSet_cons, hset, if_neg Bool.false_ne_true, Utf8.encode_append,
                Utf8.encode_cons, Utf8.encode_cons, Utf8.encode_nil, hbytes] at ih
              exact ((decode_percent_one (noDigit_encodeSet he cs)).trans (congrArg _ ih)).trans
                (decode_percent_one (noDigit_utf8EncodeChar he (Utf8.encode cs))).symm
            | some n =>
              have ih := decode_encodeSet h cs
              have hbytes' := Utf8.utf8EncodeChar_ascii (lt_of_hexValue? he)
              have hgroup : byte? (UInt8.ofNat d.toNat) (UInt8.ofNat e.toNat) =
                  some (UInt8.ofNat (m * 16 + n)) := by
                rw [byte?, Utf8.char_ofNat_byte (lt_of_hexValue? hd),
                  Utf8.char_ofNat_byte (lt_of_hexValue? he),
                  hd, he]
                rfl
              rw [encodeSet_cons, h.digit e n he, if_neg Bool.false_ne_true, Utf8.encode_append,
                Utf8.encode_cons, Utf8.encode_cons, Utf8.encode_nil, hbytes']
              simp only [List.cons_append, List.nil_append, decode, hgroup, ih]
    · have ih := decode_encodeSet h cs
      have hc := percent_notMem_utf8EncodeChar hc
      rw [encodeSet_cons, Utf8.encode_append, Utf8.encode_cons, decode_append hc]
      split
      · rw [decode_encodeAll_append, ih]
      · rw [Utf8.encode_cons, Utf8.encode_nil, List.append_nil, decode_append hc, ih]
termination_by cs.length

end EncodeSet

end CredentialBench.Percent
