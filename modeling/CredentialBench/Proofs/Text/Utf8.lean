import CredentialBench.Text.Utf8

/-!
# Bytes that spell a text

UTF-8 spells every text in one way only: bytes that are read as some characters are the bytes that
these are written as (`text?_eq_some_iff`). The ranges of the automaton are what makes it so: a
first byte fixes how many bytes follow, and the number that they write is too large for fewer bytes
and no surrogate.
-/

namespace CredentialBench.Text.Utf8

/-! ## First bytes -/

/-- A first byte that begins no character of its own, by the number of bytes that it still needs. -/
theorem lead_eq_multi {b : UInt8} {p : Pending} (h : lead b = .multi p) :
    (p = ⟨1, 0x80, 0xBF, b.toNat - 0xC0⟩ ∧ 0xC2 ≤ b.toNat ∧ b.toNat < 0xE0) ∨
      (p = ⟨2, if b.toNat = 0xE0 then 0xA0 else 0x80, if b.toNat = 0xED then 0x9F else 0xBF,
        b.toNat - 0xE0⟩ ∧ 0xE0 ≤ b.toNat ∧ b.toNat < 0xF0) ∨
      (p = ⟨3, if b.toNat = 0xF0 then 0x90 else 0x80, if b.toNat = 0xF4 then 0x8F else 0xBF,
        b.toNat - 0xF0⟩ ∧ 0xF0 ≤ b.toNat ∧ b.toNat < 0xF5) := by
  rw [lead] at h
  generalize b.toNat = n at h ⊢
  repeat' split at h
  all_goals cases h
  all_goals grind

theorem toNat_ofNat {n : Nat} (h : n.isValidChar) : (Char.ofNat n).toNat = n := by
  rw [Char.ofNat, dif_pos h]
  exact UInt32.toNat_ofNatLT ..

theorem char_ofNat_byte {c : Char} (h : c.toNat < 0x80) :
    Char.ofNat (UInt8.ofNat c.toNat).toNat = c := by
  rw [UInt8.toNat_ofNat', Nat.mod_eq_of_lt (by omega), Char.ofNat_toNat]

theorem lead_eq_single {b : UInt8} {c : Char} (h : lead b = .single c) :
    String.utf8EncodeChar c = [b] := by
  have hb : b.toNat < 0x80 ∧ c = Char.ofNat b.toNat := by
    rw [lead] at h
    repeat' split at h
    all_goals cases h
    exact ⟨‹_›, rfl⟩
  obtain ⟨hb, rfl⟩ := hb
  have hc : (Char.ofNat b.toNat).toNat = b.toNat := toNat_ofNat (.inl (by omega))
  rw [utf8EncodeChar_ascii (by omega), hc, UInt8.ofNat_toNat]

/-! ## Characters in progress -/

/-- A character in progress goes on with a byte in its range. -/
theorem units_pending {p : Pending} {bs : List UInt8} {cs : List Char}
    (h : units (some p) bs = cs.map some) :
    ∃ b rest, bs = b :: rest ∧ p.lo ≤ b.toNat ∧ b.toNat ≤ p.hi ∧
      (if p.need = 1 then
          some (Char.ofNat (p.value * 64 + (b.toNat - 0x80))) :: units none rest
        else units (some ⟨p.need - 1, 0x80, 0xBF, p.value * 64 + (b.toNat - 0x80)⟩) rest) =
        cs.map some := by
  cases bs with
  | nil => cases cs <;> cases h
  | cons b rest =>
    rw [units] at h
    simp only at h
    split at h
    · rename_i hb
      exact ⟨b, rest, rfl, hb.1, hb.2, h⟩
    · cases cs <;> cases h

/-- The last byte of a character. -/
theorem units_pending_last {lo hi v : Nat} {bs : List UInt8} {cs : List Char}
    (h : units (some ⟨1, lo, hi, v⟩) bs = cs.map some) :
    ∃ b rest cs', bs = b :: rest ∧ lo ≤ b.toNat ∧ b.toNat ≤ hi ∧
      cs = Char.ofNat (v * 64 + (b.toNat - 0x80)) :: cs' ∧ units none rest = cs'.map some := by
  obtain ⟨b, rest, rfl, hlo, hhi, h⟩ := units_pending h
  rw [if_pos rfl] at h
  cases cs with
  | nil => cases h
  | cons c cs =>
    obtain ⟨hc, h⟩ := List.cons.inj h
    exact ⟨b, rest, cs, rfl, hlo, hhi, by rw [Option.some.inj hc], h⟩

/-- A byte of a character that is not its last one. -/
theorem units_pending_more {need lo hi v : Nat} {bs : List UInt8} {cs : List Char}
    (h : units (some ⟨need + 2, lo, hi, v⟩) bs = cs.map some) :
    ∃ b rest, bs = b :: rest ∧ lo ≤ b.toNat ∧ b.toNat ≤ hi ∧
      units (some ⟨need + 1, 0x80, 0xBF, v * 64 + (b.toNat - 0x80)⟩) rest = cs.map some := by
  obtain ⟨b, rest, rfl, hlo, hhi, h⟩ := units_pending h
  rw [if_neg (by simp)] at h
  exact ⟨b, rest, rfl, hlo, hhi, h⟩

/-! ## Whole texts -/

theorem utf8EncodeChar_ofNat {n : Nat} (h : n.isValidChar) :
    String.utf8EncodeChar (Char.ofNat n) =
      if n ≤ 0x7F then [UInt8.ofNat n]
      else if n ≤ 0x7FF then [UInt8.ofNat (n / 64 + 0xC0), trailing (n % 64)]
      else if n ≤ 0xFFFF then
        [UInt8.ofNat (n / 4096 + 0xE0), trailing (n / 64 % 64), trailing (n % 64)]
      else
        [UInt8.ofNat (n / 262144 + 0xF0), trailing (n / 4096 % 64), trailing (n / 64 % 64),
          trailing (n % 64)] := by
  have hv : (Char.ofNat n).val.toNat = n := toNat_ofNat h
  rw [Nat.isValidChar] at h
  simp only [String.utf8EncodeChar, hv, trailing]
  repeat' split
  all_goals simp only [List.cons.injEq, ← UInt8.toNat_inj, UInt8.toNat_ofNat', and_true]
  all_goals omega

/-- **Bytes that spell characters are the bytes of these characters.** -/
theorem eq_encode_of_units {bs : List UInt8} {cs : List Char} (h : units none bs = cs.map some) :
    bs = encode cs := by
  match bs with
  | [] =>
    cases cs with
    | nil => rfl
    | cons => cases h
  | b :: rest =>
    cases hb : lead b with
    | ill =>
      rw [units, hb] at h
      cases cs <;> cases h
    | single c =>
      rw [units_single rest hb] at h
      cases cs with
      | nil => cases h
      | cons c' cs =>
        obtain ⟨hc, hrest⟩ := List.cons.inj h
        cases hc
        rw [encode_cons, lead_eq_single hb, ← eq_encode_of_units hrest]
        rfl
    | multi p =>
      rw [units_multi rest hb] at h
      -- the bits of the bytes add up to a number in the range of their count
      obtain ⟨rfl, hlo, hhi⟩ | ⟨rfl, hlo, hhi⟩ | ⟨rfl, hlo, hhi⟩ := lead_eq_multi hb
      · obtain ⟨b₁, rest, cs, rfl, hlo₁, hhi₁, rfl, hrest⟩ := units_pending_last h
        rw [encode_cons, ← eq_encode_of_units hrest, utf8EncodeChar_ofNat (.inl (by omega)),
          if_neg (by omega), if_pos (by omega)]
        simp only [trailing, List.cons_append, List.nil_append, List.cons.injEq,
          ← UInt8.toNat_inj, UInt8.toNat_ofNat', and_true]
        omega
      · obtain ⟨b₁, rest, rfl, hlo₁, hhi₁, h⟩ := units_pending_more h
        obtain ⟨b₂, rest, cs, rfl, hlo₂, hhi₂, rfl, hrest⟩ := units_pending_last h
        have hb₁ : (b.toNat = 0xE0 → 0xA0 ≤ b₁.toNat) ∧ 0x80 ≤ b₁.toNat ∧
            (b.toNat = 0xED → b₁.toNat ≤ 0x9F) ∧ b₁.toNat ≤ 0xBF := by
          split at hlo₁ <;> split at hhi₁ <;> omega
        have hvalid : (((b.toNat - 0xE0) * 64 + (b₁.toNat - 0x80)) * 64 +
            (b₂.toNat - 0x80)).isValidChar := by
          rw [Nat.isValidChar]
          omega
        rw [encode_cons, ← eq_encode_of_units hrest, utf8EncodeChar_ofNat hvalid,
          if_neg (by omega), if_neg (by omega), if_pos (by omega)]
        simp only [trailing, List.cons_append, List.nil_append, List.cons.injEq,
          ← UInt8.toNat_inj, UInt8.toNat_ofNat', and_true]
        omega
      · obtain ⟨b₁, rest, rfl, hlo₁, hhi₁, h⟩ := units_pending_more h
        obtain ⟨b₂, rest, rfl, hlo₂, hhi₂, h⟩ := units_pending_more h
        obtain ⟨b₃, rest, cs, rfl, hlo₃, hhi₃, rfl, hrest⟩ := units_pending_last h
        have hb₁ : (b.toNat = 0xF0 → 0x90 ≤ b₁.toNat) ∧ 0x80 ≤ b₁.toNat ∧
            (b.toNat = 0xF4 → b₁.toNat ≤ 0x8F) ∧ b₁.toNat ≤ 0xBF := by
          split at hlo₁ <;> split at hhi₁ <;> omega
        have hvalid : ((((b.toNat - 0xF0) * 64 + (b₁.toNat - 0x80)) * 64 + (b₂.toNat - 0x80)) * 64 +
            (b₃.toNat - 0x80)).isValidChar := by
          rw [Nat.isValidChar]
          omega
        rw [encode_cons, ← eq_encode_of_units hrest, utf8EncodeChar_ofNat hvalid,
          if_neg (by omega), if_neg (by omega), if_neg (by omega)]
        simp only [trailing, List.cons_append, List.nil_append, List.cons.injEq,
          ← UInt8.toNat_inj, UInt8.toNat_ofNat', and_true]
        omega
termination_by bs.length

theorem units_of_decode? {bs : List UInt8} {cs : List Char} (h : decode? bs = some cs) :
    units none bs = cs.map some := by
  rw [decode?] at h
  generalize units none bs = us at h
  induction us generalizing cs with
  | nil =>
    cases h
    rfl
  | cons u us ih =>
    rw [List.mapM_cons] at h
    obtain ⟨c, hc, h⟩ := Option.bind_eq_some_iff.1 h
    obtain ⟨cs', hcs, h⟩ := Option.bind_eq_some_iff.1 h
    cases h
    rw [List.map_cons, ← ih hcs, show u = some c from hc]

/-- A text is spelled by its own bytes only. -/
theorem text?_eq_some_iff {bs : List UInt8} {s : String} : text? bs = some s ↔ bs = bytes s := by
  constructor
  · intro h
    obtain ⟨cs, hcs, rfl⟩ := Option.map_eq_some_iff.1 h
    rw [bytes, String.toList_ofList]
    exact eq_encode_of_units (units_of_decode? hcs)
  · rintro rfl
    rw [text?, bytes, decode?_encode, Option.map_some, String.ofList_toList]

/-- Characters of ASCII of some kind are as many as the bytes that write them. -/
theorem countP_encode {p : Char → Bool} (h : ∀ c, p c = true → c.toNat < 0x80) (cs : List Char) :
    (encode cs).countP (fun b => p (Char.ofNat b.toNat)) = cs.countP p := by
  induction cs with
  | nil => rfl
  | cons c cs ih =>
    rw [encode_cons, List.countP_append, ih, List.countP_cons, Nat.add_comm]
    congr 1
    by_cases hc : c.toNat < 0x80
    · rw [utf8EncodeChar_ascii hc, List.countP_singleton, char_ofNat_byte hc]
    · rw [if_neg fun hp => hc (h c hp), List.countP_eq_zero]
      intro b hb hp
      have hle := le_of_mem_utf8EncodeChar (Nat.le_of_not_lt hc) hb
      have hlt := h _ hp
      have hb' : b.toNat < 256 := b.toNat_lt
      rw [toNat_ofNat (.inl (by omega))] at hlt
      omega

end CredentialBench.Text.Utf8
