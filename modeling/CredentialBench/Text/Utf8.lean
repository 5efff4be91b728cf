/-!
# UTF-8

A byte string is read one byte at a time by an automaton whose state is the character in progress.
Each step yields at most one unit: a character, or `none` for a longest part that begins no
character. A text is read strictly (`decode?`, refused if any part is ill formed) or leniently
(`decodeLossy`, each such part becomes U+FFFD). Reading what `encode` writes gives it back
(`decode?_encode`).
-/

namespace CredentialBench.Text.Utf8

/-- The bytes of a character string. -/
def encode (cs : List Char) : List UInt8 := cs.flatMap String.utf8EncodeChar

/-- A character in progress: how many bytes it still needs, the range that the next one must lie
in, and the number that the bytes so far write. -/
structure Pending where
  need : Nat
  lo : Nat
  hi : Nat
  value : Nat
  deriving DecidableEq

/-- What a first byte begins: a character of its own, or one that needs more bytes. -/
inductive Lead
  | single (c : Char)
  | multi (p : Pending)
  | ill
  deriving DecidableEq

/-- The ranges of the second byte exclude overlong forms, surrogates and numbers beyond U+10FFFF. -/
def lead (b : UInt8) : Lead :=
  let n := b.toNat
  if n < 0x80 then .single (Char.ofNat n)
  else if n < 0xC2 then .ill
  else if n < 0xE0 then .multi ⟨1, 0x80, 0xBF, n - 0xC0⟩
  else if n = 0xE0 then .multi ⟨2, 0xA0, 0xBF, 0⟩
  else if n = 0xED then .multi ⟨2, 0x80, 0x9F, 0xD⟩
  else if n < 0xF0 then .multi ⟨2, 0x80, 0xBF, n - 0xE0⟩
  else if n = 0xF0 then .multi ⟨3, 0x90, 0xBF, 0⟩
  else if n < 0xF4 then .multi ⟨3, 0x80, 0xBF, n - 0xF0⟩
  else if n = 0xF4 then .multi ⟨3, 0x80, 0x8F, 4⟩
  else .ill

/-- The characters of a byte string, with `none` for each longest ill-formed part. -/
def units (pending : Option Pending) : List UInt8 → List (Option Char)
  | [] => if pending.isSome then [none] else []
  | b :: rest =>
    let start : List (Option Char) := match lead b with
      | .single c => some c :: units none rest
      | .multi p => units (some p) rest
      | .ill => none :: units none rest
    match pending with
    | none => start
    | some p =>
      if p.lo ≤ b.toNat ∧ b.toNat ≤ p.hi then
        let value := p.value * 64 + (b.toNat - 0x80)
        if p.need = 1 then some (Char.ofNat value) :: units none rest
        else units (some ⟨p.need - 1, 0x80, 0xBF, value⟩) rest
      else none :: start

/-- The characters of a byte string, if every part of it is well formed. -/
def decode? (bs : List UInt8) : Option (List Char) := (units none bs).mapM id

/-- The characters of a byte string, U+FFFD for each longest ill-formed part. -/
def decodeLossy (bs : List UInt8) : List Char :=
  (units none bs).map fun u => u.getD (Char.ofNat 0xFFFD)

/-- The text that a byte string spells in UTF-8. -/
def text? (bs : List UInt8) : Option String := (decode? bs).map String.ofList

/-- The bytes of a text. -/
def bytes (s : String) : List UInt8 := encode s.toList

/-! ## Bytes of characters -/

@[simp] theorem encode_nil : encode [] = [] := rfl

@[simp] theorem encode_cons (c : Char) (cs : List Char) :
    encode (c :: cs) = String.utf8EncodeChar c ++ encode cs := rfl

@[simp] theorem encode_append (cs ds : List Char) : encode (cs ++ ds) = encode cs ++ encode ds :=
  List.flatMap_append

theorem utf8EncodeChar_ascii {c : Char} (h : c.toNat < 0x80) :
    String.utf8EncodeChar c = [UInt8.ofNat c.toNat] := by
  have hle : c.toNat ≤ 0x7F := by omega
  simp [String.utf8EncodeChar, hle]

/-- No byte of a character beyond ASCII is one of ASCII. -/
theorem le_of_mem_utf8EncodeChar {c : Char} (h : 0x80 ≤ c.toNat) {b : UInt8}
    (hb : b ∈ String.utf8EncodeChar c) : 0x80 ≤ b.toNat := by
  have hle : ¬c.toNat ≤ 0x7F := by omega
  unfold String.utf8EncodeChar at hb
  simp only [Char.toNat_val, hle, ↓reduceIte] at hb
  split at hb
  · simp only [List.mem_cons, List.not_mem_nil, or_false] at hb
    rcases hb with rfl | rfl <;> simp only [UInt8.toNat_ofNat'] <;> omega
  split at hb
  · simp only [List.mem_cons, List.not_mem_nil, or_false] at hb
    rcases hb with rfl | rfl | rfl <;> simp only [UInt8.toNat_ofNat'] <;> omega
  · simp only [List.mem_cons, List.not_mem_nil, or_false] at hb
    rcases hb with rfl | rfl | rfl | rfl <;> simp only [UInt8.toNat_ofNat'] <;> omega

/-! ## Reading what is written -/

theorem units_single {b : UInt8} {c : Char} (rest : List UInt8) (h : lead b = .single c) :
    units none (b :: rest) = some c :: units none rest := by
  simp [units, h]

theorem units_multi {b : UInt8} {p : Pending} (rest : List UInt8) (h : lead b = .multi p) :
    units none (b :: rest) = units (some p) rest := by
  simp [units, h]

/-- The byte that carries the six bits `x` after the first byte of a character. -/
def trailing (x : Nat) : UInt8 := UInt8.ofNat (x + 0x80)

theorem toNat_trailing {x : Nat} (h : x < 64) : (trailing x).toNat = x + 0x80 := by
  rw [trailing, UInt8.toNat_ofNat']; omega

theorem units_last {lo hi v x : Nat} {c : Char} (rest : List UInt8) (hx : x < 64)
    (hl : lo ≤ x + 0x80) (hh : x + 0x80 ≤ hi) (hc : Char.ofNat (v * 64 + x) = c) :
    units (some ⟨1, lo, hi, v⟩) (trailing x :: rest) = some c :: units none rest := by
  simp [units, toNat_trailing hx, hl, hh, hc]

theorem units_more (need : Nat) {lo hi v x : Nat} (rest : List UInt8) (hx : x < 64)
    (hl : lo ≤ x + 0x80) (hh : x + 0x80 ≤ hi) :
    units (some ⟨need + 2, lo, hi, v⟩) (trailing x :: rest) =
      units (some ⟨need + 1, 0x80, 0xBF, v * 64 + x⟩) rest := by
  simp [units, toNat_trailing hx, hl, hh]

theorem lead_two {x : Nat} (hl : 2 ≤ x) (hh : x < 32) :
    lead (UInt8.ofNat (x + 0xC0)) = .multi ⟨1, 0x80, 0xBF, x⟩ := by
  revert hl; revert hh; revert x; decide

theorem lead_three {x : Nat} (hh : x < 16) :
    lead (UInt8.ofNat (x + 0xE0)) =
      .multi ⟨2, if x = 0 then 0xA0 else 0x80, if x = 0xD then 0x9F else 0xBF, x⟩ := by
  revert hh; revert x; decide

theorem lead_four {x : Nat} (hh : x < 5) :
    lead (UInt8.ofNat (x + 0xF0)) =
      .multi ⟨3, if x = 0 then 0x90 else 0x80, if x = 4 then 0x8F else 0xBF, x⟩ := by
  revert hh; revert x; decide

theorem units_encodeChar (c : Char) (rest : List UInt8) :
    units none (String.utf8EncodeChar c ++ rest) = some c :: units none rest := by
  have hv := c.valid
  simp only [UInt32.isValidChar, Nat.isValidChar] at hv
  have hc : Char.ofNat c.val.toNat = c := Char.ofNat_toNat c
  generalize hn : c.val.toNat = n at hv hc
  unfold String.utf8EncodeChar
  simp only [hn]
  split
  · rename_i h
    refine units_single rest ?_
    rw [lead]
    simp only [UInt8.toNat_ofNat', show n % 2 ^ 8 = n by omega]
    rw [if_pos (by omega), hc]
  split
  · refine (units_multi _ (lead_two (by omega) (by omega))).trans
      (units_last rest (by omega) (by omega) (by omega) ?_)
    rw [show n / 64 % 32 * 64 + n % 64 = n by omega, hc]
  split
  · refine (units_multi _ (lead_three (by omega))).trans
      ((units_more 0 _ (by omega) ?_ ?_).trans
        (units_last rest (by omega) (by omega) (by omega) ?_))
    · split <;> omega
    · split <;> omega
    · rw [show (n / 4096 % 16 * 64 + n / 64 % 64) * 64 + n % 64 = n by omega, hc]
  · have h8 : n / 262144 % 8 = n / 262144 := by omega
    rw [h8]
    refine (units_multi _ (lead_four (by omega))).trans
      ((units_more 1 _ (by omega) ?_ ?_).trans
        ((units_more 0 _ (by omega) (by omega) (by omega)).trans
          (units_last rest (by omega) (by omega) (by omega) ?_)))
    · split <;> omega
    · split <;> omega
    · rw [show ((n / 262144 * 64 + n / 4096 % 64) * 64 + n / 64 % 64) * 64 + n % 64 = n by omega,
        hc]

theorem units_encode (cs : List Char) : units none (encode cs) = cs.map some := by
  induction cs with
  | nil => rfl
  | cons c r ih => simp [encode, units_encodeChar] at *; exact ih

theorem decode?_encode (cs : List Char) : decode? (encode cs) = some cs := by
  rw [decode?, units_encode]
  induction cs with
  | nil => rfl
  | cons c r ih => simp_all

end CredentialBench.Text.Utf8
