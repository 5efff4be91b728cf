import CredentialBench.Text.Hex

/-!
# Percent-encoding

A byte is written as `%` and two hexadecimal digits. Decoding takes each such group for its byte,
once, and every other byte as it stands: a plus sign stays a plus sign, and a `%` that two digits do
not follow stays one.
-/

namespace CredentialBench.Percent

/-- The byte that two hexadecimal digits write. -/
def byte? (a b : UInt8) : Option UInt8 := do
  let hi ← Text.hexValue? (Char.ofNat a.toNat)
  let lo ← Text.hexValue? (Char.ofNat b.toNat)
  return UInt8.ofNat (hi * 16 + lo)

/-- The bytes with each group of `%` and two digits replaced by its byte. -/
def decode : List UInt8 → List UInt8
  | [] => []
  | 0x25 :: a :: b :: rest =>
    match byte? a b with
    | some x => x :: decode rest
    | none => 0x25 :: decode (a :: b :: rest)
  | x :: rest => x :: decode rest

/-- Where no percent sign is, nothing is decoded. -/
theorem decode_eq_self {bs : List UInt8} (h : 0x25 ∉ bs) : decode bs = bs := by
  fun_induction decode bs with
  | case1 => rfl
  | case2 a b rest => exact absurd List.mem_cons_self h
  | case3 a b rest => exact absurd List.mem_cons_self h
  | case4 x rest _ ih => rw [ih fun hr => h (List.mem_cons_of_mem x hr)]

/-- A byte in `%` form, with upper-case digits. -/
def encodeByte (b : UInt8) : List Char :=
  ['%', (Text.hexDigit (b.toNat / 16)).toUpper, (Text.hexDigit (b.toNat % 16)).toUpper]

/-- A byte string with every byte in `%` form. -/
def encodeAll (bs : List UInt8) : List Char := bs.flatMap encodeByte

end CredentialBench.Percent
