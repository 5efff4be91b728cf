import CredentialBench.Document.Basic

/-!
# JSON numerals

A numeral has a sign, whole digits without a needless leading zero, an optional fraction and an
optional exponent. Without fraction and exponent it is an integer where 64 bits hold it; every other
numeral is a binary64 number, and one too large for that spells no value. The literal `-0` is a
binary64 number, since no integer keeps its sign.

A binary64 number is found in two roundings: the leading digits that fit 64 bits, then one
multiplication or division by a power of ten.
-/

namespace CredentialBench.Json

/-- A numeral as it is written. -/
structure Numeral where
  negative : Bool
  whole : List Nat
  fraction : Option (List Nat)
  /-- The sign of the exponent, true for a negative one, and its digits. -/
  exponent : Option (Bool × List Nat)

namespace Numeral

/-- The value of a digit. -/
def digit? (b : UInt8) : Option Nat :=
  if 0x30 ≤ b.toNat ∧ b.toNat ≤ 0x39 then some (b.toNat - 0x30) else none

/-- The digits at the start, and what follows them. -/
def digits : List UInt8 → List Nat × List UInt8
  | [] => ([], [])
  | b :: rest =>
    match digit? b with
    | some d => (d :: (digits rest).1, (digits rest).2)
    | none => ([], b :: rest)

/-- The number that decimal digits write. -/
def ofDigits (ds : List Nat) : Nat := ds.foldl (fun n d => n * 10 + d) 0

/-- Digits of which there is at least one. -/
def digits? (bs : List UInt8) : Option (List Nat × List UInt8) :=
  match digits bs with
  | ([], _) => none
  | (ds, rest) => some (ds, rest)

/-- The whole digits: a zero alone, or digits that start with another one. -/
def whole? (bs : List UInt8) : Option (List Nat × List UInt8) :=
  match digits bs with
  | ([], _) => none
  | (0 :: _ :: _, _) => none
  | (ds, rest) => some (ds, rest)

/-- The fraction, if a point is next; `none` if no digit follows the point. -/
def fraction? : List UInt8 → Option (Option (List Nat) × List UInt8)
  | 0x2E :: rest => (digits? rest).map fun r => (some r.1, r.2)
  | bs => some (none, bs)

/-- The exponent, if an `e` is next; `none` if no digit follows it. -/
def exponent? : List UInt8 → Option (Option (Bool × List Nat) × List UInt8)
  | b :: rest =>
    if b = 0x65 ∨ b = 0x45 then
      match rest with
      | 0x2B :: rest => (digits? rest).map fun r => (some (false, r.1), r.2)
      | 0x2D :: rest => (digits? rest).map fun r => (some (true, r.1), r.2)
      | _ => (digits? rest).map fun r => (some (false, r.1), r.2)
    else some (none, b :: rest)
  | [] => some (none, [])

/-- The numeral at the start of a text and what follows it. -/
def read? (bs : List UInt8) : Option (Numeral × List UInt8) := do
  let (negative, bs) := match bs with
    | 0x2D :: rest => (true, rest)
    | _ => (false, bs)
  let (whole, bs) ← whole? bs
  let (fraction, bs) ← fraction? bs
  let (exponent, bs) ← exponent? bs
  return (⟨negative, whole, fraction, exponent⟩, bs)

/-! ## Binary64 -/

/-- The number that the leading digits write after `n`, as long as 64 bits hold it, and how many
digits are left over. -/
def absorb (n : Nat) : List Nat → Nat × Nat
  | [] => (n, 0)
  | d :: ds =>
    if n * 10 + d ≤ 0xFFFFFFFFFFFFFFFF then absorb (n * 10 + d) ds else (n, ds.length + 1)

/-- A power of ten of at most 308. -/
def powerOfTen (e : Nat) : Float := Float.ofScientific 1 false e

/-- The number `f · 10^e`; `none` if that is beyond the range. -/
def scale (f : Float) : (steps : Nat) → (e : Int) → Option Float
  | steps, e =>
    if e.natAbs ≤ 308 then
      if 0 ≤ e then
        let g := f * powerOfTen e.natAbs
        if g.isInf then none else some g
      else some (f / powerOfTen e.natAbs)
    else if f == 0 then some f
    else if 0 ≤ e then none
    else
      match steps with
      | 0 => some 0
      | steps + 1 => scale (f / powerOfTen 308) steps (e + 308)

/-- The binary64 number of a numeral; `none` if it is too large. -/
def float? (n : Numeral) : Option Float := do
  let (m, unread) := absorb 0 n.whole
  let (m, shift) : Nat × Int := match n.fraction with
    | none => (m, unread)
    | some ds =>
      let (m, left) := absorb m ds
      (m, unread - (ds.length - left : Nat))
  let e : Int := match n.exponent with
    | none => 0
    | some (true, ds) => -(ofDigits ds : Int)
    | some (false, ds) => ofDigits ds
  let f ← scale m.toUInt64.toFloat 3 (shift + e)
  return if n.negative then -f else f

/-- What a numeral spells: an integer of 64 bits, a binary64 number, or nothing. -/
def document (n : Numeral) : Document :=
  let float := match n.float? with
    | some f => .float f.toBits
    | none => .unreadable
  match n.fraction, n.exponent with
  | none, none =>
    let m := ofDigits n.whole
    if n.negative then
      if 0 < m ∧ m ≤ 0x8000000000000000 then .integer (-m) else float
    else if m ≤ 0xFFFFFFFFFFFFFFFF then .integer m else float
  | _, _ => float

end Numeral

end CredentialBench.Json
