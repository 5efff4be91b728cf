/-!
# Hexadecimal text

Lower-case hexadecimal digits, the value of a digit in either case, and the text of a byte string.
-/

namespace CredentialBench.Text

/-- The lower-case digit of a value below sixteen. -/
def hexDigit (n : Nat) : Char := Nat.digitChar n

/-- The value of a hexadecimal digit, of either case. -/
def hexValue? (c : Char) : Option Nat :=
  if '0' ≤ c ∧ c ≤ '9' then some (c.toNat - '0'.toNat)
  else if 'a' ≤ c ∧ c ≤ 'f' then some (c.toNat - 'a'.toNat + 10)
  else if 'A' ≤ c ∧ c ≤ 'F' then some (c.toNat - 'A'.toNat + 10)
  else none

theorem hexValue?_hexDigit {n : Nat} (h : n < 16) : hexValue? (hexDigit n) = some n := by
  revert h; revert n; decide

/-- Two digits for each byte. -/
def hexOfBytes (bs : List UInt8) : String :=
  String.ofList (bs.flatMap fun b => [hexDigit (b.toNat / 16), hexDigit (b.toNat % 16)])

theorem isSome_hexValue?_of_mem {c : Char} {bs : List UInt8} (h : c ∈ (hexOfBytes bs).toList) :
    (hexValue? c).isSome := by
  rw [hexOfBytes, String.toList_ofList, List.mem_flatMap] at h
  obtain ⟨b, -, hc⟩ := h
  have hb := b.toNat_lt
  have hdigit : ∃ n < 16, c = hexDigit n := by
    rcases List.mem_cons.1 hc with hc | hc
    · exact ⟨_, by omega, hc⟩
    · exact ⟨_, by omega, List.mem_singleton.1 hc⟩
  obtain ⟨n, hn, rfl⟩ := hdigit
  rw [hexValue?_hexDigit hn]
  rfl

/-- The fewest lower-case digits that write a number. -/
def hexOfNat (n : Nat) : String := String.ofList (Nat.toDigits 16 n)

/-- Exactly `width` digits, of the last `width` digits of the number. -/
def hexPadded : (width : Nat) → Nat → List Char
  | 0, _ => []
  | width + 1, n => hexPadded width (n / 16) ++ [hexDigit (n % 16)]

/-- The number that a string of hexadecimal digits writes; `none` if another character occurs. -/
def natOfHex? (cs : List Char) : Option Nat :=
  cs.foldl (fun acc c => do return (← acc) * 16 + (← hexValue? c)) (some 0)

end CredentialBench.Text
