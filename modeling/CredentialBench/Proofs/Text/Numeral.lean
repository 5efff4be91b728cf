import Mathlib.Data.List.Basic
import Mathlib.Data.List.Induction
import CredentialBench.Text.Hex

/-!
# Numerals

A numeral is one digit or more of a base, the first of them the most significant; a digit above nine
may be of either case. It writes one number (`Numeral.value`), and leading zeros are all that can
vary in the decimal numerals of a number (`Numeral.eq_toDigits`).
-/

namespace CredentialBench.Text

/-- Digits of a base and the number that they write. -/
inductive Numeral (base : Nat) : List Char → Nat → Prop
  | digit {c : Char} {d : Nat} (hc : hexValue? c = some d) (hd : d < base) : Numeral base [c] d
  | snoc {cs : List Char} {n : Nat} {c : Char} {d : Nat} (h : Numeral base cs n)
      (hc : hexValue? c = some d) (hd : d < base) : Numeral base (cs ++ [c]) (n * base + d)

variable {base n m : Nat} {cs : List Char}

namespace Numeral

theorem ne_nil (h : Numeral base cs n) : cs ≠ [] := by
  cases h <;> simp

theorem isDigit (h : Numeral base cs n) : ∀ c ∈ cs, ∃ d < base, hexValue? c = some d := by
  induction h with
  | digit hc hd =>
    intro c hmem
    obtain rfl := List.mem_singleton.1 hmem
    exact ⟨_, hd, hc⟩
  | snoc h hc hd ih =>
    intro c hmem
    rcases List.mem_append.1 hmem with hmem | hmem
    · exact ih c hmem
    · obtain rfl := List.mem_singleton.1 hmem
      exact ⟨_, hd, hc⟩

/-- The number that a numeral writes. -/
theorem value (h : Numeral base cs n) :
    cs.foldl (fun n c => n * base + (hexValue? c).getD 0) 0 = n := by
  induction h with
  | digit hc hd => simp [hc]
  | snoc h hc hd ih => simp [ih, hc]

theorem unique (h : Numeral base cs n) (h' : Numeral base cs m) : n = m :=
  h.value.symm.trans h'.value

/-- Digits are a numeral. -/
theorem of_isDigit (hne : cs ≠ []) (h : ∀ c ∈ cs, ∃ d < base, hexValue? c = some d) :
    ∃ n, Numeral base cs n := by
  induction cs using List.reverseRecOn with
  | nil => exact absurd rfl hne
  | append_singleton cs c ih =>
    obtain ⟨d, hd, hc⟩ := h c (by simp)
    cases cs with
    | nil => exact ⟨_, .digit hc hd⟩
    | cons b bs =>
      obtain ⟨n, hn⟩ := ih (List.cons_ne_nil b bs) fun x hx => h x (List.mem_append_left _ hx)
      exact ⟨_, hn.snoc hc hd⟩

end Numeral

/-! ## Decimal numerals -/

/-- A decimal digit has one shape. -/
theorem eq_digitChar {c : Char} {d : Nat} (hc : hexValue? c = some d) (hd : d < 10) :
    c = Nat.digitChar d := by
  have hvalue : c.toNat = 48 + d := by
    simp only [hexValue?, Char.le_def, UInt32.le_iff_toNat_le] at hc
    split at hc
    · rename_i hrange
      have hlow : 48 ≤ c.toNat := hrange.1
      have hd : c.toNat - 48 = d := Option.some.inj hc
      omega
    · -- a letter is worth ten or more
      split at hc
      · simp at hc
        omega
      · split at hc <;> simp at hc
        omega
  rw [← Char.toNat_inj, hvalue, Nat.toNat_digitChar_of_lt_ten hd]

theorem numeral_toDigits (hbase : 1 < base) (hle : base ≤ 16) (n : Nat) :
    Numeral base (Nat.toDigits base n) n := by
  induction n using Nat.strongRecOn with
  | _ n ih =>
    rw [Nat.toDigits_eq_if hbase]
    split
    · rename_i hn
      exact .digit (hexValue?_hexDigit (Nat.lt_of_lt_of_le hn hle)) hn
    · have hmod : n % base < base := Nat.mod_lt n (by omega)
      have h := (ih (n / base) (Nat.div_lt_self (by omega) hbase)).snoc
        (hexValue?_hexDigit (Nat.lt_of_lt_of_le hmod hle)) hmod
      rwa [Nat.mul_comm, Nat.div_add_mod] at h

/-- The shortest numeral of a number begins with a zero only if the number is zero. -/
theorem eq_zero_of_head?_toDigits (h : (Nat.toDigits 10 n).head? = some '0') : n = 0 := by
  induction n using Nat.strongRecOn with
  | _ n ih =>
    rw [Nat.toDigits_eq_if (by decide)] at h
    split at h
    · simpa using h
    · rw [List.head?_append_of_ne_nil _ Nat.toDigits_ne_nil] at h
      have hdiv := ih (n / 10) (by omega) h
      omega

/-- **A decimal numeral without needless leading zeros is the shortest.** -/
theorem Numeral.eq_toDigits (h : Numeral 10 cs n) (hzero : cs.head? = some '0' → cs.length = 1) :
    cs = Nat.toDigits 10 n := by
  induction h with
  | digit hc hd => rw [eq_digitChar hc hd, Nat.toDigits_of_lt_base hd]
  | @snoc cs n c d h hc hd ih =>
    -- more digits follow, so that the first is not zero
    have hfirst : cs.head? ≠ some '0' := by
      intro hhead
      have hlength := hzero (by simp [hhead])
      have hpos := List.length_pos_iff.2 h.ne_nil
      simp only [List.length_append, List.length_singleton] at hlength
      omega
    have hcs := ih fun hhead => absurd hhead hfirst
    have hn : 0 < n := by
      rcases Nat.eq_zero_or_pos n with rfl | hn
      · exact absurd (by rw [hcs]; rfl) hfirst
      · exact hn
    rw [hcs, eq_digitChar hc hd, Nat.mul_comm, ← Nat.toDigits_append_toDigits (by decide) hn hd,
      Nat.toDigits_of_lt_base hd]

end CredentialBench.Text
