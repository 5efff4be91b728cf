import CredentialBench.Document.Basic
import CredentialBench.Toml.Text

/-!
# Numbers, dates and truth values in TOML

An integer has 64 bits and is written in decimal with an optional sign, or without a sign in the
bases 16, 8 and 2; single underscores may stand between digits, and a decimal one has no needless
leading zero. A fraction or an exponent makes a binary64 number, and a positive one must be in
range. A date, a time of day, or both, must exist in the calendar.
-/

namespace CredentialBench.Toml

/-! ## Digits -/

/-- The value of a digit in a base of at most sixteen. -/
def digit? (base : Nat) (c : Char) : Option Nat := (Text.hexValue? c).filter (· < base)

/-- The digits at the start, single underscores between them left out, and what follows. -/
def digitsFrom (base : Nat) : List Char → List Nat × List Char
  | [] => ([], [])
  | '_' :: c :: rest =>
    match digit? base c with
    | some d => let r := digitsFrom base rest; (d :: r.1, r.2)
    | none => ([], '_' :: c :: rest)
  | c :: rest =>
    match digit? base c with
    | some d => let r := digitsFrom base rest; (d :: r.1, r.2)
    | none => ([], c :: rest)

/-- Digits of which the first is no underscore. -/
def digits? (base : Nat) : List Char → Option (List Nat × List Char)
  | [] => none
  | c :: rest => do
    let d ← digit? base c
    let r := digitsFrom base rest
    return (d :: r.1, r.2)

/-- The number that digits write in a base. -/
def ofDigits (base : Nat) (ds : List Nat) : Nat := ds.foldl (fun n d => n * base + d) 0

/-- A sign, true for the negative one, if there is one. -/
def sign : List Char → Bool × List Char
  | '-' :: rest => (true, rest)
  | '+' :: rest => (false, rest)
  | cs => (false, cs)

/-- Decimal digits without a needless leading zero. -/
def whole? : List Char → Option (List Nat × List Char)
  | '0' :: rest => some ([0], rest)
  | cs => digits? 10 cs

/-! ## Integers -/

/-- An integer in a base of its own, after the letter that names the base. -/
def basedInteger? (base : Nat) (cs : List Char) : Option (Document × List Char) := do
  let (ds, rest) ← digits? base cs
  let n := ofDigits base ds
  if n ≤ 0x7FFFFFFFFFFFFFFF then return (.integer n, rest) else none

/-- An integer. -/
def integer? (cs : List Char) : Option (Document × List Char) :=
  match cs with
  | '0' :: 'x' :: rest => basedInteger? 16 rest
  | '0' :: 'o' :: rest => basedInteger? 8 rest
  | '0' :: 'b' :: rest => basedInteger? 2 rest
  | _ => do
    let (negative, rest) := sign cs
    let (ds, rest) ← whole? rest
    let n := ofDigits 10 ds
    if negative then
      if n ≤ 0x8000000000000000 then return (.integer (-n), rest) else none
    else if n ≤ 0x7FFFFFFFFFFFFFFF then return (.integer n, rest) else none

/-! ## Binary64 numbers -/

/-- The binary64 number next to `m · 10^e`; the number is infinite or zero where the place of its
first digit says so. -/
def float (m : Nat) (e : Int) : Float :=
  let place : Int := (Nat.toDigits 10 m).length + e
  if m = 0 ∨ place < -400 then 0
  else if 400 < place then 1 / 0
  else Float.ofScientific m (e < 0) e.natAbs

/-- The exponent after its letter, if one is there. -/
def exponent? : List Char → Option (Int × List Char)
  | c :: rest => do
    if c ≠ 'e' ∧ c ≠ 'E' then none
    let (negative, rest) := sign rest
    let (ds, rest) ← digits? 10 rest
    let e : Int := ofDigits 10 ds
    return (if negative then -e else e, rest)
  | [] => none

/-- A number with a fraction, an exponent, or both. -/
def decimal? (cs : List Char) : Option (Document × List Char) := do
  let (negative, rest) := sign cs
  let (whole, rest) ← whole? rest
  let (fraction, exponent, rest) ← match rest with
    | '.' :: rest => do
      let (ds, rest) ← digits? 10 rest
      match exponent? rest with
      | some (e, rest) => pure (ds, e, rest)
      | none => pure (ds, 0, rest)
    | rest => do
      let (e, rest) ← exponent? rest
      pure ([], e, rest)
  let f := float (ofDigits 10 (whole ++ fraction)) (exponent - fraction.length)
  if negative then return (.float (-f).toBits, rest)
  else if f.isInf then none
  else return (.float f.toBits, rest)

/-- The infinite numbers and what is no number, by name. -/
def special? (cs : List Char) : Option (Document × List Char) :=
  match sign cs with
  | (false, 'i' :: 'n' :: 'f' :: rest) => some (.float 0x7FF0000000000000, rest)
  | (true, 'i' :: 'n' :: 'f' :: rest) => some (.float 0xFFF0000000000000, rest)
  | (false, 'n' :: 'a' :: 'n' :: rest) => some (.float 0x7FF8000000000000, rest)
  | (true, 'n' :: 'a' :: 'n' :: rest) => some (.float 0xFFF8000000000000, rest)
  | _ => none

/-! ## Dates and times -/

/-- A number of exactly so many decimal digits. -/
def fixed? : (width : Nat) → List Char → Option (Nat × List Char)
  | 0, cs => some (0, cs)
  | _ + 1, [] => none
  | width + 1, c :: rest => do
    let d ← digit? 10 c
    let (n, rest) ← fixed? width rest
    return (d * Nat.pow 10 width + n, rest)

/-- The text after a character that must be next. -/
def after? (c : Char) : List Char → Option (List Char)
  | [] => none
  | x :: rest => if x = c then some rest else none

/-- The number of days in a month. -/
def daysIn (year month : Nat) : Nat :=
  if month = 2 then
    if year % 4 = 0 ∧ (year % 100 ≠ 0 ∨ year % 400 = 0) then 29 else 28
  else if month = 4 ∨ month = 6 ∨ month = 9 ∨ month = 11 then 30
  else 31

/-- What follows a date. -/
def skipDate? (cs : List Char) : Option (List Char) := do
  let (year, rest) ← fixed? 4 cs
  let (month, rest) ← fixed? 2 (← after? '-' rest)
  let (day, rest) ← fixed? 2 (← after? '-' rest)
  if 1 ≤ month ∧ month ≤ 12 ∧ 1 ≤ day ∧ day ≤ daysIn year month then return rest else none

/-- What follows hours and minutes. -/
def skipMinutes? (cs : List Char) : Option (List Char) := do
  let (hour, rest) ← fixed? 2 cs
  let (minute, rest) ← fixed? 2 (← after? ':' rest)
  if hour ≤ 23 ∧ minute ≤ 59 then return rest else none

/-- What follows a time of day, whose seconds may have a fraction; a minute may have a leap
second. -/
def skipTime? (cs : List Char) : Option (List Char) := do
  let rest ← skipMinutes? cs
  let (second, rest) ← fixed? 2 (← after? ':' rest)
  if 60 < second then none
  match rest with
  | '.' :: rest =>
    match rest.takeWhile fun c => (digit? 10 c).isSome with
    | [] => none
    | _ => return rest.dropWhile fun c => (digit? 10 c).isSome
  | rest => return rest

/-- What follows the distance from universal time, if one is given. -/
def skipOffset? : List Char → Option (List Char)
  | 'Z' :: rest => some rest
  | 'z' :: rest => some rest
  | '+' :: rest => skipMinutes? rest
  | '-' :: rest => skipMinutes? rest
  | cs => some cs

/-- A date, a date with a time, or a time of day. -/
def moment? (cs : List Char) : Option (Document × List Char) :=
  match skipDate? cs with
  | some rest =>
    let timed := match rest with
      | 'T' :: rest => (skipTime? rest).bind skipOffset?
      | 't' :: rest => (skipTime? rest).bind skipOffset?
      | ' ' :: rest => (skipTime? rest).bind skipOffset?
      | _ => none
    some (.moment, timed.getD rest)
  | none => (skipTime? cs).map fun rest => (.moment, rest)

/-- A number, a date, a time or a truth value at the start of a text. -/
def scalar (cs : List Char) : Option (Document × List Char) :=
  match cs with
  | 't' :: 'r' :: 'u' :: 'e' :: rest => some (.boolean true, rest)
  | 'f' :: 'a' :: 'l' :: 's' :: 'e' :: rest => some (.boolean false, rest)
  | _ => moment? cs <|> decimal? cs <|> special? cs <|> integer? cs

end CredentialBench.Toml
