import CredentialBench.Text.Hex

/-!
# Internet addresses

Addresses of both versions as text. An address of version 4 is four decimal numbers without
needless leading zeros. One of version 6 is eight groups of at most four hexadecimal digits, of
which the last two may be written as an address of version 4, and of which one run may be left out
between two colons.
-/

namespace CredentialBench.Net

/-- An address of version 4. -/
structure Ipv4 where
  a : UInt8
  b : UInt8
  c : UInt8
  d : UInt8
  deriving DecidableEq

/-- An address of version 6: its eight groups. -/
abbrev Ipv6 : Type := { groups : List UInt16 // groups.length = 8 }

/-- An address. -/
inductive Ip
  | v4 (ip : Ipv4)
  | v6 (ip : Ipv6)
  deriving DecidableEq

/-! ## Numbers -/

/-- How a number may be written, and how large it may be. -/
structure NumberForm where
  base : Nat
  maxDigits : Option Nat
  leadingZero : Bool
  bound : Nat

/-- Whether a character is a digit of a base. -/
def isDigitOf (base : Nat) (c : Char) : Bool := ((Text.hexValue? c).filter (· < base)).isSome

/-- A number at the start of a text, and what follows all of its digits. -/
def number? (form : NumberForm) (cs : List Char) : Option (Nat × List Char) :=
  let digits := cs.takeWhile (isDigitOf form.base)
  let value := digits.foldl (fun n c => n * form.base + (Text.hexValue? c).getD 0) 0
  if digits.isEmpty || form.maxDigits.any (· < digits.length) ||
      (!form.leadingZero && digits.head? == some '0' && 1 < digits.length) ||
      form.bound < value then none
  else some (value, cs.dropWhile (isDigitOf form.base))

/-- A part of an address of version 4. -/
def octet : NumberForm := ⟨10, some 3, false, 255⟩

/-- A group of an address of version 6. -/
def group : NumberForm := ⟨16, some 4, true, 0xFFFF⟩

/-- A port. -/
def portForm : NumberForm := ⟨10, none, true, 65535⟩

/-- The zone of an address of version 6. -/
def zoneForm : NumberForm := ⟨10, none, true, 0xFFFFFFFF⟩

/-- The text after a character that must be next. -/
def after? (c : Char) : List Char → Option (List Char)
  | [] => none
  | x :: rest => if x = c then some rest else none

/-! ## Reading -/

/-- An address of version 4 at the start of a text. -/
def Ipv4.read? (cs : List Char) : Option (Ipv4 × List Char) := do
  let (a, cs) ← number? octet cs
  let (b, cs) ← number? octet (← after? '.' cs)
  let (c, cs) ← number? octet (← after? '.' cs)
  let (d, cs) ← number? octet (← after? '.' cs)
  return (⟨UInt8.ofNat a, UInt8.ofNat b, UInt8.ofNat c, UInt8.ofNat d⟩, cs)

/-- The two groups that an address of version 4 fills. -/
def Ipv4.groups (ip : Ipv4) : List UInt16 :=
  [UInt16.ofNat (ip.a.toNat * 256 + ip.b.toNat), UInt16.ofNat (ip.c.toNat * 256 + ip.d.toNat)]

/-- Up to `room` groups, with colons between them, and whether an address of version 4 ended
them. -/
def groups : (room : Nat) → (first : Bool) → List Char → List UInt16 × Bool × List Char
  | 0, _, cs => ([], false, cs)
  | room + 1, first, cs =>
    match if first then some cs else after? ':' cs with
    | none => ([], false, cs)
    | some start =>
      match if 1 ≤ room then Ipv4.read? start else none with
      | some (ip, rest) => (ip.groups, true, rest)
      | none =>
        match number? group start with
        | none => ([], false, cs)
        | some (n, rest) =>
          let (gs, embedded, rest) := groups room false rest
          (UInt16.ofNat n :: gs, embedded, rest)

/-- Eight groups as an address. -/
def Ipv6.ofGroups? (gs : List UInt16) : Option Ipv6 :=
  if h : gs.length = 8 then some ⟨gs, h⟩ else none

/-- An address of version 6 at the start of a text. -/
def Ipv6.read? (cs : List Char) : Option (Ipv6 × List Char) :=
  let (front, embedded, rest) := Net.groups 8 true cs
  if front.length = 8 then (Ipv6.ofGroups? front).map fun ip => (ip, rest)
  else if embedded then none
  else
    match rest with
    | ':' :: ':' :: rest =>
      let (back, _, rest) := Net.groups (7 - front.length) true rest
      let zeros := List.replicate (8 - front.length - back.length) 0
      (Ipv6.ofGroups? (front ++ zeros ++ back)).map fun ip => (ip, rest)
    | _ => none

/-- The address that a text is. -/
def Ip.ofText? (s : String) : Option Ip :=
  match Ipv4.read? s.toList with
  | some (ip, []) => some (.v4 ip)
  | _ =>
    match Ipv6.read? s.toList with
    | some (ip, []) => some (.v6 ip)
    | _ => none

/-- The bytes of an address. -/
def Ip.bytes : Ip → List UInt8
  | .v4 ip => [ip.a, ip.b, ip.c, ip.d]
  | .v6 ip => ip.val.flatMap fun g => [UInt8.ofNat (g.toNat / 256), UInt8.ofNat (g.toNat % 256)]

/-! ## Writing -/

/-- The text of an address of version 4. -/
def Ipv4.text (ip : Ipv4) : String :=
  ".".intercalate ([ip.a, ip.b, ip.c, ip.d].map fun x => Nat.repr x.toNat)

/-- Groups with colons between them. -/
def groupsText (gs : List UInt16) : String :=
  ":".intercalate (gs.map fun g => Text.hexOfNat g.toNat)

/-- The first longest run of zero groups, as its place and its length. The arguments after the first
are the place, the run in progress and the longest run so far. -/
def longestZeros : List UInt16 → (place : Nat) → (run best : Nat × Nat) → Nat × Nat
  | [], _, _, best => best
  | g :: rest, place, run, best =>
    if g = 0 then
      let run := if run.2 = 0 then (place, 1) else (run.1, run.2 + 1)
      longestZeros rest (place + 1) run (if best.2 < run.2 then run else best)
    else longestZeros rest (place + 1) (0, 0) best

/-- The text of an address of version 6. An address that stands for one of version 4 shows it; of
any other the first longest run of at least two zero groups is left out. -/
def Ipv6.text (ip : Ipv6) : String :=
  match ip.val with
  | [0, 0, 0, 0, 0, 0xFFFF, g, h] =>
    "::ffff:" ++ Ipv4.text ⟨UInt8.ofNat (g.toNat / 256), UInt8.ofNat (g.toNat % 256),
      UInt8.ofNat (h.toNat / 256), UInt8.ofNat (h.toNat % 256)⟩
  | gs =>
    let (place, length) := longestZeros gs 0 (0, 0) (0, 0)
    if 1 < length then groupsText (gs.take place) ++ "::" ++ groupsText (gs.drop (place + length))
    else groupsText gs

end CredentialBench.Net
