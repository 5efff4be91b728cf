/-!
# Options

Command lines made of options only. An option has a long name and may have a short one; it is a
flag, or takes a value, which stands in the same word or is the next one. No option may be given
twice, a value in a word of its own may not look like an option, and no other words are allowed.
Reading stops at the first word that is wrong, or that asks for help.
-/

namespace CredentialBench.CommandLine

/-- What an option takes. -/
inductive Takes
  | nothing
  | text
  /-- A path, which is not empty. -/
  | path
  /-- One of several words. -/
  | oneOf (words : List String)
  /-- A number of 16 bits. -/
  | port
  deriving DecidableEq

/-- An option. -/
structure Switch where
  long : String
  short : Option Char
  takes : Takes
  required : Bool
  deriving DecidableEq

/-- The options that are given, with their values. -/
abbrev Given : Type := List (String × String)

/-- What a command line comes to. -/
inductive Reading
  | given (values : Given)
  /-- It asks for help. -/
  | help
  /-- It is wrong. -/
  | usage
  deriving DecidableEq

/-- The number that decimal digits after an optional sign are. -/
def integer? (s : String) : Option Int :=
  match s.toList with
  | '+' :: digits => (natural? digits).map fun n => (n : Int)
  | '-' :: digits => (natural? digits).map fun n => -(n : Int)
  | digits => (natural? digits).map fun n => (n : Int)
where
  /-- The number that decimal digits are. -/
  natural? (digits : List Char) : Option Nat :=
    if digits.isEmpty || !digits.all Char.isDigit then none else some (Nat.ofDigitChars 10 digits 0)

/-- The port that a text is. -/
def port? (s : String) : Option UInt16 := do
  let n ← integer? s
  if 0 ≤ n ∧ n ≤ 65535 then some (UInt16.ofNat n.toNat) else none

/-- Whether a value is one that an option takes. -/
def Takes.accepts : Takes → String → Bool
  | nothing, _ => false
  | text, _ => true
  | path, s => !s.isEmpty
  | oneOf words, s => words.contains s
  | port, s => (port? s).isSome

/-- The given options with one more. -/
def give (s : Switch) (value : String) (g : Given) : Option Given :=
  if (g.lookup s.long).isSome then none else some (g ++ [(s.long, value)])

/-- The given options with one more that takes a value. -/
def giveValue (s : Switch) (value : String) (g : Given) : Option Given :=
  if s.takes.accepts value then give s value g else none

/-- Whether a word cannot be a value, since it looks like an option. -/
def looksLikeOption (s : String) : Bool := s.toList.head? == some '-' && s != "-"

/-- What one word of a command line comes to. -/
inductive Outcome
  | next (g : Given)
  /-- The option takes the next word. -/
  | wants (s : Switch) (g : Given)
  /-- No options follow. -/
  | last (g : Given)
  | help
  | usage

/-- The outcome where an option is given, if it may be. -/
def Outcome.ofGiven : Option Given → Outcome
  | some g => next g
  | none => usage

/-- Read the letters of a word of short options. -/
def readLetters (switches : List Switch) : Given → List Char → Outcome
  | g, [] => .next g
  | _, 'h' :: _ => .help
  | g, c :: rest =>
    match switches.find? fun s => s.short == some c with
    | none => .usage
    | some s =>
      if s.takes = .nothing then
        match give s "" g with
        | some g => readLetters switches g rest
        | none => .usage
      else
        match rest with
        | [] => .wants s g
        | '=' :: value => .ofGiven (giveValue s (String.ofList value) g)
        | value => .ofGiven (giveValue s (String.ofList value) g)

/-- The name of a long option and the value in the same word. -/
def nameAndValue (cs : List Char) : String × Option String :=
  (String.ofList (cs.takeWhile (· != '=')),
    match cs.dropWhile (· != '=') with
    | _ :: value => some (String.ofList value)
    | [] => none)

/-- Read a long option. -/
def readLong (switches : List Switch) (g : Given) (name : String) (value : Option String) :
    Outcome :=
  if name = "help" then if value.isNone then .help else .usage
  else
    match switches.find? fun s => s.long == name with
    | none => .usage
    | some s =>
      match s.takes, value with
      | .nothing, none => .ofGiven (give s "" g)
      | .nothing, some _ => .usage
      | _, some value => .ofGiven (giveValue s value g)
      | _, none => .wants s g

/-- Read a word that is no value of an option before it. -/
def readWord (switches : List Switch) (g : Given) (word : String) : Outcome :=
  match word.toList with
  | ['-', '-'] => .last g
  | '-' :: '-' :: rest => readLong switches g (nameAndValue rest).1 (nameAndValue rest).2
  | '-' :: c :: letters => readLetters switches g (c :: letters)
  | _ => .usage

/-- Read the words of a command line, the first of them for the option that waits for one. -/
def readWords (switches : List Switch) : Option Switch → Given → List String → Reading
  | none, g, [] => .given g
  | some _, _, [] => .usage
  | some s, g, value :: rest =>
    if looksLikeOption value then .usage
    else
      match giveValue s value g with
      | some g => readWords switches none g rest
      | none => .usage
  | none, g, word :: rest =>
    match readWord switches g word with
    | .next g => readWords switches none g rest
    | .wants s g => readWords switches (some s) g rest
    | .last g => if rest.isEmpty then .given g else .usage
    | .help => .help
    | .usage => .usage

/-- Read a command line; every option that is required must be given. -/
def read (switches : List Switch) (words : List String) : Reading :=
  match readWords switches none [] words with
  | .given g =>
    if switches.all fun s => !s.required || (g.lookup s.long).isSome then .given g else .usage
  | r => r

end CredentialBench.CommandLine
