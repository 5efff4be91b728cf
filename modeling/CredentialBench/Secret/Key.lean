import CredentialBench.Document.Decoder

/-!
# Secret keys

A secret is named by a service and one of four items. The name of an item is the last segment of its
path, the text in a control call and the text in a document; names are told apart exactly, case
included (`ofName?_eq_some_iff`). Keys are ordered by service, character by character, and then by
the item's place. The versions of a secret count from one, and so does the number of failures that
one control call arms.
-/

namespace CredentialBench

/-! ## Positive numbers -/

/-- A natural number other than zero. -/
abbrev Positive : Type := { n : Nat // 0 < n }

namespace Positive

/-- The least positive number. -/
def one : Positive := ⟨1, Nat.one_pos⟩

/-- The positive number that an integer is. -/
def ofInt? (n : Int) : Option Positive :=
  if h : 0 < n then some ⟨n.toNat, by omega⟩ else none

theorem ofInt?_eq_some_iff {n : Int} {p : Positive} : ofInt? n = some p ↔ n = p.val := by
  obtain ⟨m, hm⟩ := p
  simp only [ofInt?]
  split
  · simp only [Option.some.injEq, Subtype.mk.injEq]; omega
  · simp only [reduceCtorEq, false_iff]; omega

/-- The decimal digits of a positive number. -/
def text (p : Positive) : String := Nat.repr p.val

end Positive

namespace Secret

/-! ## Items -/

/-- One of the secrets that an agent synchronises for a service. -/
inductive Item
  /-- The secret half of the credentials for the next login. -/
  | secretId
  /-- The binding to an external account of the certificate authority. -/
  | eab
  /-- The key shared with the responder to challenges over HTTP. -/
  | httpResponderHmac
  /-- Fingerprints and certificates of the trusted authorities. -/
  | trust
  deriving DecidableEq

namespace Item

/-- Every item, in declaration order. -/
def all : List Item := [secretId, eab, httpResponderHmac, trust]

/-- The name of an item. -/
def name : Item → String
  | secretId => "secret_id"
  | eab => "eab"
  | httpResponderHmac => "http_responder_hmac"
  | trust => "trust"

/-- The place of an item in declaration order. -/
def rank : Item → Nat
  | secretId => 0
  | eab => 1
  | httpResponderHmac => 2
  | trust => 3

/-- The item of that name. -/
def ofName? (s : String) : Option Item := all.find? fun item => item.name = s

theorem ofName?_eq_some_iff {s : String} {item : Item} : ofName? s = some item ↔ item.name = s := by
  constructor
  · intro h
    simpa using List.find?_some h
  · rintro rfl
    cases item <;> rfl

/-- The message for a name that no item has. -/
def unknownMessage (s : String) : String := "unknown secret item: " ++ s

/-- An item in a document. -/
def decoder : Document.Decoder Item := .choice (all.map fun item => (item.name, item))

end Item

/-! ## Keys -/

/-- The name of one secret. -/
structure Key where
  service : String
  item : Item
  deriving DecidableEq

namespace Key

/-- The service, a slash, the item. -/
def text (k : Key) : String := k.service ++ "/" ++ k.item.name

/-- Whether one key comes no later than another. -/
def notAfter (a b : Key) : Bool :=
  decide (a.service < b.service) || (a.service == b.service && a.item.rank ≤ b.item.rank)

/-- The keys of a list in order, each once. -/
def ordered (ks : List Key) : List Key := (ks.mergeSort notAfter).eraseReps

end Key

end Secret

end CredentialBench
