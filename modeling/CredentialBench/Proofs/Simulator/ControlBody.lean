import CredentialBench.Proofs.Document.Records
import CredentialBench.Proofs.Json.Writing
import CredentialBench.Proofs.Text.Blank
import CredentialBench.Simulator.Control

/-!
# Bodies of control calls

A control call is read from any JSON object that gives it a service, an item and a number, however
the object is spelled: its members may come in any order, with white space between any two tokens
and with escapes in any string, and members that the call does not know are skipped (`Body.Gives`).
What such a body asks for is the call for the service without blank characters at its ends
(`ofBytes_of_gives`).

Conversely, whatever bytes are accepted, the service of the call has no blank characters at its ends
and is not empty, and its number is not too large for its counter (`checked_of_ofBytes`).
-/

namespace CredentialBench.Control

open Secret Document

/-- The members that a control call knows. -/
def Body.fields : List String := ["service", "item", "version", "count"]

/-- The member with the number of the other call. -/
def Kind.otherField : Kind → String
  | .setVersion => Kind.failNext.field
  | .failNext => Kind.setVersion.field

/-- The members of an object that gives a call a service, an item and a number. The other call's
number may be given too, or be null. -/
structure Body.Members (kind : Kind) (service item : String) (n : Int)
    (es : List (String × Document)) : Prop where
  service : ("service", .string service) ∈ es
  item : ("item", .string item) ∈ es
  number : (kind.field, .integer n) ∈ es
  other : ∀ doc, (kind.otherField, doc) ∈ es →
    doc = .null ∨ ∃ m, doc = .integer m ∧ -0x8000000000000000 ≤ m ∧ m ≤ 0x7FFFFFFFFFFFFFFF
  once : ∀ name ∈ fields, (es.map (·.1)).count name ≤ 1
  skipped : ∀ e ∈ es, e.1 ∉ fields → e.2.wellFormed = true

/-- A byte string spells a JSON object that gives a call a service, an item and a number. -/
def Body.Gives (kind : Kind) (service item : String) (n : Int) (bs : List UInt8) : Prop :=
  ∃ text ws ms es, bs = text ++ ws ∧ Json.Spells text (.table ms) ∧ Json.Space ws ∧
    ms.entries? = some es ∧ Members kind service item n es

section Reading

variable {kind : Kind} {service item : String} {n : Int} {es : List (String × Document)}

/-- A member that is not null is read as what it holds. -/
theorem nullable_of_ne {α : Type} {d : Decoder α} {doc : Document} {a : α} (hdoc : doc ≠ .null)
    (ha : d .json doc = .ok a) : d.nullable .json doc = .ok (some a) := by
  cases doc with
  | null => exact absurd rfl hdoc
  | _ => simp only [Decoder.nullable, ha, Except.map]

theorem mem_of_lookup_eq_some {name : String} {doc : Document} (h : es.lookup name = some doc) :
    (name, doc) ∈ es := by
  obtain ⟨l₁, l₂, rfl, -⟩ := List.lookup_eq_some_iff.1 h
  simp

/-- The body with a service, an item, a number, and perhaps the number of the other call. -/
theorem decoder_of_members (h : Body.Members kind service item n es)
    (hn : -0x8000000000000000 ≤ n ∧ n ≤ 0x7FFFFFFFFFFFFFFF) {ms : Document.Members}
    (hms : ms.entries? = some es) :
    ∃ b, Body.decoder .json (.table ms) = .ok b ∧ b.service = some service ∧
      b.item = some item ∧ b.number kind = n := by
  have hlookup {name : String} {doc : Document} (hmem : (name, doc) ∈ es)
      (hname : name ∈ Body.fields) : es.lookup name = some doc :=
    lookup_eq_some_of_count hmem (h.once name hname)
  have hinteger {m : Int} (hm : -0x8000000000000000 ≤ m ∧ m ≤ 0x7FFFFFFFFFFFFFFF) :
      Decoder.int64 .json (.integer m) = .ok m := if_pos hm
  have hread {α : Type} {name : String} {d : Decoder α} {doc : Document} {a : α}
      (hmem : (name, doc) ∈ es) (hname : name ∈ Body.fields) (hdoc : doc ≠ .null)
      (ha : d .json doc = .ok a) :
      (Record.defaulted name d.nullable none).ofMembers .json ms = .ok (some a) :=
    Record.ofMembers_defaulted hms (hlookup hmem hname) (nullable_of_ne hdoc ha)
  have hservice := hread (d := Decoder.string) h.service (by decide) nofun rfl
  have hitem := hread (d := Decoder.string) h.item (by decide) nofun rfl
  have hnumber := hread h.number (by cases kind <;> decide) nofun (hinteger hn)
  -- the other number is of no use to this call, but it must be one
  obtain ⟨m, hother⟩ : ∃ m, (Record.defaulted kind.otherField Decoder.int64.nullable
      none).ofMembers .json ms = .ok m := by
    cases hm : es.lookup kind.otherField with
    | none => exact ⟨none, Record.ofMembers_defaulted_of_none hms hm⟩
    | some doc =>
      rcases h.other doc (mem_of_lookup_eq_some hm) with rfl | ⟨m, rfl, hrange⟩
      · exact ⟨none, Record.ofMembers_defaulted hms hm rfl⟩
      · exact ⟨some m, Record.ofMembers_defaulted hms hm
          (nullable_of_ne nofun (hinteger hrange))⟩
  cases kind with
  | setVersion =>
    exact ⟨⟨some service, some item, some n, m⟩,
      Record.decoder_table _ _ hms h.once h.skipped
        (Record.ofMembers_seq (Record.ofMembers_seq (Record.ofMembers_seq
          (Record.ofMembers_map _ hservice) hitem) hnumber) hother),
      rfl, rfl, rfl⟩
  | failNext =>
    exact ⟨⟨some service, some item, m, some n⟩,
      Record.decoder_table _ _ hms h.once h.skipped
        (Record.ofMembers_seq (Record.ofMembers_seq (Record.ofMembers_seq
          (Record.ofMembers_map _ hservice) hitem) hother) hnumber),
      rfl, rfl, rfl⟩

end Reading

/-- The call for a key with a number, which is positive. -/
def Kind.command : Kind → Key → Positive → Command
  | .setVersion => .setVersion
  | .failNext => .failNext

/-- The largest number that a call takes: the greatest one of 63 bits for a version, of 32 bits for
a count. -/
def Kind.greatest : Kind → Nat
  | .setVersion => 0x7FFFFFFFFFFFFFFF
  | .failNext => maxCount

/-- **What a body asks for**: the call for the service without the blank characters at its ends, if
anything is left of it, and with the number, if that is positive and not too large. -/
theorem ofBytes_of_gives {kind : Kind} {service : String} (hs : Text.blank service = false)
    {item : Item} {n : Positive} (hn : n.val ≤ kind.greatest) {bs : List UInt8}
    (h : Body.Gives kind service item.name n.val bs) :
    Command.ofBytes kind bs = .ok (kind.command ⟨Text.trim service, item⟩ n) := by
  obtain ⟨text, ws, ms, es, rfl, hspells, hspace, hms, h⟩ := h
  have hwide : n.val ≤ 0x7FFFFFFFFFFFFFFF := by
    cases kind with
    | setVersion => exact hn
    | failNext => exact Nat.le_trans hn (by decide)
  obtain ⟨b, hb, hservice, hitem, hnumber⟩ := decoder_of_members h (by omega) hms
  have hread : Json.decode Body.decoder (text ++ ws) = .ok b :=
    Json.decode_of_spells hspells hspace hb
  have hname : Item.ofName? item.name = some item := Item.ofName?_eq_some_iff.2 rfl
  have htrim : Text.trim item.name = item.name := by cases item <;> decide
  have hne : Text.trim service ≠ "" := by
    rw [ne_eq, Text.trim_eq_empty_iff, hs]
    decide
  have hkey : b.key = .ok ⟨Text.trim service, item⟩ := by
    simp only [Body.key, hservice, hitem, Option.getD_some, if_neg hne, htrim, hname]
  have hpos : Positive.ofInt? n.val = some n := Positive.ofInt?_eq_some_iff.2 rfl
  rw [Command.ofBytes, hread]
  simp only [Body.command, hkey, hnumber, hpos]
  cases kind with
  | setVersion => rfl
  | failNext => exact if_pos hn

/-! ## What is accepted -/

theorem Body.checked_of_key {b : Body} {k : Key} (h : b.key = .ok k) :
    k.service ≠ "" ∧ Text.trim k.service = k.service := by
  simp only [Body.key] at h
  split at h
  · cases h
  · rename_i hne
    split at h
    · cases h
      exact ⟨hne, Text.trim_trim _⟩
    · cases h

/-- The numbers of a body have 64 bits. -/
theorem Body.decoder_ensures : Body.decoder.Ensures fun b =>
    ∀ kind, -0x8000000000000000 ≤ b.number kind ∧ b.number kind ≤ 0x7FFFFFFFFFFFFFFF := by
  have hany (name : String) : (Record.defaulted name Decoder.string.nullable none).Ensures
      fun _ => True :=
    Record.defaulted_ensures name (fun _ _ _ _ => trivial) trivial
  have hint (name : String) : (Record.defaulted name Decoder.int64.nullable none).Ensures
      fun o => ∀ n ∈ o, -0x8000000000000000 ≤ n ∧ n ≤ 0x7FFFFFFFFFFFFFFF :=
    Record.defaulted_ensures name (Decoder.integer_ensures _ _).nullable nofun
  have hgetD {o : Option Int}
      (ho : ∀ n ∈ o, -0x8000000000000000 ≤ n ∧ n ≤ 0x7FFFFFFFFFFFFFFF) :
      -0x8000000000000000 ≤ o.getD 1 ∧ o.getD 1 ≤ 0x7FFFFFFFFFFFFFFF := by
    cases o with
    | none => decide
    | some n => exact ho n rfl
  have hservice := (hany "service").map Body.mk (t := fun f => ∃ s, f = Body.mk s)
    fun s _ => ⟨s, rfl⟩
  have hitem := hservice.seq (hany "item") (t := fun f => ∃ s i, f = Body.mk s i) (by
    rintro f i ⟨s, rfl⟩ -
    exact ⟨s, i, rfl⟩)
  have hversion := hitem.seq (hint "version") (t := fun f => ∃ s i v, f = Body.mk s i v ∧
      ∀ n ∈ v, -0x8000000000000000 ≤ n ∧ n ≤ 0x7FFFFFFFFFFFFFFF) (by
    rintro f v ⟨s, i, rfl⟩ hv
    exact ⟨s, i, v, rfl, hv⟩)
  refine Record.Ensures.decoder (hversion.seq (hint "count") ?_)
  rintro f c ⟨s, i, v, rfl, hv⟩ hc kind
  cases kind with
  | setVersion => exact hgetD hv
  | failNext => exact hgetD hc

/-- A body that asks for a call names its key and gives its number. -/
theorem Body.command_eq_ok {b : Body} {kind : Kind} {c : Command} (h : b.command kind = .ok c) :
    ∃ k n, b.key = .ok k ∧ b.number kind = n.val ∧ c = kind.command k n ∧
      (kind = .failNext → n.val ≤ maxCount) := by
  obtain ⟨k, hk, h⟩ := bind_eq_ok h
  cases hn : Positive.ofInt? (b.number kind) with
  | none =>
    rw [hn] at h
    cases h
  | some n =>
    refine ⟨k, n, hk, Positive.ofInt?_eq_some_iff.1 hn, ?_⟩
    rw [hn] at h
    cases kind with
    | setVersion =>
      cases h
      exact ⟨rfl, nofun⟩
    | failNext =>
      dsimp only at h
      split at h
      · rename_i hmax
        cases h
        exact ⟨rfl, fun _ => hmax⟩
      · cases h

/-- **What is accepted has passed every check**: the service is trimmed and not empty, and the
number is positive and not too large for its counter. -/
theorem checked_of_ofBytes {kind : Kind} {bs : List UInt8} {c : Command}
    (h : Command.ofBytes kind bs = .ok c) :
    ∃ k n, c = kind.command k n ∧ k.service ≠ "" ∧ Text.trim k.service = k.service ∧
      n.val ≤ kind.greatest := by
  rw [Command.ofBytes] at h
  cases hb : Json.decode Body.decoder bs with
  | error fault =>
    rw [hb] at h
    cases h
  | ok b =>
    obtain ⟨doc, hdoc⟩ := Json.exists_of_decode hb
    have hrange := Body.decoder_ensures hdoc kind
    rw [hb] at h
    obtain ⟨k, n, hk, hn, rfl, hmax⟩ := Body.command_eq_ok h
    obtain ⟨hne, htrim⟩ := Body.checked_of_key hk
    refine ⟨k, n, rfl, hne, htrim, ?_⟩
    cases kind with
    | setVersion =>
      simp only [Kind.greatest]
      omega
    | failNext => exact hmax rfl

/-! ## Bodies that are written -/

/-- An object of the three members alone is such a body when it is written. -/
theorem Body.gives_write (kind : Kind) (service item : String) {n : Nat}
    (hn : n ≤ 0x7FFFFFFFFFFFFFFF) :
    Body.Gives kind service item n (Text.Utf8.encode ((Json.Value.object [("item", .string item),
      ("service", .string service), (kind.field, .integer n)]).write .compact 0)) := by
  have hinteger : Json.Numeral.isInteger64 n = true := by
    simp only [Json.Numeral.isInteger64, Bool.and_eq_true, decide_eq_true_eq]
    omega
  have hexact : (Json.Value.object [("item", .string item), ("service", .string service),
      (kind.field, .integer n)]).isExact = true := by
    simp [Json.Value.isExact, Json.Value.areExactMembers, hinteger]
  refine ⟨_, [], _, _, (List.append_nil _).symm,
    Json.spells_write Json.Style.spaced_compact _ hexact 0, Json.space_nil, rfl, ?_⟩
  refine ⟨by simp [Json.Value.toDocument], by simp [Json.Value.toDocument],
    by simp [Json.Value.toDocument], ?_, ?_, ?_⟩
  · cases kind <;> simp [Kind.otherField, Kind.field]
  · have honce : ∀ name ∈ fields, ["item", "service", kind.field].count name ≤ 1 := by
      cases kind <;> decide
    exact honce
  · cases kind <;> simp [fields, Kind.field]

end CredentialBench.Control
