import CredentialBench.Proofs.Json.Object
import CredentialBench.Proofs.Simulator.ControlBody

/-!
# What the body of a control call is answered

For a JSON object of any members, however it is spelled, the answer to it as the body of a control
call follows from its members alone (`Ruling`): first the form of the four members that are known,
then the service, then the item, then the number. This is the answer that is given
(`ofBytes_ruling`), so what is accepted depends neither on the order of the members, nor on how they
are spelled, nor on members that are not known.
-/

namespace CredentialBench.Control

open Secret Document Json

/-! ## Members and the answers to them -/

/-- A member of that name holds that document. -/
def Holds (vs : Written) (name : String) (doc : Document) : Prop :=
  ∃ bs, (name, bs) ∈ vs ∧ Spells bs doc

/-- The literal of an integer of 64 bits. -/
def SpellsInt64 (bs : List UInt8) (n : Int) : Prop :=
  SpellsInteger bs n ∧ -0x8000000000000000 ≤ n ∧ n ≤ 0x7FFFFFFFFFFFFFFF

/-- What can be wrong with the form of a body. -/
inductive Malformed (vs : Written) : Prop
  /-- A known name comes more than once. -/
  | repeated {name : String} (h : name ∈ Body.fields) (hcount : 1 < (vs.map (·.1)).count name)
  /-- A service or an item that is neither null nor a string. -/
  | notText {name : String} {bs : List UInt8} (h : name = "service" ∨ name = "item")
      (hmem : (name, bs) ∈ vs) (hwrong : ¬ (Spells bs .null ∨ ∃ s, Spells bs (.string s)))
  /-- A version or a count, whichever of the two calls it is, that is neither null nor the literal
  of an integer of 64 bits. -/
  | notNumber {name : String} {bs : List UInt8} (h : name = "version" ∨ name = "count")
      (hmem : (name, bs) ∈ vs) (hwrong : ¬ (Spells bs .null ∨ ∃ n, SpellsInt64 bs n))

/-- The text that the members give under a name, the empty one if it is left out or null. -/
def GivesText (vs : Written) (name s : String) : Prop :=
  Holds vs name (.string s) ∨ (s = "" ∧ ∀ doc, Holds vs name doc → doc = .null)

/-- The number that the members give under a name, one if it is left out or null. -/
def GivesNumber (vs : Written) (name : String) (n : Int) : Prop :=
  (∃ bs, (name, bs) ∈ vs ∧ SpellsInt64 bs n) ∨ (n = 1 ∧ ∀ doc, Holds vs name doc → doc = .null)

/-- The members name a key: a service of which something is left without the blank characters at
its ends, and an item that is known without those at its. -/
structure Names (vs : Written) (key : Key) : Prop where
  formed : ¬ Malformed vs
  service : ∃ s, GivesText vs "service" s ∧ key.service = Text.trim s
  not_blank : key.service ≠ ""
  item : ∃ i, GivesText vs "item" i ∧ key.item.name = Text.trim i

/-- The answer that the members of a body call for. -/
inductive Ruling (kind : Kind) (vs : Written) : Except Problem Command → Prop
  | malformed (fault : Fault) (h : Malformed vs) : Ruling kind vs (.error (.malformed fault))
  | missingService {s : String} (h : ¬ Malformed vs) (hs : GivesText vs "service" s)
      (hblank : Text.trim s = "") : Ruling kind vs (.error .missingService)
  | unknownItem {s i : String} (h : ¬ Malformed vs) (hs : GivesText vs "service" s)
      (hblank : Text.trim s ≠ "") (hi : GivesText vs "item" i)
      (hunknown : ∀ item : Item, item.name ≠ Text.trim i) :
      Ruling kind vs (.error (.unknownItem (Text.trim i)))
  | nonPositive {key : Key} {n : Int} (h : Names vs key) (hn : GivesNumber vs kind.field n)
      (hpos : n ≤ 0) : Ruling kind vs (.error (.nonPositive kind n))
  | outOfRange {key : Key} {n : Int} (hkind : kind = .failNext) (h : Names vs key)
      (hn : GivesNumber vs kind.field n) (hmax : 4294967295 < n) :
      Ruling kind vs (.error (.outOfRange kind n))
  | accepted {key : Key} {n : Positive} (h : Names vs key) (hn : GivesNumber vs kind.field n.val)
      (hmax : kind = .failNext → n.val ≤ 4294967295) : Ruling kind vs (.ok (kind.command key n))

/-- The known names come as often in both, and with the same values. -/
def Alike (vs vs' : Written) : Prop :=
  ∀ name ∈ Body.fields, (vs.map (·.1)).count name = (vs'.map (·.1)).count name ∧
    ∀ doc, Holds vs name doc ↔ Holds vs' name doc

/-! ## Members and documents -/

section Members

variable {vs : Written} {name : String} {doc : Document}

theorem map_fst_held (vs : Written) : vs.held.map (·.1) = vs.map (·.1) := by
  rw [Written.held, List.map_map]
  rfl

theorem spellsInt64_iff {bs : List UInt8} {n : Int} :
    SpellsInt64 bs n ↔
      Spells bs (.integer n) ∧ -0x8000000000000000 ≤ n ∧ n ≤ 0x7FFFFFFFFFFFFFFF := by
  rw [SpellsInt64, spells_integer_iff]
  constructor
  · rintro ⟨h, hlo, hhi⟩
    exact ⟨⟨h, hlo, by omega⟩, hlo, hhi⟩
  · rintro ⟨⟨h, -, -⟩, hrange⟩
    exact ⟨h, hrange⟩

variable (hvs : ∀ v ∈ vs, Spells v.2 (held v.2))

include hvs

theorem holds_iff_mem : Holds vs name doc ↔ (name, doc) ∈ vs.held := by
  rw [Written.held, List.mem_map]
  constructor
  · rintro ⟨bs, hmem, hspells⟩
    exact ⟨_, hmem, by rw [hspells.held_eq]⟩
  · rintro ⟨⟨name', bs⟩, hmem, he⟩
    obtain ⟨rfl, rfl⟩ := Prod.mk.inj he
    exact ⟨bs, hmem, hvs _ hmem⟩

theorem holds_iff_lookup (honce : (vs.map (·.1)).count name ≤ 1) :
    Holds vs name doc ↔ vs.held.lookup name = some doc := by
  rw [holds_iff_mem hvs]
  rw [← map_fst_held] at honce
  exact ⟨fun h => lookup_eq_some_of_count h honce, mem_of_lookup_eq_some⟩

end Members

/-! ## Fields -/

section Fields

variable {α : Type}

/-- What a decoder reads from the members of a name, where nothing is read from none. -/
def Reads (d : Decoder α) (vs : Written) (name : String) (o : Option α) : Prop :=
  (vs.held.lookup name = none ∧ o = none) ∨
    ∃ doc, vs.held.lookup name = some doc ∧ d.nullable .json doc = .ok o

variable {d : Decoder α} {vs : Written} {name : String} {o : Option α}
  (hvs : ∀ v ∈ vs, Spells v.2 (held v.2)) (honce : (vs.map (·.1)).count name ≤ 1)

include hvs honce

/-- A field is read unless a member of its name holds what is neither null nor of its type. -/
theorem exists_reads_iff : (∃ o, Reads d vs name o) ↔
    ∀ bs, (name, bs) ∈ vs → Spells bs .null ∨ ∃ a, d .json (held bs) = .ok a := by
  have hread : (∃ o, Reads d vs name o) ↔
      ∀ doc, Holds vs name doc → ∃ o, d.nullable .json doc = .ok o := by
    simp only [holds_iff_lookup hvs honce, Reads]
    cases vs.held.lookup name <;> simp
  simp only [hread, Decoder.exists_nullable_iff]
  constructor
  · intro h bs hmem
    exact (h _ ⟨bs, hmem, hvs _ hmem⟩).imp_left (held_eq_iff (hvs _ hmem)).1
  · rintro h doc ⟨bs, hmem, hspells⟩
    rw [← hspells.held_eq]
    exact (h bs hmem).imp_left Spells.held_eq

theorem exists_reads_string_iff : (∃ o, Reads Decoder.string vs name o) ↔
    ∀ bs, (name, bs) ∈ vs → Spells bs .null ∨ ∃ s, Spells bs (.string s) := by
  rw [exists_reads_iff hvs honce]
  refine forall₂_congr fun bs hmem => ?_
  simp only [Decoder.string_eq_ok_iff, held_eq_iff (hvs _ hmem)]

theorem exists_reads_int64_iff : (∃ o, Reads Decoder.int64 vs name o) ↔
    ∀ bs, (name, bs) ∈ vs → Spells bs .null ∨ ∃ n, SpellsInt64 bs n := by
  rw [exists_reads_iff hvs honce]
  refine forall₂_congr fun bs hmem => ?_
  simp only [Decoder.int64, Decoder.integer_eq_ok_iff, held_eq_iff (hvs _ hmem), spellsInt64_iff]

theorem reads_string_iff {s : String} {o : Option String} (h : Reads Decoder.string vs name o) :
    GivesText vs name s ↔ s = o.getD "" := by
  simp only [GivesText, holds_iff_lookup hvs honce]
  rcases h with ⟨hnone, rfl⟩ | ⟨doc, hdoc, hread⟩
  · simp [hnone]
  · rcases Decoder.nullable_eq_ok_iff.1 hread with ⟨rfl, rfl⟩ | ⟨-, t, ht, rfl⟩
    · simp [hdoc]
    · obtain rfl := Decoder.string_eq_ok_iff.1 ht
      simp [hdoc, eq_comm]

theorem reads_int64_iff {n : Int} {o : Option Int} (h : Reads Decoder.int64 vs name o) :
    GivesNumber vs name n ↔ n = o.getD 1 := by
  have hnumber : (∃ bs, (name, bs) ∈ vs ∧ SpellsInt64 bs n) ↔
      Holds vs name (.integer n) ∧ -0x8000000000000000 ≤ n ∧ n ≤ 0x7FFFFFFFFFFFFFFF := by
    simp only [spellsInt64_iff, Holds, ← and_assoc, exists_and_right]
  simp only [GivesNumber, hnumber, holds_iff_lookup hvs honce]
  rcases h with ⟨hnone, rfl⟩ | ⟨doc, hdoc, hread⟩
  · simp [hnone]
  · rcases Decoder.nullable_eq_ok_iff.1 hread with ⟨rfl, rfl⟩ | ⟨-, m, hm, rfl⟩
    · simp [hdoc]
    · obtain ⟨rfl, hrange⟩ := Decoder.integer_eq_ok_iff.1 hm
      simp only [hdoc, Option.some.injEq, Document.integer.injEq, reduceCtorEq, Option.getD_some,
        forall_eq', and_false, or_false]
      constructor
      · rintro ⟨rfl, -⟩
        rfl
      · rintro rfl
        exact ⟨rfl, hrange⟩

end Fields

/-! ## Bodies -/

/-- A body as the members of an object give it. -/
structure Body.ReadFrom (vs : Written) (b : Body) : Prop where
  once : ∀ name ∈ fields, (vs.map (·.1)).count name ≤ 1
  service : Reads Decoder.string vs "service" b.service
  item : Reads Decoder.string vs "item" b.item
  version : Reads Decoder.int64 vs "version" b.version
  count : Reads Decoder.int64 vs "count" b.count

namespace Body

variable {b : Body} {kind : Kind} {key : Key}

theorem command_of_key_error {p : Problem} (h : b.key = .error p) : b.command kind = .error p := by
  rw [command, h]
  rfl

variable (hkey : b.key = .ok key)

include hkey

theorem command_nonPositive (h : b.number kind ≤ 0) :
    b.command kind = .error (.nonPositive kind (b.number kind)) := by
  have hnone : Positive.ofInt? (b.number kind) = none := by
    rw [Positive.ofInt?, dif_neg (by omega)]
  rw [command, hkey]
  simp only [hnone]
  rfl

theorem command_accepted {n : Positive} (hn : b.number kind = n.val)
    (hmax : kind = .failNext → n.val ≤ maxCount) : b.command kind = .ok (kind.command key n) := by
  rw [command, hkey]
  simp only [Positive.ofInt?_eq_some_iff.2 hn]
  cases kind with
  | setVersion => rfl
  | failNext => exact if_pos (hmax rfl)

theorem command_outOfRange (h : maxCount < b.number .failNext) :
    b.command .failNext = .error (.outOfRange .failNext (b.number .failNext)) := by
  obtain ⟨n, hn⟩ : ∃ n : Positive, b.number .failNext = n.val :=
    ⟨⟨(b.number .failNext).toNat, by omega⟩, by simp only; omega⟩
  rw [command, hkey]
  simp only [Positive.ofInt?_eq_some_iff.2 hn]
  exact if_neg (by omega)

end Body

section Bodies

variable {kind : Kind} {vs : Written} {b : Body} (hvs : ∀ v ∈ vs, Spells v.2 (held v.2))

include hvs

/-- A body is read from an object exactly as its members give it. -/
theorem decoder_eq_ok_iff {ms : Members} (hms : ms.entries? = some vs.held) :
    Body.decoder .json (.table ms) = .ok b ↔ Body.ReadFrom vs b := by
  have hwell : ∀ e ∈ vs.held, e.2.wellFormed = true := by
    intro e he
    obtain ⟨v, hv, rfl⟩ := List.mem_map.1 he
    exact (hvs v hv).wellFormed
  rw [Body.decoder, Record.decoder_table_iff _ hms hwell, map_fst_held]
  simp only [Record.ofMembers_seq_iff, Record.ofMembers_map_iff, Record.ofMembers_defaulted_iff hms]
  constructor
  · rintro ⟨honce, _, c, ⟨_, v, ⟨_, i, ⟨s, hs, rfl⟩, hi, rfl⟩, hv, rfl⟩, hc, rfl⟩
    exact ⟨honce, hs, hi, hv, hc⟩
  · rintro ⟨honce, hs, hi, hv, hc⟩
    exact ⟨honce, _, _, ⟨_, _, ⟨_, _, ⟨_, hs, rfl⟩, hi, rfl⟩, hv, rfl⟩, hc, rfl⟩

/-- The members have the form of a body exactly if a body is read from them. -/
theorem not_malformed_iff : ¬ Malformed vs ↔ ∃ b, Body.ReadFrom vs b := by
  constructor
  · intro h
    have honce : ∀ name ∈ Body.fields, (vs.map (·.1)).count name ≤ 1 := fun name hname =>
      Nat.not_lt.1 fun hcount => h (.repeated hname hcount)
    obtain ⟨s, hs⟩ := (exists_reads_string_iff hvs (honce "service" (by decide))).2
      fun bs hmem => by_contra fun hwrong => h (.notText (.inl rfl) hmem hwrong)
    obtain ⟨i, hi⟩ := (exists_reads_string_iff hvs (honce "item" (by decide))).2
      fun bs hmem => by_contra fun hwrong => h (.notText (.inr rfl) hmem hwrong)
    obtain ⟨v, hv⟩ := (exists_reads_int64_iff hvs (honce "version" (by decide))).2
      fun bs hmem => by_contra fun hwrong => h (.notNumber (.inl rfl) hmem hwrong)
    obtain ⟨c, hc⟩ := (exists_reads_int64_iff hvs (honce "count" (by decide))).2
      fun bs hmem => by_contra fun hwrong => h (.notNumber (.inr rfl) hmem hwrong)
    exact ⟨⟨s, i, v, c⟩, honce, hs, hi, hv, hc⟩
  · rintro ⟨b, hb⟩ h
    cases h with
    | repeated hname hcount => exact absurd (hb.once _ hname) (Nat.not_le.2 hcount)
    | notText hname hmem hwrong =>
      refine hwrong ?_
      rcases hname with rfl | rfl
      · exact (exists_reads_string_iff hvs (hb.once _ (by decide))).1 ⟨_, hb.service⟩ _ hmem
      · exact (exists_reads_string_iff hvs (hb.once _ (by decide))).1 ⟨_, hb.item⟩ _ hmem
    | notNumber hname hmem hwrong =>
      refine hwrong ?_
      rcases hname with rfl | rfl
      · exact (exists_reads_int64_iff hvs (hb.once _ (by decide))).1 ⟨_, hb.version⟩ _ hmem
      · exact (exists_reads_int64_iff hvs (hb.once _ (by decide))).1 ⟨_, hb.count⟩ _ hmem

section ReadFrom

variable (hb : Body.ReadFrom vs b)

include hb

theorem givesService_iff {s : String} : GivesText vs "service" s ↔ s = b.service.getD "" :=
  reads_string_iff hvs (hb.once _ (by decide)) hb.service

theorem givesItem_iff {s : String} : GivesText vs "item" s ↔ s = b.item.getD "" :=
  reads_string_iff hvs (hb.once _ (by decide)) hb.item

theorem givesNumber_iff {n : Int} : GivesNumber vs kind.field n ↔ n = b.number kind := by
  cases kind with
  | setVersion => exact reads_int64_iff hvs (hb.once _ (by decide)) hb.version
  | failNext => exact reads_int64_iff hvs (hb.once _ (by decide)) hb.count

theorem names_iff {key : Key} : Names vs key ↔ b.key = .ok key := by
  have hformed : ¬ Malformed vs := (not_malformed_iff hvs).2 ⟨b, hb⟩
  simp only [Body.key]
  constructor
  · rintro ⟨-, ⟨s, hs, hservice⟩, hblank, i, hi, hitem⟩
    obtain rfl := (givesService_iff hvs hb).1 hs
    obtain rfl := (givesItem_iff hvs hb).1 hi
    rw [← hservice, if_neg hblank, Item.ofName?_eq_some_iff.2 hitem]
  · intro h
    split at h
    · cases h
    rename_i hblank
    split at h
    · rename_i item hitem
      cases h
      exact ⟨hformed, ⟨_, (givesService_iff hvs hb).2 rfl, rfl⟩, hblank, _,
        (givesItem_iff hvs hb).2 rfl, Item.ofName?_eq_some_iff.1 hitem⟩
    · cases h

/-- What the members call for is what the body asks for. -/
theorem Ruling.eq_command {r : Except Problem Command} (h : Ruling kind vs r) :
    b.command kind = r := by
  have hformed : ¬ Malformed vs := (not_malformed_iff hvs).2 ⟨b, hb⟩
  cases h with
  | malformed fault h => exact absurd h hformed
  | missingService _ hs hblank =>
    obtain rfl := (givesService_iff hvs hb).1 hs
    exact Body.command_of_key_error (if_pos hblank)
  | @unknownItem s i _ hs hblank hi hunknown =>
    obtain rfl := (givesService_iff hvs hb).1 hs
    obtain rfl := (givesItem_iff hvs hb).1 hi
    have hnone : Item.ofName? (Text.trim (b.item.getD "")) = none :=
      Option.eq_none_iff_forall_ne_some.2 fun item h => hunknown item (Item.ofName?_eq_some_iff.1 h)
    refine Body.command_of_key_error ?_
    simp only [Body.key, if_neg hblank, hnone]
  | nonPositive h hn hpos =>
    obtain rfl := (givesNumber_iff hvs hb).1 hn
    exact Body.command_nonPositive ((names_iff hvs hb).1 h) hpos
  | outOfRange hkind h hn hmax =>
    obtain rfl := (givesNumber_iff hvs hb).1 hn
    subst hkind
    exact Body.command_outOfRange ((names_iff hvs hb).1 h) hmax
  | accepted h hn hmax =>
    exact Body.command_accepted ((names_iff hvs hb).1 h) ((givesNumber_iff hvs hb).1 hn).symm hmax

/-- What a body asks for is what its members call for. -/
theorem ruling_command : Ruling kind vs (b.command kind) := by
  have hformed : ¬ Malformed vs := (not_malformed_iff hvs).2 ⟨b, hb⟩
  have hservice := (givesService_iff hvs hb).2 rfl
  have hitem := (givesItem_iff hvs hb).2 rfl
  have hnumber : GivesNumber vs kind.field (b.number kind) := (givesNumber_iff hvs hb).2 rfl
  cases hkey : b.key with
  | error p =>
    rw [Body.command_of_key_error hkey]
    simp only [Body.key] at hkey
    split at hkey
    · rename_i hblank
      cases hkey
      exact .missingService hformed hservice hblank
    rename_i hblank
    split at hkey
    · cases hkey
    · rename_i hnone
      cases hkey
      refine .unknownItem hformed hservice hblank hitem fun item h => ?_
      rw [Item.ofName?_eq_some_iff.2 h] at hnone
      cases hnone
  | ok key =>
    have hnames := (names_iff hvs hb).2 hkey
    by_cases hpos : b.number kind ≤ 0
    · rw [Body.command_nonPositive hkey hpos]
      exact .nonPositive hnames hnumber hpos
    obtain ⟨n, hn⟩ : ∃ n : Positive, b.number kind = n.val :=
      ⟨⟨(b.number kind).toNat, by omega⟩, by simp only; omega⟩
    by_cases hmax : kind = .failNext → n.val ≤ 4294967295
    · rw [Body.command_accepted hkey hn hmax]
      rw [hn] at hnumber
      exact .accepted hnames hnumber hmax
    · obtain ⟨rfl, hmax⟩ := Classical.not_imp.1 hmax
      have hmax : 4294967295 < b.number .failNext := by omega
      rw [Body.command_outOfRange hkey hmax]
      exact .outOfRange rfl hnames hnumber hmax

end ReadFrom

/-- An object is answered as the body that is read from it, or is malformed. -/
theorem ofBytes_cases {bs : List UInt8} (h : SpellsObject bs vs) :
    (∃ b, Body.ReadFrom vs b ∧ Command.ofBytes kind bs = b.command kind) ∨
      (Malformed vs ∧ ∃ fault, Command.ofBytes kind bs = .error (.malformed fault)) := by
  obtain ⟨⟨text, after, ms, rfl, hafter, htext, hms⟩, -⟩ := h.table
  rw [Command.ofBytes, decode_eq_of_spells htext hafter]
  cases hread : Body.decoder .json (.table ms) with
  | ok b => exact .inl ⟨b, (decoder_eq_ok_iff hvs hms).1 hread, rfl⟩
  | error fault =>
    refine .inr ⟨by_contra fun hformed => ?_, fault, rfl⟩
    obtain ⟨b, hb⟩ := (not_malformed_iff hvs).1 hformed
    rw [(decoder_eq_ok_iff hvs hms).2 hb] at hread
    cases hread

end Bodies

/-! ## Bodies that are alike -/

section Alike

variable {kind : Kind} {vs vs' : Written}

theorem Alike.symm (h : Alike vs vs') : Alike vs' vs := fun name hname =>
  ⟨(h name hname).1.symm, fun doc => ((h name hname).2 doc).symm⟩

/-- What is read from one object is read from all that are like it. -/
theorem Body.ReadFrom.of_alike (hvs : ∀ v ∈ vs, Spells v.2 (held v.2))
    (hvs' : ∀ v ∈ vs', Spells v.2 (held v.2)) (h : Alike vs vs') {b : Body} (hb : ReadFrom vs b) :
    ReadFrom vs' b := by
  have honce : ∀ name ∈ fields, (vs'.map (·.1)).count name ≤ 1 := fun name hname =>
    (h name hname).1 ▸ hb.once name hname
  have hlookup : ∀ name ∈ fields, vs.held.lookup name = vs'.held.lookup name := by
    refine fun name hname => Option.ext fun doc => ?_
    rw [← holds_iff_lookup hvs (hb.once name hname), ← holds_iff_lookup hvs' (honce name hname)]
    exact (h name hname).2 doc
  have hreads {α : Type} {d : Decoder α} {name : String} {o : Option α} (hname : name ∈ fields)
      (hr : Reads d vs name o) : Reads d vs' name o := by
    rwa [Reads, ← hlookup name hname]
  exact ⟨honce, hreads (by decide) hb.service, hreads (by decide) hb.item,
    hreads (by decide) hb.version, hreads (by decide) hb.count⟩

theorem ofBytes_of_alike {bs bs' : List UInt8} (h : SpellsObject bs vs) (h' : SpellsObject bs' vs')
    (halike : Alike vs vs') {c : Command} (hc : Command.ofBytes kind bs = .ok c) :
    Command.ofBytes kind bs' = .ok c := by
  obtain ⟨-, hvs⟩ := h.table
  obtain ⟨-, hvs'⟩ := h'.table
  rcases ofBytes_cases hvs h with ⟨b, hb, hcommand⟩ | ⟨-, fault, hfault⟩
  · have hb' := hb.of_alike hvs hvs' halike
    rcases ofBytes_cases hvs' h' with ⟨b', hb'', hcommand'⟩ | ⟨hmalformed, -⟩
    · rw [hcommand', ← (ruling_command hvs' hb'').eq_command hvs' hb', ← hcommand, hc]
    · exact absurd hmalformed ((not_malformed_iff hvs').2 ⟨b, hb'⟩)
  · rw [hfault] at hc
    cases hc

end Alike

/-! ## The answer -/

/-- **What the body of a control call is answered**, whatever its members and however they are
spelled: what the members call for, and nothing else they call for but another fault in their form.
What is accepted, and with which key and number, is the same for all objects that have the known
names as often and with the same values. -/
theorem ofBytes_ruling (kind : Kind) {bs : List UInt8} {vs : Written} (h : SpellsObject bs vs) :
    Ruling kind vs (Command.ofBytes kind bs) ∧
      (∀ r, Ruling kind vs r →
        r = Command.ofBytes kind bs ∨ (Malformed vs ∧ ∃ fault, r = .error (.malformed fault))) ∧
      ∀ bs' vs', SpellsObject bs' vs' → Alike vs vs' →
        ∀ c, Command.ofBytes kind bs = .ok c ↔ Command.ofBytes kind bs' = .ok c := by
  obtain ⟨-, hvs⟩ := h.table
  refine ⟨?_, fun r hr => ?_, fun bs' vs' h' halike c =>
    ⟨ofBytes_of_alike h h' halike, ofBytes_of_alike h' h halike.symm⟩⟩
  · rcases ofBytes_cases hvs h with ⟨b, hb, hcommand⟩ | ⟨hmalformed, fault, hfault⟩
    · rw [hcommand]
      exact ruling_command hvs hb
    · rw [hfault]
      exact .malformed fault hmalformed
  · rcases ofBytes_cases hvs h with ⟨b, hb, hcommand⟩ | ⟨hmalformed, -⟩
    · exact .inl (hcommand.trans (hr.eq_command hvs hb)).symm
    · cases hr with
      | malformed fault => exact .inr ⟨hmalformed, fault, rfl⟩
      | missingService hformed | unknownItem hformed => exact absurd hmalformed hformed
      | nonPositive hnames | outOfRange _ hnames | accepted hnames =>
        exact absurd hmalformed hnames.formed

/-- A call to fail one read, with the name of the item escaped, behind a member that is not
known. -/
def escapedBody : List UInt8 :=
  Text.Utf8.bytes "\x7b\"x\":-0,\"it\\u0065m\":\"eab\",\"service\" : \" a\",\"count\":null\x7d"

/-- The members of that body. -/
def escapedMembers : Written :=
  [("x", Text.Utf8.bytes "-0"), ("item", Text.Utf8.bytes "\"eab\""),
    ("service", Text.Utf8.bytes " \" a\""), ("count", Text.Utf8.bytes "null")]

/-- A text between quotes, escaped as the writer does it. -/
theorem spells_text (s : String) : Spells (0x22 :: (Text.Utf8.encode (s.toList.flatMap escapedChar)
    ++ [0x22])) (.string s) :=
  .string (Piece.spells_escaped s.toList) (Piece.text?_flatMap_pieces s)

theorem spells_escapedBody : SpellsObject escapedBody escapedMembers := by
  have name (s : String) {ws : List UInt8} (hw : Space ws) :
      SpellsName ([] ++ 0x22 :: (Text.Utf8.encode (s.toList.flatMap escapedChar) ++
        0x22 :: (ws ++ [0x3A]))) (some s) :=
    Piece.text?_flatMap_pieces s ▸ SpellsName.mk space_nil (Piece.spells_escaped s.toList) hw
  have hzero : Numeral.Spells (Text.Utf8.bytes "-0") ⟨true, [0], none, none⟩ :=
    @Numeral.Spells.mk true [0] _ _ _ _ ⟨⟨by decide, by decide⟩, by simp⟩ .absent .absent
  have hitem : SpellsName (Text.Utf8.bytes "\"it\\u0065m\":") (some "item") := by
    have hunit : Piece.Spells (Text.Utf8.bytes "\\u0065m") [.unit 0x65, .byte 0x6D] :=
      .unit (by decide) (.plain (by decide) (by decide) (by decide) .nil)
    have hpieces : Piece.Spells (Text.Utf8.bytes "it\\u0065m")
        [.byte 0x69, .byte 0x74, .unit 0x65, .byte 0x6D] :=
      .plain (by decide) (by decide) (by decide)
        (.plain (by decide) (by decide) (by decide) hunit)
    have htext : Piece.text? [.byte 0x69, .byte 0x74, .unit 0x65, .byte 0x6D] = some "item" := by
      decide +kernel
    exact htext ▸ SpellsName.mk space_nil hpieces space_nil
  have hspace : Space [0x20] := by simp [Space, isSpace]
  exact @SpellsObject.members [] escapedBody.tail [] _ space_nil
    (.next (name "x" space_nil) (.numeral hzero) space_nil
      (.next hitem (spells_text "eab") space_nil
        (.next (name "service" hspace) (.space rfl (spells_text " a")) space_nil
          (.last (name "count" space_nil) .null space_nil))))
    space_nil

theorem ofBytes_ruling_escaped : SpellsObject escapedBody escapedMembers ∧
    Command.ofBytes .failNext escapedBody = .ok (.failNext ⟨"a", .eab⟩ .one) ∧
    Ruling .failNext escapedMembers (.ok (.failNext ⟨"a", .eab⟩ .one)) := by
  have hread : Command.ofBytes .failNext escapedBody = .ok (.failNext ⟨"a", .eab⟩ .one) := by
    decide +kernel
  exact ⟨spells_escapedBody, hread, hread ▸ (ofBytes_ruling .failNext spells_escapedBody).1⟩

end CredentialBench.Control
