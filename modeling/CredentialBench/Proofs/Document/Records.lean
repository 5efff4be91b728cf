import CredentialBench.Document.Record

/-!
# Records in whole tables

A table that is read to its end, and every name of which spells a text, is the list of its members
(`Members.entries?`). A record is read from such a table member by member, as soon as no known name
comes twice and every member that is skipped is well formed (`Record.decoder_table`); what one field
is read from is the member that the list has under its name (`Record.ofMembers_defaulted`).
-/

namespace CredentialBench.Document

/-- The members of a table that is read to its end and whose names all spell texts. -/
def Members.entries? : Members → Option (List (String × Document))
  | .closed => some []
  | .stray _ => none
  | .next name value rest => do
    let name ← name
    let rest ← rest.entries?
    return (name, value) :: rest

theorem Members.entries?_next {name : Option String} {value : Document} {rest : Members}
    {es : List (String × Document)} (h : (Members.next name value rest).entries? = some es) :
    ∃ n es', name = some n ∧ rest.entries? = some es' ∧ es = (n, value) :: es' := by
  cases name with
  | none => cases h
  | some n =>
    obtain ⟨es', hes', he⟩ := Option.bind_eq_some_iff.1 h
    exact ⟨n, es', rfl, hes', (Option.some.inj he).symm⟩

theorem Members.find?_eq_lookup {ms : Members} {es : List (String × Document)}
    (h : ms.entries? = some es) (name : String) :
    (ms.find? name).map (·.2) = es.lookup name := by
  induction es generalizing ms with
  | nil =>
    cases ms with
    | closed => rfl
    | stray _ => cases h
    | next _ _ _ =>
      obtain ⟨n, es', -, -, he⟩ := Members.entries?_next h
      cases he
  | cons e es ih =>
    cases ms with
    | closed => cases h
    | stray _ => cases h
    | next name' value rest =>
      obtain ⟨n, es', rfl, hrest, he⟩ := Members.entries?_next h
      obtain ⟨rfl, rfl⟩ := List.cons.inj he
      have ih := ih hrest
      by_cases hn : name = n
      · simp [Members.find?, hn]
      · have hne : (name == n) = false := by simpa using hn
        rw [List.lookup_cons, hne, ← ih, Members.find?, if_neg fun e => hn (Option.some.inj e).symm,
          Option.map_map]
        rfl

namespace Record

variable {α : Type}

/-- Nothing is wrong with a table in which no known name comes twice and every other member is well
formed. -/
theorem audit_eq_ok {known seen : List String} {ms : Members} {es : List (String × Document)}
    (h : ms.entries? = some es)
    (honce : ∀ name ∈ known, (es.map (·.1)).count name + (if name ∈ seen then 1 else 0) ≤ 1)
    (hskip : ∀ e ∈ es, e.1 ∉ known → e.2.wellFormed = true) (place : Nat) :
    audit known seen place ms = .ok () := by
  induction es generalizing ms seen place with
  | nil =>
    cases ms with
    | closed => rfl
    | stray _ => cases h
    | next _ _ _ =>
      obtain ⟨n, es', -, -, he⟩ := Members.entries?_next h
      cases he
  | cons e es ih =>
    cases ms with
    | closed => cases h
    | stray _ => cases h
    | next name value rest =>
      obtain ⟨n, es', rfl, hrest, he⟩ := Members.entries?_next h
      obtain ⟨rfl, rfl⟩ := List.cons.inj he
      have hskip' : ∀ e ∈ es, e.1 ∉ known → e.2.wellFormed = true :=
        fun e he => hskip e (List.mem_cons_of_mem _ he)
      by_cases hknown : n ∈ known
      · have hn := honce n hknown
        have hseen : n ∉ seen := by
          intro hs
          simp [hs] at hn
        rw [audit, if_pos hknown, if_neg hseen]
        refine ih hrest (fun name hname => ?_) hskip' _
        have hcount := honce name hname
        by_cases he : name = n
        · subst he
          simp [hseen] at hcount ⊢
          omega
        · simpa [he, Ne.symm he, List.count_cons] using hcount
      · have hvalue : value.wellFormed = true := hskip (n, value) List.mem_cons_self hknown
        rw [audit, if_neg hknown, if_pos hvalue]
        refine ih hrest (fun name hname => ?_) hskip' _
        have hne : name ≠ n := fun e => hknown (e ▸ hname)
        simpa [Ne.symm hne, List.count_cons] using honce name hname

/-- Where nothing is wrong with a table, no known name comes twice. -/
theorem once_of_audit {known seen : List String} {ms : Members} {es : List (String × Document)}
    (h : ms.entries? = some es) {place : Nat} (haudit : audit known seen place ms = .ok ()) :
    ∀ name ∈ known, (es.map (·.1)).count name + (if name ∈ seen then 1 else 0) ≤ 1 := by
  induction es generalizing ms seen place with
  | nil =>
    intro name _
    rw [List.map_nil, List.count_nil]
    split <;> omega
  | cons e es ih =>
    cases ms with
    | closed => cases h
    | stray _ => cases h
    | next name' value rest =>
      obtain ⟨n, es', rfl, hrest, he⟩ := Members.entries?_next h
      obtain ⟨rfl, rfl⟩ := List.cons.inj he
      intro name hname
      rw [audit] at haudit
      by_cases hknown : n ∈ known
      · rw [if_pos hknown] at haudit
        by_cases hseen : n ∈ seen
        · rw [if_pos hseen] at haudit
          cases haudit
        · rw [if_neg hseen] at haudit
          have ih := ih hrest haudit name hname
          by_cases he : name = n
          · subst he
            simp [hseen] at ih ⊢
            omega
          · simpa [he, Ne.symm he, List.count_cons] using ih
      · rw [if_neg hknown] at haudit
        have hne : name ≠ n := fun e => hknown (e ▸ hname)
        split at haudit
        · simpa [Ne.symm hne, List.count_cons] using ih hrest haudit name hname
        · cases haudit

section Fields

variable {β : Type} {format : Format} {ms : Members}

theorem ofMembers_map (f : α → β) {r : Record α} {a : α} (h : r.ofMembers format ms = .ok a) :
    (f <$> r).ofMembers format ms = .ok (f a) := by
  change (Located.ok f).seq (r.ofMembers format ms) = _
  rw [h, Located.seq]

theorem ofMembers_seq {r : Record (α → β)} {f : α → β} (hr : r.ofMembers format ms = .ok f)
    {r' : Record α} {a : α} (h : r'.ofMembers format ms = .ok a) :
    (r <*> r').ofMembers format ms = .ok (f a) := by
  change (r.ofMembers format ms).seq (r'.ofMembers format ms) = _
  rw [hr, h, Located.seq]

/-- A field that must be there is read from the member of its name. -/
theorem ofMembers_required {name : String} {d : Decoder α} {doc : Document} {a : α}
    (h : (ms.find? name).map (·.2) = some doc) (ha : d format doc = .ok a) :
    (required name d).ofMembers format ms = .ok a := by
  obtain ⟨⟨i, doc'⟩, hfind, rfl⟩ := Option.map_eq_some_iff.1 h
  simp only [required, field, hfind, ha]

end Fields

/-- A record in a table in which nothing is wrong is what its fields are read as. -/
theorem decoder_of_audit {r : Record α} {format : Format} {ms : Members}
    (haudit : audit r.names [] 0 ms = .ok ()) {a : α} (ha : r.ofMembers format ms = .ok a) :
    r.decoder format (.table ms) = .ok a := by
  rw [decoder, decodeMembers, haudit, ha]
  rfl

/-- **A record in a whole table** is what its fields are read as. -/
theorem decoder_table (r : Record α) (format : Format) {ms : Members}
    {es : List (String × Document)} (h : ms.entries? = some es)
    (honce : ∀ name ∈ r.names, (es.map (·.1)).count name ≤ 1)
    (hskip : ∀ e ∈ es, e.1 ∉ r.names → e.2.wellFormed = true) {a : α}
    (ha : r.ofMembers format ms = .ok a) : r.decoder format (.table ms) = .ok a :=
  decoder_of_audit (audit_eq_ok h (fun name hname => by simpa using honce name hname) hskip 0) ha

section Defaulted

variable {name : String} {d : Decoder α} {value : α} {format : Format} {ms : Members}
  {es : List (String × Document)} (h : ms.entries? = some es)

include h

/-- A field that the table does not have takes its own value. -/
theorem ofMembers_defaulted_of_none (hnone : es.lookup name = none) :
    (defaulted name d value).ofMembers format ms = .ok value := by
  rw [← Members.find?_eq_lookup h name] at hnone
  simp only [defaulted, field, Option.map_eq_none_iff.1 hnone]

/-- A field is read from what the table has under its name. -/
theorem ofMembers_defaulted {doc : Document} (hdoc : es.lookup name = some doc) {a : α}
    (ha : d format doc = .ok a) : (defaulted name d value).ofMembers format ms = .ok a := by
  rw [← Members.find?_eq_lookup h name] at hdoc
  obtain ⟨⟨i, doc'⟩, hfind, rfl⟩ := Option.map_eq_some_iff.1 hdoc
  simp only [defaulted, field, hfind, ha]

end Defaulted

end Record

/-! ## What every value that is read has in common -/

section Ensures

variable {α β : Type}

theorem bind_eq_ok {ε : Type} {x : Except ε α} {f : α → Except ε β} {b : β}
    (h : x >>= f = .ok b) : ∃ a, x = .ok a ∧ f a = .ok b := by
  cases x with
  | error e => cases h
  | ok a => exact ⟨a, rfl, h⟩

theorem Located.seq_eq_ok {f : Located (α → β)} {a : Located α} {b : β} (h : f.seq a = .ok b) :
    ∃ g x, f = .ok g ∧ a = .ok x ∧ b = g x := by
  cases f with
  | ok g =>
    cases a with
    | ok x =>
      cases h
      exact ⟨g, x, rfl, rfl, rfl⟩
    | fault j e => cases h
  | fault i e =>
    cases a with
    | ok x => cases h
    | fault j e' =>
      simp only [seq] at h
      split at h <;> cases h

/-- Every value that is read has a property. -/
def Decoder.Ensures (d : Decoder α) (p : α → Prop) : Prop :=
  ∀ ⦃format doc a⦄, d format doc = .ok a → p a

/-- Every record that is read has a property, be it from a table or from an array. -/
structure Record.Ensures (r : Record α) (p : α → Prop) : Prop where
  ofMembers : ∀ ⦃format ms a⦄, r.ofMembers format ms = .ok a → p a
  ofItems : ∀ ⦃format is a rest⦄, r.ofItems format is = .ok (a, rest) → p a

theorem Decoder.integer_ensures (lo hi : Int) :
    (Decoder.integer lo hi).Ensures fun n => lo ≤ n ∧ n ≤ hi := by
  intro format doc n h
  cases doc with
  | integer m =>
    simp only [Decoder.integer] at h
    split at h
    · cases h
      assumption
    · cases h
  | _ => cases h

theorem Decoder.Ensures.nullable {d : Decoder α} {p : α → Prop} (h : d.Ensures p) :
    d.nullable.Ensures fun o => ∀ a ∈ o, p a := by
  intro format doc o ho
  have hmap {doc : Document} (hdoc : (d format doc).map some = .ok o) : ∀ a ∈ o, p a := by
    cases hd : d format doc with
    | error e => simp [hd, Except.map] at hdoc
    | ok a =>
      rw [hd] at hdoc
      cases hdoc
      intro b hb
      cases hb
      exact h hd
  cases doc with
  | null =>
    cases ho
    exact nofun
  | _ => exact hmap ho

namespace Record

/-- A field has what its decoder and the value that stands in for it have. -/
theorem defaulted_ensures (name : String) {d : Decoder α} {value : α} {p : α → Prop}
    (hd : d.Ensures p) (hvalue : p value) : (defaulted name d value).Ensures p := by
  constructor
  · intro format ms a h
    simp only [defaulted, field] at h
    split at h
    · split at h
      · cases h
        exact hd ‹_›
      · cases h
    · cases h
      exact hvalue
  · intro format is a rest h
    cases is with
    | closed =>
      cases h
      exact hvalue
    | broken => cases h
    | next item rest' =>
      obtain ⟨b, hb, h⟩ := bind_eq_ok h
      cases h
      exact hd hb

theorem Ensures.seq {r : Record (α → β)} {p : (α → β) → Prop} (hr : r.Ensures p)
    {r' : Record α} {q : α → Prop} (hr' : r'.Ensures q) {t : β → Prop}
    (h : ∀ f a, p f → q a → t (f a)) : (r <*> r').Ensures t := by
  constructor
  · intro format ms b hb
    obtain ⟨f, a, hf, ha, rfl⟩ := Located.seq_eq_ok hb
    exact h f a (hr.ofMembers hf) (hr'.ofMembers ha)
  · intro format is b rest hb
    obtain ⟨⟨f, rest'⟩, hf, hb⟩ := bind_eq_ok hb
    obtain ⟨⟨a, rest''⟩, ha, hb⟩ := bind_eq_ok hb
    cases hb
    exact h f a (hr.ofItems hf) (hr'.ofItems ha)

theorem Ensures.map {r : Record α} {p : α → Prop} (hr : r.Ensures p) (f : α → β) {t : β → Prop}
    (h : ∀ a, p a → t (f a)) : (f <$> r).Ensures t := by
  refine Ensures.seq (r := Record.pure f) (p := (· = f)) ⟨?_, ?_⟩ hr ?_
  · intro format ms g hg
    cases hg
    rfl
  · intro format is g rest hg
    cases hg
    rfl
  · rintro g a rfl ha
    exact h a ha

/-- A record that is read from a table: nothing is wrong with the table, and the record is what its
fields are read as. -/
theorem decodeMembers_eq_ok {r : Record α} {format : Format} {ms : Members} {a : α}
    (h : r.decodeMembers format ms = .ok a) :
    audit r.names [] 0 ms = .ok () ∧ r.ofMembers format ms = .ok a := by
  rw [decodeMembers] at h
  cases hseq : ((audit r.names [] 0 ms).map fun _ a => a).seq (r.ofMembers format ms) with
  | fault i e => rw [hseq] at h; cases h
  | ok b =>
    rw [hseq] at h
    cases h
    obtain ⟨g, x, hg, hx, rfl⟩ := Located.seq_eq_ok hseq
    cases haudit : audit r.names [] 0 ms with
    | fault i e => rw [haudit] at hg; cases hg
    | ok u =>
      rw [haudit] at hg
      cases hg
      exact ⟨rfl, hx⟩

/-- **What the fields ensure, the record has**, whatever document it is read from. -/
theorem Ensures.decoder {r : Record α} {p : α → Prop} (h : r.Ensures p) : r.decoder.Ensures p := by
  intro format doc a ha
  have hmembers {ms : Members} (hms : r.decodeMembers format ms = .ok a) : p a :=
    h.ofMembers (decodeMembers_eq_ok hms).2
  cases doc with
  | table ms => exact hmembers ha
  | moment => exact hmembers ha
  | array is =>
    obtain ⟨⟨b, rest⟩, hb, ha⟩ := bind_eq_ok ha
    have hab : b = a := by
      cases format <;> cases rest <;> cases ha <;> rfl
    exact hab ▸ h.ofItems hb
  | _ => cases ha

end Record

end Ensures

/-! ## What a value is read from -/

section Exact

variable {α β : Type} {format : Format} {doc : Document}

theorem Decoder.string_eq_ok_iff {s : String} :
    Decoder.string format doc = .ok s ↔ doc = .string s := by
  cases doc <;> simp [Decoder.string]

theorem Decoder.integer_eq_ok_iff {lo hi n : Int} :
    Decoder.integer lo hi format doc = .ok n ↔ doc = .integer n ∧ lo ≤ n ∧ n ≤ hi := by
  cases doc with
  | integer m =>
    simp only [Decoder.integer, Document.integer.injEq]
    split
    · rw [Except.ok.injEq]
      omega
    · simp only [reduceCtorEq, false_iff]
      omega
  | _ => simp [Decoder.integer]

theorem Decoder.nullable_eq_ok_iff {d : Decoder α} {o : Option α} :
    d.nullable format doc = .ok o ↔
      (doc = .null ∧ o = none) ∨ (doc ≠ .null ∧ ∃ a, d format doc = .ok a ∧ o = some a) := by
  have hmap : (d format doc).map some = .ok o ↔ ∃ a, d format doc = .ok a ∧ o = some a := by
    cases d format doc <;> simp [Except.map, eq_comm]
  cases doc with
  | null => simp [Decoder.nullable, eq_comm]
  | _ => simpa [Decoder.nullable] using hmap

theorem Decoder.exists_nullable_iff {d : Decoder α} :
    (∃ o, d.nullable format doc = .ok o) ↔ doc = .null ∨ ∃ a, d format doc = .ok a := by
  simp only [nullable_eq_ok_iff]
  constructor
  · rintro ⟨o, ⟨h, -⟩ | ⟨-, a, ha, -⟩⟩
    · exact .inl h
    · exact .inr ⟨a, ha⟩
  · rintro (h | ⟨a, ha⟩)
    · exact ⟨none, .inl ⟨h, rfl⟩⟩
    · by_cases h : doc = .null
      · exact ⟨none, .inl ⟨h, rfl⟩⟩
      · exact ⟨some a, .inr ⟨h, a, ha, rfl⟩⟩

namespace Record

variable {ms : Members} {es : List (String × Document)}

theorem ofMembers_map_iff {f : α → β} {r : Record α} {b : β} :
    (f <$> r).ofMembers format ms = .ok b ↔ ∃ a, r.ofMembers format ms = .ok a ∧ b = f a := by
  constructor
  · intro h
    obtain ⟨g, a, hg, ha, rfl⟩ := Located.seq_eq_ok h
    cases hg
    exact ⟨a, ha, rfl⟩
  · rintro ⟨a, ha, rfl⟩
    exact ofMembers_map f ha

theorem ofMembers_seq_iff {r : Record (α → β)} {r' : Record α} {b : β} :
    (r <*> r').ofMembers format ms = .ok b ↔
      ∃ f a, r.ofMembers format ms = .ok f ∧ r'.ofMembers format ms = .ok a ∧ b = f a := by
  constructor
  · exact Located.seq_eq_ok
  · rintro ⟨f, a, hf, ha, rfl⟩
    exact ofMembers_seq hf ha

/-- A field is read from what the table has under its name, or is left out. -/
theorem ofMembers_defaulted_iff (h : ms.entries? = some es) {name : String} {d : Decoder α}
    {value a : α} : (defaulted name d value).ofMembers format ms = .ok a ↔
      (es.lookup name = none ∧ a = value) ∨
        ∃ doc, es.lookup name = some doc ∧ d format doc = .ok a := by
  cases hdoc : es.lookup name with
  | none => simp [ofMembers_defaulted_of_none h hdoc, eq_comm]
  | some doc =>
    rw [← Members.find?_eq_lookup h name] at hdoc
    obtain ⟨⟨i, doc'⟩, hfind, rfl⟩ := Option.map_eq_some_iff.1 hdoc
    simp only [defaulted, field, hfind]
    cases hd : d format doc' <;> simp [hd]

/-- **A record is read from a whole table** exactly if no known name comes twice and every field is
read, where every member is well formed. -/
theorem decoder_table_iff (r : Record α) (h : ms.entries? = some es)
    (hwell : ∀ e ∈ es, e.2.wellFormed = true) {a : α} :
    r.decoder format (.table ms) = .ok a ↔
      (∀ name ∈ r.names, (es.map (·.1)).count name ≤ 1) ∧ r.ofMembers format ms = .ok a := by
  constructor
  · intro ha
    obtain ⟨haudit, ha⟩ := decodeMembers_eq_ok ha
    exact ⟨fun name hname => by simpa using once_of_audit h haudit name hname, ha⟩
  · rintro ⟨honce, ha⟩
    exact r.decoder_table format h honce (fun e he _ => hwell e he) ha

end Record

end Exact

/-! ## Lists -/

/-- The items that hold some documents. -/
def Items.ofList : List Document → Items
  | [] => .closed
  | doc :: docs => .next doc (Items.ofList docs)

/-- A list is read item by item. -/
theorem Decoder.list_ofList {α : Type} {d : Decoder α} {format : Format} {f : α → Document}
    (h : ∀ a, d format (f a) = .ok a) (as : List α) :
    d.list format (.array (.ofList (as.map f))) = .ok as := by
  change items d format _ = _
  induction as with
  | nil => rfl
  | cons a as ih =>
    rw [List.map_cons, Items.ofList, items, h, ih]
    rfl

/-- What stands in a list of members under a name that comes there once. -/
theorem lookup_eq_some_of_count {es : List (String × Document)} {name : String} {doc : Document}
    (h : (name, doc) ∈ es) (honce : (es.map (·.1)).count name ≤ 1) :
    es.lookup name = some doc := by
  induction es with
  | nil => cases h
  | cons e es ih =>
    rw [List.map_cons, List.count_cons] at honce
    rw [List.lookup_cons]
    rcases List.mem_cons.1 h with rfl | h
    · simp
    · have hmem : 0 < (es.map (·.1)).count name :=
        List.count_pos_iff.2 (List.mem_map_of_mem (f := (·.1)) h)
      by_cases he : name = e.1
      · simp only [he, beq_self_eq_true, ↓reduceIte] at honce hmem
        omega
      · rw [beq_eq_false_iff_ne.2 he]
        exact ih h (by omega)

end CredentialBench.Document
