import CredentialBench.Proofs.Document.Records
import CredentialBench.Proofs.Json.Writing

/-!
# Reading typed values back

A decoder reads a value back from a JSON value that says the same (`Decoder.ReadsBack`). Each way of
putting decoders together has a law: lists and tables read back what their elements do, a field
reads back from the member of its name, and a record from its fields' members in the order in which
they are declared (`Record.ReadsBack.decoder`), as soon as no two fields have one name. What is read
back is read back from the text (`Decoder.ReadsBack.decode_indented`).
-/

namespace CredentialBench.Document

open Json (Value)

variable {α β : Type}

/-- A JSON value that is written without loss and read as a typed value. -/
structure Decoder.ReadsBack (d : Decoder α) (v : Value) (a : α) : Prop where
  lossless : v.isExact = true
  read : d .json v.toDocument = .ok a

namespace Decoder

variable {d : Decoder α} {v : Value} {a : α}

/-- **What is read back is read back from the text**, line breaks and all. -/
theorem ReadsBack.decode_indented (h : d.ReadsBack v a) :
    Json.decode d (Text.Utf8.bytes v.indented) = .ok a := by
  rw [Text.Utf8.bytes, Value.indented, String.toList_ofList,
    Json.decode_write Json.Style.spaced_indented d h.lossless, h.read]

theorem string_readsBack (s : String) : string.ReadsBack (.string s) s := ⟨rfl, rfl⟩

theorem nullable_readsBack (s : Option String) : string.nullable.ReadsBack (.ofOption s) s := by
  cases s <;> exact ⟨rfl, rfl⟩

theorem choice_readsBack {variants : List (String × α)} {name : String}
    (h : variants.lookup name = some a) : (choice variants).ReadsBack (.string name) a := by
  refine ⟨rfl, ?_⟩
  change pick variants name = _
  rw [pick, h]

theorem ReadsBack.map (h : d.ReadsBack v a) (f : α → β) : (d.map f).ReadsBack v (f a) := by
  refine ⟨h.lossless, ?_⟩
  rw [Decoder.map, h.read]
  rfl

/-- A list is read back item by item. -/
theorem list_readsBack {f : α → Value} (h : ∀ a, d.ReadsBack (f a) a) (as : List α) :
    d.list.ReadsBack (.array (as.map f)) as := by
  have hitems : Value.areExact (as.map f) = true ∧
      items d .json (Value.toItems (as.map f)) = .ok as := by
    induction as with
    | nil => exact ⟨rfl, rfl⟩
    | cons a as ih =>
      rw [List.map_cons, Value.areExact, (h a).lossless, ih.1, Value.toItems, items, (h a).read,
        ih.2]
      exact ⟨rfl, rfl⟩
  exact ⟨hitems.1, hitems.2⟩

/-- A table is read back entry by entry, whatever the names. -/
theorem table_readsBack {f : α → Value} (h : ∀ a, d.ReadsBack (f a) a) (es : List (String × α)) :
    d.table.ReadsBack (.object (es.map fun e => (e.1, f e.2))) es := by
  have hmembers : Value.areExactMembers (es.map fun e => (e.1, f e.2)) = true ∧
      members d .json (Value.toMembers (es.map fun e => (e.1, f e.2))) = .ok es := by
    induction es with
    | nil => exact ⟨rfl, rfl⟩
    | cons e es ih =>
      rw [List.map_cons, Value.areExactMembers, (h e.2).lossless, ih.1, Value.toMembers, members,
        (h e.2).read, ih.2]
      exact ⟨rfl, rfl⟩
  exact ⟨hmembers.1, hmembers.2⟩

end Decoder

/-! ## Records -/

/-- Members that are written without loss and that the fields of a record are read from, in whatever
table they stand. -/
structure Record.ReadsBack (r : Record α) (ms : List (String × Value)) (a : α) : Prop where
  names : r.names = ms.map (·.1)
  lossless : Value.areExactMembers ms = true
  read : ∀ table : Members, (∀ m ∈ ms, (table.find? m.1).map (·.2) = some m.2.toDocument) →
    r.ofMembers .json table = .ok a

theorem Members.entries?_toMembers (ms : List (String × Value)) :
    (Value.toMembers ms).entries? = some (ms.map fun m => (m.1, m.2.toDocument)) := by
  induction ms with
  | nil => rfl
  | cons m ms ih =>
    rw [Value.toMembers, entries?, ih]
    rfl

theorem areExactMembers_append (ms ms' : List (String × Value)) :
    Value.areExactMembers (ms ++ ms') =
      (Value.areExactMembers ms && Value.areExactMembers ms') := by
  induction ms with
  | nil => rfl
  | cons m ms ih => rw [List.cons_append, Value.areExactMembers, ih, Value.areExactMembers,
      Bool.and_assoc]

namespace Record

variable {name : String} {d : Decoder α} {v : Value} {a : α}

theorem field_readsBack (h : d.ReadsBack v a) (absent cut : Except Fault α) :
    (field name d absent cut).ReadsBack [(name, v)] a := by
  refine ⟨rfl, by rw [Value.areExactMembers, h.lossless]; rfl, fun table htable => ?_⟩
  obtain ⟨⟨i, doc⟩, hfind, hdoc⟩ :=
    Option.map_eq_some_iff.1 (htable (name, v) (List.mem_singleton_self _))
  simp only at hfind hdoc
  simp only [field, hfind, hdoc, h.read]

theorem required_readsBack (name : String) (h : d.ReadsBack v a) :
    (required name d).ReadsBack [(name, v)] a :=
  field_readsBack h _ _

theorem text_readsBack (name s : String) :
    (required name Decoder.string).ReadsBack [(name, .string s)] s :=
  required_readsBack name (Decoder.string_readsBack s)

theorem defaulted_readsBack (name : String) (h : d.ReadsBack v a) (value : α) :
    (defaulted name d value).ReadsBack [(name, v)] a :=
  field_readsBack h _ _

theorem optional_text_readsBack (name : String) (s : Option String) :
    (optional name Decoder.string).ReadsBack [(name, .ofOption s)] s :=
  field_readsBack (Decoder.nullable_readsBack s) _ _

namespace ReadsBack

variable {ms ms' : List (String × Value)}

theorem map {r : Record α} (h : r.ReadsBack ms a) (f : α → β) : (f <$> r).ReadsBack ms (f a) :=
  ⟨h.names, h.lossless, fun table htable => ofMembers_map f (h.read table htable)⟩

theorem seq {r : Record (α → β)} {f : α → β} (h : r.ReadsBack ms f) {r' : Record α}
    (h' : r'.ReadsBack ms' a) : (r <*> r').ReadsBack (ms ++ ms') (f a) := by
  refine ⟨?_, ?_, fun table htable => ?_⟩
  · change r.names ++ r'.names = _
    rw [h.names, h'.names, List.map_append]
  · rw [areExactMembers_append, h.lossless, h'.lossless]
    rfl
  · exact ofMembers_seq (h.read table fun m hm => htable m (List.mem_append_left _ hm))
      (h'.read table fun m hm => htable m (List.mem_append_right _ hm))

/-- **A record is read back from its fields' members** if the fields have distinct names. -/
theorem decoder {r : Record α} (h : r.ReadsBack ms a) (hdistinct : r.names.Nodup) :
    r.decoder.ReadsBack (.object ms) a := by
  have hentries := Members.entries?_toMembers ms
  have hkeys : (ms.map fun m => (m.1, m.2.toDocument)).map (·.1) = r.names := by
    rw [h.names, List.map_map]
    rfl
  have honce : ∀ name, ((ms.map fun m => (m.1, m.2.toDocument)).map (·.1)).count name ≤ 1 :=
    fun name => hkeys ▸ List.nodup_iff_count.1 hdistinct name
  refine ⟨h.lossless, decoder_table r .json hentries (fun name _ => honce name) ?_ (h.read _ ?_)⟩
  · intro e he hunknown
    exact absurd (hkeys ▸ List.mem_map_of_mem he) hunknown
  · intro m hm
    rw [Members.find?_eq_lookup hentries]
    exact lookup_eq_some_of_count (List.mem_map_of_mem hm) (honce m.1)

end ReadsBack

end Record

end CredentialBench.Document
