/-!
# Dictionaries

Two kinds of finite map, both lists of entries with distinct keys. A `Dictionary` keeps its entries
in the order in which their keys first came; giving a key a new value leaves it in its place. A
`SortedDictionary` keeps text keys in ascending order. Each operation is described by what `get?`
answers afterwards (`get?_insert`, `get?_filter`) and by its keys (`keys_insert`). Either kind is
made again from its own entries (`ofList_entries`).
-/

namespace CredentialBench

/-- Putting items in one after the other gives them in order, if each one goes last behind those
that come before it. -/
theorem foldl_eq_append {α : Type} {R : α → α → Prop} {put : List α → α → List α}
    (hput : ∀ done a, (∀ b ∈ done, R b a) → put done a = done ++ [a]) {done as : List α}
    (h : (done ++ as).Pairwise R) : as.foldl put done = done ++ as := by
  induction as generalizing done with
  | nil => simp
  | cons a as ih =>
    have hbefore : ∀ b ∈ done, R b a := fun b hb =>
      (List.pairwise_append.1 h).2.2 b hb a List.mem_cons_self
    rw [List.append_cons] at h ⊢
    rw [List.foldl_cons, hput done a hbefore]
    exact ih h

/-- Entries in order of arrival, each key once. -/
structure Dictionary (κ ν : Type) where
  entries : List (κ × ν)
  distinct : (entries.map (·.1)).Nodup

namespace Dictionary

variable {κ ν : Type} [DecidableEq κ]

/-- No entries. -/
def empty : Dictionary κ ν := ⟨[], by simp⟩

/-- The keys in order of arrival. -/
def keys (d : Dictionary κ ν) : List κ := d.entries.map (·.1)

/-- The number of entries. -/
def size (d : Dictionary κ ν) : Nat := d.entries.length

/-- The value of a key. -/
def get? (d : Dictionary κ ν) (k : κ) : Option ν := d.entries.lookup k

/-- The entries with the key's value replaced where it stands, or added at the end. -/
def setEntry (k : κ) (v : ν) : List (κ × ν) → List (κ × ν)
  | [] => [(k, v)]
  | e :: rest => if e.1 = k then (k, v) :: rest else e :: setEntry k v rest

theorem map_fst_setEntry (k : κ) (v : ν) (es : List (κ × ν)) :
    (setEntry k v es).map (·.1) =
      if k ∈ es.map (·.1) then es.map (·.1) else es.map (·.1) ++ [k] := by
  induction es with
  | nil => simp [setEntry]
  | cons e rest ih =>
    by_cases h : e.1 = k
    · simp [setEntry, h]
    · have h' : ¬ k = e.1 := fun hk => h hk.symm
      simp only [setEntry, h, ↓reduceIte, List.map_cons, ih, List.mem_cons, h', false_or]
      split <;> simp

theorem nodup_setEntry (k : κ) (v : ν) {es : List (κ × ν)} (h : (es.map (·.1)).Nodup) :
    ((setEntry k v es).map (·.1)).Nodup := by
  rw [map_fst_setEntry]
  split
  · exact h
  · rename_i hk
    rw [List.nodup_append]
    refine ⟨h, by simp, ?_⟩
    intro a ha b hb
    simp only [List.mem_singleton] at hb
    subst hb
    intro hab
    exact hk (hab ▸ ha)

/-- The dictionary with the key's value set. -/
def insert (d : Dictionary κ ν) (k : κ) (v : ν) : Dictionary κ ν :=
  ⟨setEntry k v d.entries, nodup_setEntry k v d.distinct⟩

/-- The entries of a list in order, a later one of a key setting its value again. -/
def ofList (es : List (κ × ν)) : Dictionary κ ν := es.foldl (fun d e => d.insert e.1 e.2) empty

theorem setEntry_of_notMem {k : κ} (v : ν) {es : List (κ × ν)} (h : ∀ e ∈ es, e.1 ≠ k) :
    setEntry k v es = es ++ [(k, v)] := by
  induction es with
  | nil => rfl
  | cons e rest ih =>
    rw [setEntry, if_neg (h e List.mem_cons_self),
      ih fun e' he' => h e' (List.mem_cons_of_mem e he'), List.cons_append]

/-- Entries with distinct keys are kept as they are. -/
theorem entries_ofList {es : List (κ × ν)} (h : (es.map (·.1)).Nodup) :
    (ofList es).entries = es := by
  have hentries : (ofList es).entries = es.foldl (fun done e => setEntry e.1 e.2 done) [] :=
    (List.foldl_hom entries fun _ _ => rfl).symm
  rw [hentries]
  exact foldl_eq_append (R := fun a b => a.1 ≠ b.1)
    (fun done e he => setEntry_of_notMem e.2 he) (List.pairwise_map.1 h)

theorem ofList_entries (d : Dictionary κ ν) : ofList d.entries = d := by
  have h := entries_ofList d.distinct
  generalize ofList d.entries = d' at h
  cases d
  cases d'
  cases h
  rfl

/-- The dictionary with the entries whose keys pass a test. -/
def filter (d : Dictionary κ ν) (p : κ → Bool) : Dictionary κ ν :=
  ⟨d.entries.filter fun e => p e.1, (List.filter_sublist.map _).nodup d.distinct⟩

@[simp] theorem get?_empty (k : κ) : (empty : Dictionary κ ν).get? k = none := rfl

theorem lookup_cons_eq (k : κ) (e : κ × ν) (es : List (κ × ν)) :
    (e :: es).lookup k = if k = e.1 then some e.2 else es.lookup k := by
  obtain ⟨a, b⟩ := e
  rw [List.lookup_cons]
  by_cases h : k = a
  · simp [h]
  · rw [beq_eq_false_iff_ne.2 h, if_neg h]

theorem lookup_setEntry (k k' : κ) (v : ν) (es : List (κ × ν)) :
    (setEntry k v es).lookup k' = if k' = k then some v else es.lookup k' := by
  induction es with
  | nil => simp [setEntry, lookup_cons_eq]
  | cons e rest ih =>
    by_cases hk : e.1 = k
    · by_cases h : k' = k <;> simp [setEntry, hk, lookup_cons_eq, h]
    · by_cases h : k' = e.1
      · simp [setEntry, hk, lookup_cons_eq, h]
      · simp [setEntry, hk, lookup_cons_eq, h, ih]

@[simp] theorem get?_insert (d : Dictionary κ ν) (k k' : κ) (v : ν) :
    (d.insert k v).get? k' = if k' = k then some v else d.get? k' :=
  lookup_setEntry k k' v d.entries

theorem lookup_filter (p : κ → Bool) (k : κ) (es : List (κ × ν)) :
    (es.filter fun e => p e.1).lookup k = if p k then es.lookup k else none := by
  induction es with
  | nil => simp
  | cons e rest ih =>
    by_cases hp : p e.1 = true <;> by_cases hk : k = e.1
    · simp [hp, lookup_cons_eq, hk]
    · simp [hp, lookup_cons_eq, hk, ih]
    · subst hk
      simp [hp, ih]
    · simp [hp, lookup_cons_eq, hk, ih]

@[simp] theorem get?_filter (d : Dictionary κ ν) (p : κ → Bool) (k : κ) :
    (d.filter p).get? k = if p k then d.get? k else none :=
  lookup_filter p k d.entries

theorem keys_insert (d : Dictionary κ ν) (k : κ) (v : ν) :
    (d.insert k v).keys = if k ∈ d.keys then d.keys else d.keys ++ [k] :=
  map_fst_setEntry k v d.entries

theorem mem_entries_of_get? {d : Dictionary κ ν} {k : κ} {v : ν} (h : d.get? k = some v) :
    (k, v) ∈ d.entries := by
  obtain ⟨l₁, l₂, he, -⟩ := List.lookup_eq_some_iff.1 h
  simp [he]

theorem mem_keys_of_get? {d : Dictionary κ ν} {k : κ} {v : ν} (h : d.get? k = some v) :
    k ∈ d.keys :=
  List.mem_map.2 ⟨(k, v), mem_entries_of_get? h, rfl⟩

omit [DecidableEq κ] in
theorem size_eq_length_keys (d : Dictionary κ ν) : d.size = d.keys.length := by
  simp [size, keys]

end Dictionary

/-- Entries with text keys in ascending order, each key once. -/
structure SortedDictionary (ν : Type) where
  entries : List (String × ν)
  sorted : entries.Pairwise fun a b => a.1 < b.1

namespace SortedDictionary

variable {ν : Type}

/-- No entries. -/
def empty : SortedDictionary ν := ⟨[], .nil⟩

/-- The value of a key. -/
def get? (d : SortedDictionary ν) (k : String) : Option ν := d.entries.lookup k

/-- The entries with the key's value set at the key's place in the order. -/
def setEntry (k : String) (v : ν) : List (String × ν) → List (String × ν)
  | [] => [(k, v)]
  | e :: rest =>
    if k < e.1 then (k, v) :: e :: rest
    else if k = e.1 then (k, v) :: rest
    else e :: setEntry k v rest

theorem mem_setEntry {k : String} {v : ν} {es : List (String × ν)} {e : String × ν}
    (h : e ∈ setEntry k v es) : e = (k, v) ∨ e ∈ es := by
  induction es with
  | nil => simpa [setEntry] using h
  | cons a rest ih =>
    simp only [setEntry] at h
    split at h
    · simpa using h
    split at h
    · simp only [List.mem_cons] at h ⊢
      rcases h with h | h
      · exact .inl h
      · exact .inr (.inr h)
    · simp only [List.mem_cons] at h ⊢
      rcases h with h | h
      · exact .inr (.inl h)
      · rcases ih h with h | h
        · exact .inl h
        · exact .inr (.inr h)

theorem pairwise_setEntry (k : String) (v : ν) {es : List (String × ν)}
    (h : es.Pairwise fun a b => a.1 < b.1) :
    (setEntry k v es).Pairwise fun a b => a.1 < b.1 := by
  induction es with
  | nil => simp [setEntry]
  | cons a rest ih =>
    rw [List.pairwise_cons] at h
    simp only [setEntry]
    split
    · rename_i hk
      refine List.pairwise_cons.2 ⟨?_, List.pairwise_cons.2 h⟩
      intro e he
      rcases List.mem_cons.1 he with rfl | he
      · exact hk
      · exact String.lt_trans hk (h.1 e he)
    split
    · rename_i hk
      exact List.pairwise_cons.2 ⟨fun e he => hk ▸ h.1 e he, h.2⟩
    · rename_i hlt heq
      refine List.pairwise_cons.2 ⟨?_, ih h.2⟩
      intro e he
      rcases mem_setEntry he with rfl | he
      · rcases Std.lt_trichotomy k a.1 with h' | h' | h'
        · exact absurd h' hlt
        · exact absurd h' heq
        · exact h'
      · exact h.1 e he

/-- The dictionary with the key's value set. -/
def insert (d : SortedDictionary ν) (k : String) (v : ν) : SortedDictionary ν :=
  ⟨setEntry k v d.entries, pairwise_setEntry k v d.sorted⟩

/-- The entries of a list, the last one of each key. -/
def ofList (es : List (String × ν)) : SortedDictionary ν :=
  es.foldl (fun d e => d.insert e.1 e.2) empty

theorem setEntry_of_lt {k : String} (v : ν) {es : List (String × ν)} (h : ∀ e ∈ es, e.1 < k) :
    setEntry k v es = es ++ [(k, v)] := by
  induction es with
  | nil => rfl
  | cons e rest ih =>
    have he : e.1 < k := h e List.mem_cons_self
    have hne : k ≠ e.1 := fun heq => absurd he (heq ▸ String.lt_irrefl _)
    rw [setEntry, if_neg (String.lt_asymm he), if_neg hne,
      ih fun e' he' => h e' (List.mem_cons_of_mem e he'), List.cons_append]

/-- Entries in the order of their keys are kept as they are. -/
theorem ofList_entries (d : SortedDictionary ν) : ofList d.entries = d := by
  have h : (ofList d.entries).entries = d.entries := by
    have hentries : (ofList d.entries).entries =
        d.entries.foldl (fun done e => setEntry e.1 e.2 done) [] :=
      (List.foldl_hom entries fun _ _ => rfl).symm
    rw [hentries]
    exact foldl_eq_append (R := fun a b => a.1 < b.1)
      (fun done e he => setEntry_of_lt e.2 he) d.sorted
  generalize ofList d.entries = d' at h
  cases d
  cases d'
  cases h
  rfl

end SortedDictionary

end CredentialBench
