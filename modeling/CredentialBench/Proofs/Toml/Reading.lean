import CredentialBench.Proofs.Document.Records
import CredentialBench.Proofs.Toml.Strings

/-!
# Reading lines of TOML back

What the reader makes of the lines that the writer puts together. A text is read as some lines
(`ReadsAs`) whatever bound is set to their number, as long as it exceeds the length of the text: an
assignment in front of a text adds one line to what is read, and so does a header; an empty line
adds none. The tables that headers make stand at the end of those before them.
-/

namespace CredentialBench.Toml

open Entries (Assignment Header)

/-! ## Names -/

/-- A name that needs no quotes. -/
def Bare (name : String) : Prop := name.toList ≠ [] ∧ ∀ c ∈ name.toList, isBare c = true

instance (name : String) : Decidable (Bare name) :=
  @instDecidableAnd _ _ inferInstance (List.decidableBAll _ name.toList)

theorem Bare.exists_cons {name : String} (h : Bare name) :
    ∃ c cs, name.toList = c :: cs ∧ isBare c = true := by
  obtain ⟨hne, hbare⟩ := h
  obtain ⟨c, cs, hcs⟩ := List.exists_cons_of_ne_nil hne
  exact ⟨c, cs, hcs, hbare c (hcs ▸ List.mem_cons_self)⟩

/-- A character that a name may begin with, with quotes or without. -/
def StartsKey (c : Char) : Prop := isBare c = true ∨ c = '"' ∨ c = '\''

instance (c : Char) : Decidable (StartsKey c) := inferInstanceAs (Decidable (_ ∨ _))

theorem StartsKey.ne {c d : Char} (hc : StartsKey c) (hd : ¬StartsKey d) : c ≠ d :=
  fun h => hd (h ▸ hc)

theorem StartsKey.isSpace {c : Char} (hc : StartsKey c) : isSpace c = false := by
  rw [Toml.isSpace, Bool.or_eq_false_iff, beq_eq_false_iff_ne, beq_eq_false_iff_ne]
  exact ⟨hc.ne (by decide), hc.ne (by decide)⟩

theorem skipSpace_eq_self {cs : List Char} (h : ∀ c ∈ cs.head?, isSpace c = false) :
    skipSpace cs = cs := by
  cases cs with
  | nil => rfl
  | cons c cs => rw [skipSpace, List.dropWhile_cons_of_neg (by simp [h c rfl])]

theorem Bare.skipSpace_append {name : String} (h : Bare name) (rest : List Char) :
    skipSpace (name.toList ++ rest) = name.toList ++ rest := by
  obtain ⟨c, cs, hcs, hc⟩ := h.exists_cons
  exact skipSpace_eq_self (by simp [hcs, StartsKey.isSpace (.inl hc)])

/-- A name without quotes ends where a character comes that it cannot hold. -/
theorem name?_append {name : String} (h : Bare name) {rest : List Char}
    (hrest : ∀ c ∈ rest.head?, isBare c = false) :
    name? (name.toList ++ rest) = some (name, rest) := by
  have htake : (name.toList ++ rest).takeWhile isBare = name.toList := by
    rw [List.takeWhile_append_of_pos h.2]
    cases rest with
    | nil => simp
    | cons c rest => simp [hrest c rfl]
  have hdrop : (name.toList ++ rest).dropWhile isBare = rest := by
    rw [List.dropWhile_append_of_pos h.2]
    cases rest with
    | nil => rfl
    | cons c rest => simp [hrest c rfl]
  obtain ⟨c, cs, hcs, hc⟩ := h.exists_cons
  have hd : c ≠ '"' := by rintro rfl; cases hc
  have hs : c ≠ '\'' := by rintro rfl; cases hc
  have hname : String.ofList (c :: cs) = name := by rw [← hcs, String.ofList_toList]
  rw [hcs] at htake hdrop ⊢
  rw [List.cons_append] at htake hdrop ⊢
  simp only [name?, htake, hdrop, hname]
  split
  · next heq => exact absurd (List.cons.inj heq).1 hd
  · next heq => exact absurd (List.cons.inj heq).1 hs
  · rfl

/-- A text that spells a path of names, up to a character that cannot go on with it. -/
structure SpellsPath (cs : List Char) (names : List String) : Prop where
  first : ∃ c rest, cs = c :: rest ∧ isBare c = true
  read : ∀ rest, (∀ c ∈ rest.head?, isBare c = false) → (skipSpace rest).head? ≠ some '.' →
    path? (cs ++ rest) = some (names, skipSpace rest)

theorem names?_last {name : String} {cs rest : List Char}
    (hname : name? (skipSpace cs) = some (name, rest)) (hdot : (skipSpace rest).head? ≠ some '.')
    (fuel : Nat) : names? (fuel + 1) cs = some ([name], skipSpace rest) := by
  simp only [names?, hname, Option.bind_eq_bind, Option.bind_some]
  split
  · next heq =>
    rw [heq] at hdot
    exact absurd rfl hdot
  · rfl

theorem names?_single {name : String} (h : Bare name) {rest : List Char}
    (hrest : ∀ c ∈ rest.head?, isBare c = false) (hdot : (skipSpace rest).head? ≠ some '.')
    (fuel : Nat) : names? (fuel + 1) (name.toList ++ rest) = some ([name], skipSpace rest) :=
  names?_last (by rw [h.skipSpace_append, name?_append h hrest]) hdot fuel

theorem names?_dotted {name : String} (h : Bare name) (fuel : Nat) (rest : List Char) :
    names? (fuel + 1) (name.toList ++ '.' :: rest) =
      (names? fuel rest).map fun r => (name :: r.1, r.2) := by
  rw [names?, h.skipSpace_append, name?_append h (by simp [isBare])]
  cases hrest : names? fuel rest <;> simp [skipSpace, isSpace, hrest]

theorem spellsPath_single {name : String} (h : Bare name) : SpellsPath name.toList [name] where
  first := h.exists_cons
  read _ hrest hdot := names?_single h hrest hdot _

theorem spellsPath_pair {name name' : String} (h : Bare name) (h' : Bare name') :
    SpellsPath (name.toList ++ '.' :: name'.toList) [name, name'] where
  first := by
    obtain ⟨c, cs, hcs, hc⟩ := h.exists_cons
    exact ⟨c, _, by rw [hcs, List.cons_append], hc⟩
  read rest hrest hdot := by
    have hpair := names?_dotted h 78 (name'.toList ++ rest)
    rw [names?_single h' hrest hdot] at hpair
    rw [List.append_assoc, List.cons_append, path?]
    exact hpair

/-! ## Values -/

/-- A text that spells a value up to the end of its line. -/
structure SpellsValue (cs : List Char) (v : Document) : Prop where
  first : ∀ c ∈ cs.head?, isSpace c = false
  read : ∀ rest, value? maxDepth (cs ++ '\n' :: rest) = some (v, '\n' :: rest)

theorem value?_spelled {s : String} {text : List Char} (h : SpellsString s text) (depth : Nat)
    (rest : List Char) (hd : rest.head? ≠ some '"') (hs : rest.head? ≠ some '\'') :
    value? depth (text ++ rest) = some (.string s, rest) := by
  have hread := string?_spelled h rest hd hs
  obtain ⟨cs, rfl | rfl⟩ := h.exists_cons
  · rw [List.cons_append] at hread ⊢
    rw [value?, hread]
    rfl
  · rw [List.cons_append] at hread ⊢
    rw [value?, hread]
    rfl

theorem spellsValue_string {s : String} {text : List Char} (h : SpellsString s text) :
    SpellsValue text (.string s) where
  first := by
    obtain ⟨cs, rfl | rfl⟩ := h.exists_cons <;> simp [isSpace]
  read rest := value?_spelled h _ _ (by simp) (by simp)

theorem spellsValue_quotedString (s : String) : SpellsValue (quotedString s) (.string s) :=
  spellsValue_string (spellsString_quotedString s)

theorem skipFiller_quotedString (s : String) (rest : List Char) :
    skipFiller false (quotedString s ++ rest) = some (quotedString s ++ rest) := by
  obtain ⟨cs, hcs | hcs⟩ := (spellsString_quotedString s).exists_cons <;> rw [hcs] <;> rfl

theorem head?_quotedString (s : String) (rest : List Char) :
    (quotedString s ++ rest).head? ≠ some ']' := by
  obtain ⟨cs, hcs | hcs⟩ := (spellsString_quotedString s).exists_cons <;> simp [hcs]

/-- An item with a comma behind it that is not the last one. -/
theorem items?_comma {value : List Char → Option (Document × List Char)} {cs rest : List Char}
    {v : Document} (hread : value cs = some (v, ',' :: ' ' :: rest))
    (hnext : skipFiller false rest = some rest) (hopen : rest.head? ≠ some ']') (fuel : Nat) :
    items? value (fuel + 1) cs = (items? value fuel rest).map fun r => (.next v r.1, r.2) := by
  have hspace : skipFiller false (' ' :: rest) = some rest := by
    rw [← hnext]
    rfl
  have hcomma (cs : List Char) : skipFiller false (',' :: cs) = some (',' :: cs) := rfl
  simp only [items?, hread, hcomma, hspace, Option.bind_eq_bind, Option.bind_some]
  split
  · exact absurd rfl hopen
  · cases items? value fuel rest <;> rfl

/-- A list of strings is read item by item, as many as the bound allows. -/
theorem items?_stringItems (depth : Nat) (s : String) (ss : List String) (rest : List Char)
    {fuel : Nat} (h : ss.length < fuel) :
    items? (value? depth) fuel (quotedString s ++ (stringItems ss ++ ']' :: rest)) =
      some (Document.Items.ofList ((s :: ss).map .string), rest) := by
  induction ss generalizing s fuel with
  | nil =>
    obtain ⟨fuel, rfl⟩ := Nat.exists_eq_add_of_lt h
    rw [stringItems, List.nil_append, items?,
      value?_spelled (spellsString_quotedString s) _ _ (by simp) (by simp)]
    rfl
  | cons s' ss ih =>
    obtain ⟨fuel, rfl⟩ : ∃ n, fuel = n + 1 := ⟨fuel - 1, by omega⟩
    have hread := value?_spelled (spellsString_quotedString s) depth
      (stringItems (s' :: ss) ++ ']' :: rest) (by simp [stringItems]) (by simp [stringItems])
    simp only [stringItems, List.cons_append, List.append_assoc] at hread ⊢
    rw [items?_comma hread (skipFiller_quotedString s' _) (head?_quotedString s' _),
      ih s' (Nat.lt_of_succ_lt_succ h)]
    rfl

theorem length_stringItems (ss : List String) : ss.length ≤ (stringItems ss).length := by
  induction ss with
  | nil => exact Nat.le_refl 0
  | cons s ss ih =>
    rw [stringItems, List.length_append, List.length_cons, List.length_cons, List.length_cons]
    omega

/-- An array with an item right behind its opening bracket. -/
theorem value?_array {cs : List Char} (hnext : skipFiller false cs = some cs)
    (hopen : cs.head? ≠ some ']') (depth : Nat) :
    value? (depth + 1) ('[' :: cs) =
      (items? (value? depth) cs.length cs).map fun r => (.array r.1, r.2) := by
  simp only [value?, hnext, Option.bind_eq_bind, Option.bind_some]
  split
  · exact absurd rfl hopen
  · cases items? (value? depth) _ _ <;> rfl

theorem spellsValue_stringList (ss : List String) :
    SpellsValue (stringList ss) (.array (Document.Items.ofList (ss.map .string))) where
  first := by cases ss <;> simp [stringList, isSpace]
  read rest := by
    cases ss with
    | nil => rfl
    | cons s ss =>
      simp only [stringList, List.cons_append, List.append_assoc, List.nil_append]
      have hlength := length_stringItems ss
      rw [maxDepth, value?_array (skipFiller_quotedString s _) (head?_quotedString s _),
        items?_stringItems]
      · rfl
      · simp only [List.length_append, List.length_cons]
        omega

/-! ## Lines -/

/-- A text that spells the name before an equals sign: one without quotes, or a string on one
line. -/
inductive SpellsKey (name : String) : List Char → Prop
  | bare (h : Bare name) : SpellsKey name name.toList
  | basic {text : List Char} (h : Shown false name.toList text) :
      SpellsKey name ('"' :: text ++ ['"'])
  | literal (h : ∀ c ∈ name.toList, isPlain c = true ∧ c ≠ '\'') :
      SpellsKey name ('\'' :: name.toList ++ ['\''])

theorem SpellsKey.exists_cons {name : String} {key : List Char} (h : SpellsKey name key) :
    ∃ c cs, key = c :: cs ∧ StartsKey c := by
  cases h with
  | bare h =>
    obtain ⟨c, cs, hcs, hc⟩ := h.exists_cons
    exact ⟨c, cs, hcs, .inl hc⟩
  | basic => exact ⟨_, _, rfl, .inr (.inl rfl)⟩
  | literal => exact ⟨_, _, rfl, .inr (.inr rfl)⟩

theorem SpellsKey.name? {name : String} {key : List Char} (h : SpellsKey name key)
    {rest : List Char} (hrest : ∀ c ∈ rest.head?, isBare c = false) :
    name? (key ++ rest) = some (name, rest) := by
  cases h with
  | bare h => exact name?_append h hrest
  | basic h => simp [Toml.name?, basic?_of_shown h]
  | literal h => simp [Toml.name?, literal?_append h]

/-- A name stands alone before an equals sign. -/
theorem SpellsKey.path? {name : String} {key : List Char} (h : SpellsKey name key)
    (rest : List Char) : path? (key ++ ' ' :: '=' :: rest) = some ([name], '=' :: rest) := by
  have hstart : ∀ c ∈ (key ++ ' ' :: '=' :: rest).head?, isSpace c = false := by
    obtain ⟨c, cs, rfl, hc⟩ := h.exists_cons
    simp [hc.isSpace]
  have hname : Toml.name? (skipSpace (key ++ ' ' :: '=' :: rest)) =
      some (name, ' ' :: '=' :: rest) := by
    rw [skipSpace_eq_self hstart]
    exact h.name? (by simp [isBare])
  exact names?_last hname (by simp [skipSpace, Toml.isSpace]) _

/-- An assignment is read up to the end of its line. -/
theorem assignment?_line {name : String} {key : List Char} (hkey : SpellsKey name key)
    {cs : List Char} {v : Document} (hv : SpellsValue cs v) (rest : List Char) :
    assignment? (value? maxDepth) (key ++ ([' ', '=', ' '] ++ cs) ++ '\n' :: rest) =
      some (⟨[], name, v⟩, '\n' :: rest) := by
  have hpath := hkey.path? (' ' :: (cs ++ '\n' :: rest))
  have hspace : skipSpace (' ' :: (cs ++ '\n' :: rest)) = cs ++ '\n' :: rest := by
    have hfirst : ∀ c ∈ (cs ++ '\n' :: rest).head?, isSpace c = false := by
      cases cs with
      | nil => simp [isSpace]
      | cons c cs => exact hv.first
    exact (rfl : skipSpace (' ' :: _) = skipSpace _).trans (skipSpace_eq_self hfirst)
  simp [assignment?, hpath, hspace, hv.read]

/-- A header in single brackets. -/
theorem header?_table {cs : List Char} {path : List String} {name : String}
    (h : SpellsPath cs (path ++ [name])) (rest : List Char) :
    header? (cs ++ ']' :: rest) = some (⟨false, path, name⟩, rest) := by
  have hread := h.read (']' :: rest) (by simp [isBare]) (by simp [skipSpace, isSpace])
  have hskip : skipSpace (']' :: rest) = ']' :: rest := rfl
  obtain ⟨c, cs, rfl, hc⟩ := h.first
  have hopen : c ≠ '[' := by rintro rfl; cases hc
  rw [hskip] at hread
  simp only [List.cons_append] at hread ⊢
  simp [header?, hopen, hread]

/-- A header in double brackets, after the first of them. -/
theorem header?_element {cs : List Char} {path : List String} {name : String}
    (h : SpellsPath cs (path ++ [name])) (rest : List Char) :
    header? ('[' :: (cs ++ ']' :: ']' :: rest)) = some (⟨true, path, name⟩, rest) := by
  have hread := h.read (']' :: ']' :: rest) (by simp [isBare])
    (by simp [skipSpace, isSpace])
  have hskip : skipSpace (']' :: ']' :: rest) = ']' :: ']' :: rest := rfl
  rw [hskip] at hread
  simp [header?, hread]

/-- A line that begins as a name does is an assignment. -/
theorem lines?_key {c : Char} (hc : StartsKey c) (cs : List Char) (fuel : Nat) :
    lines? (fuel + 1) (c :: cs) = do
      let (a, rest) ← assignment? (value? maxDepth) (c :: cs)
      let ls ← lines? fuel (← finishLine? rest)
      return .assign a :: ls := by
  have hend : lineEnd? (c :: cs) = none := by
    have hn : c ≠ '\n' := hc.ne (by decide)
    have hr : c ≠ '\r' := hc.ne (by decide)
    simp [lineEnd?, hn, hr]
  rw [lines?, skipSpace_eq_self (by simp [hc.isSpace])]
  split
  · next heq => cases heq
  · next heq => exact absurd (List.cons.inj heq).1 (hc.ne (by decide))
  · next heq => exact absurd (List.cons.inj heq).1 (hc.ne (by decide))
  · rw [hend]

/-- A text that is read as some lines, whatever bound above its length is set to their number. -/
def ReadsAs (cs : List Char) (ls : List Line) : Prop :=
  ∀ fuel, cs.length < fuel → lines? fuel cs = some ls

theorem readsAs_nil : ReadsAs [] [] := by
  intro fuel h
  obtain ⟨fuel, rfl⟩ := Nat.exists_eq_add_of_lt h
  rfl

namespace ReadsAs

variable {rest : List Char} {ls : List Line} (h : ReadsAs rest ls)

include h

/-- A line in front of a text. -/
theorem line {cs : List Char} (ls' : List Line) (hlength : rest.length < cs.length)
    (hstep : ∀ fuel, lines? (fuel + 1) cs = (lines? fuel rest).map (ls' ++ ·)) :
    ReadsAs cs (ls' ++ ls) := by
  intro fuel hfuel
  obtain ⟨fuel, rfl⟩ : ∃ n, fuel = n + 1 := ⟨fuel - 1, by omega⟩
  rw [hstep, h fuel (by omega)]
  rfl

theorem emptyLine : ReadsAs ('\n' :: rest) ls := by
  refine h.line [] (by simp) fun fuel => ?_
  cases hrest : lines? fuel rest <;> simp [lines?, skipSpace, isSpace, lineEnd?, hrest]

theorem assign {name : String} {key cs : List Char} (hkey : SpellsKey name key) {v : Document}
    (hv : SpellsValue cs v) :
    ReadsAs (key ++ ([' ', '=', ' '] ++ cs) ++ '\n' :: rest) (.assign ⟨[], name, v⟩ :: ls) := by
  have hread := assignment?_line hkey hv rest
  obtain ⟨c, key, rfl, hc⟩ := hkey.exists_cons
  refine h.line [_] (by simp; omega) fun fuel => ?_
  simp only [List.cons_append] at hread ⊢
  rw [lines?_key hc, hread]
  cases hrest : lines? fuel rest <;> simp [finishLine?, skipSpace, isSpace, lineEnd?, hrest]

/-- What the writer puts for an assignment. -/
theorem assignment (name : String) (hname : Bare name) {cs : List Char} {v : Document}
    (hv : SpellsValue cs v) :
    ReadsAs (assignment name cs ++ rest) (.assign ⟨[], name, v⟩ :: ls) := by
  simpa [Toml.assignment] using h.assign (.bare hname) hv

variable {cs : List Char} (path : List String) (name : String)
  (hpath : SpellsPath cs (path ++ [name]))

include hpath

theorem table :
    ReadsAs ('[' :: (cs ++ ']' :: '\n' :: rest)) (.header ⟨false, path, name⟩ :: ls) := by
  refine h.line [_] (by simp; omega) fun fuel => ?_
  cases hrest : lines? fuel rest <;>
    simp [lines?, header?_table hpath, finishLine?, skipSpace, isSpace, lineEnd?, hrest]

theorem element : ReadsAs ('[' :: '[' :: (cs ++ ']' :: ']' :: '\n' :: rest))
    (.header ⟨true, path, name⟩ :: ls) := by
  refine h.line [_] (by simp; omega) fun fuel => ?_
  cases hrest : lines? fuel rest <;>
    simp [lines?, header?_element hpath, finishLine?, skipSpace, isSpace, lineEnd?, hrest]

end ReadsAs

/-! ## Sections -/

/-- The lines of a header and of what is assigned under it. -/
def sectionLines (s : Header × List Assignment) : List Line := .header s.1 :: s.2.map .assign

theorem sections_assign (as : List Assignment) (ls : List Line) :
    sections (as.map .assign ++ ls) = (as ++ (sections ls).1, (sections ls).2) := by
  induction as with
  | nil => rfl
  | cons a as ih => rw [List.map_cons, List.cons_append, sections, ih, List.cons_append]

/-- Lines that are put together from sections are taken apart into them. -/
theorem sections_flatMap (ss : List (Header × List Assignment)) :
    sections (ss.flatMap sectionLines) = ([], ss) := by
  induction ss with
  | nil => rfl
  | cons s ss ih =>
    rw [List.flatMap_cons, sectionLines, List.cons_append, sections, sections_assign, ih,
      List.append_nil]

/-! ## Tables -/

namespace Entries

variable {es : Entries} {name : String} (h : es.lookup name = none)

include h

theorem lookup_concat (n : Node) : (es ++ [(name, n)]).lookup name = some n := by
  rw [List.lookup_append, h, Option.none_or]
  simp

theorem replace_concat (n n' : Node) :
    (es ++ [(name, n)]).replace name n' = es ++ [(name, n')] := by
  have hes : ∀ e ∈ es, (if e.1 = name then (name, n') else e) = e := fun e he =>
    if_neg fun hname => by simpa [hname] using List.lookup_eq_none_iff.1 h e he
  rw [replace, List.map_append, List.map_congr_left hes, List.map_id']
  simp

variable {as : List Assignment} {t : Entries} (ht : addAll? as [] = some t)

include ht

/-- The first element of an array makes it. -/
theorem addTable?_first :
    es.addTable? ⟨true, [], name⟩ as = some (es ++ [(name, Node.tables [t])]) := by
  simp [addTable?, update?, h, ht]

/-- A further element of an array is its last. -/
theorem addTable?_further (ts : List Entries) :
    (es ++ [(name, Node.tables ts)]).addTable? ⟨true, [], name⟩ as =
      some (es ++ [(name, Node.tables (ts ++ [t]))]) := by
  simp [addTable?, update?, lookup_concat h, replace_concat h, ht]

/-- A table below an array belongs to its last element. -/
theorem addTable?_below (ts : List Entries) {last : Entries} {name' : String}
    (hlast : last.lookup name' = none) :
    (es ++ [(name, Node.tables (ts ++ [last]))]).addTable? ⟨false, [name], name'⟩ as =
      some (es ++ [(name, Node.tables (ts ++ [last ++ [(name', Node.table .header t)]]))]) := by
  simp [addTable?, update?, lookup_concat h, replace_concat h, ht, hlast]

end Entries
end CredentialBench.Toml
