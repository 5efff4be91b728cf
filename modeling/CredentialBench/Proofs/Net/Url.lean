import Mathlib.Data.List.TakeWhile
import CredentialBench.Net.Url
import CredentialBench.Proofs.Net.Percent
import CredentialBench.Proofs.Text.Blank

/-!
# Plain URLs

A URL that is put together from an authority and a path of plain segments is read as just these
parts (`ofText?_http`). A segment is plain when nothing in it is special: no character that a path
percent-encodes, no slash of either kind, and no dots that are resolved. The characters that a URL
never needs to encode (`isUnreserved`) make plain segments, dots aside.
-/

namespace CredentialBench.Net.Url

/-! ## Plain segments -/

/-- A character that stands for itself in a path. -/
structure PlainChar (c : Char) : Prop where
  not_encoded : pathSet c = false
  ne_slash : c ≠ '/'
  ne_backslash : c ≠ '\\'

/-- A segment that stays as it is written. -/
structure PlainSegment (s : List Char) : Prop where
  chars : ∀ c ∈ s, PlainChar c
  not_single : isSingleDot s = false
  not_double : isDoubleDot s = false

theorem not_edge_of_pathSet {c : Char} (h : pathSet c = false) : 0x20 < c.toNat := by
  simp only [pathSet, isControlOrForeign, Bool.or_eq_false_iff, decide_eq_false_iff_not] at h
  obtain ⟨⟨hcontrol, -⟩, hlist⟩ := h
  have hspace : c ≠ ' ' := by
    rintro rfl
    exact absurd hlist (by decide)
  have hne : c.toNat ≠ 0x20 := fun he => hspace (Char.toNat_inj.1 he)
  omega

theorem ne_query_of_pathSet {c : Char} (h : pathSet c = false) : c ≠ '?' ∧ c ≠ '#' := by
  constructor <;> rintro rfl <;> exact absurd h (by decide)

theorem encodeSet_eq_self {set : Char → Bool} {cs : List Char} (h : ∀ c ∈ cs, set c = false) :
    encodeSet set cs = cs := by
  induction cs with
  | nil => rfl
  | cons c cs ih =>
    have hc : set c = false := h c List.mem_cons_self
    rw [encodeSet, List.flatMap_cons, hc]
    exact congrArg (c :: ·) (ih fun d hd => h d (List.mem_cons_of_mem c hd))

/-- Segments without dots stay where they are, in encoded form. -/
theorem resolve_of_not_dots {segments : List (List Char)}
    (h : ∀ s ∈ segments, isSingleDot s = false ∧ isDoubleDot s = false)
    (done : List (List Char)) :
    resolve done segments = done ++ segments.map (encodeSet pathSet) := by
  induction segments generalizing done with
  | nil =>
    rw [List.map_nil, List.append_nil]
    rfl
  | cons s rest ih =>
    obtain ⟨hsingle, hdouble⟩ := h s List.mem_cons_self
    have hrest := ih fun s' hs' => h s' (List.mem_cons_of_mem s hs')
    cases rest with
    | nil => simp [resolve, hsingle, hdouble]
    | cons s' rest => simp [resolve, hsingle, hdouble, hrest]

theorem resolve_plain {segments : List (List Char)} (h : ∀ s ∈ segments, PlainSegment s)
    (done : List (List Char)) : resolve done segments = done ++ segments := by
  rw [resolve_of_not_dots fun s hs => ⟨(h s hs).not_single, (h s hs).not_double⟩,
    List.map_congr_left fun s hs => encodeSet_eq_self fun c hc => ((h s hs).chars c hc).not_encoded,
    List.map_id']

/-- Plain segments are done with, whatever follows them. -/
theorem resolve_plain_append {segments rest : List (List Char)}
    (h : ∀ s ∈ segments, PlainSegment s) (hne : rest ≠ []) (done : List (List Char)) :
    resolve done (segments ++ rest) = resolve (done ++ segments) rest := by
  induction segments generalizing done with
  | nil => rw [List.nil_append, List.append_nil]
  | cons s segments ih =>
    obtain ⟨hchars, hsingle, hdouble⟩ := h s List.mem_cons_self
    have hs : encodeSet pathSet s = s := encodeSet_eq_self fun c hc => (hchars c hc).not_encoded
    have ih := ih (fun s' hs' => h s' (List.mem_cons_of_mem s hs')) (done ++ [s])
    rw [List.cons_append, resolve]
    · rw [hsingle, hdouble, if_neg Bool.false_ne_true, if_neg Bool.false_ne_true, hs, ih,
        List.append_assoc, List.singleton_append]
    · exact List.append_ne_nil_of_right_ne_nil segments hne

/-! ## Reading a plain URL -/

/-- The characters of an authority as it stands in a URL: nothing that ends it or is dropped. -/
def PlainAuthority (cs : List Char) : Prop :=
  ∀ c ∈ cs, 0x20 < c.toNat ∧ c ∉ ['/', '\\', '?', '#']

instance (cs : List Char) : Decidable (PlainAuthority cs) :=
  List.decidableBAll _ cs

theorem ne_nil_of_hostAndPort? {cs : List Char} {r : String × Option UInt16}
    (h : hostAndPort? (afterUser cs) = some r) : cs ≠ [] := by
  rintro rfl
  simp [hostAndPort?, afterUser] at h

/-- A part that ends where its first other character is. -/
theorem takeWhile_append_cons {p : Char → Bool} {cs : List Char} (h : ∀ c ∈ cs, p c = true)
    {d : Char} (hd : p d = false) (rest : List Char) :
    (cs ++ d :: rest).takeWhile p = cs ∧ (cs ++ d :: rest).dropWhile p = d :: rest := by
  have hd' : ¬p d = true := by simp [hd]
  rw [List.takeWhile_append_of_pos h, List.dropWhile_append_of_pos h,
    List.takeWhile_cons_of_neg hd', List.dropWhile_cons_of_neg hd', List.append_nil]
  exact ⟨rfl, rfl⟩

theorem scheme?_http (cs : List Char) :
    scheme? ("http://".toList ++ cs) = some (false, '/' :: '/' :: cs) := by
  simp [scheme?, lower, List.takeWhile]

/-- A path of plain segments holds nothing that ends it or is taken for a slash. -/
theorem mem_path {segments : List (List Char)} (hs : ∀ s ∈ segments, PlainSegment s) :
    ∀ c ∈ '/' :: Text.join '/' segments, 0x20 < c.toNat ∧ c ≠ '?' ∧ c ≠ '#' ∧ c ≠ '\\' := by
  intro c hc
  have hc : c = '/' ∨ ∃ s ∈ segments, c ∈ s := by
    rcases List.mem_cons.1 hc with rfl | hc
    · exact .inl rfl
    · exact Text.mem_join hc
  rcases hc with rfl | ⟨s, hmem, hc⟩
  · decide
  · have hplain := (hs s hmem).chars c hc
    have hquery := ne_query_of_pathSet hplain.not_encoded
    exact ⟨not_edge_of_pathSet hplain.not_encoded, hquery.1, hquery.2, hplain.ne_backslash⟩

theorem pathOf_join {segments : List (List Char)} (hne : segments ≠ [])
    (hs : ∀ s ∈ segments, PlainSegment s) : pathOf ('/' :: Text.join '/' segments) = segments := by
  have hmap : ('/' :: Text.join '/' segments).map (fun c => if c = '\\' then '/' else c) =
      '/' :: Text.join '/' segments := by
    refine (List.map_congr_left fun c hc => ?_).trans (List.map_id _)
    rw [if_neg (mem_path hs c hc).2.2.2, id]
  have hsplit : Text.split '/' (Text.join '/' segments) = segments :=
    Text.split_join '/' hne fun s hmem hslash => ((hs s hmem).chars _ hslash).ne_slash rfl
  rw [pathOf, hmap]
  simp only [hsplit]
  exact resolve_plain hs []

/-- A character that a URL keeps, if it does not stand at an end: no tab and no line end. -/
def isKept (c : Char) : Bool := c != '\t' && c != '\n' && c != '\r'

/-- A character that does not end the path of a URL. -/
def isInPath (c : Char) : Bool := c != '?' && c != '#'

/-- A text without controls and spaces at its ends loses its tabs and line ends only. -/
theorem stripped_eq_filter {cs : List Char} (hhead : ∀ c ∈ cs.head?, isEdge c = false)
    (hlast : ∀ c ∈ cs.getLast?, isEdge c = false) : stripped cs = cs.filter isKept := by
  have hdrop := Text.rdropWhile_of_last hlast
  rw [stripped, Text.dropWhile_of_head hhead]
  exact congrArg (List.filter isKept) hdrop

theorem filter_isKept {cs : List Char} (h : ∀ c ∈ cs, 0x20 < c.toNat) : cs.filter isKept = cs := by
  refine List.filter_eq_self.2 fun c hc => ?_
  have := h c hc
  simp only [isKept, Bool.and_eq_true, bne_iff_ne]
  refine ⟨⟨?_, ?_⟩, ?_⟩ <;> rintro rfl <;> exact absurd this (by decide)

/-- **A URL of an authority and any text after it.** The authority is read as it stands. Of the text
tabs and line ends are dropped; the path ends where a question mark or a number sign stands. -/
theorem ofText?_authority {authority : List Char} {host : String} {port : Option UInt16}
    (ha : PlainAuthority authority) (hh : hostAndPort? (afterUser authority) = some (host, port))
    {cs : List Char} (hcs : ∀ c ∈ cs.getLast?, isEdge c = false) :
    ofText? (String.ofList ("http://".toList ++ (authority ++ '/' :: cs))) =
      some ⟨false, host, port, pathOf ('/' :: (cs.filter isKept).takeWhile isInPath),
        (match (cs.filter isKept).dropWhile isInPath with
          | '?' :: rest => some (encodeSet querySet (rest.takeWhile (· != '#')))
          | _ => none),
        match ((cs.filter isKept).dropWhile isInPath).dropWhile (· != '#') with
          | '#' :: rest => some (encodeSet fragmentSet rest)
          | _ => none⟩ := by
  have hstripped : stripped ("http://".toList ++ (authority ++ '/' :: cs)) =
      "http://".toList ++ (authority ++ '/' :: cs.filter isKept) := by
    have hscheme : "http://".toList.filter isKept = "http://".toList := by decide
    have hslash : ('/' :: cs).filter isKept = '/' :: cs.filter isKept := rfl
    rw [stripped_eq_filter, List.filter_append, List.filter_append, hscheme, hslash,
      filter_isKept fun c hc => (ha c hc).1]
    · intro c hc
      cases hc
      decide
    · intro c hc
      rw [← List.append_assoc, List.getLast?_append, List.getLast?_cons] at hc
      cases hlast : cs.getLast? with
      | none =>
        obtain rfl : '/' = c := by simpa [hlast] using hc
        decide
      | some d =>
        obtain rfl : d = c := by simpa [hlast] using hc
        exact hcs d hlast
  have hslashes : ('/' :: '/' :: (authority ++ '/' :: cs.filter isKept)).dropWhile
      (fun c => c == '/' || c == '\\') = authority ++ '/' :: cs.filter isKept := by
    obtain ⟨a, as, rfl⟩ := List.exists_cons_of_ne_nil (ne_nil_of_hostAndPort? hh)
    have ha := (ha a List.mem_cons_self).2
    simp only [List.mem_cons, List.not_mem_nil, or_false, not_or] at ha
    simp [ha.1, ha.2.1]
  have hends : ∀ c ∈ authority, (!(c == '/' || c == '\\' || c == '?' || c == '#')) = true := by
    intro c hc
    have hc := (ha c hc).2
    simp only [List.mem_cons, List.not_mem_nil, or_false, not_or] at hc
    simp [hc]
  have hpart := takeWhile_append_cons hends (d := '/') rfl (cs.filter isKept)
  rw [ofText?, String.toList_ofList, hstripped, scheme?_http]
  simp only [Option.bind_eq_bind, Option.bind_some, hslashes, hpart.1, hpart.2, hh]
  rfl

/-- **A plain URL is read as its parts.** -/
theorem ofText?_http {authority : List Char} {host : String} {port : Option UInt16}
    (ha : PlainAuthority authority) (hh : hostAndPort? (afterUser authority) = some (host, port))
    {segments : List (List Char)} (hne : segments ≠ []) (hs : ∀ s ∈ segments, PlainSegment s) :
    ofText? (String.ofList ("http://".toList ++ (authority ++ '/' :: Text.join '/' segments))) =
      some ⟨false, host, port, segments, none, none⟩ := by
  have hpath : ∀ c ∈ Text.join '/' segments, _ := fun c hc =>
    mem_path hs c (List.mem_cons_of_mem _ hc)
  have hlast : ∀ c ∈ (Text.join '/' segments).getLast?, isEdge c = false := fun c hc => by
    simpa [isEdge] using (hpath c (List.mem_of_getLast? hc)).1
  have hwhole : ∀ c ∈ Text.join '/' segments, isInPath c = true := by
    intro c hc
    simp [isInPath, (hpath c hc).2.1, (hpath c hc).2.2.1]
  rw [ofText?_authority ha hh hlast, filter_isKept fun c hc => (hpath c hc).1,
    List.takeWhile_eq_self_iff.2 hwhole, List.dropWhile_eq_nil_iff.2 hwhole, List.dropWhile_nil,
    pathOf_join hne hs]

/-- The target of a plain URL is its path. -/
theorem target_join {host : String} {port : Option UInt16} {segments : List (List Char)}
    (hne : segments ≠ []) :
    target ⟨false, host, port, segments, none, none⟩ = '/' :: Text.join '/' segments := by
  rw [target, List.append_nil]
  exact Text.flatMap_cons_eq_join '/' hne

/-! ## Unreserved characters -/

/-- A character that no URL needs to encode: a letter or a digit of ASCII, or one of four others. -/
def isUnreserved (c : Char) : Bool := c.isAlphanum || ['-', '_', '.', '~'].contains c

theorem lt_of_isUnreserved {c : Char} (h : isUnreserved c = true) : c.toNat < 0x80 := by
  rcases Bool.or_eq_true_iff.1 h with h | h
  · rcases Bool.or_eq_true_iff.1 (show (c.isAlpha || c.isDigit) = true from h) with h | h
    · have hle : c.val ≤ 'Z'.val ∨ c.val ≤ 'z'.val := by
        rcases Bool.or_eq_true_iff.1 (show (c.isUpper || c.isLower) = true from h) with h | h
        · exact .inl (of_decide_eq_true h).2
        · exact .inr (of_decide_eq_true (Bool.and_eq_true_iff.1 h).2)
      rcases hle with hle | hle
      · exact Nat.lt_of_le_of_lt hle (by decide)
      · exact Nat.lt_of_le_of_lt hle (by decide)
    · exact Nat.lt_of_le_of_lt (Char.isDigit_iff_toNat.1 h).2 (by decide)
  · simp only [List.contains_iff_mem, List.mem_cons, List.not_mem_nil, or_false] at h
    rcases h with rfl | rfl | rfl | rfl <;> decide

/-- What holds of the unreserved characters one by one. -/
theorem forall_unreserved {p : Char → Prop}
    (h : ∀ n < 0x80, isUnreserved (Char.ofNat n) = true → p (Char.ofNat n)) {c : Char}
    (hc : isUnreserved c = true) : p c := by
  have hp := h c.toNat (lt_of_isUnreserved hc)
  rw [Char.ofNat_toNat] at hp
  exact hp hc

theorem PlainChar.of_isUnreserved {c : Char} (h : isUnreserved c = true) : PlainChar c := by
  have hp : pathSet c = false ∧ c ≠ '/' ∧ c ≠ '\\' :=
    forall_unreserved (p := fun c => pathSet c = false ∧ c ≠ '/' ∧ c ≠ '\\') (by decide) h
  exact ⟨hp.1, hp.2.1, hp.2.2⟩

/-- No letter case and no percent sign makes unreserved characters dots. -/
theorem toLower_of_isUnreserved {c : Char} (h : isUnreserved c = true) :
    c.toLower ≠ '%' ∧ (c.toLower = '.' → c = '.') :=
  forall_unreserved (p := fun c => c.toLower ≠ '%' ∧ (c.toLower = '.' → c = '.')) (by decide) h

/-- Unreserved characters make a plain segment, dots aside. -/
theorem PlainSegment.of_isUnreserved {s : List Char} (h : ∀ c ∈ s, isUnreserved c = true)
    (h₁ : s ≠ ['.']) (h₂ : s ≠ ['.', '.']) : PlainSegment s := by
  have hpercent : '%' ∉ lower s := by
    intro hm
    obtain ⟨c, hc, hl⟩ := List.mem_map.1 hm
    exact (toLower_of_isUnreserved (h c hc)).1 hl
  have hdots {n : Nat} (hl : lower s = List.replicate n '.') : s = List.replicate n '.' := by
    rw [List.eq_replicate_iff] at hl ⊢
    refine ⟨by simpa [lower] using hl.1, fun c hc => ?_⟩
    exact (toLower_of_isUnreserved (h c hc)).2 (hl.2 _ (List.mem_map_of_mem hc))
  have htext {w : String} (hw : String.ofList (lower s) = w) : lower s = w.toList := by
    rw [← hw, String.toList_ofList]
  have hnot {w : String} (hw : '%' ∈ w.toList) : String.ofList (lower s) ≠ w :=
    fun he => hpercent (htext he ▸ hw)
  refine ⟨fun c hc => .of_isUnreserved (h c hc), ?_, ?_⟩
  · rw [isSingleDot, ← Bool.not_eq_true, List.contains_iff_mem]
    intro hm
    simp only [List.mem_cons, List.not_mem_nil, or_false] at hm
    rcases hm with hm | hm
    · exact h₁ (hdots (n := 1) (htext hm))
    · exact hnot (by decide) hm
  · rw [isDoubleDot, ← Bool.not_eq_true, List.contains_iff_mem]
    intro hm
    simp only [List.mem_cons, List.not_mem_nil, or_false] at hm
    rcases hm with hm | hm | hm | hm
    · exact h₂ (hdots (n := 2) (htext hm))
    · exact hnot (by decide) hm
    · exact hnot (by decide) hm
    · exact hnot (by decide) hm

/-! ## Resolved paths -/

theorem mem_drop_dropLast {α : Type} {n : Nat} {a : α} {as : List α}
    (h : a ∈ as.dropLast.drop n) : a ∈ as.drop n := by
  rw [List.dropLast_eq_take, List.drop_take] at h
  exact List.mem_of_mem_take h

/-- What a path of some segments after others comes to. Its last segment is empty or one of those
written; of what is before that, everything from any place on is one of the segments that were there
from that place on, or one of those written, the last one aside. -/
theorem resolve_eq_append (n : Nat) {segments : List (List Char)} (hne : segments ≠ [])
    (done : List (List Char)) :
    ∃ front last, resolve done segments = front ++ [last] ∧
      (∀ s ∈ front.drop n,
        s ∈ done.drop n ∨ ∃ t ∈ segments.dropLast, s = encodeSet pathSet t) ∧
      (last = [] ∨ ∃ t ∈ segments, last = encodeSet pathSet t) := by
  induction segments generalizing done with
  | nil => exact absurd rfl hne
  | cons s rest ih =>
    cases rest with
    | nil =>
      rw [resolve]
      split
      · exact ⟨done.dropLast, [], rfl, fun _ h => .inl (mem_drop_dropLast h), .inl rfl⟩
      split
      · exact ⟨done, [], rfl, fun _ h => .inl h, .inl rfl⟩
      · exact ⟨done, _, rfl, fun _ h => .inl h, .inr ⟨s, List.mem_cons_self, rfl⟩⟩
    | cons t rest =>
      -- the segment adds itself at most to what is done
      have hstep {done' : List (List Char)}
          (hdone : ∀ u ∈ done'.drop n, u ∈ done.drop n ∨ u = encodeSet pathSet s) :
          ∃ front last, resolve done' (t :: rest) = front ++ [last] ∧
            (∀ u ∈ front.drop n, u ∈ done.drop n ∨
              ∃ t' ∈ (s :: t :: rest).dropLast, u = encodeSet pathSet t') ∧
            (last = [] ∨ ∃ t' ∈ s :: t :: rest, last = encodeSet pathSet t') := by
        obtain ⟨front, last, he, hfront, hlast⟩ := ih (List.cons_ne_nil t rest) done'
        rw [List.dropLast_cons_cons]
        refine ⟨front, last, he, fun u hu => ?_, ?_⟩
        · rcases hfront u hu with hu | ⟨t', ht', rfl⟩
          · rcases hdone u hu with hu | rfl
            · exact .inl hu
            · exact .inr ⟨s, List.mem_cons_self, rfl⟩
          · exact .inr ⟨t', List.mem_cons_of_mem s ht', rfl⟩
        · rcases hlast with rfl | ⟨t', ht', rfl⟩
          · exact .inl rfl
          · exact .inr ⟨t', List.mem_cons_of_mem s ht', rfl⟩
      rw [resolve]
      · split
        · exact hstep fun u hu => .inl (mem_drop_dropLast hu)
        split
        · exact hstep fun u hu => .inl hu
        · refine hstep fun u hu => ?_
          rw [List.drop_append] at hu
          rcases List.mem_append.1 hu with hu | hu
          · exact .inl hu
          · exact .inr (List.mem_singleton.1 (List.mem_of_mem_drop hu))
      · nofun

theorem resolve_ne_nil {segments : List (List Char)} (hne : segments ≠ [])
    (done : List (List Char)) : resolve done segments ≠ [] := by
  obtain ⟨front, last, he, -⟩ := resolve_eq_append 0 hne done
  rw [he]
  exact List.append_ne_nil_of_right_ne_nil front (List.cons_ne_nil last [])

theorem pathOf_ne_nil (cs : List Char) : pathOf cs ≠ [] := by
  rw [pathOf]
  split <;> exact resolve_ne_nil (Text.split_ne_nil _ _) []

/-- The characters of an encoded text that are not its own are percent signs, letters and digits. -/
theorem mem_encodeSet {set : Char → Bool} {cs : List Char} {c : Char} (h : c ∈ encodeSet set cs) :
    (c ∈ cs ∧ set c = false) ∨ c = '%' ∨ c.isAlphanum = true := by
  obtain ⟨d, hd, hc⟩ := List.mem_flatMap.1 h
  split at hc
  · exact .inr (Percent.mem_encodeAll hc)
  · rename_i hset
    rw [List.mem_singleton.1 hc]
    exact .inl ⟨hd, by simpa using hset⟩

theorem plainChar_of_mem_encodeSet {cs : List Char} (h : ∀ c ∈ cs, c ≠ '/' ∧ c ≠ '\\') :
    ∀ c ∈ encodeSet pathSet cs, PlainChar c := by
  intro c hc
  rcases mem_encodeSet hc with ⟨hc, hset⟩ | rfl | hc
  · exact ⟨hset, (h c hc).1, (h c hc).2⟩
  · exact ⟨by decide, by decide, by decide⟩
  · exact .of_isUnreserved (by rw [isUnreserved, hc, Bool.true_or])

/-- The segments of a path hold nothing that a path encodes, and no slashes. -/
theorem plainChar_of_mem_pathOf {cs s : List Char} (hs : s ∈ pathOf cs) : ∀ c ∈ s, PlainChar c := by
  have hresolve {ds : List Char} (hds : '\\' ∉ ds) (h : s ∈ resolve [] (Text.split '/' ds)) :
      ∀ c ∈ s, PlainChar c := by
    obtain ⟨front, last, he, hfront, hlast⟩ :=
      resolve_eq_append 0 (Text.split_ne_nil '/' ds) []
    have hmem : s = [] ∨ ∃ t ∈ Text.split '/' ds, s = encodeSet pathSet t := by
      rw [he] at h
      rcases List.mem_append.1 h with h | h
      · rcases hfront s h with h | ⟨t, ht, rfl⟩
        · cases h
        · exact .inr ⟨t, (List.dropLast_sublist _).mem ht, rfl⟩
      · rw [List.mem_singleton.1 h]
        exact hlast
    rcases hmem with rfl | ⟨t, ht, rfl⟩
    · nofun
    · refine plainChar_of_mem_encodeSet fun c hc => ⟨?_, ?_⟩
      · rintro rfl
        exact Text.notMem_of_mem_split ht hc
      · rintro rfl
        exact hds ((Text.sublist_of_mem_split ht).mem hc)
  have hslashes : '\\' ∉ cs.map fun c => if c = '\\' then '/' else c := by
    intro h
    obtain ⟨c, -, hc⟩ := List.mem_map.1 h
    split at hc
    · cases hc
    · exact absurd hc ‹_›
  rw [pathOf] at hs
  split at hs
  · rename_i rest he
    rw [he] at hslashes
    exact hresolve (fun h => hslashes (List.mem_cons_of_mem _ h)) hs
  · exact hresolve hslashes hs

end CredentialBench.Net.Url
