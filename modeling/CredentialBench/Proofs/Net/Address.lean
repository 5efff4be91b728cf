import CredentialBench.Net.SocketAddress
import CredentialBench.Proofs.Text.Numeral
import CredentialBench.Text.Split

/-!
# The grammar of addresses

Which texts the readers of addresses take, and for which address. A number is all digits that are
there (`number?_eq_some_iff`); an address of version 4 has one text (`Ipv4.read?_eq_some_iff`); one
of version 6 has many (`Ipv6.Spells`), and what is read is what is spelled, in both directions
(`Ipv6.spells_of_read?`, `Ipv6.Spells.read`). Together they give the grammar of socket addresses
(`ofChars?_eq_some_iff`).

A reader takes as much as it can, so a text is read up to what could not go on with it: a group ends
before a colon, groups end where no colon follows, or two do (`Ends`).
-/

namespace CredentialBench.Net

/-! ## Numbers -/

/-- Digits that write a number in a form. -/
structure NumberForm.Spells (form : NumberForm) (ds : List Char) (n : Nat) : Prop where
  numeral : Text.Numeral form.base ds n
  length : ∀ k ∈ form.maxDigits, ds.length ≤ k
  zero : form.leadingZero = false → ds.head? = some '0' → ds.length = 1
  bound : n ≤ form.bound

/-- Some forms ask for nothing but the base and the bound. -/
theorem NumberForm.Spells.of_free {form : NumberForm} {ds : List Char} {n : Nat}
    (hmax : form.maxDigits = none) (hzero : form.leadingZero = true)
    (h : Text.Numeral form.base ds n) (hbound : n ≤ form.bound) : form.Spells ds n where
  numeral := h
  length k hk := absurd (hmax ▸ hk) (Option.not_mem_none k)
  zero hno := absurd (hzero.symm.trans hno) (by decide)
  bound := hbound

/-- A text that goes on with no digit of a base. -/
def Stops (base : Nat) (rest : List Char) : Prop := ∀ c ∈ rest.head?, isDigitOf base c = false

variable {form : NumberForm} {base n : Nat} {c : Char} {cs ds rest : List Char}

theorem isDigitOf_iff : isDigitOf base c = true ↔ ∃ d < base, Text.hexValue? c = some d := by
  rw [isDigitOf]
  cases Text.hexValue? c <;> simp [Option.filter]

theorem isDigitOf_of_numeral (h : Text.Numeral base ds n) : ∀ c ∈ ds, isDigitOf base c = true :=
  fun c hc => isDigitOf_iff.2 (h.isDigit c hc)

/-- **A number that is read** is what all digits at the start of the text write. -/
theorem number?_eq_some_iff :
    number? form cs = some (n, rest) ↔
      ∃ ds, cs = ds ++ rest ∧ form.Spells ds n ∧ Stops form.base rest := by
  constructor
  · intro h
    simp only [number?] at h
    split at h
    · exact absurd h (by simp)
    rename_i hform
    obtain ⟨rfl, rfl⟩ := Prod.mk.inj (Option.some.inj h)
    simp only [Bool.or_eq_true, not_or, decide_eq_true_eq, Bool.and_eq_true, not_and,
      Bool.not_eq_true'] at hform
    obtain ⟨⟨⟨hne, hlength⟩, hzero⟩, hbound⟩ := hform
    have hdigits : ∀ c ∈ cs.takeWhile (isDigitOf form.base), ∃ d < form.base,
        Text.hexValue? c = some d :=
      fun c hc => isDigitOf_iff.1 (List.all_eq_true.1 List.all_takeWhile c hc)
    obtain ⟨m, hm⟩ := Text.Numeral.of_isDigit (by simpa using hne) hdigits
    refine ⟨_, List.takeWhile_append_dropWhile.symm, ⟨hm.value.symm ▸ hm, ?_, ?_, ?_⟩, ?_⟩
    · intro k hk
      rw [Option.mem_def.1 hk] at hlength
      simpa using hlength
    · intro hleading hhead
      have hpos := List.length_pos_iff.2 hm.ne_nil
      have hlong := hzero ⟨hleading, by simpa using hhead⟩
      omega
    · omega
    · intro c hc
      have hnot := List.head?_dropWhile_not (isDigitOf form.base) cs
      rw [Option.mem_def.1 hc] at hnot
      exact hnot
  · rintro ⟨ds, rfl, h, hstops⟩
    have hdigits := isDigitOf_of_numeral h.numeral
    have hspan : (ds ++ rest).takeWhile (isDigitOf form.base) = ds ∧
        (ds ++ rest).dropWhile (isDigitOf form.base) = rest := by
      rw [List.takeWhile_append_of_pos hdigits, List.dropWhile_append_of_pos hdigits]
      cases rest with
      | nil => simp
      | cons c rest => simp [hstops c rfl]
    have hform : ¬(ds.isEmpty || form.maxDigits.any (· < ds.length) ||
        (!form.leadingZero && ds.head? == some '0' && 1 < ds.length) || form.bound < n) = true := by
      simp only [Bool.or_eq_true, not_or, decide_eq_true_eq, Bool.and_eq_true, not_and,
        Bool.not_eq_true', List.isEmpty_iff, beq_iff_eq]
      refine ⟨⟨⟨h.numeral.ne_nil, ?_⟩, fun hzero => ?_⟩, Nat.not_lt.2 h.bound⟩
      · cases hmax : form.maxDigits with
        | none => simp
        | some k => simpa using h.length k hmax
      · have hshort := h.zero hzero.1 hzero.2
        omega
    simp only [number?, hspan.1, hspan.2, h.numeral.value]
    rw [if_neg hform]

theorem after?_eq_some_iff : after? c cs = some rest ↔ cs = c :: rest := by
  cases cs with
  | nil => simp [after?]
  | cons x xs =>
    rw [after?]
    split <;> simp_all

theorem stops_cons : Stops base (c :: rest) ↔ isDigitOf base c = false := by simp [Stops]

/-! ## Version 4 -/

theorem spells_octet_iff : octet.Spells ds n ↔ ds = Nat.toDigits 10 n ∧ n ≤ 255 := by
  constructor
  · intro h
    exact ⟨h.numeral.eq_toDigits (h.zero rfl), h.bound⟩
  · rintro ⟨rfl, hn⟩
    refine ⟨Text.numeral_toDigits (by decide) (by decide) n, ?_, fun _ hzero => ?_, hn⟩
    · rintro k ⟨⟩
      exact (Nat.length_toDigits_le_iff (by decide) (by decide)).2 (by omega)
    · rw [Text.eq_zero_of_head?_toDigits hzero]
      rfl

theorem Ipv4.toList_text (ip : Ipv4) :
    ip.text.toList = Nat.toDigits 10 ip.a.toNat ++ '.' :: (Nat.toDigits 10 ip.b.toNat ++
      '.' :: (Nat.toDigits 10 ip.c.toNat ++ '.' :: Nat.toDigits 10 ip.d.toNat)) := by
  simp [text]

/-- What an address of version 4 is written with. -/
theorem Ipv4.mem_text {ip : Ipv4} (h : c ∈ ip.text.toList) : isDigitOf 10 c = true ∨ c = '.' := by
  have hdigits : ∀ x : UInt8, c ∈ Nat.toDigits 10 x.toNat → isDigitOf 10 c = true := fun x =>
    isDigitOf_of_numeral (Text.numeral_toDigits (by decide) (by decide) x.toNat) c
  simp only [toList_text, List.mem_append, List.mem_cons] at h
  rcases h with h | rfl | h | rfl | h | rfl | h
  all_goals first | exact .inl (hdigits _ h) | exact .inr rfl

/-- **An address of version 4 is read from its text and from no other.** -/
theorem Ipv4.read?_eq_some_iff {ip : Ipv4} :
    Ipv4.read? cs = some (ip, rest) ↔ cs = ip.text.toList ++ rest ∧ Stops 10 rest := by
  have hpoint : ∀ more, Stops 10 ('.' :: more) := fun more => stops_cons.2 (by decide)
  rw [toList_text]
  constructor
  · intro h
    simp only [read?, Option.bind_eq_bind, Option.bind_eq_some_iff, Prod.exists,
      number?_eq_some_iff, after?_eq_some_iff, spells_octet_iff, Option.pure_def,
      Option.some.injEq, Prod.mk.injEq] at h
    obtain ⟨a, _, ⟨_, rfl, ⟨rfl, ha⟩, -⟩, _, rfl, b, _, ⟨_, rfl, ⟨rfl, hb⟩, -⟩, _, rfl,
      c, _, ⟨_, rfl, ⟨rfl, hc⟩, -⟩, _, rfl, d, _, ⟨_, rfl, ⟨rfl, hd⟩, hstops⟩, rfl, rfl⟩ := h
    refine ⟨?_, hstops⟩
    simp only [UInt8.toNat_ofNat_of_lt' (Nat.lt_succ_of_le ha),
      UInt8.toNat_ofNat_of_lt' (Nat.lt_succ_of_le hb),
      UInt8.toNat_ofNat_of_lt' (Nat.lt_succ_of_le hc),
      UInt8.toNat_ofNat_of_lt' (Nat.lt_succ_of_le hd), List.append_assoc, List.cons_append]
  · rintro ⟨rfl, hstops⟩
    have hle : ∀ x : UInt8, x.toNat ≤ 255 := fun x => Nat.le_of_lt_succ x.toNat_lt
    simp only [read?, Option.bind_eq_bind, Option.bind_eq_some_iff, Prod.exists,
      number?_eq_some_iff, after?_eq_some_iff, spells_octet_iff, Option.pure_def,
      Option.some.injEq, Prod.mk.injEq]
    exact ⟨_, _, ⟨_, by simp only [List.append_assoc, List.cons_append], ⟨rfl, hle ip.a⟩, hpoint _⟩,
      _, rfl, _, _, ⟨_, rfl, ⟨rfl, hle ip.b⟩, hpoint _⟩, _, rfl, _, _,
      ⟨_, rfl, ⟨rfl, hle ip.c⟩, hpoint _⟩, _, rfl, _, _, ⟨_, rfl, ⟨rfl, hle ip.d⟩, hstops⟩,
      by simp, rfl⟩

/-! ## Version 6 -/

/-- Groups with colons between them. At the end an address of version 4 may stand for two. -/
inductive SpellsGroups : (embedded : Bool) → List UInt16 → List Char → Prop
  | last {g : UInt16} {ds : List Char} (h : group.Spells ds g.toNat) : SpellsGroups false [g] ds
  | ipv4 (ip : Ipv4) : SpellsGroups true ip.groups ip.text.toList
  | cons {embedded : Bool} {g : UInt16} {gs : List UInt16} {ds cs : List Char}
      (h : group.Spells ds g.toNat) (hcs : SpellsGroups embedded gs cs) :
      SpellsGroups embedded (g :: gs) (ds ++ ':' :: cs)

/-- Groups, or none at all. -/
def SpellsOptional (embedded : Bool) (gs : List UInt16) (cs : List Char) : Prop :=
  gs = [] ∧ cs = [] ∨ SpellsGroups embedded gs cs

/-- A text of an address of version 6: all groups, or groups on both sides of two colons, which
stand for one zero or more. -/
inductive Ipv6.Spells (ip : Ipv6) : List Char → Prop
  | full {embedded : Bool} {cs : List Char} (h : SpellsGroups embedded ip.val cs) : Spells ip cs
  | elided {embedded : Bool} {front back : List UInt16} {fs bs : List Char}
      (hfront : SpellsOptional false front fs) (hback : SpellsOptional embedded back bs)
      (hlength : front.length + back.length < 8)
      (hip : ip.val = front ++ List.replicate (8 - front.length - back.length) 0 ++ back) :
      Spells ip (fs ++ ':' :: ':' :: bs)

/-- A text that goes on with neither a digit nor a point. -/
def Pauses (rest : List Char) : Prop := ∀ c ∈ rest.head?, isDigitOf 16 c = false ∧ c ≠ '.'

variable {room : Nat} {first embedded : Bool} {gs : List UInt16} {ip : Ipv6}

theorem pauses_cons : Pauses (c :: rest) ↔ isDigitOf 16 c = false ∧ c ≠ '.' := by simp [Pauses]

theorem pauses_colon (rest : List Char) : Pauses (':' :: rest) :=
  pauses_cons.2 ⟨by decide, by decide⟩

theorem isDigitOf_mono {base' : Nat} (hle : base ≤ base') (h : isDigitOf base c = true) :
    isDigitOf base' c = true := by
  obtain ⟨d, hd, hc⟩ := isDigitOf_iff.1 h
  exact isDigitOf_iff.2 ⟨d, Nat.lt_of_lt_of_le hd hle, hc⟩

theorem Pauses.stops (h : Pauses rest) (hle : base ≤ 16) : Stops base rest := by
  intro c hc
  rw [Bool.eq_false_iff]
  intro hdigit
  exact Bool.false_ne_true ((h c hc).1.symm.trans (isDigitOf_mono hle hdigit))

/-- No number is read where no digit is. -/
theorem number?_eq_none (h : Stops form.base cs) : number? form cs = none := by
  cases hread : number? form cs with
  | none => rfl
  | some r =>
    obtain ⟨ds, rfl, hds, -⟩ := number?_eq_some_iff.1 hread
    cases ds with
    | nil => exact absurd rfl hds.numeral.ne_nil
    | cons c ds =>
      have hdigit := isDigitOf_of_numeral hds.numeral c List.mem_cons_self
      exact absurd (h c rfl) (by rw [hdigit]; decide)

/-- No address of version 4 is read where no point follows the digits. -/
theorem Ipv4.read?_eq_none (hds : ∀ c ∈ ds, isDigitOf 16 c = true) (hrest : Pauses rest) :
    Ipv4.read? (ds ++ rest) = none := by
  cases hread : Ipv4.read? (ds ++ rest) with
  | none => rfl
  | some r =>
    obtain ⟨he, -⟩ := Ipv4.read?_eq_some_iff.1 hread
    rw [toList_text, List.append_assoc] at he
    have hfirst : ∀ c ∈ Nat.toDigits 10 r.1.a.toNat, isDigitOf 16 c = true := fun c hc =>
      isDigitOf_mono (by decide) (isDigitOf_of_numeral
        (Text.numeral_toDigits (by decide) (by decide) r.1.a.toNat) c hc)
    have hpoint := Text.append_inj_of_all hds (fun c hc => (hrest c hc).1) hfirst
      (by rintro c ⟨⟩; decide) he
    exact absurd rfl (hrest '.' (by rw [hpoint.2]; rfl)).2

theorem Pauses.nothing (h : Pauses cs) : Ipv4.read? cs = none ∧ number? group cs = none := by
  have hipv4 : Ipv4.read? ([] ++ cs) = none :=
    Ipv4.read?_eq_none (fun c hc => absurd hc List.not_mem_nil) h
  exact ⟨hipv4, number?_eq_none (h.stops (by decide))⟩

/-- No group is read where neither a digit nor a point is. -/
theorem groups_of_pauses (h : Pauses cs) : groups room true cs = ([], false, cs) := by
  cases room with
  | zero => rfl
  | succ room => simp [groups, h.nothing]

/-- A text that ends groups: it goes on with no colon, or with two. -/
structure Ends (rest : List Char) : Prop where
  pauses : Pauses rest
  colon : ∀ more, rest = ':' :: more → more.head? = some ':'

theorem Ends.groups (h : Ends rest) : groups room false rest = ([], false, rest) := by
  cases room with
  | zero => rfl
  | succ room =>
    cases hafter : after? ':' rest with
    | none => simp [Net.groups, hafter]
    | some more =>
      obtain rfl := after?_eq_some_iff.1 hafter
      obtain ⟨more, rfl⟩ : ∃ m, more = ':' :: m := by
        have hmore := h.colon more rfl
        cases more with
        | nil => simp at hmore
        | cons c m => exact ⟨m, by rw [Option.some.inj hmore]⟩
      simp [Net.groups, after?, (pauses_colon more).nothing]

/-- After a colon groups are read as they are at the start, if any are. -/
theorem groups_colon {g : UInt16} (h : groups room true cs = (g :: gs, embedded, rest)) :
    groups room false (':' :: cs) = (g :: gs, embedded, rest) := by
  cases room with
  | zero => simp [groups] at h
  | succ room =>
    rw [groups] at h ⊢
    simp only [after?, if_true, Bool.false_eq_true, if_false] at h ⊢
    split at h
    · exact h
    · split at h
      · simp at h
      · exact h

theorem SpellsGroups.ne_nil (h : SpellsGroups embedded gs cs) : gs ≠ [] := by
  cases h <;> simp [Ipv4.groups]

/-- **Groups that are spelled are read.** -/
theorem SpellsGroups.read (h : SpellsGroups embedded gs cs) (hroom : gs.length ≤ room)
    (hends : Ends rest) : groups room true (cs ++ rest) = (gs, embedded, rest) := by
  -- a group is no start of an address of version 4, since a colon or the end follows it
  have hgroup : ∀ {g : UInt16} {ds more : List Char}, group.Spells ds g.toNat → Pauses more →
      Ipv4.read? (ds ++ more) = none ∧ number? group (ds ++ more) = some (g.toNat, more) :=
    fun hg hmore => ⟨Ipv4.read?_eq_none (isDigitOf_of_numeral hg.numeral) hmore,
      number?_eq_some_iff.2 ⟨_, rfl, hg, hmore.stops (by decide)⟩⟩
  induction h generalizing room with
  | @last g ds hg =>
    obtain ⟨room, rfl⟩ : ∃ r, room = r + 1 := ⟨room - 1, by simp at hroom; omega⟩
    obtain ⟨hipv4, hnumber⟩ := hgroup hg hends.pauses
    simp [groups, hipv4, hnumber, hends.groups]
  | ipv4 ip =>
    obtain ⟨room, rfl⟩ : ∃ r, room = r + 2 := ⟨room - 2, by simp [Ipv4.groups] at hroom; omega⟩
    have hipv4 : Ipv4.read? (ip.text.toList ++ rest) = some (ip, rest) :=
      Ipv4.read?_eq_some_iff.2 ⟨rfl, hends.pauses.stops (by decide)⟩
    simp [groups, hipv4]
  | @cons embedded g gs ds cs hg hcs ih =>
    obtain ⟨room, rfl⟩ : ∃ r, room = r + 1 := ⟨room - 1, by simp at hroom; omega⟩
    obtain ⟨hipv4, hnumber⟩ := hgroup hg (pauses_colon (cs ++ rest))
    obtain ⟨g', gs', rfl⟩ := List.exists_cons_of_ne_nil hcs.ne_nil
    have hmore := groups_colon (ih (Nat.le_of_succ_le_succ hroom))
    simp [groups, hipv4, hnumber, hmore]

/-- **Groups that are read are spelled.** -/
theorem groups_sound (h : groups room first cs = (gs, embedded, rest)) :
    gs.length ≤ room ∧ (gs = [] ∧ embedded = false ∧ rest = cs ∨
      ∃ text, cs = (if first then text else ':' :: text) ++ rest ∧
        SpellsGroups embedded gs text) := by
  induction room generalizing first cs gs embedded rest with
  | zero =>
    simp only [groups, Prod.mk.injEq] at h
    obtain ⟨rfl, rfl, rfl⟩ := h
    exact ⟨Nat.le_refl 0, .inl ⟨rfl, rfl, rfl⟩⟩
  | succ room ih =>
    rw [groups] at h
    split at h
    · simp only [Prod.mk.injEq] at h
      obtain ⟨rfl, rfl, rfl⟩ := h
      exact ⟨Nat.zero_le _, .inl ⟨rfl, rfl, rfl⟩⟩
    rename_i start hstart
    obtain rfl : cs = if first then start else ':' :: start := by
      cases first
      · exact after?_eq_some_iff.1 hstart
      · exact Option.some.inj hstart
    -- what is read at the start is spelled there
    have hspelled : ∀ {text : List Char}, start = text ++ rest →
        (if first then start else ':' :: start) =
          (if first then text else ':' :: text) ++ rest := by
      rintro text rfl
      cases first <;> rfl
    split at h
    · rename_i ip r hipv4
      simp only [Prod.mk.injEq] at h
      obtain ⟨rfl, rfl, rfl⟩ := h
      split at hipv4
      · refine ⟨by simp [Ipv4.groups]; omega, .inr ⟨_, hspelled ?_, .ipv4 ip⟩⟩
        exact (Ipv4.read?_eq_some_iff.1 hipv4).1
      · exact absurd hipv4 (by simp)
    · split at h
      · simp only [Prod.mk.injEq] at h
        obtain ⟨rfl, rfl, rfl⟩ := h
        exact ⟨Nat.zero_le _, .inl ⟨rfl, rfl, rfl⟩⟩
      · rename_i n r hnumber
        obtain ⟨ds, rfl, hds, -⟩ := number?_eq_some_iff.1 hnumber
        have hg : group.Spells ds (UInt16.ofNat n).toNat := by
          rwa [UInt16.toNat_ofNat_of_lt' (Nat.lt_succ_of_le hds.bound)]
        cases hmore : groups room false r with
        | mk gs' more =>
          obtain ⟨embedded', rest'⟩ := more
          rw [hmore] at h
          simp only [Prod.mk.injEq] at h
          obtain ⟨rfl, rfl, rfl⟩ := h
          obtain ⟨hlength, ⟨rfl, rfl, rfl⟩ | ⟨text, rfl, htext⟩⟩ := ih hmore
          · exact ⟨by simp, .inr ⟨ds, hspelled rfl, .last hg⟩⟩
          · refine ⟨by simpa using hlength, .inr ⟨_, hspelled ?_, .cons hg htext⟩⟩
            simp

/-- Groups that need not be there are read as they are spelled. -/
theorem SpellsOptional.read (h : SpellsOptional embedded gs cs) (hroom : gs.length ≤ room)
    (hends : Ends rest) :
    ∃ e, groups room true (cs ++ rest) = (gs, e, rest) ∧ (e = true → embedded = true) := by
  rcases h with ⟨rfl, rfl⟩ | h
  · exact ⟨false, groups_of_pauses hends.pauses, fun h => absurd h (by decide)⟩
  · exact ⟨embedded, h.read hroom hends, id⟩

theorem SpellsOptional.of_groups (h : groups room true cs = (gs, embedded, rest)) :
    gs.length ≤ room ∧ ∃ text, cs = text ++ rest ∧ SpellsOptional embedded gs text := by
  obtain ⟨hlength, ⟨rfl, rfl, rfl⟩ | ⟨text, rfl, htext⟩⟩ := groups_sound h
  · exact ⟨hlength, [], rfl, .inl ⟨rfl, rfl⟩⟩
  · exact ⟨hlength, text, rfl, .inr htext⟩

theorem Ipv6.ofGroups?_eq_some_iff : Ipv6.ofGroups? gs = some ip ↔ ip.val = gs := by
  rw [ofGroups?]
  split
  · exact ⟨fun h => by rw [← Option.some.inj h], fun h => by simp [← h]⟩
  · rename_i hlength
    exact ⟨fun h => absurd h (by simp), fun h => absurd (h ▸ ip.property) hlength⟩

/-- **An address of version 6 that is read is spelled.** -/
theorem Ipv6.spells_of_read? (h : Ipv6.read? cs = some (ip, rest)) :
    ∃ text, cs = text ++ rest ∧ ip.Spells text := by
  rcases hfront : groups 8 true cs with ⟨front, embedded, more⟩
  simp only [read?, hfront] at h
  obtain ⟨hfit, fs, rfl, hfs⟩ := SpellsOptional.of_groups hfront
  split at h
  · rename_i hfull
    simp only [Option.map_eq_some_iff, ofGroups?_eq_some_iff, Prod.mk.injEq] at h
    obtain ⟨_, hip, rfl, rfl⟩ := h
    rcases hfs with ⟨rfl, -⟩ | hfs
    · exact absurd hfull (by decide)
    · exact ⟨fs, rfl, .full (hip ▸ hfs)⟩
  · split at h
    · exact absurd h (by simp)
    rename_i hembedded
    obtain rfl : embedded = false := by simpa using hembedded
    split at h
    · rename_i hshort more
      rcases hback : groups (7 - front.length) true more with ⟨back, embedded, tail⟩
      obtain ⟨hroom, bs, rfl, hbs⟩ := SpellsOptional.of_groups hback
      simp only [hback, Option.map_eq_some_iff, ofGroups?_eq_some_iff, Prod.mk.injEq] at h
      obtain ⟨ip, hip, rfl, rfl⟩ := h
      have hlength : front.length + back.length < 8 := by omega
      exact ⟨fs ++ ':' :: ':' :: bs, by simp, .elided hfs hbs hlength hip⟩
    · exact absurd h (by simp)

/-- **An address of version 6 that is spelled is read**, up to a text that could not go on with
it. -/
theorem Ipv6.Spells.read (h : ip.Spells cs) (hpauses : Pauses rest) (hcolon : ':' ∉ rest.head?) :
    Ipv6.read? (cs ++ rest) = some (ip, rest) := by
  have hends : Ends rest := ⟨hpauses, fun more hmore => absurd (by rw [hmore]; rfl) hcolon⟩
  cases h with
  | full h =>
    have hread := h.read (Nat.le_of_eq ip.property) hends
    simp [read?, hread, ip.property, ofGroups?_eq_some_iff.2 (rfl : ip.val = ip.val)]
  | @elided embedded front back fs bs hfront hback hlength hip =>
    have hmiddle : Ends (':' :: ':' :: (bs ++ rest)) := ⟨pauses_colon _, by rintro more ⟨⟩; rfl⟩
    obtain ⟨e, hf, he⟩ := hfront.read (show front.length ≤ 8 by omega) hmiddle
    obtain ⟨e', hb, -⟩ := hback.read (show back.length ≤ 7 - front.length by omega) hends
    obtain rfl : e = false := by simpa using he
    have hgroups := ofGroups?_eq_some_iff.2 hip
    rw [List.append_assoc] at hgroups
    simp [read?, hf, hb, hgroups, show front.length ≠ 8 by omega]

/-- What groups are written with. -/
theorem SpellsGroups.mem (h : SpellsGroups embedded gs cs) (hc : c ∈ cs) :
    isDigitOf 16 c = true ∨ c = ':' ∨ c = '.' := by
  induction h with
  | last hg => exact .inl (isDigitOf_of_numeral hg.numeral c hc)
  | ipv4 ip =>
    rcases ip.mem_text hc with hc | rfl
    · exact .inl (isDigitOf_mono (by decide) hc)
    · exact .inr (.inr rfl)
  | cons hg hcs ih =>
    rcases List.mem_append.1 hc with hc | hc
    · exact .inl (isDigitOf_of_numeral hg.numeral c hc)
    · rcases List.mem_cons.1 hc with rfl | hc
      · exact .inr (.inl rfl)
      · exact ih hc

/-- What an address of version 6 is written with. -/
theorem Ipv6.Spells.mem (h : ip.Spells cs) (hc : c ∈ cs) :
    isDigitOf 16 c = true ∨ c = ':' ∨ c = '.' := by
  have hoptional : ∀ {embedded gs cs}, SpellsOptional embedded gs cs → c ∈ cs →
      isDigitOf 16 c = true ∨ c = ':' ∨ c = '.' := by
    rintro _ _ _ (⟨rfl, rfl⟩ | h) hc
    · exact absurd hc List.not_mem_nil
    · exact h.mem hc
  cases h with
  | full h => exact h.mem hc
  | elided hfront hback =>
    simp only [List.mem_append, List.mem_cons] at hc
    rcases hc with hc | rfl | rfl | hc
    · exact hoptional hfront hc
    · exact .inr (.inl rfl)
    · exact .inr (.inl rfl)
    · exact hoptional hback hc

/-- An address of version 6 has a colon, since it has more groups than one of version 4 fills. -/
theorem Ipv6.Spells.colon_mem (h : ip.Spells cs) : ':' ∈ cs := by
  cases h with
  | elided => simp
  | full h =>
    have hlength := ip.property
    generalize ip.val = gs at h hlength
    cases h with
    | last => simp at hlength
    | ipv4 => simp [Ipv4.groups] at hlength
    | cons => simp

/-! ## Socket addresses -/

/-- A text of a zone. None is zero. -/
inductive SpellsZone : UInt32 → List Char → Prop
  | absent : SpellsZone 0 []
  | given {zone : UInt32} {ds : List Char} (h : Text.Numeral 10 ds zone.toNat) :
      SpellsZone zone ('%' :: ds)

/-- A text of an address as it stands before the port: one of version 6 is in brackets, with its
zone. -/
inductive SpellsEnclosed : Ip → UInt32 → List Char → Prop
  | v4 (ip : Ipv4) : SpellsEnclosed (.v4 ip) 0 ip.text.toList
  | v6 {ip : Ipv6} {zone : UInt32} {cs zs : List Char} (h : ip.Spells cs)
      (hz : SpellsZone zone zs) : SpellsEnclosed (.v6 ip) zone ('[' :: (cs ++ zs) ++ [']'])

theorem Ipv4.text_ne_bracket (ip : Ipv4) (hc : c ≠ '[') :
    ip.text.toList ++ c :: cs ≠ '[' :: rest := by
  intro h
  cases htext : ip.text.toList with
  | nil => exact hc (List.cons.inj (htext ▸ h)).1
  | cons first more =>
    have hfirst := ip.mem_text (c := first) (by rw [htext]; exact List.mem_cons_self)
    rw [htext] at h
    obtain rfl : first = '[' := (List.cons.inj h).1
    exact absurd hfirst (by decide)

theorem port?_eq_some_iff {port : UInt16} :
    SocketAddress.port? cs = some port ↔ ∃ ds, cs = ':' :: ds ∧ Text.Numeral 10 ds port.toNat := by
  simp only [SocketAddress.port?, Option.bind_eq_bind, Option.bind_eq_some_iff, Prod.exists,
    number?_eq_some_iff, after?_eq_some_iff, Option.pure_def]
  constructor
  · rintro ⟨_, rfl, n, rest, ⟨ds, rfl, hds, -⟩, h⟩
    split at h
    · rename_i hrest
      obtain rfl := List.isEmpty_iff.1 hrest
      obtain rfl := Option.some.inj h
      refine ⟨ds, by simp, ?_⟩
      rw [UInt16.toNat_ofNat_of_lt' (Nat.lt_succ_of_le hds.bound)]
      exact hds.numeral
    · exact absurd h (by simp)
  · rintro ⟨ds, rfl, hds⟩
    have hform : portForm.Spells ds port.toNat :=
      .of_free rfl rfl hds (Nat.le_of_lt_succ port.toNat_lt)
    exact ⟨ds, rfl, port.toNat, [], ⟨ds, by simp, hform, by rintro c ⟨⟩⟩, by simp⟩

theorem zone?_eq_some {zone : UInt32} (h : SocketAddress.zone? cs = some (zone, rest)) :
    ∃ zs, cs = zs ++ rest ∧ SpellsZone zone zs := by
  unfold SocketAddress.zone? at h
  split at h
  · simp only [Option.map_eq_some_iff, Prod.exists, number?_eq_some_iff, Prod.mk.injEq] at h
    obtain ⟨n, _, ⟨ds, rfl, hds, -⟩, rfl, rfl⟩ := h
    refine ⟨'%' :: ds, rfl, .given ?_⟩
    rw [UInt32.toNat_ofNat_of_lt' (Nat.lt_succ_of_le hds.bound)]
    exact hds.numeral
  · obtain ⟨rfl, rfl⟩ := Prod.mk.inj (Option.some.inj h)
    exact ⟨[], rfl, .absent⟩

theorem SpellsZone.read {zone : UInt32} (h : SpellsZone zone cs) :
    SocketAddress.zone? (cs ++ ']' :: rest) = some (zone, ']' :: rest) := by
  cases h with
  | absent => rfl
  | @given _ ds h =>
    have hread : number? zoneForm (ds ++ ']' :: rest) = some (zone.toNat, ']' :: rest) :=
      number?_eq_some_iff.2 ⟨ds, rfl,
        .of_free rfl rfl h (Nat.le_of_lt_succ zone.toNat_lt), stops_cons.2 (by decide)⟩
    simp [SocketAddress.zone?, hread]

theorem SpellsZone.head? {zone : UInt32} (h : SpellsZone zone cs) :
    ∀ c ∈ (cs ++ ']' :: rest).head?, c = '%' ∨ c = ']' := by
  cases h <;> simp

/-- **The grammar of socket addresses.** -/
theorem ofChars?_eq_some_iff {a : SocketAddress} :
    SocketAddress.ofChars? cs = some a ↔ ∃ host ds, cs = host ++ ':' :: ds ∧
      SpellsEnclosed a.ip a.zone host ∧ Text.Numeral 10 ds a.port.toNat := by
  constructor
  · intro h
    unfold SocketAddress.ofChars? at h
    split at h
    · simp only [Option.bind_eq_bind, Option.bind_eq_some_iff, Prod.exists, after?_eq_some_iff,
        port?_eq_some_iff, Option.pure_def, Option.some.injEq] at h
      obtain ⟨ip, _, hip, zone, _, hzone, _, rfl, port, ⟨ds, rfl, hds⟩, rfl⟩ := h
      obtain ⟨cs, rfl, hcs⟩ := Ipv6.spells_of_read? hip
      obtain ⟨zs, rfl, hzs⟩ := zone?_eq_some hzone
      exact ⟨'[' :: (cs ++ zs) ++ [']'], ds, by simp, .v6 hcs hzs, hds⟩
    · simp only [Option.bind_eq_bind, Option.bind_eq_some_iff, Prod.exists,
        Ipv4.read?_eq_some_iff, port?_eq_some_iff, Option.pure_def, Option.some.injEq] at h
      obtain ⟨ip, _, ⟨rfl, -⟩, port, ⟨ds, rfl, hds⟩, rfl⟩ := h
      exact ⟨ip.text.toList, ds, rfl, .v4 ip, hds⟩
  · obtain ⟨ip, zone, port⟩ := a
    rintro ⟨host, ds, rfl, hhost, hds⟩
    have hport : SocketAddress.port? (':' :: ds) = some port := port?_eq_some_iff.2 ⟨ds, rfl, hds⟩
    cases hhost with
    | v4 ip =>
      have hread : Ipv4.read? (ip.text.toList ++ ':' :: ds) = some (ip, ':' :: ds) :=
        Ipv4.read?_eq_some_iff.2 ⟨rfl, stops_cons.2 (by decide)⟩
      unfold SocketAddress.ofChars?
      split
      · rename_i rest hbracket
        exact absurd hbracket (ip.text_ne_bracket (by decide))
      · simp [hread, hport]
    | @v6 ip _ cs zs h hz =>
      have hread : Ipv6.read? (cs ++ (zs ++ ']' :: ':' :: ds)) =
          some (ip, zs ++ ']' :: ':' :: ds) := by
        refine h.read (fun c hc => ?_) fun hc => ?_
        · rcases hz.head? c hc with rfl | rfl <;> decide
        · rcases hz.head? ':' hc with h | h <;> exact absurd h (by decide)
      have hzone : SocketAddress.zone? (zs ++ ']' :: ':' :: ds) = some (zone, ']' :: ':' :: ds) :=
        hz.read
      simp [SocketAddress.ofChars?, hread, hzone, after?, hport]

end CredentialBench.Net
