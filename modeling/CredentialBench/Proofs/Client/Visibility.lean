import CredentialBench.Proofs.Client.Refinement
import CredentialBench.Proofs.Simulator.Recovery

/-!
# Versions that the next read serves

A service reaches the simulator on two ways. A control call writes it as a JSON string, which the
simulator trims; a read puts it into its URL as it is, where it is divided, cut off, resolved and
percent-decoded. The two agree on a service exactly if it is `Carried` (`reads_iff_carried`): it
holds no slash of either kind, no question mark and no number sign, it is no dot segment, and what
it is decoded to is its trim. That nothing else is carried needs an account of what any other
service can arrive as: a part of its text (`exists_part_of_arrived`), in which decoding makes fewer
dividers than the service has (`undivided_of_spelled`).

Main statement: `read_after_setVersion`. A version that was set with success is what the next read
serves for the services that are carried; for all others the read does not see that it was set.
-/

namespace CredentialBench.Client

open Json Secret Simulator Net.Url

/-! ## What arrives of a call -/

/-- The segments before those of a secret. -/
def secretRoot : List (List Char) :=
  ["v1", "secret", "data", "bootroot", "services"].map String.toList

/-- The segments of the path that arrives when a call is made. -/
def Call.arrived (c : Call) : List (List Char) :=
  pathOf ('/' :: ((Text.join '/' (c.segments.map String.toList)).filter isKept).takeWhile isInPath)

theorem join_segments_read (service : String) (item : Item) :
    Text.join '/' ((Call.read service item).segments.map String.toList) =
      Text.join '/' secretRoot ++ '/' :: (service.toList ++ '/' :: item.name.toList) := by
  simp [Call.segments, secretRoot, Text.join]

theorem Call.not_edge_of_mem_getLast? (call : Call) :
    ∀ c ∈ (Text.join '/' (call.segments.map String.toList)).getLast?, isEdge c = false := by
  cases call with
  | read service item =>
    have hitem : item.name.toList.getLast?.all (fun c => !isEdge c) = true := by
      cases item <;> decide
    rw [join_segments_read, List.append_cons, ← List.append_assoc, List.append_cons,
      List.getLast?_append]
    cases hlast : item.name.toList.getLast? with
    | none => cases item <;> exact absurd hlast (by decide)
    | some d =>
      rintro _ ⟨⟩
      simpa [hlast] using hitem
  | setVersion | failNext | reset | login | health =>
    rw [Call.segments]
    rintro _ ⟨⟩
    decide

section Url

variable {site : Site} {c : Call} {slashes : Nat} {url : Net.Url}

/-- The URL of a call, if it is sent at all, leads to the site. -/
theorem Call.url?_eq_some (h : c.url? (site.base slashes) = some url) :
    url.secure = false ∧ url.host = site.host ∧ url.port = site.port ∧ url.path = c.arrived := by
  obtain ⟨query, fragment, hu⟩ : ∃ query fragment,
      Net.Url.ofText? (trimBase (site.base slashes) ++ c.path) =
        some ⟨false, site.host, site.port, c.arrived, query, fragment⟩ := by
    rw [site.base_append_path]
    exact ⟨_, _, ofText?_authority site.plain site.names c.not_edge_of_mem_getLast?⟩
  rw [Call.url?, hu, Option.bind_eq_bind, Option.bind_some] at h
  split at h
  · cases h
  · obtain rfl := Option.some.inj h
    exact ⟨rfl, rfl, rfl, rfl⟩

/-- A path that arrives is divided into its segments again. -/
theorem Call.split_received (h : c.url? (site.base slashes) = some url) :
    Text.split '/' (c.sent url).received.path = [] :: c.arrived := by
  obtain ⟨-, -, -, hpath⟩ := Call.url?_eq_some h
  have hne : c.arrived ≠ [] := pathOf_ne_nil _
  have hplain : ∀ s ∈ c.arrived, ∀ d ∈ s, PlainChar d := fun s hs => plainChar_of_mem_pathOf hs
  have hquery : ∀ d ∈ '/' :: Text.join '/' c.arrived, (d != '?' && d != '#') = true := by
    intro d hd
    rcases List.mem_cons.1 hd with rfl | hd
    · rfl
    rcases Text.mem_join hd with rfl | ⟨s, hs, hd⟩
    · rfl
    · have hd := ne_query_of_pathSet (hplain s hs d hd).not_encoded
      simp [hd.1, hd.2]
  have hreceived : (c.sent url).received.path = '/' :: Text.join '/' c.arrived := by
    rw [Http.Request.path, Call.sent, Sent.received, String.toList_ofList, Net.Url.target, hpath,
      Text.flatMap_cons_eq_join '/' hne]
    -- what follows the path, if anything does, begins with a question mark
    cases url.query with
    | none =>
      rw [List.append_nil]
      exact List.takeWhile_eq_self_iff.2 hquery
    | some q => exact (takeWhile_append_cons hquery rfl q).1
  rw [hreceived, Text.split, if_pos rfl, Text.split_join '/' hne]
  intro s hs hslash
  exact (hplain s hs _ hslash).ne_slash rfl

end Url

/-! ## The segments of a read -/

/-- The text with slashes for its backslashes. -/
def slashed (cs : List Char) : List Char := cs.map fun c => if c = '\\' then '/' else c

/-- The service of a read as far as it stands in the path. -/
def written (service : String) : List Char := (service.toList.filter isKept).takeWhile isInPath

theorem plain_secretRoot : ∀ s ∈ secretRoot, PlainSegment s := by
  intro s hs
  obtain ⟨name, hname, rfl⟩ := List.mem_map.1 hs
  have hplain : ∀ name ∈ ["v1", "secret", "data", "bootroot", "services"], PlainName name := by
    decide
  exact (hplain name hname).plainSegment

theorem slashed_eq_self {cs : List Char} (h : ∀ c ∈ cs, c ≠ '\\') : slashed cs = cs := by
  refine (List.map_congr_left fun c hc => ?_).trans (List.map_id cs)
  rw [if_neg (h c hc), id]

/-- A path that begins with the root of the secrets is resolved after it. -/
theorem pathOf_secretRoot (cs : List Char) :
    pathOf ('/' :: (Text.join '/' secretRoot ++ '/' :: cs)) =
      resolve secretRoot (Text.split '/' (slashed cs)) := by
  have hslashed : ('/' :: (Text.join '/' secretRoot ++ '/' :: cs)).map
      (fun c => if c = '\\' then '/' else c) =
      '/' :: (Text.join '/' secretRoot ++ '/' :: slashed cs) := by
    rw [List.map_cons, List.map_append, List.map_cons]
    rfl
  have hsplit := Text.split_join_append '/' (by decide : secretRoot ≠ [])
    (fun s hs hslash => ((plain_secretRoot s hs).chars _ hslash).ne_slash rfl) (slashed cs)
  rw [pathOf, hslashed]
  simp only [hsplit]
  exact resolve_plain_append plain_secretRoot (Text.split_ne_nil '/' _) []

theorem kept_item (item : Item) :
    ∀ c ∈ item.name.toList, isKept c = true ∧ isInPath c = true ∧ c ≠ '/' ∧ c ≠ '\\' := by
  cases item <;> simp [Item.name, isKept, isInPath]

/-- **The segments that arrive of a read.** The item is lost if the service cuts the path off. -/
theorem arrived_read (service : String) (item : Item) :
    (Call.read service item).arrived =
      resolve secretRoot (Text.split '/' (slashed (written service)) ++
        if (service.toList.filter isKept).all isInPath then [item.name.toList] else []) := by
  have hitem := kept_item item
  have hroot : ∀ c ∈ Text.join '/' secretRoot ++ ['/'], isKept c = true ∧ isInPath c = true := by
    have hall : (Text.join '/' secretRoot ++ ['/']).all (fun c => isKept c && isInPath c) := by
      decide
    simpa only [List.all_eq_true, Bool.and_eq_true] using hall
  have hfilter :
      (Text.join '/' secretRoot ++ '/' :: (service.toList ++ '/' :: item.name.toList)).filter
          isKept =
        (Text.join '/' secretRoot ++ ['/']) ++
          (service.toList.filter isKept ++ '/' :: item.name.toList) := by
    have hslash : isKept '/' = true := rfl
    rw [List.append_cons, List.filter_append (_ ++ ['/']),
      List.filter_eq_self.2 fun c hc => (hroot c hc).1, List.filter_append,
      List.filter_cons_of_pos hslash,
      List.filter_eq_self.2 fun c hc => (hitem c hc).1]
  have hslash : isInPath '/' = true := rfl
  rw [Call.arrived, join_segments_read, hfilter,
    List.takeWhile_append_of_pos fun c hc => (hroot c hc).2,
    List.append_assoc, List.singleton_append, pathOf_secretRoot, List.takeWhile_append, written]
  generalize service.toList.filter isKept = d
  by_cases hd : ∀ c ∈ d, isInPath c = true
  · have htail : slashed (d ++ '/' :: item.name.toList) =
        Text.join '/' (Text.split '/' (slashed d)) ++ '/' :: item.name.toList := by
      rw [Text.join_split, slashed, List.map_append, List.map_cons]
      exact congrArg (fun cs => slashed d ++ '/' :: cs)
        (slashed_eq_self fun c hc => (hitem c hc).2.2.2)
    rw [List.takeWhile_eq_self_iff.2 hd, if_pos rfl, if_pos (List.all_eq_true.2 hd),
      List.takeWhile_cons_of_pos hslash,
      List.takeWhile_eq_self_iff.2 fun c hc => (hitem c hc).2.1, htail,
      Text.split_join_append '/' (Text.split_ne_nil '/' _)
        (fun s hs => Text.notMem_of_mem_split hs),
      Text.split_of_notMem '/' fun h => (hitem _ h).2.2.1 rfl]
  · have hshort : ¬(d.takeWhile isInPath).length = d.length := by
      intro h
      exact hd (List.takeWhile_eq_self_iff.1 ((List.takeWhile_prefix isInPath).eq_of_length h))
    rw [if_neg hshort, if_neg (mt List.all_eq_true.1 hd), List.append_nil]

/-! ## Services that arrive -/

/-- A character at which a path is divided or ends. -/
def isDivider (c : Char) : Bool := c == '/' || c == '\\' || c == '?' || c == '#'

/-- A service that a read asks for under the name that a control call gives it: nothing in it
divides a path or ends one, it is no dot segment, and without its tabs and line ends it is percent-
decoded to the service without blank characters at its ends. -/
structure Carried (service : String) : Prop where
  undivided : ∀ c ∈ service.toList, isDivider c = false
  not_dots : isSingleDot (service.toList.filter isKept) = false ∧
    isDoubleDot (service.toList.filter isKept) = false
  spelled : decodeSegment? (service.toList.filter isKept) = some (Text.trim service)

instance (service : String) : Decidable (Carried service) :=
  have := List.decidableBAll (fun c => isDivider c = false) service.toList
  decidable_of_iff ((∀ c ∈ service.toList, isDivider c = false) ∧
      (isSingleDot (service.toList.filter isKept) = false ∧
        isDoubleDot (service.toList.filter isKept) = false) ∧
      decodeSegment? (service.toList.filter isKept) = some (Text.trim service))
    ⟨fun h => ⟨h.1, h.2.1, h.2.2⟩, fun h => ⟨h.1, h.2, h.3⟩⟩

theorem decodeSegment?_encodeSet (cs : List Char) :
    decodeSegment? (encodeSet pathSet cs) = decodeSegment? cs := by
  rw [decodeSegment?, decodeSegment?, Percent.decode_encodeSet Percent.harmless_pathSet]

/-- A service without dividers stands in the path as one segment. -/
theorem arrived_of_undivided {service : String} (h : ∀ c ∈ service.toList, isDivider c = false)
    (item : Item) :
    (Call.read service item).arrived =
      resolve secretRoot [service.toList.filter isKept, item.name.toList] := by
  have hkept : ∀ c ∈ service.toList.filter isKept,
      isInPath c = true ∧ c ≠ '/' ∧ c ≠ '\\' := by
    intro c hc
    have hc := h c (List.mem_filter.1 hc).1
    simp only [isDivider, Bool.or_eq_false_iff, beq_eq_false_iff_ne] at hc
    exact ⟨by simp [isInPath, hc], hc.1.1.1, hc.1.1.2⟩
  rw [arrived_read, if_pos (List.all_eq_true.2 fun c hc => (hkept c hc).1), written,
    List.takeWhile_eq_self_iff.2 fun c hc => (hkept c hc).1,
    slashed_eq_self fun c hc => (hkept c hc).2.2,
    Text.split_of_notMem '/' fun hslash => (hkept _ hslash).2.1 rfl]
  rfl

/-- What arrives of a read as the service comes from the service, up to the first divider. -/
theorem exists_part_of_arrived {service : String} {item : Item} {a b : List Char}
    (h : (Call.read service item).arrived = secretRoot ++ [a, b]) :
    ∃ part ∈ Text.split '/' (slashed (written service)), a = encodeSet pathSet part := by
  rw [arrived_read] at h
  generalize hparts : Text.split '/' (slashed (written service)) = parts at h ⊢
  have hne : parts ≠ [] := hparts ▸ Text.split_ne_nil '/' _
  obtain ⟨front, last, he, hfront, -⟩ := resolve_eq_append 5
    (List.append_ne_nil_of_left_ne_nil hne _) secretRoot
  rw [h, List.append_cons] at he
  obtain ⟨rfl, -⟩ := List.append_inj' he rfl
  rcases hfront a List.mem_cons_self with ha | ⟨part, hpart, ha⟩
  · cases ha
  refine ⟨part, ?_, ha⟩
  split at hpart
  · rwa [List.dropLast_concat] at hpart
  · rw [List.append_nil] at hpart
    exact (List.dropLast_sublist parts).mem hpart

/-- **A service that divides its path arrives under another name.** Decoding makes a divider of a
percent sign at best, and none of those that the service has is left in a part of it. -/
theorem undivided_of_spelled {service : String} {part : List Char}
    (hpart : part ∈ Text.split '/' (slashed (written service)))
    (h : decodeSegment? part = some (Text.trim service)) :
    ∀ c ∈ service.toList, isDivider c = false := by
  have hmark : ∀ c, (c == '%' || isDivider c) = true → c.toNat < 0x80 := by
    intro c hc
    simp only [isDivider, Bool.or_eq_true, beq_iff_eq] at hc
    rcases hc with rfl | ((rfl | rfl) | rfl) | rfl <;> decide
  have hblank : ∀ c, Text.isBlank c = true → (c == '%' || isDivider c) = false := by
    intro c hc
    by_contra hne
    simp only [isDivider, Bool.not_eq_false, Bool.or_eq_true, beq_iff_eq] at hne
    rcases hne with rfl | ((rfl | rfl) | rfl) | rfl <;> exact absurd hc (by decide)
  have hor (cs : List Char) : cs.countP (fun c => c == '%' || isDivider c) =
      cs.countP (· == '%') + cs.countP isDivider := by
    induction cs with
    | nil => rfl
    | cons c cs ih =>
      simp only [List.countP_cons, ih]
      by_cases hc : c = '%'
      · subst hc
        simp [isDivider]
        omega
      · simp [hc]
        omega
  -- the part has no dividers, and as many percent signs as the service at most
  have hsub := Text.sublist_of_mem_split hpart
  have hdividers : part.countP isDivider = 0 := by
    refine List.countP_eq_zero.2 fun c hc => ?_
    obtain ⟨d, hd, rfl⟩ := List.mem_map.1 (hsub.mem hc)
    have hslash : (if d = '\\' then '/' else d) ≠ '/' := fun he =>
      Text.notMem_of_mem_split hpart (he ▸ hc)
    have hpath : isInPath d = true := List.mem_takeWhile_imp hd
    simp only [isInPath, Bool.and_eq_true, bne_iff_ne] at hpath
    split at hslash
    · exact absurd rfl hslash
    · rename_i hback
      rw [if_neg hback]
      simp [isDivider, hslash, hback, hpath]
  have hpercent : part.countP (· == '%') ≤ service.toList.countP (· == '%') := by
    have hmap : (slashed (written service)).countP (· == '%') =
        (written service).countP (· == '%') := by
      rw [slashed, List.countP_map]
      refine List.countP_congr fun c _ => ?_
      by_cases hc : c = '\\' <;> simp [hc]
    calc part.countP (· == '%')
        ≤ (slashed (written service)).countP (· == '%') := hsub.countP_le
      _ = (written service).countP (· == '%') := hmap
      _ ≤ service.toList.countP (· == '%') :=
        ((List.takeWhile_sublist _).trans List.filter_sublist).countP_le
  have hbytes := Text.Utf8.text?_eq_some_iff.1 h
  have hdecode := Percent.countP_decode_le
    (p := fun b => Char.ofNat b.toNat == '%' || isDivider (Char.ofNat b.toNat)) (by decide)
    (Text.Utf8.encode part)
  rw [hbytes, Text.Utf8.bytes, Text.Utf8.countP_encode hmark, Text.Utf8.countP_encode hmark,
    Text.countP_trim hblank, hor, hor, hdividers] at hdecode
  have hnone : service.toList.countP isDivider = 0 := by omega
  exact fun c hc => by simpa using List.countP_eq_zero.1 hnone c hc

/-- The route of a read that arrives. -/
theorem ofPath?_received {site : Site} {slashes : Nat} {c : Call} {url : Net.Url}
    (hurl : c.url? (site.base slashes) = some url) :
    Route.ofPath? (c.sent url).received.path =
      Route.ofSegments? ("" :: c.arrived.map String.ofList) := by
  rw [Route.ofPath?, Call.split_received hurl]
  rfl

/-- What arrives names a secret exactly if it has the seven segments of one. -/
theorem ofSegments?_arrived {segments : List (List Char)} {service item : List Char} :
    Route.ofSegments? ("" :: segments.map String.ofList) = some (.secret service item) ↔
      segments = secretRoot ++ [service, item] := by
  constructor
  · intro h
    have h := congrArg (List.map String.toList) (Route.ofSegments?_eq_some_iff.1 h)
    simpa [Route.segments, secretRoot] using h
  · rintro rfl
    simp [Route.ofSegments?, secretRoot]

theorem dots_item (item : Item) :
    isSingleDot item.name.toList = false ∧ isDoubleDot item.name.toList = false := by
  cases item <;> decide

/-- A part that is a dot segment leaves fewer segments than a secret has. -/
theorem not_dots_of_arrived {part : List Char} {item : Item} {a b : List Char}
    (h : resolve secretRoot [part, item.name.toList] = secretRoot ++ [a, b]) :
    isSingleDot part = false ∧ isDoubleDot part = false := by
  have hlast (done : List (List Char)) : (resolve done [item.name.toList]).length =
      done.length + 1 := by
    rw [resolve_of_not_dots fun s hs => List.mem_singleton.1 hs ▸ dots_item item]
    simp
  have hlength := congrArg List.length h
  rw [List.length_append, List.length_cons, List.length_singleton] at hlength
  cases hdouble : isDoubleDot part with
  | true =>
    rw [resolve, if_pos hdouble, hlast, List.length_dropLast] at hlength
    · omega
    · exact List.cons_ne_nil _ _
  | false =>
    cases hsingle : isSingleDot part with
    | true =>
      rw [resolve, hdouble, if_neg Bool.false_ne_true, if_pos hsingle, hlast] at hlength
      · omega
      · exact List.cons_ne_nil _ _
    | false => exact ⟨rfl, rfl⟩

/-- **Which reads ask for the key that a control call names.** -/
theorem reads_iff_carried {site : Site} {slashes : Nat} {service : String} {item : Item}
    {url : Net.Url} (hurl : (Call.read service item).url? (site.base slashes) = some url) :
    Reads ((Call.read service item).sent url).received ⟨Text.trim service, item⟩ ↔
      Carried service := by
  have hroute := ofPath?_received hurl
  have hdots {part : List Char} (h : isSingleDot part = false ∧ isDoubleDot part = false) :
      resolve secretRoot [part, item.name.toList] =
        secretRoot ++ [encodeSet pathSet part, item.name.toList] := by
    have hitem : encodeSet pathSet item.name.toList = item.name.toList :=
      encodeSet_eq_self fun c hc => ((PlainName.of_item item).plainSegment.chars c hc).not_encoded
    rw [resolve_of_not_dots, List.map_cons, List.map_singleton, hitem]
    intro s hs
    simp only [List.mem_cons, List.not_mem_nil, or_false] at hs
    rcases hs with rfl | rfl
    · exact h
    · exact dots_item item
  constructor
  · rintro ⟨-, a, b, hr, hk⟩
    rw [hroute, ofSegments?_arrived] at hr
    have hspelled := (key?_eq_some_iff.1 hk).1
    obtain ⟨part, hpart, rfl⟩ := exists_part_of_arrived hr
    rw [decodeSegment?_encodeSet] at hspelled
    have hundivided := undivided_of_spelled hpart hspelled
    rw [arrived_of_undivided hundivided] at hr
    have hnot := not_dots_of_arrived hr
    rw [hdots hnot] at hr
    have hsame := (List.cons.inj (List.append_cancel_left hr)).1
    refine ⟨hundivided, hnot, ?_⟩
    rw [← decodeSegment?_encodeSet, hsame, decodeSegment?_encodeSet, hspelled]
  · rintro ⟨hundivided, hnot, hspelled⟩
    refine ⟨.inl rfl, encodeSet pathSet (service.toList.filter isKept), item.name.toList, ?_, ?_⟩
    · rw [hroute, ofSegments?_arrived, arrived_of_undivided hundivided, hdots hnot]
    · rw [key?_eq_some_iff, decodeSegment?_encodeSet]
      exact ⟨hspelled, (PlainName.of_item item).decodeSegment?_eq⟩

/-! ## Acknowledged calls -/

/-- The command of a body that a client writes is for the service without the blank characters at
its ends. -/
theorem command_readBody_eq_ok {kind : Control.Kind} {service : String} {item : Item} {n : Int}
    {c : Control.Command} (h : (readBody kind service item.name n).command kind = .ok c) :
    ∃ v : Positive, n = v.val ∧ c = kind.command ⟨Text.trim service, item⟩ v := by
  obtain ⟨k, v, hk, hv, rfl, -⟩ := Control.Body.command_eq_ok h
  have hname : Item.ofName? item.name = some item := Item.ofName?_eq_some_iff.2 rfl
  have hkey : (readBody kind service item.name n).key =
      if Text.trim service = "" then .error .missingService
      else .ok ⟨Text.trim service, item⟩ := by
    cases kind <;>
      simp only [readBody, Control.Body.key, Option.getD_some, (PlainName.of_item item).trim_eq,
        hname]
  rw [hkey] at hk
  split at hk
  · cases hk
  · cases hk
    refine ⟨v, ?_, rfl⟩
    cases kind <;> exact hv

/-- A control call is told of success by an answer only. -/
theorem exists_answer_of_done {service : String} {item : Item} {version : UInt64}
    {answer : Except Refusal Value}
    (h : (Call.setVersion service item version).answer (.ofResponse (deliver .post answer)) =
      .ok .done) : ∃ v, answer = .ok v := by
  cases answer with
  | ok v => exact ⟨v, rfl⟩
  | error refusal =>
    have hstatus : (Reply.ofResponse (deliver .post (.error refusal))).status = refusal.status :=
      status_deliver .post (.error refusal)
    have hfailure : Http.isSuccess refusal.status = false := by cases refusal <;> rfl
    rw [Call.answer, hstatus, hfailure] at h
    cases h

/-- The body of a call that sets a version. -/
def versionBody (service : String) (item : Item) (version : UInt64) : List UInt8 :=
  Text.Utf8.encode ((controlBody .setVersion service item.name version.toNat).write .compact 0)

section SetVersion

variable {site : Site} {slashes : Nat} {service : String} {item : Item} {version : UInt64}
  {url : Net.Url}
  (hurl : (Call.setVersion service item version).url? (site.base slashes) = some url)

include hurl

/-- A call that sets a version is told what its body comes to, whatever the service is called. -/
theorem call_setVersion (s : Store) :
    site.link.call (site.base slashes) (.setVersion service item version) s =
      ((Call.setVersion service item version).answer (.ofResponse (deliver .post
          ((controlDemand .setVersion (versionBody service item version)).answer s))),
        (controlDemand .setVersion (versionBody service item version)).after s) := by
  obtain ⟨hsecure, hhost, hport, -⟩ := Call.url?_eq_some hurl
  have hroute : Route.ofPath? ((Call.setVersion service item version).sent url).received.path =
      some (.control .setVersion) := by
    rw [ofPath?_received hurl, Call.arrived, Call.segments]
    decide
  rw [Call.call_of_url? hurl hsecure hhost hport, Simulator.demand, hroute]
  rfl

/-- A version of 63 bits other than zero is set with success for every service that is not blank, if
the body is within the limit. -/
theorem setVersion_done (hs : Text.blank service = false) {v : Positive}
    (hv : v.val = version.toNat) (hmax : v.val ≤ 0x7FFFFFFFFFFFFFFF)
    (hlength : (versionBody service item version).length ≤ maxBody) (s : Store) :
    site.link.call (site.base slashes) (.setVersion service item version) s =
      (.ok .done, s.setVersion ⟨Text.trim service, item⟩ v) := by
  have hbody : Control.Command.ofBytes .setVersion (versionBody service item version) =
      .ok (.setVersion ⟨Text.trim service, item⟩ v) := by
    rw [versionBody, ← hv]
    exact Control.ofBytes_of_gives hs hmax
      (Control.Body.gives_write .setVersion service item.name hmax)
  rw [call_setVersion hurl, controlDemand, if_neg (Nat.not_lt.2 hlength), hbody]
  rfl

/-- A version that is set with success is positive, and is set for the service without the blank
characters at its ends. -/
theorem setVersion_eq_done {s s' : Store}
    (h : site.link.call (site.base slashes) (.setVersion service item version) s =
      (.ok .done, s')) :
    ∃ v : Positive, v.val = version.toNat ∧ s' = s.setVersion ⟨Text.trim service, item⟩ v := by
  rw [call_setVersion hurl, Prod.mk.injEq] at h
  obtain ⟨hdone, rfl⟩ := h
  obtain ⟨answer, hanswer⟩ := exists_answer_of_done hdone
  rw [controlDemand] at hanswer ⊢
  split at hanswer
  · cases hanswer
  rename_i hlength
  rw [if_neg hlength]
  rw [versionBody, ofBytes_controlBody _ _ _ (Nat.le_of_lt_succ version.toNat_lt)] at hanswer ⊢
  split at hanswer
  · rename_i c hc
    split at hc
    · obtain ⟨v, hv, rfl⟩ := command_readBody_eq_ok hc
      exact ⟨v, by omega, rfl⟩
    · cases hc
  · cases hanswer

end SetVersion

/-- Setting a version changes the answer to a read of its key only. -/
theorem answer_setVersion {d : Demand} {k : Key} (h : d ≠ .read k) (s : Store) (v : Positive) :
    d.answer (s.setVersion k v) = d.answer s := by
  cases d with
  | read k' =>
    have hk : k' ≠ k := fun e => h (congrArg _ e)
    simp only [Demand.answer, Store.fst_read, Store.state_setVersion, if_neg hk]
  | login | health | command | reset | refuse => rfl

/-- **Which versions the next read serves.** In a state without pending failures, a version is set
through the client with success. If the service is one that arrives as it was set and the URL of the
read can be sent, the next read of the service is answered with 200 and the payload of that version.
For every other service it is answered as if the version had not been set. -/
theorem read_after_setVersion {site : Site} {slashes : Nat} {service : String} {item : Item}
    {version : UInt64} {s s' : Store} (hpending : ∀ k, (s.state k).pending = 0)
    (h : site.link.call (site.base slashes) (.setVersion service item version) s =
      (.ok .done, s')) :
    ∃ v : Positive, v.val = version.toNat ∧
      if Carried service ∧ ((Call.read service item).url? (site.base slashes)).isSome then
        (site.link.call (site.base slashes) (.read service item) s').1 =
          .ok (.secret ⟨200, payload ⟨Text.trim service, item⟩ v⟩)
      else
        (site.link.call (site.base slashes) (.read service item) s').1 =
          (site.link.call (site.base slashes) (.read service item) s).1 := by
  obtain ⟨set, hset⟩ : ∃ url, (Call.setVersion service item version).url? (site.base slashes) =
      some url := by
    cases hset : (Call.setVersion service item version).url? (site.base slashes) with
    | none =>
      rw [Link.call, hset] at h
      cases h
    | some url => exact ⟨url, rfl⟩
  obtain ⟨v, hv, rfl⟩ := setVersion_eq_done hset h
  refine ⟨v, hv, ?_⟩
  cases hurl : (Call.read service item).url? (site.base slashes) with
  | none =>
    rw [if_neg (by simp), Link.call, hurl, Link.call, hurl]
  | some url =>
    obtain ⟨hsecure, hhost, hport, -⟩ := Call.url?_eq_some hurl
    rw [Call.call_of_url? hurl hsecure hhost hport, Call.call_of_url? hurl hsecure hhost hport]
    have hreads := reads_iff_carried hurl
    rw [reads_iff] at hreads
    simp only [Option.isSome_some, and_true]
    split
    · rename_i hcarried
      have hserve : ((s.setVersion ⟨Text.trim service, item⟩ v).read
          ⟨Text.trim service, item⟩).1 = .serve v := by
        simp [Store.fst_read, hpending]
      have hanswer := Call.answer_demand (.read (Text.trim service) item)
        (s.setVersion ⟨Text.trim service, item⟩ v)
      simp only [Call.onStore, hserve] at hanswer
      rw [hreads.2 hcarried]
      exact hanswer
    · rename_i hcarried
      rw [← hreads] at hcarried
      rw [answer_setVersion hcarried]

/-- A service with a tab before it, a space in it and a letter that a URL encodes. -/
theorem read_after_setVersion_encoded :
    (Site.loopback.link.call (Site.loopback.base 0) (.read "\tcafé 1" .eab)
      (Site.loopback.link.call (Site.loopback.base 0) (.setVersion "\tcafé 1" .eab 3) .empty).2).1 =
      .ok (.secret ⟨200, payload ⟨"café 1", .eab⟩ ⟨3, by decide⟩⟩) := by
  have hurl : (Call.setVersion "\tcafé 1" .eab 3).url? (Site.loopback.base 0) =
      some (Site.loopback.url (.setVersion "\tcafé 1" .eab 3)) := by decide
  have htrim : Text.trim "\tcafé 1" = "café 1" := by decide
  have hset := setVersion_done hurl (by decide) (v := ⟨3, by decide⟩) (by decide) (by decide)
    (by decide) .empty
  obtain ⟨v, hv, h⟩ := read_after_setVersion (fun _ => rfl) hset
  rw [if_pos (by decide)] at h
  have hv : v = ⟨3, by decide⟩ := Subtype.ext hv
  rw [hset, h, hv, htrim]

/-- A read whose path names nothing is told so, whatever the state. -/
theorem read_not_found {site : Site} {slashes : Nat} {service : String} {item : Item}
    (hurl : ((Call.read service item).url? (site.base slashes)).isSome = true)
    (hroute : Route.ofSegments? ("" :: (Call.read service item).arrived.map String.ofList) = none)
    (s : Store) :
    (site.link.call (site.base slashes) (.read service item) s).1 =
      .ok (.secret ⟨404, errorBody "not found"⟩) := by
  obtain ⟨url, hurl⟩ := Option.isSome_iff_exists.1 hurl
  obtain ⟨hsecure, hhost, hport, -⟩ := Call.url?_eq_some hurl
  have hdemand : Simulator.demand ((Call.read service item).sent url).received =
      .refuse .notFound := by
    rw [Simulator.demand, ofPath?_received hurl, hroute]
    rfl
  have hresponse : deliver (Call.read service item).method
      ((Demand.refuse .notFound).answer s) = .json 404 (errorBody "not found") := rfl
  have hjson := json?_errorBody (by decide : 404 ≠ 204 ∧ 404 ≠ 304) "not found"
  rw [Call.call_of_url? hurl hsecure hhost hport, hdemand, hresponse,
    Call.answer_read service item hjson]

/-- A service with a slash: its version is set, and the read that follows finds nothing. -/
theorem read_divided_not_found :
    let set := Site.loopback.link.call (Site.loopback.base 0) (.setVersion "a/b" .eab 2) .empty
    set.1 = .ok .done ∧
      (Site.loopback.link.call (Site.loopback.base 0) (.read "a/b" .eab) set.2).1 =
        .ok (.secret ⟨404, errorBody "not found"⟩) := by
  intro set
  have hurl : (Call.setVersion "a/b" .eab 2).url? (Site.loopback.base 0) =
      some (Site.loopback.url (.setVersion "a/b" .eab 2)) := by decide
  have hset := setVersion_done hurl (by decide) (v := ⟨2, by decide⟩) (by decide) (by decide)
    (by decide) .empty
  exact ⟨congrArg Prod.fst hset, read_not_found (by decide) (by decide) set.2⟩

end CredentialBench.Client
