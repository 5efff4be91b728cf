import CredentialBench.Client.Link
import CredentialBench.Proofs.Json.Writing
import CredentialBench.Proofs.Net.Url

/-!
# How a call arrives at the simulator

A call travels as a URL and a body. For a service whose name every layer carries as it is
(`PlainName`), both arrive as they were meant: the URL is the one that was put together
(`url?_eq`), the path is the one that was asked for (`path_received`) and is routed to the call's
endpoint (`ofPath?_path`), and the body is read as the control call that was made
(`ofBytes_setVersion`, `ofBytes_failNext`), where a version beyond 63 bits and a number of zero are
turned down.
-/

namespace CredentialBench.Client

open Json Secret Simulator Net.Url

/-! ## Names -/

/-- A name that every layer carries as it is: it needs no encoding and is no dot segment. -/
structure PlainName (s : String) : Prop where
  ne_empty : s ≠ ""
  ne_dot : s ≠ "."
  ne_dots : s ≠ ".."
  unreserved : ∀ c ∈ s.toList, isUnreserved c = true

namespace PlainName

variable {s : String}

instance (s : String) : Decidable (PlainName s) :=
  decidable_of_iff (s ≠ "" ∧ s ≠ "." ∧ s ≠ ".." ∧ s.toList.all isUnreserved = true)
    ⟨fun h => ⟨h.1, h.2.1, h.2.2.1, List.all_eq_true.1 h.2.2.2⟩,
      fun h => ⟨h.1, h.2, h.3, List.all_eq_true.2 h.4⟩⟩

theorem of_item (item : Item) : PlainName item.name := by
  cases item <;> decide

theorem plainSegment (h : PlainName s) : PlainSegment s.toList := by
  refine .of_isUnreserved h.unreserved ?_ ?_ <;> intro he
  · exact h.ne_dot (String.toList_injective he)
  · exact h.ne_dots (String.toList_injective he)

theorem trim_eq (h : PlainName s) : Text.trim s = s :=
  Text.trim_eq_self fun c hc =>
    forall_unreserved (p := fun c => Text.isBlank c = false) (by decide) (h.unreserved c hc)

/-- A plain name is percent-decoded to itself. -/
theorem decodeSegment?_eq (h : PlainName s) : decodeSegment? s.toList = some s := by
  have hbytes : 0x25 ∉ Text.Utf8.encode s.toList := by
    intro hm
    obtain ⟨c, hc, hb⟩ := List.mem_flatMap.1 hm
    have hc := h.unreserved c hc
    have hne : (0x25 : UInt8) ∉ String.utf8EncodeChar c :=
      forall_unreserved (p := fun c => 0x25 ∉ String.utf8EncodeChar c) (by decide) hc
    exact hne hb
  rw [decodeSegment?, Percent.decode_eq_self hbytes, Text.Utf8.text?, Text.Utf8.decode?_encode,
    Option.map_some, String.ofList_toList]

theorem key?_eq (h : PlainName s) (item : Item) :
    key? s.toList item.name.toList = some ⟨s, item⟩ := by
  have hitem : Item.ofName? item.name = some item := Item.ofName?_eq_some_iff.2 rfl
  rw [key?, h.decodeSegment?_eq, (of_item item).decodeSegment?_eq]
  simp only [Option.bind_eq_bind, Option.bind_some, hitem, Option.pure_def]

end PlainName

/-! ## Paths -/

namespace Call

/-- The service that a call names. -/
def service? : Call → Option String
  | setVersion service .. | failNext service .. | read service _ => some service
  | reset | login | health => none

/-- The segments of a call's path. -/
def segments : Call → List String
  | setVersion .. => ["control", "set-version"]
  | failNext .. => ["control", "fail-next"]
  | reset => ["control", "reset"]
  | read service item => ["v1", "secret", "data", "bootroot", "services", service, item.name]
  | login => ["v1", "auth", "approle", "login"]
  | health => ["v1", "sys", "health"]

/-- The route of a call. -/
def route : Call → Route
  | setVersion .. => .control .setVersion
  | failNext .. => .control .failNext
  | reset => .reset
  | read service item => .secret service.toList item.name.toList
  | login => .login
  | health => .health

theorem toList_path (c : Call) :
    c.path.toList = '/' :: Text.join '/' (c.segments.map String.toList) := by
  cases c with
  | read service item =>
    change ("/v1/secret/data/bootroot/services/" ++ service ++ "/" ++ item.name).toList = _
    simp [segments, Text.join]
  | setVersion =>
    have hpath : "/control/set-version".toList =
      '/' :: Text.join '/' (["control", "set-version"].map String.toList) := by decide
    exact hpath
  | failNext =>
    have hpath : "/control/fail-next".toList =
      '/' :: Text.join '/' (["control", "fail-next"].map String.toList) := by decide
    exact hpath
  | reset | login | health => decide

theorem segments_ne_nil (c : Call) : c.segments.map String.toList ≠ [] := by
  cases c <;> exact List.cons_ne_nil _ _

theorem ofSegments?_segments (c : Call) : Route.ofSegments? ("" :: c.segments) = some c.route := by
  cases c with
  | read service item =>
    rw [segments, route]
    generalize item.name = i
    rfl
  | setVersion | failNext | reset | login | health => rfl

variable {c : Call} (h : ∀ s ∈ c.service?, PlainName s)

include h

theorem plainName_of_mem_segments : ∀ s ∈ c.segments, PlainName s := by
  cases c with
  | read service item =>
    have hservice : PlainName service := h service rfl
    have hfixed : ∀ s ∈ ["v1", "secret", "data", "bootroot", "services"], PlainName s := by decide
    intro s hs
    rcases List.mem_append.1 (show s ∈ ["v1", "secret", "data", "bootroot", "services"] ++
      [service, item.name] from hs) with hs | hs
    · exact hfixed s hs
    · simp only [List.mem_cons, List.not_mem_nil, or_false] at hs
      rcases hs with rfl | rfl
      · exact hservice
      · exact .of_item item
  | setVersion | failNext | reset | login | health =>
    rw [segments]
    decide

theorem plainSegment_of_mem : ∀ s ∈ c.segments.map String.toList, PlainSegment s := by
  intro cs hcs
  obtain ⟨s, hs, rfl⟩ := List.mem_map.1 hcs
  exact (plainName_of_mem_segments h s hs).plainSegment

/-- **A call's path is routed to its endpoint.** -/
theorem ofPath?_path : Route.ofPath? c.path.toList = some c.route := by
  have hsplit : Text.split '/' (Text.join '/' (c.segments.map String.toList)) =
      c.segments.map String.toList :=
    Text.split_join '/' c.segments_ne_nil fun s hs hslash =>
      ((plainSegment_of_mem h s hs).chars _ hslash).ne_slash rfl
  have hmap : (c.segments.map String.toList).map String.ofList = c.segments := by
    simp
  rw [Route.ofPath?, toList_path, Text.split, if_pos rfl, hsplit, List.map_cons, hmap]
  exact c.ofSegments?_segments

end Call

/-! ## Bodies -/

/-- The body of a control call that names a key and carries a number. -/
def controlBody (kind : Control.Kind) (service item : String) (n : Int) : Value :=
  match kind with
  | .setVersion =>
    .object [("item", .string item), ("service", .string service), ("version", .integer n)]
  | .failNext =>
    .object [("count", .integer n), ("item", .string item), ("service", .string service)]

/-- The body of a control call as it is read. -/
def readBody (kind : Control.Kind) (service item : String) (n : Int) : Control.Body :=
  match kind with
  | .setVersion => ⟨some service, some item, some n, none⟩
  | .failNext => ⟨some service, some item, none, some n⟩

section Bodies

variable (kind : Control.Kind) (service item : String)

/-- A number beyond 63 bits is no number of the right form; every other one is read as it is. -/
theorem decoder_controlBody (n : Int) :
    Control.Body.decoder .json (controlBody kind service item n).toDocument =
      if -0x8000000000000000 ≤ n ∧ n ≤ 0x7FFFFFFFFFFFFFFF then .ok (readBody kind service item n)
      else .error .invalidValue := by
  cases kind <;> by_cases h : -0x8000000000000000 ≤ n ∧ n ≤ 0x7FFFFFFFFFFFFFFF <;>
    simp [controlBody, readBody, Value.toDocument, Value.toMembers, Control.Body.decoder,
      Document.Record.decoder, Document.Record.decodeMembers, Document.Record.audit,
      Document.Record.defaulted, Document.Record.field, Functor.map, Seq.seq, Document.Record.seq,
      Document.Record.pure, Pure.pure, Document.Members.find?, Document.Decoder.nullable,
      Document.Decoder.string, Document.Decoder.int64, Document.Decoder.integer, h, Except.map,
      Document.Located.seq, Document.Located.map, Document.Located.toExcept]

/-- **A body is read as it was meant**, whatever the service is called, if 63 bits hold the
number. -/
theorem ofBytes_controlBody {n : Nat} (hn : n ≤ 0xFFFFFFFFFFFFFFFF) :
    Control.Command.ofBytes kind
        (Text.Utf8.encode ((controlBody kind service item n).write .compact 0)) =
      if n ≤ 0x7FFFFFFFFFFFFFFF then (readBody kind service item n).command kind
      else .error (.malformed .invalidValue) := by
  have hinteger : Numeral.isInteger64 n = true := by
    simp only [Numeral.isInteger64, Bool.and_eq_true, decide_eq_true_eq]
    omega
  have hexact : (controlBody kind service item n).isExact = true := by
    cases kind <;> simp [controlBody, Value.isExact, Value.areExactMembers, hinteger]
  rw [Control.Command.ofBytes, decode_write Style.spaced_compact _ hexact, decoder_controlBody]
  by_cases hmax : n ≤ 0x7FFFFFFFFFFFFFFF
  · rw [if_pos (by omega), if_pos hmax]
  · rw [if_neg (by omega), if_neg hmax]

/-- **A body fits**, since a string takes at most six bytes for each of its characters. -/
theorem length_controlBody_le {service : String} (hs : service.length ≤ maxLength) (item : Item)
    {n : Nat} (hn : n ≤ 0xFFFFFFFFFFFFFFFF) :
    (Text.Utf8.encode ((controlBody kind service item.name n).write .compact 0)).length ≤
      maxBody := by
  have hnumber : (Text.Utf8.encode (n : Int).repr.toList).length ≤ 20 := by
    rw [Int.repr_eq_if, if_pos (by omega), Nat.toList_repr, Int.toNat_natCast]
    exact Numeral.length_encode_toDigits_le (by omega) (Nat.lt_of_le_of_lt hn (by decide))
  have hservice := length_encode_quotedString_le service
  have hitem : (Text.Utf8.encode (quotedString item.name)).length ≤ 32 := by
    cases item <;> decide
  have hfields : ∀ name ∈ ["item", "service", "version", "count"],
      (Text.Utf8.encode (quotedString name)).length ≤ 9 := by decide
  have h₁ := hfields "item" (by simp)
  have h₂ := hfields "service" (by simp)
  have h₃ := hfields "version" (by simp)
  have h₄ := hfields "count" (by simp)
  have hcolon : ':'.utf8Size = 1 := rfl
  simp only [maxLength] at hs
  cases kind <;> simp [controlBody, Value.write, Value.writeMembers, Style.compact, maxBody,
    encodeChar_punctuation] <;> omega

end Bodies

section Commands

variable {service : String} (h : PlainName service) (item : Item)

include h

theorem key_readBody (kind : Control.Kind) (n : Int) :
    (readBody kind service item.name n).key = .ok ⟨service, item⟩ := by
  have hitem : Item.ofName? item.name = some item := Item.ofName?_eq_some_iff.2 rfl
  cases kind <;>
    simp only [readBody, Control.Body.key, Option.getD_some, h.trim_eq, if_neg h.ne_empty,
      (PlainName.of_item item).trim_eq, hitem]

theorem command_readBody_zero (kind : Control.Kind) :
    (readBody kind service item.name 0).command kind = .error (.nonPositive kind 0) := by
  rw [Control.Body.command, key_readBody h]
  cases kind <;> rfl

theorem command_readBody_pos (kind : Control.Kind) {n : Nat} (hn : 1 ≤ n) :
    (readBody kind service item.name n).command kind =
      match kind with
      | .setVersion => .ok (.setVersion ⟨service, item⟩ ⟨n, hn⟩)
      | .failNext =>
        if n ≤ Control.maxCount then .ok (.failNext ⟨service, item⟩ ⟨n, hn⟩)
        else .error (.outOfRange .failNext n) := by
  have hpos : Positive.ofInt? n = some ⟨n, hn⟩ := Positive.ofInt?_eq_some_iff.2 rfl
  rw [Control.Body.command, key_readBody h]
  cases kind <;> simp only [readBody, Control.Body.number, Option.getD_some, hpos] <;> rfl

/-- Why a version is turned down: zero is none, and what 63 bits do not hold is no number of the
right form. -/
def versionProblem (version : UInt64) : Control.Problem :=
  if version.toNat = 0 then .nonPositive .setVersion 0 else .malformed .invalidValue

/-- **A version is set exactly if it is positive and 63 bits hold it.** -/
theorem ofBytes_setVersion (version : UInt64) :
    Control.Command.ofBytes .setVersion (Text.Utf8.encode
        ((controlBody .setVersion service item.name version.toNat).write .compact 0)) =
      if hv : 1 ≤ version.toNat ∧ version.toNat ≤ 0x7FFFFFFFFFFFFFFF then
        .ok (.setVersion ⟨service, item⟩ ⟨version.toNat, hv.1⟩)
      else .error (versionProblem version) := by
  rw [ofBytes_controlBody _ _ _ (Nat.le_of_lt_succ version.toNat_lt)]
  by_cases hmax : version.toNat ≤ 0x7FFFFFFFFFFFFFFF
  · rw [if_pos hmax]
    by_cases hmin : 1 ≤ version.toNat
    · rw [dif_pos ⟨hmin, hmax⟩, command_readBody_pos h item .setVersion hmin]
    · have hzero : version.toNat = 0 := by omega
      rw [dif_neg fun hv => hmin hv.1, versionProblem, if_pos hzero, hzero]
      exact command_readBody_zero h item .setVersion
  · rw [if_neg hmax, dif_neg fun hv => hmax hv.2, versionProblem, if_neg (by omega)]

/-- **A number of failures is armed exactly if it is positive.** -/
theorem ofBytes_failNext (count : UInt32) :
    Control.Command.ofBytes .failNext (Text.Utf8.encode
        ((controlBody .failNext service item.name count.toNat).write .compact 0)) =
      if hc : 1 ≤ count.toNat then .ok (.failNext ⟨service, item⟩ ⟨count.toNat, hc⟩)
      else .error (.nonPositive .failNext 0) := by
  have hmax : count.toNat ≤ Control.maxCount := Nat.le_of_lt_succ count.toNat_lt
  have hwide : Control.maxCount ≤ 0x7FFFFFFFFFFFFFFF := by decide
  rw [ofBytes_controlBody _ _ _ (by omega), if_pos (by omega)]
  by_cases hmin : 1 ≤ count.toNat
  · rw [dif_pos hmin, command_readBody_pos h item .failNext hmin]
    exact if_pos hmax
  · have hzero : count.toNat = 0 := by omega
    rw [dif_neg hmin, hzero]
    exact command_readBody_zero h item .failNext

end Commands

/-! ## Sites -/

/-- The slashes at the end of a base are dropped. -/
theorem trimBase_append (pre : List Char) {cs : List Char} (hne : cs ≠ []) (h : ∀ c ∈ cs, c ≠ '/')
    (slashes : Nat) :
    trimBase (String.ofList (pre ++ (cs ++ List.replicate slashes '/'))) =
      String.ofList (pre ++ cs) := by
  obtain ⟨d, ds, hd⟩ := List.exists_cons_of_ne_nil (List.reverse_ne_nil_iff.2 hne)
  have hslash : ¬(d == '/') = true := by
    simpa using h d (List.mem_reverse.1 (hd ▸ List.mem_cons_self))
  have hslashes : ∀ c ∈ (List.replicate slashes '/').reverse, (c == '/') = true := by
    intro c hc
    rw [List.reverse_replicate] at hc
    simpa using List.eq_of_mem_replicate hc
  rw [trimBase, String.toList_ofList, List.reverse_append, List.reverse_append, List.append_assoc,
    List.dropWhile_append_of_pos hslashes, hd, List.cons_append,
    List.dropWhile_cons_of_neg (p := (· == '/')) hslash, ← List.cons_append, ← hd,
    ← List.reverse_append, List.reverse_reverse]

/-- Where a simulator is reached: the authority of a URL, and the host and the port that it
names. -/
structure Site where
  authority : List Char
  host : String
  port : Option UInt16
  plain : PlainAuthority authority
  names : hostAndPort? (afterUser authority) = some (host, port)

namespace Site

variable (site : Site)

/-- A base URL of the site, with any number of slashes at its end. -/
def base (slashes : Nat) : String :=
  String.ofList ("http://".toList ++ (site.authority ++ List.replicate slashes '/'))

/-- The link to the simulator that listens there. -/
def link : Link Store := Link.simulator site.host (site.port.getD 80)

/-- The URL of a call to the site. -/
def url (c : Call) : Net.Url :=
  ⟨false, site.host, site.port, c.segments.map String.toList, none, none⟩

theorem trimBase_base (slashes : Nat) :
    trimBase (site.base slashes) = String.ofList ("http://".toList ++ site.authority) :=
  trimBase_append _ (ne_nil_of_hostAndPort? site.names)
    (fun c hc he => (site.plain c hc).2 (he ▸ List.mem_cons_self)) slashes

/-- The text that a call's URL is read from. -/
theorem base_append_path (slashes : Nat) (c : Call) :
    trimBase (site.base slashes) ++ c.path =
      String.ofList ("http://".toList ++
        (site.authority ++ '/' :: Text.join '/' (c.segments.map String.toList))) := by
  rw [site.trimBase_base, ← String.toList_inj, String.toList_append, c.toList_path]
  simp

end Site

/-- A call that can be made at a site: its service has a plain name, and neither that name nor its
URL is longer than a URL may be. -/
structure Call.Admissible (site : Site) (c : Call) : Prop where
  plain : ∀ s ∈ c.service?, PlainName s
  short : ∀ s ∈ c.service?, s.length ≤ maxLength
  fits : (site.url c).text.length ≤ maxLength

instance (site : Site) (c : Call) : Decidable (c.Admissible site) :=
  decidable_of_iff ((∀ s ∈ c.service?, PlainName s) ∧ (∀ s ∈ c.service?, s.length ≤ maxLength) ∧
      (site.url c).text.length ≤ maxLength)
    ⟨fun h => ⟨h.1, h.2.1, h.2.2⟩, fun h => ⟨h.1, h.2, h.3⟩⟩

namespace Call.Admissible

variable {site : Site} {c : Call} (h : c.Admissible site)

include h

/-- **The URL of a call is the one that was meant**, however many slashes end the base. -/
theorem url?_eq (slashes : Nat) : c.url? (site.base slashes) = some (site.url c) := by
  have hurl : Net.Url.ofText? (trimBase (site.base slashes) ++ c.path) = some (site.url c) := by
    rw [site.base_append_path]
    exact ofText?_http site.plain site.names c.segments_ne_nil (Call.plainSegment_of_mem h.plain)
  rw [Call.url?, hurl]
  simp only [Option.bind_eq_bind, Option.bind_some, if_neg (Nat.not_lt.2 h.fits), Option.pure_def]

/-- The path that arrives is the one that was asked for. -/
theorem path_received : (c.sent (site.url c)).received.path = c.path.toList := by
  have htarget : (site.url c).target = c.path.toList := by
    rw [c.toList_path]
    exact target_join c.segments_ne_nil
  have hquery : Http.withoutQuery c.path.toList = c.path.toList := by
    refine List.takeWhile_eq_self_iff.2 fun d hd => ?_
    rw [c.toList_path] at hd
    have hd := mem_path (Call.plainSegment_of_mem h.plain) d hd
    simp [hd.2.1, hd.2.2.1]
  rw [Http.Request.path, Call.sent, Sent.received, String.toList_ofList, htarget]
  rw [c.toList_path] at hquery ⊢
  exact hquery

end Call.Admissible

end CredentialBench.Client
