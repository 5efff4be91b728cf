import CredentialBench.Secret.Payload
import CredentialBench.Text.Split

/-!
# Telling payloads apart

Every text in a payload but the digest is a tag between two fixed texts, which depend on the item
and the field alone (`Item.frames`, `leaf_payload_iff`). A service may hold dashes, digits, slashes
and the letter that joins it to its version. Still a tag names one service and one version
(`tag_inj`), since its last `v` is the one that joins them: no digit is a `v`. In the same way the
last slash of a key's name is the one before its item (`Key.text_inj`).

Nothing is asked of the digest: a payload that holds one holds the tag as well (`payload_inj`).

A text that begins neither like a frame nor with hexadecimal digits is in no payload at all
(`Foreign.not_prefix`).
-/

namespace CredentialBench.Json.Value

/-- A string in a value, with the names of the members that lead to it. -/
inductive Leaf : Value → List String → String → Prop
  | string (s : String) : Leaf (.string s) [] s
  | item {v : Value} {vs : List Value} {path : List String} {s : String} (hv : v ∈ vs)
      (h : Leaf v path s) : Leaf (.array vs) path s
  | member {name : String} {v : Value} {ms : List (String × Value)} {path : List String}
      {s : String} (hm : (name, v) ∈ ms) (h : Leaf v path s) : Leaf (.object ms) (name :: path) s

variable {path : List String} {s : String}

@[simp] theorem leaf_string {t : String} : (string t).Leaf path s ↔ path = [] ∧ s = t := by
  constructor
  · rintro ⟨⟩
    exact ⟨rfl, rfl⟩
  · rintro ⟨rfl, rfl⟩
    exact .string s

@[simp] theorem leaf_array {vs : List Value} :
    (array vs).Leaf path s ↔ ∃ v ∈ vs, v.Leaf path s := by
  constructor
  · rintro (_ | ⟨hv, h⟩)
    exact ⟨_, hv, h⟩
  · rintro ⟨v, hv, h⟩
    exact .item hv h

@[simp] theorem leaf_object {ms : List (String × Value)} :
    (object ms).Leaf path s ↔ ∃ m ∈ ms, ∃ rest, path = m.1 :: rest ∧ m.2.Leaf rest s := by
  constructor
  · rintro (_ | _ | ⟨hm, h⟩)
    exact ⟨_, hm, _, rfl, h⟩
  · rintro ⟨m, hm, rest, rfl, h⟩
    exact .member hm h

end CredentialBench.Json.Value

namespace CredentialBench.Secret

open Json

/-! ## Tags and names -/

/-- The version is written without the letter before it. -/
theorem joint_notMem_text (v : Positive) : 'v' ∉ v.text.toList := by
  rw [Positive.text, Nat.toList_repr]
  intro h
  exact absurd (Nat.isDigit_of_mem_toDigits (by decide) (by decide) h) (by decide)

theorem toList_tag (service : String) (v : Positive) :
    (tag service v).toList = (service.toList ++ ['-']) ++ 'v' :: v.text.toList := by
  simp [tag]

/-- **A tag names one service and one version.** -/
theorem tag_inj {s t : String} {v w : Positive} : tag s v = tag t w ↔ s = t ∧ v = w := by
  constructor
  · intro h
    have hl := congrArg String.toList h
    rw [toList_tag, toList_tag] at hl
    obtain ⟨hservice, hversion⟩ :=
      Text.append_cons_inj_last (joint_notMem_text v) (joint_notMem_text w) hl
    refine ⟨String.toList_inj.1 (List.append_cancel_right hservice), Subtype.ext ?_⟩
    have hdigits := congrArg (fun ds => Nat.ofDigitChars 10 ds 0) hversion
    simpa [Positive.text] using hdigits
  · rintro ⟨rfl, rfl⟩
    rfl

theorem Item.name_inj {i j : Item} : i.name = j.name ↔ i = j := by
  cases i <;> cases j <;> decide

/-- **The name of a key names one key.** -/
theorem Key.text_inj {k k' : Key} : k.text = k'.text ↔ k = k' := by
  have hslash (item : Item) : '/' ∉ item.name.toList := by cases item <;> decide
  constructor
  · intro h
    obtain ⟨s, i⟩ := k
    obtain ⟨t, j⟩ := k'
    have hl := congrArg String.toList h
    simp only [text, String.toList_append, List.append_assoc] at hl
    obtain ⟨hservice, hitem⟩ := Text.append_cons_inj_last (hslash i) (hslash j) hl
    rw [String.toList_inj] at hservice hitem
    rw [hservice, Item.name_inj.1 hitem]
  · rintro rfl
    rfl

/-! ## The texts of a payload -/

/-- What stands around the tag in a text of a payload, and the field that holds the text. -/
structure Frame where
  field : String
  opening : String
  closing : String
  deriving DecidableEq

/-- The text with a tag in the frame. -/
def Frame.text (f : Frame) (tag : String) : String := f.opening ++ tag ++ f.closing

/-- The texts with a tag in an item's data. -/
def Item.frames : Item → List Frame
  | secretId => [⟨"secret_id", "synced-secret-id-", ""⟩]
  | eab => [⟨"hmac", "synced-hmac-", ""⟩, ⟨"kid", "synced-kid-", ""⟩]
  | httpResponderHmac => [⟨"hmac", "synced-responder-hmac-", ""⟩]
  | trust => [⟨"ca_bundle_pem", "-----BEGIN CERTIFICATE-----\nSMOKE-",
      "\n-----END CERTIFICATE-----"⟩]

/-- Where a payload has its digest, if it has one. -/
def digestPath : List String := ["data", "data", "trusted_ca_sha256"]

/-- **The texts of a payload**: a tag in each frame of its item, and the digest of a trust
bundle. -/
theorem leaf_payload_iff {k : Key} {v : Positive} {path : List String} {text : String} :
    (payload k v).Leaf path text ↔
      (∃ f ∈ k.item.frames, path = ["data", "data", f.field] ∧ text = f.text (tag k.service v)) ∨
        (k.item = .trust ∧ path = digestPath ∧ text = fingerprint k.service v) := by
  obtain ⟨service, item⟩ := k
  have hbundle : bundle service v = "-----BEGIN CERTIFICATE-----\nSMOKE-" ++ tag service v ++
      "\n-----END CERTIFICATE-----" := rfl
  rw [payload, data, hbundle]
  generalize tag service v = t
  generalize fingerprint service v = digest
  -- what is left is to put the path together, name by name
  cases item <;> simp [Item.frames, Frame.text, digestPath] <;> grind

/-- A beginning that no text of a payload has: what opens a frame begins otherwise, and a digest
cannot hold all of its characters. -/
structure Foreign (stem : String) : Prop where
  opening : ∀ item : Item, ∀ f ∈ item.frames,
    ¬ stem.toList <+: f.opening.toList ∧ ¬ f.opening.toList <+: stem.toList
  digest : ∃ c ∈ stem.toList, Text.hexValue? c = none

/-- **No text of a payload has a foreign beginning**, whatever the service, the item and the
version are. -/
theorem Foreign.not_prefix {stem : String} (h : Foreign stem) {k : Key} {v : Positive}
    {path : List String} {text : String} (hleaf : (payload k v).Leaf path text) :
    ¬ stem.toList <+: text.toList := by
  intro hstem
  obtain ⟨f, hf, -, rfl⟩ | ⟨-, -, rfl⟩ := leaf_payload_iff.1 hleaf
  · -- of two beginnings of one text the shorter one begins the longer one
    have hopening : f.opening.toList <+: (f.text (tag k.service v)).toList := by
      rw [Frame.text, String.append_assoc, String.toList_append]
      exact List.prefix_append _ _
    rcases List.prefix_or_prefix_of_prefix hstem hopening with hpre | hpre
    · exact (h.opening _ f hf).1 hpre
    · exact (h.opening _ f hf).2 hpre
  · obtain ⟨c, hc, hnone⟩ := h.digest
    have hdigit := Text.isSome_hexValue?_of_mem (hstem.subset hc)
    rw [hnone] at hdigit
    cases hdigit

/-- No two frames of an item have the same field, and none has that of the digest. -/
theorem Item.frames_unique {item : Item} :
    (∀ f ∈ item.frames, f.field ≠ "trusted_ca_sha256") ∧
      ∀ f ∈ item.frames, ∀ f' ∈ item.frames, f.field = f'.field → f = f' := by
  cases item <;> decide

/-- **A text of a payload tells the service and the version**, among the payloads of its item and
the texts of its field. -/
theorem eq_of_leaf {k k' : Key} {v v' : Positive} {path : List String} {text : String}
    (hitem : k.item = k'.item) (hpath : path ≠ digestPath) (h : (payload k v).Leaf path text)
    (h' : (payload k' v').Leaf path text) : k.service = k'.service ∧ v = v' := by
  obtain ⟨f, hf, hfield, htext⟩ | ⟨-, hdigest, -⟩ := leaf_payload_iff.1 h
  · obtain ⟨f', hf', hfield', htext'⟩ | ⟨-, hdigest, -⟩ := leaf_payload_iff.1 h'
    · have hsame : f.field = f'.field := by simpa using hfield.symm.trans hfield'
      obtain rfl := Item.frames_unique.2 f hf f' (hitem ▸ hf') hsame
      have htags := htext.symm.trans htext'
      rw [Frame.text, Frame.text, String.append_left_inj, String.append_right_inj] at htags
      exact tag_inj.1 htags
    · exact absurd hdigest hpath
  · exact absurd hdigest hpath

/-- **A payload tells the key and the version.** -/
theorem payload_inj {k k' : Key} {v v' : Positive} :
    payload k v = payload k' v' ↔ k = k' ∧ v = v' := by
  constructor
  · intro h
    have hitem : k.item = k'.item := by
      cases hk : k.item <;> cases hk' : k'.item <;> simp_all [payload, data]
    -- every item has a field with a tag, and what that holds is in the other payload as well
    obtain ⟨f, hf⟩ : ∃ f, f ∈ k.item.frames := by
      cases k.item <;> exact ⟨_, List.mem_cons_self⟩
    have hpath : ["data", "data", f.field] ≠ digestPath := by
      simpa [digestPath] using Item.frames_unique.1 f hf
    have hleaf : (payload k v).Leaf ["data", "data", f.field] (f.text (tag k.service v)) :=
      leaf_payload_iff.2 (.inl ⟨f, hf, rfl, rfl⟩)
    obtain ⟨hservice, hversion⟩ := eq_of_leaf hitem hpath hleaf (h ▸ hleaf)
    obtain ⟨service, item⟩ := k
    obtain ⟨service', item'⟩ := k'
    obtain rfl : service = service' := hservice
    obtain rfl : item = item' := hitem
    exact ⟨rfl, hversion⟩
  · rintro ⟨rfl, rfl⟩
    rfl

end CredentialBench.Secret
