import CredentialBench.Proofs.Simulator.Effect
import CredentialBench.Proofs.Simulator.Recovery
import Mathlib.Data.List.DropRight

/-!
# What requests can lead to

The store itself takes any text for a service and any positive number for a counter. Every key that
a run of requests leaves in it has passed the checks of a control call all the same, since no other
request makes a key a tracked one: its service is trimmed and not empty, and its counters are within
their ranges (`Store.Vetted`, kept by every demand). Nor are there more tracked keys than control
calls answered with success since the last reset (`acceptedSinceReset`), as a call tracks one key at
most.

Main statement: `afterAll_empty_vetted`. A key whose service is blank, or has a blank character at
an end, is therefore never tracked, and reads at its defaults after every run.
-/

namespace CredentialBench

open Secret

/-! ## Vetted stores -/

/-- The key and its counters have passed the checks of a control call. -/
structure Vetted (k : Key) (c : Counters) : Prop where
  named : k.service ≠ ""
  trimmed : Text.trim k.service = k.service
  version : c.version.val ≤ 0x7FFFFFFFFFFFFFFF
  pending : c.pending ≤ 0xFFFFFFFF

namespace Store

/-- Every key that is held, and its counters, have passed the checks of a control call. -/
def Vetted (s : Store) : Prop :=
  ∀ k c, s.tracked.get? k = some c → CredentialBench.Vetted k c

theorem vetted_empty : empty.Vetted := by
  intro k c h
  simp [empty] at h

namespace Vetted

variable {s : Store} {k : Key}

theorem insert (h : s.Vetted) {c : Counters} (hc : CredentialBench.Vetted k c) :
    Vetted ⟨s.tracked.insert k c⟩ := by
  intro k' c' hget
  rw [Dictionary.get?_insert] at hget
  split at hget
  · rename_i hk
    cases hget
    exact hk ▸ hc
  · exact h k' c' hget

/-- The counters of every key are within their ranges, be it held or not. -/
theorem state_le (h : s.Vetted) (k : Key) :
    (s.state k).version.val ≤ 0x7FFFFFFFFFFFFFFF ∧ (s.state k).pending ≤ 0xFFFFFFFF := by
  rw [state]
  cases hget : s.tracked.get? k with
  | none => decide
  | some c => exact ⟨(h k c hget).version, (h k c hget).pending⟩

/-- A key that no control call can name reads at its defaults. -/
theorem state_eq_initial (h : s.Vetted) (hk : k.service = "" ∨ Text.trim k.service ≠ k.service) :
    s.state k = .initial := by
  rw [state]
  cases hget : s.tracked.get? k with
  | none => rfl
  | some c =>
    have hc := h k c hget
    rcases hk with hk | hk
    · exact absurd hk hc.named
    · exact absurd hc.trimmed hk

theorem apply (h : s.Vetted) {kind : Control.Kind} {n : Positive} (hne : k.service ≠ "")
    (htrim : Text.trim k.service = k.service) (hn : n.val ≤ kind.greatest) :
    (s.apply (kind.command k n)).Vetted := by
  obtain ⟨hversion, hpending⟩ := h.state_le k
  cases kind with
  | setVersion => exact h.insert ⟨hne, htrim, hn, hpending⟩
  | failNext => exact h.insert ⟨hne, htrim, hversion, hn⟩

theorem read (h : s.Vetted) (k : Key) : (s.read k).2.Vetted := by
  cases hp : (s.state k).pending with
  | zero => rwa [read_eq_serve hp]
  | succ n =>
    rw [read_eq_fail hp]
    cases hget : s.tracked.get? k with
    | none => simp [state, hget, Counters.initial] at hp
    | some c =>
      -- a failure that is left has been armed, so that the key has been vetted before
      have hc := h k c hget
      have hstate : s.state k = c := by rw [state, hget, Option.getD_some]
      rw [hstate] at hp ⊢
      have hle := hc.pending
      exact h.insert ⟨hc.named, hc.trimmed, hc.version, by dsimp only; omega⟩

end Vetted

end Store

namespace Simulator

open Http Json

/-- Every request keeps a store vetted. -/
theorem vetted_respond {s : Store} (h : s.Vetted) (r : Request) : (respond s r).2.Vetted := by
  rw [respond_eq]
  have hm := makes_demand r
  generalize demand r = d at hm
  cases hm with
  | @read k => exact h.read k
  | command hc =>
    obtain ⟨kind, -, -, hc⟩ := hc
    obtain ⟨k, n, rfl, hne, htrim, hn⟩ := Control.checked_of_ofBytes hc
    exact h.apply hne htrim hn
  | reset => exact Store.vetted_empty
  | login | health | rejected | tooLarge | notFound => exact h

/-! ## Control calls since the last reset -/

instance (r : Request) (kind : Control.Kind) : Decidable (Controls r kind) :=
  inferInstanceAs (Decidable (_ ∧ _))

/-- The request is a control call that names a key, and is answered with success. -/
def Accepted (e : Request × Response) : Prop :=
  (Controls e.1 .setVersion ∨ Controls e.1 .failNext) ∧ e.2.status = 200

instance (e : Request × Response) : Decidable (Accepted e) := inferInstanceAs (Decidable (_ ∧ _))

/-- How many control calls of a run have been answered with success since its last reset. -/
def acceptedSinceReset (rs : List Request) : Nat :=
  ((transcript id .empty rs).rtakeWhile fun e => ¬Resets e.1).countP fun e => Accepted e

theorem afterAll_concat (s : Store) (rs : List Request) (r : Request) :
    afterAll s (rs ++ [r]) = (respond (afterAll s rs) r).2 := by
  rw [afterAll, List.foldl_append]
  rfl

theorem transcript_concat (s : Store) (rs : List Request) (r : Request) :
    transcript id s (rs ++ [r]) = transcript id s rs ++ [(r, (respond (afterAll s rs) r).1)] := by
  induction rs generalizing s with
  | nil => rfl
  | cons r' rs ih =>
    have hs : afterAll s (r' :: rs) = afterAll (respond s r').2 rs := rfl
    rw [List.cons_append, transcript, transcript, List.cons_append, hs]
    exact congrArg _ (ih (respond s r').2)

theorem acceptedSinceReset_concat (rs : List Request) (r : Request) :
    acceptedSinceReset (rs ++ [r]) =
      if Resets r then 0
      else acceptedSinceReset rs +
        if Accepted (r, (respond (afterAll .empty rs) r).1) then 1 else 0 := by
  rw [acceptedSinceReset, transcript_concat]
  by_cases hr : Resets r
  · rw [if_pos hr, List.rtakeWhile_concat_neg _ _ _ (by simpa using hr), List.countP_nil]
  · rw [if_neg hr, List.rtakeWhile_concat_pos _ _ _ (by simpa using hr), List.countP_append,
      List.countP_singleton, acceptedSinceReset]
    simp only [decide_eq_true_eq]

theorem controls_of_commands {r : Request} {c : Control.Command} (h : Commands r c) :
    Controls r .setVersion ∨ Controls r .failNext := by
  obtain ⟨kind, h, -⟩ := h
  cases kind with
  | setVersion => exact .inl h
  | failNext => exact .inr h

/-- Only a control call that is accepted can track a key, and it tracks one at most. -/
theorem trackedKeys_respond (s : Store) (r : Request) :
    (respond s r).2.trackedKeys ≤
      if Resets r then 0
      else s.trackedKeys + if Accepted (r, (respond s r).1) then 1 else 0 := by
  by_cases hr : Resets r
  · rw [if_pos hr, respond_eq, resets_iff.1 hr]
    exact Nat.le_refl 0
  · rw [if_neg hr]
    by_cases hc : ∃ c, Commands r c
    · obtain ⟨c, hc⟩ := hc
      obtain ⟨hstatus, hstore⟩ := respond_of_commands hc s
      have haccepted : Accepted (r, (respond s r).1) := ⟨controls_of_commands hc, hstatus⟩
      rw [if_pos haccepted, hstore, Store.trackedKeys_apply]
      split <;> omega
    · refine Nat.le_trans (Nat.le_of_eq ?_) (Nat.le_add_right _ _)
      rw [respond_eq]
      have hm := makes_demand r
      generalize demand r = d at hm
      cases hm with
      | command h => exact absurd ⟨_, h⟩ hc
      | reset h => exact absurd h hr
      | read h => exact s.trackedKeys_read _
      | login | health | rejected | tooLarge | notFound => rfl

/-! ## Runs -/

theorem vetted_afterAll (rs : List Request) : (afterAll .empty rs).Vetted := by
  induction rs using List.reverseRecOn with
  | nil => exact Store.vetted_empty
  | append_singleton rs r ih =>
    rw [afterAll_concat]
    exact vetted_respond ih r

theorem trackedKeys_afterAll_le (rs : List Request) :
    (afterAll .empty rs).trackedKeys ≤ acceptedSinceReset rs := by
  induction rs using List.reverseRecOn with
  | nil => exact Nat.le_refl 0
  | append_singleton rs r ih =>
    have hstep := trackedKeys_respond (afterAll .empty rs) r
    rw [afterAll_concat, acceptedSinceReset_concat]
    refine Nat.le_trans hstep ?_
    split
    · exact Nat.le_refl 0
    · exact Nat.add_le_add_right ih _

/-- A service that is blank, or has a blank character at an end, is empty or not trimmed. -/
theorem ne_trim_of_blank_edge {service : String}
    (h : Text.blank service = true ∨ ∃ c, Text.isBlank c = true ∧
      (service.toList.head? = some c ∨ service.toList.getLast? = some c)) :
    service = "" ∨ Text.trim service ≠ service := by
  rw [or_iff_not_imp_right, not_not]
  intro htrim
  rcases h with h | ⟨c, hc, h⟩
  · rw [← htrim, Text.trim_eq_empty_iff.2 h]
  · have htrimmed := Text.trim_eq_self_iff.1 htrim
    have hbare : Text.isBlank c = false := by
      rcases h with h | h
      · exact htrimmed.head c h
      · exact htrimmed.last c h
    rw [hc] at hbare
    cases hbare

/-- **The store after any run of requests.** Every key that is held has a service that is trimmed
and not empty, a version of 63 bits other than zero and a count of pending failures of 32 bits, and
no more keys are held than control calls were answered with success since the last reset. A read of
a service that is blank, or has a blank character at an end, is therefore answered with version one,
whatever was requested before. -/
theorem afterAll_empty_vetted (rs : List Request) :
    (∀ k c, (afterAll .empty rs).tracked.get? k = some c →
      k.service ≠ "" ∧ Text.trim k.service = k.service ∧
        1 ≤ c.version.val ∧ c.version.val ≤ 0x7FFFFFFFFFFFFFFF ∧ c.pending ≤ 0xFFFFFFFF) ∧
    (afterAll .empty rs).trackedKeys ≤ acceptedSinceReset rs ∧
    ∀ r k, r.method = .get → Reads r k →
      (Text.blank k.service = true ∨ ∃ c, Text.isBlank c = true ∧
        (k.service.toList.head? = some c ∨ k.service.toList.getLast? = some c)) →
      (respond (afterAll .empty rs) r).1.status = 200 ∧
        Value.parse? (respond (afterAll .empty rs) r).1.body.bytes = some (payload k .one) := by
  have hvetted := vetted_afterAll rs
  refine ⟨?_, trackedKeys_afterAll_le rs, ?_⟩
  · intro k c hget
    obtain ⟨hnamed, htrimmed, hversion, hpending⟩ := hvetted k c hget
    exact ⟨hnamed, htrimmed, c.version.property, hversion, hpending⟩
  · intro r k hm hr hk
    have hstate := hvetted.state_eq_initial (ne_trim_of_blank_edge hk)
    have hread := respond_read (s := afterAll .empty rs) hr hm
    rw [hstate] at hread
    exact hread

/-- A failure that is armed for a service between blank characters is not met by a read whose path
spells the service with them. -/
theorem afterAll_empty_vetted_spaced :
    let arm : Request := ⟨.post, "/control/fail-next",
      Text.Utf8.bytes "\x7b\"service\":\" a \",\"item\":\"eab\",\"count\":2\x7d"⟩
    let get : Request := ⟨.get, "/v1/secret/data/bootroot/services/%20a%20/eab", []⟩
    (respond (afterAll .empty [arm]) get).1.status = 200 ∧
      (afterAll .empty [arm]).tracked.keys = [⟨"a", .eab⟩] := by
  intro arm get
  obtain ⟨-, -, h⟩ := afterAll_empty_vetted [arm]
  refine ⟨(h get ⟨" a ", .eab⟩ rfl (by decide +kernel) ?_).1, by decide +kernel⟩
  exact .inr ⟨' ', by decide, .inl (by decide)⟩

end Simulator

end CredentialBench
