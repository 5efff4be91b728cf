import CredentialBench.Proofs.Simulator.Demand
import Mathlib.Data.List.Basic

/-!
# Requests for other keys

What a request is answered depends on the counters of the key that it addresses and on nothing else
of the store, and the counters of a key are touched only by the requests that address it and by
resets. Hence the other requests of a run may be left out without any effect on the answers for that
key, and clients that work on different services are answered as if each of them were alone
(`transcript_nonInterference`).

The proof relates the stores of two runs that agree on some keys (`Store.AgreeOn`): a demand put to
both keeps them so, a demand put to one of them keeps them so if it concerns none of these keys, and
a demand that addresses no other key is answered alike by both.
-/

namespace CredentialBench

open Secret

/-- Two stores have the same counters for the keys of some kind. -/
def Store.AgreeOn (p : Key → Prop) (s s' : Store) : Prop := ∀ k, p k → s.state k = s'.state k

namespace Simulator

open Http

/-! ## The key that a request addresses -/

/-- The request reads a key, or is a control call that is accepted for it. -/
def Addresses (r : Request) (k : Key) : Prop := Reads r k ∨ ∃ c, Commands r c ∧ c.key = k

/-- The key that a demand is for. -/
def Demand.key? : Demand → Option Key
  | read k => some k
  | command c => some c.key
  | _ => none

theorem addresses_iff {r : Request} {k : Key} : Addresses r k ↔ (demand r).key? = some k := by
  constructor
  · rintro (h | ⟨c, h, rfl⟩)
    · rw [(Makes.read h).eq_demand, Demand.key?]
    · rw [(Makes.command h).eq_demand, Demand.key?]
  · intro hk
    have h := makes_demand r
    generalize demand r = d at h hk
    cases h with
    | read h => cases hk; exact .inl h
    | command h => cases hk; exact .inr ⟨_, h, rfl⟩
    | login | health | reset | rejected | tooLarge | notFound => cases hk

theorem resets_iff {r : Request} : Resets r ↔ demand r = .reset := by
  constructor
  · exact fun h => (Makes.reset h).eq_demand
  · intro hd
    have h := makes_demand r
    rw [hd] at h
    cases h with
    | reset h => exact h

instance (r : Request) (k : Key) : Decidable (Addresses r k) := decidable_of_iff' _ addresses_iff

instance (r : Request) : Decidable (Resets r) :=
  decidable_of_iff (r.method = .post ∧ Route.ofPath? r.path = some .reset) Iff.rfl

/-- No request addresses two keys. -/
theorem Addresses.unique {r : Request} {k k' : Key} (h : Addresses r k) (h' : Addresses r k') :
    k = k' := by
  rw [addresses_iff] at h h'
  simpa using h.symm.trans h'

/-- The requests that matter to a key: those that address it, and every reset. -/
def Concerns (k : Key) (r : Request) : Prop := Addresses r k ∨ Resets r

instance (k : Key) (r : Request) : Decidable (Concerns k r) := inferInstanceAs (Decidable (_ ∨ _))

/-! ## One demand -/

section Demands

variable {p : Key → Prop} {s s' : Store}

/-- The same demand put to both stores. -/
theorem after_agreeOn (h : s.AgreeOn p s') (d : Demand) : (d.after s).AgreeOn p (d.after s') := by
  intro k hk
  cases d with
  | read k' =>
    simp only [Demand.after, Store.state_read]
    split
    · rename_i hkk
      rw [← hkk, h k hk]
    · exact h k hk
  | command c =>
    cases c <;> simp only [Demand.after, Store.apply, Store.state_setVersion,
      Store.state_failNext] <;> split
    · rename_i hkk
      rw [← hkk, h k hk]
    · exact h k hk
    · rename_i hkk
      rw [← hkk, h k hk]
    · exact h k hk
  | reset => rfl
  | login | health | refuse => exact h k hk

/-- A demand that only one of the stores meets, for none of the keys. -/
theorem after_agreeOn_left (h : s.AgreeOn p s') {d : Demand} (hd : ∀ k, d.key? = some k → ¬p k)
    (hr : d ≠ .reset) : (d.after s).AgreeOn p s' := by
  intro k hk
  cases d with
  | read k' =>
    have hkk : k ≠ k' := fun e => hd k' rfl (e ▸ hk)
    simpa [Demand.after, Store.state_read, hkk] using h k hk
  | command c =>
    have hkk : k ≠ c.key := fun e => hd c.key rfl (e ▸ hk)
    cases c <;> simp only [Control.Command.key] at hkk <;>
      simpa [Demand.after, Store.apply, hkk] using h k hk
  | reset => exact absurd rfl hr
  | login | health | refuse => exact h k hk

/-- A demand for one of the keys, or for none at all, is answered alike. -/
theorem answer_eq_of_agreeOn (h : s.AgreeOn p s') {d : Demand}
    (hd : ∀ k, d.key? = some k → p k) : d.answer s = d.answer s' := by
  cases d with
  | read k => simp only [Demand.answer, Store.fst_read, h k (hd k rfl)]
  | login | health | command | reset | refuse => rfl

end Demands

/-! ## Runs -/

section Runs

variable {α : Type} (f : α → Request)

/-- The requests of a run, each with its response, from a store on. A request may carry a mark. -/
def transcript (s : Store) : List α → List (α × Response)
  | [] => []
  | a :: as => (a, (respond s (f a)).1) :: transcript (respond s (f a)).2 as

theorem map_fst_transcript (s : Store) (as : List α) : (transcript f s as).map (·.1) = as := by
  induction as generalizing s with
  | nil => rfl
  | cons a as ih => rw [transcript, List.map_cons, ih]

/-- **Left-out requests do not matter.** From stores that agree on some keys on, the requests that
are watched are answered alike in a run and in the same run with some requests left out, if no
watched request addresses any other key and every request that is left out is neither watched nor a
reset and addresses none of these keys. -/
theorem filter_transcript (p : Key → Prop) (keep watch : α → Bool) (as : List α)
    (hkeep : ∀ a ∈ as, keep a = false → ¬Resets (f a) ∧ ∀ k, Addresses (f a) k → ¬p k)
    (hwatch : ∀ a ∈ as, watch a = true → keep a = true ∧ ∀ k, Addresses (f a) k → p k)
    {s s' : Store} (h : s.AgreeOn p s') :
    (transcript f s as).filter (fun e => watch e.1) =
      (transcript f s' (as.filter keep)).filter fun e => watch e.1 := by
  induction as generalizing s s' with
  | nil => rfl
  | cons a as ih =>
    have ih' {t t' : Store} (ht : t.AgreeOn p t') :=
      ih (fun b hb => hkeep b (List.mem_cons_of_mem a hb))
        (fun b hb => hwatch b (List.mem_cons_of_mem a hb)) ht
    cases hka : keep a with
    | false =>
      obtain ⟨hreset, haddr⟩ := hkeep a List.mem_cons_self hka
      have hw : watch a = false := by
        cases hw : watch a with
        | false => rfl
        | true => simpa [hka] using (hwatch a List.mem_cons_self hw).1
      have hs : ((respond s (f a)).2).AgreeOn p s' := by
        rw [respond_eq]
        exact after_agreeOn_left h (fun k hk => haddr k (addresses_iff.2 hk))
          fun hd => hreset (resets_iff.2 hd)
      rw [transcript, List.filter_cons_of_neg (by simp [hw]),
        List.filter_cons_of_neg (by simp [hka])]
      exact ih' hs
    | true =>
      have hs : ((respond s (f a)).2).AgreeOn p (respond s' (f a)).2 := by
        simpa only [respond_eq] using after_agreeOn h (demand (f a))
      rw [List.filter_cons_of_pos hka, transcript, transcript, List.filter_cons, List.filter_cons,
        ih' hs]
      cases hw : watch a with
      | false => rfl
      | true =>
        obtain ⟨-, haddr⟩ := hwatch a List.mem_cons_self hw
        have hresp : (respond s (f a)).1 = (respond s' (f a)).1 := by
          simp only [respond_eq]
          rw [answer_eq_of_agreeOn h fun k hk => haddr k (addresses_iff.2 hk)]
        rw [if_pos rfl, if_pos rfl, hresp]

end Runs

/-- The requests of a run that matter to a key are enough for the answers to those that address
it. -/
theorem filter_transcript_concerns (rs : List Request) (k : Key) :
    (transcript id .empty rs).filter (fun e => Addresses e.1 k) =
      (transcript id .empty (rs.filter fun r => Concerns k r)).filter
        fun e => Addresses e.1 k := by
  refine filter_transcript id (· = k) (fun r => Concerns k r) (fun r => Addresses r k) rs ?_ ?_
    (fun _ _ => rfl)
  · intro r _ h
    have h : ¬(Addresses r k ∨ Resets r) := of_decide_eq_false h
    rw [not_or] at h
    exact ⟨h.2, fun k' hk' e => h.1 (e ▸ hk')⟩
  · intro r _ h
    have h : Addresses r k := of_decide_eq_true h
    exact ⟨decide_eq_true (.inl h), fun k' hk' => hk'.unique h⟩

/-- **Requests for other keys do not matter.** In a part of a run that keeps every request that
addresses a key and every reset, the requests that address the key are answered as in the whole run.
Of clients that share a simulator, send no reset and address keys of different services, each is
answered as if it were alone. -/
theorem transcript_nonInterference {ι : Type} [DecidableEq ι] :
    (∀ (rs rs' : List Request) (k : Key), rs'.Sublist rs →
      (rs.filter fun r => Concerns k r).Sublist rs' →
      (transcript id .empty rs').filter (fun e => Addresses e.1 k) =
        (transcript id .empty rs).filter fun e => Addresses e.1 k) ∧
    ∀ es : List (ι × Request), (∀ e ∈ es, ¬Resets e.2) →
      (∀ e ∈ es, ∀ e' ∈ es, ∀ k k', Addresses e.2 k → Addresses e'.2 k' →
        k.service = k'.service → e.1 = e'.1) →
      ∀ i, (transcript (·.2) .empty es).filter (fun e => e.1.1 = i) =
        transcript (·.2) .empty (es.filter fun e => e.1 = i) := by
  constructor
  · intro rs rs' k hsub hkeep
    have hfilter : (rs'.filter fun r => Concerns k r) = rs.filter fun r => Concerns k r := by
      refine (hsub.filter _).antisymm ?_
      simpa [List.filter_filter] using hkeep.filter fun r => Concerns k r
    rw [filter_transcript_concerns rs', filter_transcript_concerns rs, hfilter]
  · intro es hreset hdisjoint i
    have h := filter_transcript (·.2) (fun k => ∃ e ∈ es, e.1 = i ∧ Addresses e.2 k)
      (fun e : ι × Request => e.1 = i) (fun e => e.1 = i) es ?_ ?_
      (fun k _ => rfl : Store.empty.AgreeOn _ .empty)
    · rw [h, List.filter_eq_self]
      intro e he
      have hmem : e.1 ∈ es.filter fun e => e.1 = i := by
        rw [← map_fst_transcript (fun e : ι × Request => e.2) .empty (es.filter _)]
        exact List.mem_map_of_mem he
      simpa using (List.mem_filter.1 hmem).2
    · intro e he hne
      refine ⟨hreset e he, ?_⟩
      rintro k hk ⟨e', he', rfl, hk'⟩
      exact of_decide_eq_false hne (hdisjoint e he e' he' k k hk hk' rfl)
    · intro e he hi
      exact ⟨hi, fun k hk => ⟨e, he, of_decide_eq_true hi, hk⟩⟩

/-- Two clients, one of which arms a failure of its secret while the other reads its own. -/
theorem transcript_nonInterference_two_clients :
    let arm : Request := ⟨.post, "/control/fail-next",
      Text.Utf8.bytes "\x7b\"service\":\"a\",\"item\":\"eab\",\"count\":2\x7d"⟩
    let first : Request := ⟨.get, "/v1/secret/data/bootroot/services/%61/eab", []⟩
    let second : Request := ⟨.head, "/v1/secret/data/bootroot/services/b/eab", []⟩
    let es := [(true, arm), (false, second), (true, first), (false, second)]
    (transcript id .empty [arm, first]).filter (fun e => Addresses e.1 ⟨"a", .eab⟩) =
        (transcript id .empty [arm, second, first, second]).filter
          (fun e => Addresses e.1 ⟨"a", .eab⟩) ∧
      (transcript (·.2) .empty es).filter (fun e => e.1.1 = true) =
        transcript (·.2) .empty (es.filter fun e => e.1 = true) := by
  intro arm first second es
  have hkeys : ∀ e ∈ es, ∀ e' ∈ es, ∀ k ∈ (demand e.2).key?, ∀ k' ∈ (demand e'.2).key?,
      k.service = k'.service → e.1 = e'.1 := by decide +kernel
  obtain ⟨hkey, hclients⟩ := @transcript_nonInterference Bool _
  refine ⟨hkey [arm, second, first, second] [arm, first] ⟨"a", .eab⟩ (by decide +kernel)
    (by decide +kernel), hclients es (by decide +kernel) ?_ true⟩
  intro e he e' he' k k' hk hk'
  exact hkeys e he e' he' k (addresses_iff.1 hk) k' (addresses_iff.1 hk')

end Simulator

end CredentialBench
