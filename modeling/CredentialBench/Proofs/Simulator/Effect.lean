import CredentialBench.Proofs.Simulator.Demand

/-!
# The effect of a request

A request that is refused leaves the store as it was; of the others each has an effect on at most
one counter, the one it names. `respond_effect` goes through the five statuses that a response can
have, and says for each which requests get it and what becomes of the store.
-/

namespace CredentialBench

open Secret

/-- One key has the counters given; every other key has those that it had before. -/
structure Store.ChangedAt (s : Store) (k : Key) (c : Counters) (s' : Store) : Prop where
  at_key : s'.state k = c
  elsewhere : ∀ k', k' ≠ k → s'.state k' = s.state k'

namespace Store

variable (s : Store) (k : Key)

theorem changedAt_setVersion (v : Positive) :
    s.ChangedAt k { s.state k with version := v } (s.setVersion k v) :=
  ⟨by simp, fun k' h => by simp [h]⟩

theorem changedAt_failNext (c : Positive) :
    s.ChangedAt k { s.state k with pending := c.val } (s.failNext k c) :=
  ⟨by simp, fun k' h => by simp [h]⟩

theorem changedAt_read :
    s.ChangedAt k { s.state k with pending := (s.state k).pending - 1 } (s.read k).2 :=
  ⟨by simp [state_read], fun k' h => by simp [state_read, h]⟩

/-- A control call tracks the key that it names. -/
theorem trackedKeys_apply (c : Control.Command) :
    (s.apply c).trackedKeys =
      if c.key ∈ s.tracked.keys then s.trackedKeys else s.trackedKeys + 1 := by
  have hins : ∀ c', (s.tracked.insert c.key c').size =
      if c.key ∈ s.tracked.keys then s.tracked.size else s.tracked.size + 1 := by
    intro c'
    simp only [Dictionary.size_eq_length_keys, Dictionary.keys_insert]
    split <;> simp
  cases c <;> exact hins _

end Store

namespace Simulator

open Http

/-- **All or nothing.** A response has one of five statuses. With 400, 404 and 413 the store is as
it was. With 500 an armed failure of the secret that was asked for is used up, and nothing else is
touched. With 200 a login, a question for the health and a read change nothing; a control call
overwrites its own counter of the key that it names and keeps the other; a reset puts every key
back to its defaults. -/
theorem respond_effect (s : Store) (r : Request) :
    ((respond s r).1.status = 400 ∧ (respond s r).2 = s ∧
        ∃ kind p, Controls r kind ∧ r.body.length ≤ maxBody ∧
          Control.Command.ofBytes kind r.body = .error p) ∨
      ((respond s r).1.status = 404 ∧ (respond s r).2 = s ∧ Unserved r) ∨
      ((respond s r).1.status = 413 ∧ (respond s r).2 = s ∧
        ∃ kind, Controls r kind ∧ maxBody < r.body.length) ∨
      ((respond s r).1.status = 500 ∧ ∃ k, Reads r k ∧ 0 < (s.state k).pending ∧
        s.ChangedAt k { s.state k with pending := (s.state k).pending - 1 } (respond s r).2 ∧
        (respond s r).2.trackedKeys = s.trackedKeys) ∨
      ((respond s r).1.status = 200 ∧
        ((AsksLogin r ∨ AsksHealth r ∨ ∃ k, Reads r k ∧ (s.state k).pending = 0) ∧
            (respond s r).2 = s ∨
          (∃ k v, Commands r (.setVersion k v) ∧
            s.ChangedAt k { s.state k with version := v } (respond s r).2 ∧
            (respond s r).2.trackedKeys =
              if k ∈ s.tracked.keys then s.trackedKeys else s.trackedKeys + 1) ∨
          (∃ k c, Commands r (.failNext k c) ∧
            s.ChangedAt k { s.state k with pending := c.val } (respond s r).2 ∧
            (respond s r).2.trackedKeys =
              if k ∈ s.tracked.keys then s.trackedKeys else s.trackedKeys + 1) ∨
          (Resets r ∧ (∀ k, (respond s r).2.state k = ⟨.one, 0⟩) ∧
            (respond s r).2.trackedKeys = 0))) := by
  rw [respond_eq]
  simp only [status_deliver]
  have h := makes_demand r
  generalize demand r = d at h
  cases h with
  | rejected h hl hp => exact .inl ⟨rfl, rfl, _, _, h, hl, hp⟩
  | notFound h => exact .inr (.inl ⟨rfl, rfl, h⟩)
  | tooLarge h hl => exact .inr (.inr (.inl ⟨rfl, rfl, _, h, hl⟩))
  | @read k h =>
    cases hp : (s.state k).pending with
    | zero =>
      have hread := Store.read_eq_serve hp
      refine .inr (.inr (.inr (.inr ⟨?_, .inl ⟨.inr (.inr ⟨k, h, hp⟩), ?_⟩⟩)))
      · simp [Demand.answer, hread]
      · simp [Demand.after, hread]
    | succ n =>
      have hread := Store.read_eq_fail hp
      refine .inr (.inr (.inr (.inl
        ⟨?_, k, h, by omega, s.changedAt_read k, s.trackedKeys_read k⟩)))
      simp [Demand.answer, hread, Refusal.status]
  | login h => exact .inr (.inr (.inr (.inr ⟨rfl, .inl ⟨.inl h, rfl⟩⟩)))
  | health h => exact .inr (.inr (.inr (.inr ⟨rfl, .inl ⟨.inr (.inl h), rfl⟩⟩)))
  | @command c h =>
    refine .inr (.inr (.inr (.inr ⟨rfl, .inr ?_⟩)))
    cases c with
    | setVersion k v => exact .inl ⟨k, v, h, s.changedAt_setVersion k v, s.trackedKeys_apply _⟩
    | failNext k c =>
      exact .inr (.inl ⟨k, c, h, s.changedAt_failNext k c, s.trackedKeys_apply _⟩)
  | reset h =>
    exact .inr (.inr (.inr (.inr ⟨rfl, .inr (.inr (.inr ⟨h, fun _ => rfl, rfl⟩))⟩)))

end Simulator

end CredentialBench
