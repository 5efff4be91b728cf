import CredentialBench.Dictionary
import CredentialBench.Secret.Key

/-!
# The versioned store

Each key has two counters: the version that a read serves, and the number of reads that still
fail. A key that no control call has named reads at its defaults, version one and no failures, and
a read never makes it a tracked key. `state_setVersion`, `state_failNext`, `state_read` and
`state_reset` say what each operation does to the counters of every key.
-/

namespace CredentialBench

open Secret

/-- The counters of one key. -/
structure Counters where
  version : Positive
  pending : Nat
  deriving DecidableEq

/-- The counters of a key that no control call has named. -/
def Counters.initial : Counters := ⟨.one, 0⟩

/-- What a read comes to. -/
inductive Outcome
  /-- An armed failure took the read; so many are left. -/
  | fail (remaining : Nat)
  /-- The read serves this version. -/
  | serve (version : Positive)
  deriving DecidableEq

/-- The counters of every key that a control call has named. -/
structure Store where
  tracked : Dictionary Key Counters

namespace Store

/-- No key is tracked. -/
def empty : Store := ⟨.empty⟩

/-- The counters of a key. -/
def state (s : Store) (k : Key) : Counters := (s.tracked.get? k).getD .initial

/-- The number of tracked keys. -/
def trackedKeys (s : Store) : Nat := s.tracked.size

/-- The store with the key's version overwritten; its pending failures stay. -/
def setVersion (s : Store) (k : Key) (version : Positive) : Store :=
  ⟨s.tracked.insert k { s.state k with version }⟩

/-- The store with the key's pending failures overwritten; its version stays. -/
def failNext (s : Store) (k : Key) (count : Positive) : Store :=
  ⟨s.tracked.insert k { s.state k with pending := count.val }⟩

/-- One read: a pending failure is used up, or the version is served and nothing changes. -/
def read (s : Store) (k : Key) : Outcome × Store :=
  let c := s.state k
  match c.pending with
  | 0 => (.serve c.version, s)
  | n + 1 => (.fail n, ⟨s.tracked.insert k { c with pending := n }⟩)

/-- No key is tracked any more. -/
def reset (_ : Store) : Store := empty

@[simp] theorem state_empty (k : Key) : empty.state k = .initial := rfl

@[simp] theorem state_setVersion (s : Store) (k k' : Key) (v : Positive) :
    (s.setVersion k v).state k' =
      if k' = k then { s.state k with version := v } else s.state k' := by
  by_cases h : k' = k <;> simp [state, setVersion, h]

@[simp] theorem state_failNext (s : Store) (k k' : Key) (c : Positive) :
    (s.failNext k c).state k' =
      if k' = k then { s.state k with pending := c.val } else s.state k' := by
  by_cases h : k' = k <;> simp [state, failNext, h]

theorem read_eq_serve {s : Store} {k : Key} (h : (s.state k).pending = 0) :
    s.read k = (.serve (s.state k).version, s) := by
  simp [read, h]

theorem read_eq_fail {s : Store} {k : Key} {n : Nat} (h : (s.state k).pending = n + 1) :
    s.read k = (.fail n, ⟨s.tracked.insert k { s.state k with pending := n }⟩) := by
  simp [read, h]

theorem fst_read (s : Store) (k : Key) :
    (s.read k).1 =
      if 0 < (s.state k).pending then .fail ((s.state k).pending - 1)
      else .serve (s.state k).version := by
  cases h : (s.state k).pending with
  | zero => rw [read_eq_serve h, if_neg (by omega)]
  | succ n => rw [read_eq_fail h, if_pos (by omega), Nat.add_sub_cancel]

theorem state_read (s : Store) (k k' : Key) :
    (s.read k).2.state k' =
      if k' = k then { s.state k with pending := (s.state k).pending - 1 } else s.state k' := by
  cases h : (s.state k).pending with
  | zero =>
    rw [read_eq_serve h]
    by_cases hk : k' = k
    · subst hk
      rw [if_pos rfl, Nat.zero_sub, ← h]
    · rw [if_neg hk]
  | succ n =>
    rw [read_eq_fail h, state]
    by_cases hk : k' = k <;> simp [hk, state]

theorem mem_keys_of_pending {s : Store} {k : Key} (h : (s.state k).pending ≠ 0) :
    k ∈ s.tracked.keys := by
  cases hg : s.tracked.get? k with
  | none => simp [state, hg, Counters.initial] at h
  | some c => exact Dictionary.mem_keys_of_get? hg

/-- A read tracks no new key: a key that has failures left is tracked already. -/
theorem keys_read (s : Store) (k : Key) : (s.read k).2.tracked.keys = s.tracked.keys := by
  cases h : (s.state k).pending with
  | zero => rw [read_eq_serve h]
  | succ n => rw [read_eq_fail h, Dictionary.keys_insert, if_pos (mem_keys_of_pending (by omega))]

theorem trackedKeys_read (s : Store) (k : Key) : (s.read k).2.trackedKeys = s.trackedKeys := by
  simp only [trackedKeys, Dictionary.size_eq_length_keys, keys_read]

@[simp] theorem state_reset (s : Store) (k : Key) : s.reset.state k = .initial := rfl

end Store

end CredentialBench
