import CredentialBench.Store
import Mathlib.Data.Finset.Option
import Mathlib.Data.List.DropRight

/-!
# Histories of the store

The store keeps no record of what was done to it, yet its counters can be read off such a record.
`Store.run` performs a list of operations on the empty store, and of that list only the part after
the last reset matters (`sinceReset`):

* the version of a key is the last one set (`lastVersion`);
* its pending failures are the last count armed, less the reads of the key since (`pending`);
* the tracked keys are those that a control call has named (`namedKeys`).

`reflects_run` is the invariant, `run_eq_history` the closed form.
-/

namespace CredentialBench.Store

open Secret

/-- An operation on a store. -/
inductive Operation
  | setVersion (k : Key) (version : Positive)
  | failNext (k : Key) (count : Positive)
  | read (k : Key)
  | state (k : Key)
  | reset
  deriving DecidableEq

/-- The store after an operation. -/
def step (s : Store) : Operation → Store
  | .setVersion k v => s.setVersion k v
  | .failNext k c => s.failNext k c
  | .read k => (s.read k).2
  | .state _ => s
  | .reset => s.reset

/-- The store after some operations on the empty one. -/
def run (ops : List Operation) : Store := ops.foldl step empty

theorem run_concat (ops : List Operation) (op : Operation) :
    run (ops ++ [op]) = (run ops).step op := by
  simp [run]

/-! ## Reading a history -/

namespace Operation

/-- The version that an operation sets for a key. -/
def versionFor? (k : Key) : Operation → Option Positive
  | setVersion k' v => if k' = k then some v else none
  | _ => none

/-- The count of failures that an operation arms for a key. -/
def countFor? (k : Key) : Operation → Option Positive
  | failNext k' c => if k' = k then some c else none
  | _ => none

/-- The key that an operation makes a tracked one. -/
def named? : Operation → Option Key
  | setVersion k _ | failNext k _ => some k
  | _ => none

end Operation

/-- The operations after the last reset. -/
def sinceReset (ops : List Operation) : List Operation := ops.rtakeWhile fun op => op ≠ .reset

/-- The last version set for a key, one if there is none. -/
def lastVersion (ops : List Operation) (k : Key) : Positive :=
  (ops.filterMap (Operation.versionFor? k)).getLast?.getD .one

/-- The number of reads of a key after its failures were last armed. -/
def readsSinceArmed (ops : List Operation) (k : Key) : Nat :=
  (ops.rtakeWhile fun op => (op.countFor? k).isNone).count (.read k)

/-- The last count of failures armed for a key less the reads since, and zero if there is none. -/
def pending (ops : List Operation) (k : Key) : Nat :=
  match (ops.filterMap (Operation.countFor? k)).getLast? with
  | none => 0
  | some c => c.val - readsSinceArmed ops k

/-- The keys that control calls have named. -/
def namedKeys (ops : List Operation) : Finset Key := (ops.filterMap Operation.named?).toFinset

variable {ops : List Operation} {k : Key}

theorem sinceReset_reset (ops : List Operation) : sinceReset (ops ++ [.reset]) = [] :=
  List.rtakeWhile_concat_neg _ _ _ (by simp)

theorem sinceReset_concat (ops : List Operation) {op : Operation} (h : op ≠ .reset) :
    sinceReset (ops ++ [op]) = sinceReset ops ++ [op] :=
  List.rtakeWhile_concat_pos _ _ _ (by simpa using h)

theorem lastVersion_concat (ops : List Operation) (op : Operation) (k : Key) :
    lastVersion (ops ++ [op]) k = (op.versionFor? k).getD (lastVersion ops k) := by
  cases h : op.versionFor? k <;> simp [lastVersion, h]

theorem pending_concat_of_arms (ops : List Operation) {op : Operation} {c : Positive}
    (h : op.countFor? k = some c) : pending (ops ++ [op]) k = c.val := by
  have hreads : readsSinceArmed (ops ++ [op]) k = 0 := by
    rw [readsSinceArmed, List.rtakeWhile_concat_neg _ _ _ (by simp [h])]
    rfl
  simp [pending, h, hreads]

theorem pending_concat (ops : List Operation) {op : Operation} (h : op.countFor? k = none) :
    pending (ops ++ [op]) k = pending ops k - if op = .read k then 1 else 0 := by
  have hreads : readsSinceArmed (ops ++ [op]) k =
      readsSinceArmed ops k + if op = .read k then 1 else 0 := by
    rw [readsSinceArmed, List.rtakeWhile_concat_pos _ _ _ (by simp [h]), List.count_append,
      List.count_singleton, readsSinceArmed]
    simp only [beq_iff_eq]
  simp only [pending, List.filterMap_append, List.filterMap_cons, h, List.filterMap_nil,
    List.append_nil, hreads]
  split <;> omega

theorem namedKeys_concat (ops : List Operation) (op : Operation) :
    namedKeys (ops ++ [op]) = namedKeys ops ∪ op.named?.toFinset := by
  cases h : op.named? <;> ext <;> simp [namedKeys, h]

/-! ## The invariant -/

/-- The store has exactly the counters and the tracked keys that a history tells. -/
structure Reflects (s : Store) (ops : List Operation) : Prop where
  state_eq : ∀ k, s.state k = ⟨lastVersion ops k, pending ops k⟩
  keys_eq : s.tracked.keys.toFinset = namedKeys ops

theorem reflects_empty : Reflects empty [] := ⟨fun _ => rfl, rfl⟩

/-- The keys after a control call for a key. -/
theorem toFinset_keys_insert (s : Store) (k : Key) (c : Counters) :
    (s.tracked.insert k c).keys.toFinset = s.tracked.keys.toFinset ∪ {k} := by
  rw [Dictionary.keys_insert]
  split
  · rename_i h
    rw [Finset.union_eq_left.2 (by simpa using h)]
  · simp

/-- An operation other than a reset adds itself to the history that the store reflects. -/
theorem Reflects.step {s : Store} (h : Reflects s ops) {op : Operation} (hop : op ≠ .reset) :
    Reflects (s.step op) (ops ++ [op]) := by
  constructor
  · intro k
    rw [lastVersion_concat]
    cases op with
    | setVersion k' v =>
      rw [pending_concat ops rfl, Store.step, state_setVersion, h.state_eq k]
      by_cases hk : k = k'
      · simp [Operation.versionFor?, hk, h.state_eq k']
      · simp [Operation.versionFor?, hk, Ne.symm hk]
    | failNext k' c =>
      rw [Store.step, state_failNext, h.state_eq k]
      by_cases hk : k = k'
      · rw [pending_concat_of_arms ops (c := c) (by simp [Operation.countFor?, hk])]
        simp [Operation.versionFor?, hk, h.state_eq k']
      · rw [pending_concat ops (by simp [Operation.countFor?, Ne.symm hk])]
        simp [Operation.versionFor?, hk]
    | read k' =>
      rw [pending_concat ops rfl, Store.step, state_read, h.state_eq k]
      by_cases hk : k = k'
      · simp [Operation.versionFor?, hk, h.state_eq k']
      · simp [Operation.versionFor?, hk, Ne.symm hk]
    | state k' =>
      rw [pending_concat ops rfl, Store.step, h.state_eq k]
      simp [Operation.versionFor?]
    | reset => exact absurd rfl hop
  · rw [namedKeys_concat, ← h.keys_eq]
    cases op with
    | setVersion k' v => exact toFinset_keys_insert s k' _
    | failNext k' c => exact toFinset_keys_insert s k' _
    | read k' => simp [Store.step, keys_read, Operation.named?]
    | state k' => simp [Store.step, Operation.named?]
    | reset => exact absurd rfl hop

/-- After any run the store reflects the operations since the last reset. -/
theorem reflects_run (ops : List Operation) : Reflects (run ops) (sinceReset ops) := by
  induction ops using List.reverseRecOn with
  | nil => exact reflects_empty
  | append_singleton ops op ih =>
    rw [run_concat]
    by_cases h : op = .reset
    · rw [h, sinceReset_reset]
      exact reflects_empty
    · rw [sinceReset_concat ops h]
      exact ih.step h

theorem trackedKeys_eq_card (s : Store) : s.trackedKeys = s.tracked.keys.toFinset.card := by
  have hnd : s.tracked.keys.Nodup := s.tracked.distinct
  rw [List.toFinset_card_of_nodup hnd, trackedKeys, Dictionary.size_eq_length_keys]

/-- **The closed form of a run.** After any operations on the empty store the counters of every
key, the number of tracked keys and the outcome of the next read are those that the operations
since the last reset tell. -/
theorem run_eq_history (ops : List Operation) (k : Key) :
    (run ops).state k = ⟨lastVersion (sinceReset ops) k, pending (sinceReset ops) k⟩ ∧
      (run ops).trackedKeys = (namedKeys (sinceReset ops)).card ∧
      ((run ops).read k).1 =
        if 0 < pending (sinceReset ops) k then .fail (pending (sinceReset ops) k - 1)
        else .serve (lastVersion (sinceReset ops) k) := by
  have h := reflects_run ops
  refine ⟨h.state_eq k, ?_, ?_⟩
  · rw [trackedKeys_eq_card, h.keys_eq]
  · rw [fst_read, h.state_eq k]

end CredentialBench.Store
