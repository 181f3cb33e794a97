import RitCoin.Lib.Outcome

/-!
# Write batches over an ordered map

A batch is a list of puts and deletes, oldest first. Scanning it for a key from the oldest to the
newest operation gives what the key holds once the batch has been replayed on the map.
-/

namespace RitCoin.Lib
open Std

inductive BatchOp (K V : Type) where
  | put (key : K) (value : V)
  | delete (key : K)
deriving DecidableEq, Repr

variable {K V : Type} [Ord K] [TransOrd K]

theorem contains_eq_false {store : ExtTreeMap K V} {key : K} :
    store.contains key = false ↔ store[key]? = none := by
  rw [ExtTreeMap.contains_eq_isSome_getElem?, Option.isSome_eq_false_iff, Option.isNone_iff_eq_none]

theorem contains_eq_true {store : ExtTreeMap K V} {key : K} :
    store.contains key = true ↔ ∃ value, store[key]? = some value := by
  rw [ExtTreeMap.contains_eq_isSome_getElem?, Option.isSome_iff_exists]

def BatchOp.replay (store : ExtTreeMap K V) : BatchOp K V → ExtTreeMap K V
  | .put key value => store.insert key value
  | .delete key => store.erase key

def replayBatch (store : ExtTreeMap K V) (batch : List (BatchOp K V)) : ExtTreeMap K V :=
  batch.foldl BatchOp.replay store

@[simp] theorem replayBatch_nil (store : ExtTreeMap K V) : replayBatch store [] = store := rfl

theorem replayBatch_append (store : ExtTreeMap K V) (batch more : List (BatchOp K V)) :
    replayBatch store (batch ++ more) = replayBatch (replayBatch store batch) more := by
  simp [replayBatch]

/-- What the scan has seen of the key: nothing, a delete, or a put and its value. -/
def BatchOp.scan [DecidableEq K] (needle : K) (seen : Option (Option V)) :
    BatchOp K V → Option (Option V)
  | .put key value => if key = needle then some (some value) else seen
  | .delete key => if key = needle then some none else seen

def scanOps [DecidableEq K] (needle : K) (batch : List (BatchOp K V)) : Option (Option V) :=
  batch.foldl (BatchOp.scan needle) none

variable [LawfulEqOrd K]

theorem getElem?_replayBatch [DecidableEq K] (store : ExtTreeMap K V)
    (batch : List (BatchOp K V)) (key : K) :
    (replayBatch store batch)[key]? = (scanOps key batch).getD store[key]? := by
  induction batch using List.reverseRecOn with
  | nil => rfl
  | append_singleton batch op ih =>
    rw [replayBatch_append]
    simp only [scanOps, List.foldl_append, List.foldl_cons, List.foldl_nil] at ih ⊢
    cases op with
    | put k v =>
      by_cases h : k = key <;>
        simp [replayBatch, BatchOp.replay, BatchOp.scan, ExtTreeMap.getElem?_insert, h] at ih ⊢
      exact ih
    | delete k =>
      by_cases h : k = key <;>
        simp [replayBatch, BatchOp.replay, BatchOp.scan, ExtTreeMap.getElem?_erase, h] at ih ⊢
      exact ih

end RitCoin.Lib
