import RitCoin.Lib.Outcome

/-!
# Sets that keep the most recent elements

`mruset` of `mruset.h`: a set together with the queue of its elements, oldest first.
-/

namespace RitCoin.Model
open Std

structure Mruset (α : Type) [Ord α] where
  set : ExtTreeSet α
  queue : List α
  nMaxSize : Nat

namespace Mruset
variable {α : Type} [Ord α] [TransOrd α]

def empty (nMaxSizeIn : Nat) : Mruset α := ⟨∅, [], nMaxSizeIn⟩

def count (m : Mruset α) (k : α) : Bool := m.set.contains k

def insert (m : Mruset α) (x : α) : Mruset α × Bool :=
  if m.set.contains x then (m, false)
  else
    let set := m.set.insert x
    match m.queue with
    | front :: rest =>
      if m.nMaxSize ≠ 0 ∧ m.queue.length = m.nMaxSize then
        ({ m with set := set.erase front, queue := rest ++ [x] }, true)
      else ({ m with set := set, queue := m.queue ++ [x] }, true)
    | [] => ({ m with set := set, queue := [x] }, true)

def evict (s : Nat) : ExtTreeSet α → List α → ExtTreeSet α × List α
  | set, [] => (set, [])
  | set, front :: rest =>
    if s ≤ rest.length + 1 then evict s (set.erase front) rest else (set, front :: rest)

def maxSize (m : Mruset α) (s : Nat) : Mruset α :=
  if s = 0 then { m with nMaxSize := s }
  else
    let kept := evict s m.set m.queue
    ⟨kept.1, kept.2, s⟩

inductive Call (α : Type)
  | insert (x : α)
  | maxSize (s : Nat)

def call (m : Mruset α) : Call α → Mruset α
  | .insert x => (m.insert x).1
  | .maxSize s => m.maxSize s

def run (nMaxSizeIn : Nat) (calls : List (Call α)) : Mruset α := calls.foldl call (empty nMaxSizeIn)

end Mruset

end RitCoin.Model
