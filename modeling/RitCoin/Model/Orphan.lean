import RitCoin.Lib.Buckets
import RitCoin.Model.DataStream
import RitCoin.Model.Mempool

/-!
# Orphan transactions

The maps of `orphan.cpp` with the streams they point to, and the handler of `tx` in `messages.cpp`. A copy of a
stream lives on a heap until it is deleted.
-/

namespace RitCoin.Model
open Lib Std

abbrev Pointer := Nat

abbrev Heap := ExtTreeMap Pointer CDataStream

def Heap.fresh (heap : Heap) (address : Pointer) : Pointer :=
  if heap.contains address then heap.keys.foldl max 0 + 1 else address

structure OrphanPool where
  heap : Heap
  mapOrphanTransactions : ExtTreeMap Uint256 Pointer
  mapOrphanTransactionsByPrev : Buckets Uint256 Uint256 Pointer

namespace OrphanPool

def empty : OrphanPool := ⟨∅, ∅, ∅⟩

end OrphanPool

def parseTx (layout : Layout) (vMsg : CDataStream) : Check CTransaction := do
  let (tx, _) ← CTransaction.unserialize CDataStream.read layout vMsg
  pure tx

namespace OrphanPool
variable (P : Primitives) (layout : Layout)

def load (pool : OrphanPool) (pvMsg : Pointer) : Check CTransaction :=
  match pool.heap[pvMsg]? with
  | none => .error (.stop .nullPointer)
  | some vMsg => parseTx layout vMsg

def addOrphanTx (address : Pointer) (vMsg : CDataStream) (pool : OrphanPool) : Check (Bool × OrphanPool) := do
  let tx ← parseTx layout vMsg
  let hash := P.hashTx tx
  if pool.mapOrphanTransactions.contains hash then pure (false, pool)
  else
    -- a large stream is copied and deleted at once
    if vMsg.size > 5000 then pure (false, pool)
    else
      let pvMsg := pool.heap.fresh address
      pure (true,
        { heap := pool.heap.insert pvMsg vMsg
          mapOrphanTransactions := pool.mapOrphanTransactions.insert hash pvMsg
          mapOrphanTransactionsByPrev := (tx.vin.map fun txin => txin.prevout.hash).foldl
            (fun byPrev prev => byPrev.put prev hash pvMsg) pool.mapOrphanTransactionsByPrev })

def eraseOrphanTx (hash : Uint256) (pool : OrphanPool) : Check OrphanPool :=
  match pool.mapOrphanTransactions[hash]? with
  | none => pure pool
  | some pvMsg => do
      let tx ← pool.load layout pvMsg
      pure
        { heap := pool.heap.erase pvMsg
          mapOrphanTransactions := pool.mapOrphanTransactions.erase hash
          mapOrphanTransactionsByPrev := (tx.vin.map fun txin => txin.prevout.hash).foldl
            (fun byPrev prev => byPrev.drop prev hash) pool.mapOrphanTransactionsByPrev }

def pick (randomhash : Uint256) (pool : OrphanPool) : Option Uint256 :=
  (pool.mapOrphanTransactions.keys.find? fun hash => decide (randomhash ≤ hash)).or
    pool.mapOrphanTransactions.keys.head?

/-- The loop of `LimitOrphanTxSize`. Each round removes an orphan, so their number bounds the rounds. -/
def limitLoop (nMaxOrphans : Nat) (getRandHash : Nat → Uint256) :
    Nat → Nat → OrphanPool → Check (Nat × OrphanPool)
  | 0, nEvicted, pool => pure (nEvicted, pool)
  | fuel + 1, nEvicted, pool =>
    if pool.mapOrphanTransactions.size > nMaxOrphans then
      match pool.pick (getRandHash nEvicted) with
      | none => throw (.stop .nullPointer)
      | some hash => do
          let pool ← pool.eraseOrphanTx layout hash
          limitLoop nMaxOrphans getRandHash fuel (nEvicted + 1) pool
    else pure (nEvicted, pool)

def limitOrphanTxSize (nMaxOrphans : Nat) (getRandHash : Nat → Uint256) (pool : OrphanPool) :
    Check (Nat × OrphanPool) :=
  pool.limitLoop layout nMaxOrphans getRandHash pool.mapOrphanTransactions.size 0

end OrphanPool

inductive OrphanCall
  | add (vMsg : CDataStream) (address : Pointer)
  | erase (hash : Uint256)
  | limit (nMaxOrphans : Nat) (getRandHash : Nat → Uint256)

/-- The pool that a call leaves. A stream without a transaction throws before anything has changed. -/
def OrphanPool.perform (P : Primitives) (layout : Layout) (pool : OrphanPool) : OrphanCall → OrphanPool
  | .add vMsg address =>
    match pool.addOrphanTx P layout address vMsg with
    | .ok (_, after) => after
    | .error _ => pool
  | .erase hash =>
    match pool.eraseOrphanTx layout hash with
    | .ok after => after
    | .error _ => pool
  | .limit nMaxOrphans getRandHash =>
    match pool.limitOrphanTxSize layout nMaxOrphans getRandHash with
    | .ok (_, after) => after
    | .error _ => pool

def orphanRun (P : Primitives) (layout : Layout) (calls : List OrphanCall) : OrphanPool :=
  calls.foldl (OrphanPool.perform P layout) OrphanPool.empty

end RitCoin.Model
