import RitCoin.Model.Orphan

/-!
# The tx message

The handler of `tx` in `messages.cpp`: the transaction goes to the memory pool, and with it the orphans that were
waiting for it. What `AcceptToMemoryPool` throws leaves the handler at once.
-/

namespace RitCoin.Model
open Lib Std

def MAX_ORPHAN_TRANSACTIONS : Nat := MAX_BLOCK_SIZE / 100

structure TxWork where
  node : Node
  pool : OrphanPool
  vWorkQueue : List Uint256
  vEraseQueue : List Uint256
  i : Nat

section
variable (P : Primitives) (C : Crypto) (fTestNet : Bool) (layout : Layout)

namespace TxWork

def accepted (work : TxWork) (mempool : CTxMemPool) (hash : Uint256) : TxWork :=
  { work with
    node := { work.node with mempool := mempool }
    vWorkQueue := work.vWorkQueue ++ [hash]
    vEraseQueue := work.vEraseQueue ++ [hash] }

def offer (work : TxWork) (tx : CTransaction) : Except (Failure × TxWork) TxWork :=
  match CTxMemPool.accept P C fTestNet work.node tx true with
  | .ok mempool => pure (work.accepted mempool (P.hashTx tx))
  | .error ⟨.reject _ _, fMissingInputs2⟩ =>
    if ¬ fMissingInputs2 then pure { work with vEraseQueue := work.vEraseQueue ++ [P.hashTx tx] }
    else pure work
  | .error ⟨failure, _⟩ => throw (failure, work)

def tryOrphan (work : TxWork) (entry : Uint256 × Pointer) : Except (Failure × TxWork) TxWork := do
  let tx ← (work.pool.load layout entry.2).mapError (·, work)
  work.offer P C fTestNet tx

def lookUp (work : TxWork) (hashPrev : Uint256) : TxWork :=
  { work with pool.mapOrphanTransactionsByPrev := work.pool.mapOrphanTransactionsByPrev.touch hashPrev }

def processQueue : Nat → TxWork → Except (Failure × TxWork) TxWork
  | 0, work => pure work
  | fuel + 1, work =>
    match work.vWorkQueue[work.i]? with
    | none => pure work
    | some hashPrev => do
        let after ← (work.pool.mapOrphanTransactionsByPrev.bucket hashPrev).toList.foldlM
          (tryOrphan P C fTestNet layout) (work.lookUp hashPrev)
        processQueue fuel { after with i := after.i + 1 }

end TxWork

structure TxOutcome where
  failure : Option Failure
  work : TxWork

def eraseOrphans (hashes : List Uint256) (pool : OrphanPool) : Check OrphanPool :=
  hashes.foldlM (fun pool hash => pool.eraseOrphanTx layout hash) pool

/-- The handler once the transaction is in the pool. Only stored orphans follow it into `vWorkQueue`, each of them
once, so there are as many rounds at most. -/
def processAccepted (work : TxWork) : TxOutcome :=
  match work.processQueue P C fTestNet layout (work.pool.mapOrphanTransactions.size + 2) with
  | .error (failure, work) => ⟨some failure, work⟩
  | .ok work =>
    match eraseOrphans layout work.vEraseQueue work.pool with
    | .error failure => ⟨some failure, work⟩
    | .ok pool => ⟨none, { work with pool := pool }⟩

def storeOrphan (address : Pointer) (getRandHash : Nat → Uint256) (vMsg : CDataStream) (pool : OrphanPool) :
    Check OrphanPool := do
  let (_, pool) ← pool.addOrphanTx P layout address vMsg
  let (_, pool) ← pool.limitOrphanTxSize layout MAX_ORPHAN_TRANSACTIONS getRandHash
  pure pool

def processTx (address : Pointer) (getRandHash : Nat → Uint256) (node : Node) (pool : OrphanPool)
    (vRecv : CDataStream) : TxOutcome :=
  let work : TxWork := ⟨node, pool, [], [], 0⟩
  match parseTx layout vRecv with
  | .error failure => ⟨some failure, work⟩
  | .ok tx =>
    match CTxMemPool.accept P C fTestNet node tx true with
    | .ok mempool => processAccepted P C fTestNet layout (work.accepted mempool (P.hashTx tx))
    | .error ⟨.reject _ _, fMissingInputs⟩ =>
      if fMissingInputs then
        match storeOrphan P layout address getRandHash vRecv pool with
        | .error failure => ⟨some failure, work⟩
        | .ok pool => ⟨none, { work with pool := pool }⟩
      else ⟨none, work⟩
    | .error ⟨failure, _⟩ => ⟨some failure, work⟩

end

structure TxMessage where
  node : Node
  vRecv : CDataStream
  address : Pointer
  getRandHash : Nat → Uint256

section
variable (P : Primitives) (C : Crypto) (fTestNet : Bool) (layout : Layout)

def handled (pool : OrphanPool) (message : TxMessage) : TxOutcome :=
  processTx P C fTestNet layout message.address message.getRandHash message.node pool message.vRecv

def txRun (messages : List TxMessage) : OrphanPool :=
  messages.foldl (fun pool message => (handled P C fTestNet layout pool message).work.pool) .empty

end

end RitCoin.Model
