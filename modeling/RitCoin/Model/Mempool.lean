import RitCoin.Model.Chain
import RitCoin.Model.Solver

/-!
# The memory pool

`CTxMemPool` of `base/mempool.cpp`, with the rules of `base/transaction.cpp` that only loose
transactions have to meet.
-/

namespace RitCoin.Model
open Lib Std TxnOutType

namespace CTransaction

def isStandard (tx : CTransaction) : Bool :=
  tx.vin.all (fun txin => decide (txin.scriptSig.length ≤ 500) && isPushOnly txin.scriptSig)
    && tx.vout.all (fun txout => (isStandardScript txout.scriptPubKey).1)
    && decide ((tx.vout.filter fun txout =>
      (isStandardScript txout.scriptPubKey).2 = TX_NULL_DATA).length ≤ 1)

def subscriptArgs (stack : Stack) : Option Int :=
  match stack with
  | [] => none
  | subscript :: _ =>
    let solved := solver subscript
    let tmpExpected := scriptSigArgsExpected solved.typeRet solved.vSolutionsRet
    if ¬ solved.matched ∨ solved.typeRet = TX_SCRIPTHASH ∨ tmpExpected < 0 then none
    else some tmpExpected

def isInputStandard (C : Crypto) (tx : CTransaction) (mapInputs : MapPrevTx) (item : CTxIn × Nat) :
    Check Bool := do
  let prev ← getOutputFor item.1 mapInputs
  let solved := solver prev.scriptPubKey
  let nArgsExpected := scriptSigArgsExpected solved.typeRet solved.vSolutionsRet
  if ¬ solved.matched ∨ nArgsExpected < 0 then pure false
  else
    match (callEvalScript C (checkSig C tx item.2 0) [] item.1.scriptSig).result with
    | .error _ => throw (.stop .outOfRange)
    | .ok none => pure false
    | .ok (some stack) =>
      if solved.typeRet = TX_SCRIPTHASH then
        match subscriptArgs stack with
        | none => pure false
        | some tmpExpected => pure (decide ((stack.length : Int) = nArgsExpected + tmpExpected))
      else pure (decide ((stack.length : Int) = nArgsExpected))

def areInputsStandard (C : Crypto) (tx : CTransaction) (mapInputs : MapPrevTx) : Check Bool :=
  if tx.isCoinBase then pure true
  else tx.vin.zipIdx.allM (isInputStandard C tx mapInputs)

def checkLoose (fTestNet : Bool) (tx : CTransaction) : Check Unit := do
  tx.checkTransaction.mapError (Failure.caller id "CTxMemPool::accept() : CheckTransaction failed")
  failIf tx.isCoinBase (DoS 100 "CTxMemPool::accept() : coinbase as individual tx")
  failIf (tx.nLockTime > 0x7fffffff)
    (error "CTxMemPool::accept() : not accepting nLockTime beyond 2038 yet")
  failIf (¬ fTestNet ∧ ¬ tx.isStandard) (error "CTxMemPool::accept() : nonstandard transaction type")

def connectLoose (P : Primitives) (C : Crypto) (fTestNet : Bool) (node : Node) (tx : CTransaction)
    (mapInputs : MapPrevTx) : Check Unit := do
  let standard ← tx.areInputsStandard C mapInputs
  failIf (¬ standard ∧ ¬ fTestNet) (error "CTxMemPool::accept() : nonstandard transaction input")
  let nValueIn ← tx.getValueIn mapInputs
  let nValueOut ← tx.getValueOut
  failIf (nValueIn - nValueOut < tx.getMinFee) (error "CTxMemPool::accept() : not enough fees")
  let pindexBest ← node.mapBlockIndex.deref node.pindexBest
  let _ ← (tx.connectInputs P node mapInputs ∅ ⟨1, 1, 1⟩ pindexBest false false true).mapError
    (Failure.caller id "CTxMemPool::accept() : ConnectInputs failed %s")

end CTransaction

structure AcceptFailure where
  failure : Failure
  fMissingInputs : Bool
deriving DecidableEq, Repr

def AcceptFailure.ofFetch (failed : FetchFailure) : AcceptFailure :=
  if failed.fInvalid then
    ⟨failed.failure.caller id "CTxMemPool::accept() : FetchInputs found invalid tx %s", false⟩
  else ⟨failed.failure.caller id "CTxMemPool::accept() : FetchInputs failed %s", true⟩

namespace CTxMemPool

def addUnchecked (P : Primitives) (mempool : CTxMemPool) (tx : CTransaction) : CTxMemPool :=
  let hash := P.hashTx tx
  { mapTx := mempool.mapTx.insert hash tx
    mapNextTx := tx.vin.zipIdx.foldl (fun next item => next.insert item.1.prevout (hash, item.2))
      mempool.mapNextTx }

def conflicts (mempool : CTxMemPool) (tx : CTransaction) : Bool :=
  tx.vin.any fun txin => mempool.mapNextTx.contains txin.prevout

def accept (P : Primitives) (C : Crypto) (fTestNet : Bool) (node : Node) (tx : CTransaction)
    (fCheckInputs : Bool) : Except AcceptFailure CTxMemPool := do
  let txdb := node.pdb.open
  let hash := P.hashTx tx
  (tx.checkLoose fTestNet).mapError (⟨·, false⟩)
  failIf (node.mempool.mapTx.contains hash) ⟨.reject 0 [], false⟩
  failIf (fCheckInputs ∧ txdb.containsTx hash) ⟨.reject 0 [], false⟩
  failIf (node.mempool.conflicts tx) ⟨.reject 0 [], false⟩
  if fCheckInputs then
    let mapInputs ← (tx.fetchInputs node txdb ∅ false false).mapError AcceptFailure.ofFetch
    (tx.connectLoose P C fTestNet node mapInputs).mapError (⟨·, false⟩)
  pure (node.mempool.addUnchecked P tx)

end CTxMemPool

inductive PoolEvent
  | accept (tx : CTransaction) (fCheckInputs : Bool)
  | remove (tx : CTransaction)
  | block (now : Int) (block : CBlock)

def PoolEvent.txs : PoolEvent → List CTransaction
  | .accept tx _ | .remove tx => [tx]
  | .block _ received => received.vtx

def Node.handle (P : Primitives) (C : Crypto) (fTestNet : Bool) (node : Node) : PoolEvent → Node
  | .accept tx fCheckInputs =>
    match CTxMemPool.accept P C fTestNet node tx fCheckInputs with
    | .error _ => node
    | .ok mempool => { node with mempool := mempool }
  | .remove tx => { node with mempool := node.mempool.remove P tx }
  | .block now block => (processBlock P now node block).2

def poolRun (P : Primitives) (C : Crypto) (fTestNet : Bool) (events : List PoolEvent) : Node :=
  events.foldl (Node.handle P C fTestNet) (genesisNode P)

end RitCoin.Model
