import RitCoin.Model.Transaction

/-!
# Checking and connecting blocks

`CheckBlock` and `ConnectBlock` of `base/block.cpp`.
-/

namespace RitCoin.Model
open Lib Std

/-- `CheckProofOfWork` looks at the range of the target only, not at the hash. -/
def checkProofOfWork (nBits : UInt32) : Check Unit :=
  let bnTarget := setCompact nBits
  failIf (bnTarget ≤ 0 ∨ bnTarget > bnProofOfWorkLimit)
    (error "CheckProofOfWork() : nBits below minimum work")

def merkleLevel (P : Primitives) : List Uint256 → List Uint256
  | [] => []
  | [a] => [P.hashPair a a]
  | a :: b :: rest => P.hashPair a b :: merkleLevel P rest

/-- All levels from `level` up. Each level has at most half the nodes, rounded up, so the number
of leaves bounds the levels. -/
def vMerkleTree (P : Primitives) : Nat → List Uint256 → List Uint256
  | 0, level => level
  | fuel + 1, level =>
    if level.length ≤ 1 then level else level ++ vMerkleTree P fuel (merkleLevel P level)

def CBlock.buildMerkleTree (P : Primitives) (block : CBlock) : Uint256 :=
  (vMerkleTree P block.vtx.length (block.vtx.map P.hashTx)).getLast?.getD 0

def CBlock.checkBlock (P : Primitives) (now : Int) (block : CBlock) : Check Unit := do
  failIf (block.vtx = []) (DoS 100 "CheckBlock() : vtx is empty")
  failIf (block.vtx.length > MAX_BLOCK_SIZE) (DoS 100 "CheckBlock() : vtx over max_block_size")
  failIf (block.getSerializeSize > MAX_BLOCK_SIZE) (DoS 100 "CheckBlock() : size limits failed")
  (checkProofOfWork block.nBits).mapError
    (Failure.caller (fun _ => 50) "CheckBlock() : proof of work failed")
  failIf (block.getBlockTime > now + nMaxClockDrift)
    (error "CheckBlock() : block timestamp too far in the future")
  failIf ((block.vtx.head?.map CTransaction.isCoinBase).getD false = false)
    (DoS 100 "CheckBlock() : first tx is not coinbase")
  failIf (block.vtx.tail.any CTransaction.isCoinBase)
    (DoS 100 "CheckBlock() : more than one coinbase")
  failIf (block.getBlockTime
      > ((block.vtx.head?.map fun tx => (tx.nTime.toNat : Int)).getD 0) + nMaxClockDrift)
    (DoS 50 "CheckBlock() : coinbase timestamp is too early")
  block.vtx.forM fun tx => tx.checkTransaction.mapError
    (Failure.caller id "CheckBlock() : CheckTransaction failed")
  failIf (¬ (block.vtx.map P.hashTx).Nodup) (DoS 100 "CheckBlock() : duplicate transaction")
  failIf ((block.vtx.map CTransaction.getLegacySigOpCount).sum > MAX_BLOCK_SIGOPS)
    (DoS 100 "CheckBlock() : out-of-bounds SigOpCount")
  failIf (block.hashMerkleRoot ≠ block.buildMerkleTree P)
    (DoS 100 "CheckBlock() : hashMerkleRoot mismatch")

/-- What is left to mint. The argument is the supply of `pindexBest`. -/
def getProofOfWorkReward (CMS : Int64) : Int64 :=
  if CMS < MAX_MONEY then MAX_MONEY - CMS else 0

structure ConnectState where
  nTxPos : Nat
  mapQueuedChanges : TxIndexMap
  nValueIn : Int64
  nValueOut : Int64
  nSigOps : Nat

def ConnectState.start (block : CBlock) (pindex : CBlockIndex) : ConnectState :=
  ⟨pindex.nBlockPos + block.txStart, ∅, 0, 0, 0⟩

def tooManySigOps (nSigOps : Nat) : Check Unit :=
  failIf (nSigOps > MAX_BLOCK_SIGOPS) (DoS 100 "ConnectBlock() : too many sigops")

/-- The part of the loop for a transaction that is not the coinbase. `state` already counts the
transaction's own operations and position. -/
def connectSpend (P : Primitives) (node : Node) (txdb : TxDB) (pindex : CBlockIndex)
    (posThisTx : DiskPos) (tx : CTransaction) (state : ConnectState) : Check ConnectState := do
  let mapInputs ← (tx.fetchInputs node txdb state.mapQueuedChanges true false).mapError
    fun failed => failed.failure.silent
  let nP2SH ← tx.getP2SHSigOpCount mapInputs
  let nSigOps := state.nSigOps + nP2SH
  tooManySigOps nSigOps
  let nTxValueIn ← tx.getValueIn mapInputs
  let nTxValueOut ← tx.getValueOut
  let mapQueuedChanges ← (tx.connectInputs P node mapInputs state.mapQueuedChanges posThisTx pindex
    true false true).mapError Failure.silent
  pure { state with
    mapQueuedChanges := mapQueuedChanges
    nValueIn := state.nValueIn + nTxValueIn
    nValueOut := state.nValueOut + nTxValueOut
    nSigOps := nSigOps }

def connectCoinBase (tx : CTransaction) (state : ConnectState) : Check ConnectState := do
  let nValueOut ← tx.getValueOut
  pure { state with nValueOut := state.nValueOut + nValueOut }

def connectValues (P : Primitives) (node : Node) (txdb : TxDB) (pindex : CBlockIndex)
    (posThisTx : DiskPos) (tx : CTransaction) (state : ConnectState) : Check ConnectState :=
  if tx.isCoinBase then connectCoinBase tx state
  else connectSpend P node txdb pindex posThisTx tx state

def unspentDuplicate (txdb : TxDB) (hashTx : Uint256) : Bool :=
  match txdb.readTxIndex hashTx with
  | none => false
  | some txindexOld => txindexOld.vSpent.any Option.isNone

def connectTx (P : Primitives) (node : Node) (txdb : TxDB) (pindex : CBlockIndex)
    (state : ConnectState) (tx : CTransaction) : Check ConnectState := do
  let hashTx := P.hashTx tx
  failIf (unspentDuplicate txdb hashTx) (.reject 0 [])
  let nSigOps := state.nSigOps + tx.getLegacySigOpCount
  tooManySigOps nSigOps
  let posThisTx : DiskPos := ⟨pindex.nFile, pindex.nBlockPos, state.nTxPos⟩
  let state := { state with nTxPos := state.nTxPos + tx.getSerializeSize, nSigOps := nSigOps }
  let state ← connectValues P node txdb pindex posThisTx tx state
  pure { state with
    mapQueuedChanges := state.mapQueuedChanges.insert hashTx (.new posThisTx tx.vout.length) }

def writeQueuedChanges (txdb : TxDB) (mapQueuedChanges : TxIndexMap) : TxDB :=
  mapQueuedChanges.foldl (fun txdb hash txindex => txdb.updateTxIndex hash txindex) txdb

def CBlockIndex.trackSupply (pindex : CBlockIndex) (parent : Option CBlockIndex)
    (state : ConnectState) : CBlockIndex :=
  let nFees : Int64 := 0
  { pindex with
    nMint := state.nValueOut - state.nValueIn + nFees
    nMoneySupply := (parent.map CBlockIndex.nMoneySupply).getD 0 + state.nValueOut - state.nValueIn }

/-- What `ConnectBlock` writes: the entry of the block, the queue, and the parent's entry with the
link to the block, which memory gets later. -/
def writeConnected (P : Primitives) (txdb : TxDB) (block : CBlock) (pindex : CBlockIndex)
    (parent : Option CBlockIndex) (mapQueuedChanges : TxIndexMap) : TxDB :=
  let txdb := writeQueuedChanges (txdb.writeBlockIndex P (.ofIndex pindex)) mapQueuedChanges
  match parent with
  | none => txdb
  | some parent =>
    txdb.writeBlockIndex P { CDiskBlockIndex.ofIndex parent with hashNext := P.getHash block }

def CBlock.coinbaseValue (block : CBlock) : Check Int64 :=
  match block.vtx.head? with
  | some coinbase => coinbase.getValueOut
  | none => throw (.stop .outOfRange)

def connectBlock (P : Primitives) (now : Int) (node : Node) (txdb : TxDB) (block : CBlock)
    (pindex : CBlockIndex) : Check (TxDB × CBlockIndex) := do
  block.checkBlock P now
  let state ← block.vtx.foldlM (connectTx P node txdb pindex) (.start block pindex)
  let nReward ← block.coinbaseValue
  let tip ← node.mapBlockIndex.deref node.pindexBest
  failIf (nReward > getProofOfWorkReward tip.nMoneySupply)
    (DoS 50 "CheckBlock() : coinbase reward exceeded")
  let parent := pindex.pprev.bind (node.mapBlockIndex[·]?)
  let pindex := pindex.trackSupply parent state
  pure (writeConnected P txdb block pindex parent state.mapQueuedChanges, pindex)

end RitCoin.Model
