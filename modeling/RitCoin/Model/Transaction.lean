import RitCoin.Model.Node
import RitCoin.Model.Script

/-!
# Checking and connecting transactions

The member functions of `CTransaction` in `base/transaction.cpp` that blocks are checked with.
-/

namespace RitCoin.Model
open Lib Std

namespace CTransaction

def isFinal (tx : CTransaction) (nBestHeight now nBlockHeight nBlockTime : Int) : Bool :=
  let nLockTime : Int := tx.nLockTime.toNat
  let nBlockHeight := if nBlockHeight = 0 then nBestHeight else nBlockHeight
  let nBlockTime := if nBlockTime = 0 then now else nBlockTime
  tx.nLockTime == 0
    || decide (nLockTime < if nLockTime < LOCKTIME_THRESHOLD then nBlockHeight else nBlockTime)
    || tx.vin.all CTxIn.isFinal

def getLegacySigOpCount (tx : CTransaction) : Nat :=
  (tx.vin.map fun txin => getSigOpCount false txin.scriptSig).sum
    + (tx.vout.map fun txout => getSigOpCount false txout.scriptPubKey).sum

def addValueOut (nValueOut : Int64) (txout : CTxOut) : Check Int64 := do
  let nValueOut := nValueOut + txout.nValue
  failIf (¬ moneyRange txout.nValue ∨ ¬ moneyRange nValueOut)
    (.throw "CTransaction::GetValueOut() : value out of range")
  pure nValueOut

def getValueOut (tx : CTransaction) : Check Int64 := tx.vout.foldlM addValueOut 0

def getMinFee (_ : CTransaction) : Int64 := TX_FEE

def checkOutput (tx : CTransaction) (nValueOut : Int64) (item : CTxOut × Nat) : Check Int64 := do
  let txout := item.1
  let i := item.2
  failIf (txout.isEmpty ∧ ¬ tx.isCoinBase)
    (DoS 100 "CTransaction::CheckTransaction() : txout empty for user transaction")
  failIf (¬ txout.isEmpty ∧ txout.nValue < MIN_TXOUT_AMOUNT ∧ txout.nValue = 0 ∧ ¬ tx.isCoinBase
      ∧ i ≠ 0)
    (DoS 100 "CTransaction::CheckTransaction() : txout.nValue below minimum")
  failIf (txout.nValue > MAX_MONEY)
    (DoS 100 "CTransaction::CheckTransaction() : txout.nValue too high")
  let nValueOut := nValueOut + txout.nValue
  failIf (¬ moneyRange nValueOut)
    (DoS 100 "CTransaction::CheckTransaction() : txout total out of range")
  pure nValueOut

def checkTransaction (tx : CTransaction) : Check Unit := do
  failIf (tx.vin = []) (DoS 10 "CTransaction::CheckTransaction() : vin empty")
  failIf (tx.vout = []) (DoS 10 "CTransaction::CheckTransaction() : vout empty")
  failIf (tx.getSerializeSize > MAX_BLOCK_SIZE)
    (DoS 100 "CTransaction::CheckTransaction() : size limits failed")
  let _ ← tx.vout.zipIdx.foldlM tx.checkOutput 0
  -- a repeated outpoint returns false without a message
  failIf (¬ (tx.vin.map CTxIn.prevout).Nodup) (.reject 0 [])
  if tx.isCoinBase then
    let size := (tx.vin.head?.map fun txin => txin.scriptSig.length).getD 0
    failIf (size < 2 ∨ size > 100) (DoS 100 "CTransaction::CheckTransaction() : coinbase script size")
  else
    failIf (tx.vin.any fun txin => txin.prevout.isNull)
      (DoS 10 "CTransaction::CheckTransaction() : prevout is null")

end CTransaction

abbrev TxIndexMap := ExtTreeMap Uint256 CTxIndex

abbrev MapPrevTx := ExtTreeMap Uint256 (CTxIndex × CTransaction)

structure FetchFailure where
  failure : Failure
  fInvalid : Bool
deriving DecidableEq, Repr

namespace CTransaction

def fetchPrev (node : Node) (txdb : TxDB) (mapTestPool : TxIndexMap) (fBlock fMiner : Bool)
    (hash : Uint256) : Check (CTxIndex × CTransaction) := do
  let found := if (fBlock || fMiner) && mapTestPool.contains hash then mapTestPool[hash]?
    else txdb.readTxIndex hash
  failIf (found = none ∧ (fBlock || fMiner))
    (if fMiner then .reject 0 [] else error "FetchInputs() : %s prev tx %s index entry not found")
  match found with
  | some txindex =>
    if txindex.pos = some ⟨1, 1, 1⟩ then
      match node.mempool.mapTx[hash]? with
      | none => throw (error "FetchInputs() : %s mempool Tx prev not found %s")
      | some txPrev => pure (txindex, txPrev)
    else
      match node.files.readTx txindex.pos with
      | none => throw (error "FetchInputs() : %s ReadFromDisk prev tx %s failed")
      | some txPrev => pure (txindex, txPrev)
  | none =>
    match node.mempool.mapTx[hash]? with
    | none => throw (error "FetchInputs() : %s mempool Tx prev not found %s")
    | some txPrev => pure (⟨none, List.replicate txPrev.vout.length none⟩, txPrev)

def fetchInput (node : Node) (txdb : TxDB) (mapTestPool : TxIndexMap) (fBlock fMiner : Bool)
    (inputsRet : MapPrevTx) (txin : CTxIn) : Check MapPrevTx :=
  if inputsRet.contains txin.prevout.hash then pure inputsRet
  else do
    let entry ← fetchPrev node txdb mapTestPool fBlock fMiner txin.prevout.hash
    pure (inputsRet.insert txin.prevout.hash entry)

def prevoutOutOfRange (entry : CTxIndex × CTransaction) (prevout : COutPoint) : Bool :=
  decide (entry.2.vout.length ≤ prevout.n.toNat) || decide (entry.1.vSpent.length ≤ prevout.n.toNat)

def checkPrevoutRange (inputs : MapPrevTx) (txin : CTxIn) : Except FetchFailure Unit :=
  match inputs[txin.prevout.hash]? with
  | none => .error ⟨.stop .assertion, false⟩
  | some entry =>
    failIf (prevoutOutOfRange entry txin.prevout)
      ⟨DoS 100 "FetchInputs() : %s prevout.n out of range %d %d %d prev tx %s\n%s", true⟩

def fetchInputs (node : Node) (tx : CTransaction) (txdb : TxDB) (mapTestPool : TxIndexMap)
    (fBlock fMiner : Bool) : Except FetchFailure MapPrevTx :=
  if tx.isCoinBase then .ok ∅
  else do
    let inputsRet ← (tx.vin.foldlM (fetchInput node txdb mapTestPool fBlock fMiner) ∅).mapError
      (⟨·, false⟩)
    tx.vin.forM (checkPrevoutRange inputsRet)
    pure inputsRet

def getOutputFor (input : CTxIn) (inputs : MapPrevTx) : Check CTxOut :=
  match inputs[input.prevout.hash]? with
  | none => .error (.throw "CTransaction::GetOutputFor() : prevout.hash not found")
  | some entry =>
    match entry.2.vout[input.prevout.n.toNat]? with
    | none => .error (.throw "CTransaction::GetOutputFor() : prevout.n out of range")
    | some txout => .ok txout

def addP2SHSigOps (inputs : MapPrevTx) (nSigOps : Nat) (txin : CTxIn) : Check Nat := do
  let prevout ← getOutputFor txin inputs
  pure (if isPayToScriptHash prevout.scriptPubKey then
    nSigOps + getSigOpCountFor prevout.scriptPubKey txin.scriptSig else nSigOps)

def getP2SHSigOpCount (tx : CTransaction) (inputs : MapPrevTx) : Check Nat :=
  if tx.isCoinBase then pure 0 else tx.vin.foldlM (addP2SHSigOps inputs) 0

def addValueIn (inputs : MapPrevTx) (nResult : Int64) (txin : CTxIn) : Check Int64 := do
  let prevout ← getOutputFor txin inputs
  pure (nResult + prevout.nValue)

def getValueIn (tx : CTransaction) (inputs : MapPrevTx) : Check Int64 :=
  if tx.isCoinBase then pure 0 else tx.vin.foldlM (addValueIn inputs) 0

/-- The loop that looks for the block of a coinbase among the last blocks up to `pindexBlock`. The
heights fall along `pprev`, so the height bounds the rounds. -/
def coinbaseLoop (mapBlockIndex : BlockMap) (pindexBlock : CBlockIndex) (pos : CDiskTxPos) :
    Nat → CBlockIndex → Bool
  | 0, _ => false
  | fuel + 1, pindex =>
    decide (pindexBlock.nHeight - pindex.nHeight < nCoinbaseMaturity)
      && (pos.any (fun p => pindex.nBlockPos == p.nBlockPos && pindex.nFile == p.nFile)
        || match pindex.pprev.bind (mapBlockIndex[·]?) with
          | none => false
          | some parent => coinbaseLoop mapBlockIndex pindexBlock pos fuel parent)

def coinbaseIsImmature (mapBlockIndex : BlockMap) (pindexBlock : CBlockIndex) (pos : CDiskTxPos) :
    Bool :=
  coinbaseLoop mapBlockIndex pindexBlock pos (pindexBlock.nHeight.toNat + 1) pindexBlock

def verifySignature (P : Primitives) (txFrom txTo : CTransaction) (nIn : Nat)
    (fValidatePayToScriptHash : Bool) (nHashType : Int32) : Check Bool :=
  match txTo.vin[nIn]? with
  | none => .error (.stop .assertion)
  | some txin =>
    match txFrom.vout[txin.prevout.n.toNat]? with
    | none => pure false
    | some txout =>
      pure (txin.prevout.hash == P.hashTx txFrom
        && P.verifyScript txin.scriptSig txout.scriptPubKey txTo nIn fValidatePayToScriptHash
          nHashType)

def checkInput (node : Node) (tx : CTransaction) (inputs : MapPrevTx) (pindexBlock : CBlockIndex)
    (nValueIn : Int64) (txin : CTxIn) : Check Int64 :=
  match inputs[txin.prevout.hash]? with
  | none => .error (.stop .assertion)
  | some (txindex, txPrev) => do
      failIf (prevoutOutOfRange (txindex, txPrev) txin.prevout)
        (DoS 100 "ConnectInputs() : %s prevout.n out of range %d %d %d prev tx %s\n%s")
      failIf (txPrev.isCoinBase ∧ coinbaseIsImmature node.mapBlockIndex pindexBlock txindex.pos)
        (error "ConnectInputs() : tried to spend coinbase at depth %d")
      failIf (txPrev.nTime > tx.nTime)
        (DoS 100 "ConnectInputs() : transaction timestamp earlier than input transaction")
      let nValue := ((txPrev.vout[txin.prevout.n.toNat]?).map CTxOut.nValue).getD 0
      let nValueIn := nValueIn + nValue
      failIf (¬ moneyRange nValue ∨ ¬ moneyRange nValueIn)
        (DoS 100 "ConnectInputs() : txin values out of range")
      pure nValueIn

def getTotalBlocksEstimate : Int := 0

def spendInput (P : Primitives) (node : Node) (tx : CTransaction) (posThisTx : DiskPos)
    (fBlock fMiner fStrictPayToScriptHash : Bool) (state : MapPrevTx × TxIndexMap)
    (item : CTxIn × Nat) : Check (MapPrevTx × TxIndexMap) :=
  let (inputs, mapTestPool) := state
  let (txin, i) := item
  let prevout := txin.prevout
  match inputs[prevout.hash]? with
  | none => .error (.stop .assertion)
  | some (txindex, txPrev) => do
      failIf (txindex.vSpent[prevout.n.toNat]?.join ≠ none)
        (if fMiner then .reject 0 [] else error "ConnectInputs() : %s prev tx already used at %s")
      if ¬ (fBlock ∧ node.nBestHeight < getTotalBlocksEstimate) then
        let valid ← verifySignature P txPrev tx i fStrictPayToScriptHash 0
        if ¬ valid then
          if fStrictPayToScriptHash then
            let lenient ← verifySignature P txPrev tx i false 0
            failIf lenient (error "ConnectInputs() : %s P2SH VerifySignature failed")
          throw (DoS 100 "ConnectInputs() : %s VerifySignature failed")
      let txindex := { txindex with vSpent := txindex.vSpent.set prevout.n.toNat (some posThisTx) }
      pure (inputs.insert prevout.hash (txindex, txPrev),
        if fBlock || fMiner then mapTestPool.insert prevout.hash txindex else mapTestPool)

def connectInputs (P : Primitives) (node : Node) (tx : CTransaction) (inputs : MapPrevTx)
    (mapTestPool : TxIndexMap) (posThisTx : DiskPos) (pindexBlock : CBlockIndex)
    (fBlock fMiner fStrictPayToScriptHash : Bool) : Check TxIndexMap :=
  if tx.isCoinBase then pure mapTestPool
  else do
    let nValueIn ← tx.vin.foldlM (checkInput node tx inputs pindexBlock) 0
    let (_, mapTestPool) ← tx.vin.zipIdx.foldlM
      (spendInput P node tx posThisTx fBlock fMiner fStrictPayToScriptHash) (inputs, mapTestPool)
    let nValueOut ← tx.getValueOut
    failIf (nValueIn < nValueOut) (DoS 100 "ConnectInputs() : %s value in < value out")
    let nTxFee := nValueIn - nValueOut
    failIf (nTxFee < 0) (DoS 100 "ConnectInputs() : %s nTxFee < 0")
    failIf (nTxFee < tx.getMinFee)
      (if fBlock then DoS 100 "ConnectInputs() : %s not paying required fee=%s, paid=%s" else .reject 0 [])
    failIf (¬ moneyRange (0 + nTxFee)) (DoS 100 "ConnectInputs() : nFees out of range")
    pure mapTestPool

end CTransaction

end RitCoin.Model
