import RitCoin.Model.Block

/-!
# The block chain

From `ProcessBlock` of `messages.cpp` down to `SetBestChain` of `base/block.cpp`, and the genesis
block of `init.cpp`. A function that changes the node returns its outcome and the node it leaves,
since a block that is rejected late has already been stored.
-/

namespace RitCoin.Model
open Lib Std

abbrev Step := Check Unit × Node

def pszTimestamp : List UInt8 :=
  "Matonis 07-AUG-2012 Parallel Currencies And The Roadmap To Monetary Freedom".toList.map
    fun c => c.toNat.toUInt8

def genesisScriptSig : CScript :=
  [0x02, 0x39, 0x05] ++ [0x02, 0x0f, 0x27] ++ pszTimestamp.length.toUInt8 :: pszTimestamp

def genesisTx : CTransaction where
  nVersion := 1
  nTime := 1459892820
  vin := [⟨⟨0, 0xffffffff⟩, genesisScriptSig, 0xffffffff⟩]
  vout := [⟨0, []⟩]
  nLockTime := 0

def genesisBlock (P : Primitives) : CBlock where
  nVersion := 1
  hashPrevBlock := 0
  hashMerkleRoot := P.hashTx genesisTx
  nTime := 1459892820
  nBits := getCompact bnProofOfWorkLimit
  nNonce := 268035
  integrity := []
  authenticity := []
  vtx := [genesisTx]

def hashGenesisBlock (P : Primitives) : Uint256 := P.getHash (genesisBlock P)

def Node.invalidChainFound (node : Node) (pindexNew : CBlockIndex) : Node :=
  if pindexNew.bnChainTrust > node.bnBestInvalidTrust then
    { node with
      bnBestInvalidTrust := pindexNew.bnChainTrust
      pdb := (node.pdb.open.writeBestInvalidTrust pindexNew.bnChainTrust).pdb }
  else node

def Node.attach (P : Primitives) (node : Node) (block : CBlock) (hash : Uint256)
    (pindexNew : CBlockIndex) (hashPrev : Uint256) (parent : CBlockIndex) : Node :=
  { node with
    mapBlockIndex := (node.mapBlockIndex.insert hash pindexNew).insert hashPrev
      { parent with pnext := some hash }
    mempool := block.vtx.foldl (CTxMemPool.remove P) node.mempool
    wallets := node.wallets ++ block.vtx.map fun tx => (tx, block) }

def setBestChainInner (P : Primitives) (now : Int) (node : Node) (txdb : TxDB) (block : CBlock)
    (pindexNew : CBlockIndex) : Step :=
  let hash := P.getHash block
  match connectBlock P now node txdb block pindexNew with
  | .error (.reject nDoS messages) =>
    (.error (.reject nDoS messages), node.invalidChainFound pindexNew)
  | .error failure => (.error failure, node)
  | .ok (txdb, pindexNew) =>
    match (txdb.writeHashBestChain hash).txnCommit with
    | .error failure => (.error failure, node)
    | .ok txdb =>
      match pindexNew.pprev with
      | none => (.error (.stop .nullPointer), node)
      | some hashPrev =>
        match node.mapBlockIndex[hashPrev]? with
        | none => (.error (.stop .nullPointer), node)
        | some parent =>
          (.ok (), { node.attach P block hash pindexNew hashPrev parent with
            pdb := txdb.pdb })

def Node.setBest (node : Node) (hash : Uint256) (pindexNew : CBlockIndex) : Node :=
  { node with
    hashBestChain := hash
    pindexBest := some hash
    nBestHeight := pindexNew.nHeight
    bnBestChainTrust := pindexNew.bnChainTrust }

def setBestChain (P : Primitives) (now : Int) (node : Node) (block : CBlock)
    (pindexNew : CBlockIndex) : Step :=
  let hash := P.getHash block
  match node.pdb.open.txnBegin with
  | .error failure => (.error failure, node)
  | .ok txdb =>
    if node.pindexGenesisBlock = none ∧ hash = hashGenesisBlock P then
      match (txdb.writeHashBestChain hash).txnCommit with
      | .error failure => (.error failure, node)
      | .ok txdb =>
        (.ok (), { node with pdb := txdb.pdb, pindexGenesisBlock := some hash }.setBest hash
          pindexNew)
    else if block.hashPrevBlock = node.hashBestChain then
      match setBestChainInner P now node txdb block pindexNew with
      | (.error failure, node) =>
        (.error (failure.caller id "SetBestChain() : SetBestChainInner failed"), node)
      | (.ok _, node) => (.ok (), node.setBest hash pindexNew)
    else
      (.error (error "SetBestChain(): This block is invalid, it does not have correct previous block hash and was probably not generated by a valid server node \n"), node)

def newBlockIndex (mapBlockIndex : BlockMap) (block : CBlock) (nFile nBlockPos : Nat) :
    CBlockIndex :=
  let parent := mapBlockIndex[block.hashPrevBlock]?
  let pindexNew : CBlockIndex := {
    pprev := parent.map fun _ => block.hashPrevBlock
    pnext := none
    nFile := nFile
    nBlockPos := nBlockPos
    bnChainTrust := 0
    nHeight := (parent.map fun pprev => pprev.nHeight + 1).getD 0
    nMint := 0
    nMoneySupply := 0
    nVersion := block.nVersion
    hashMerkleRoot := block.hashMerkleRoot
    nTime := block.nTime
    nBits := block.nBits
    nNonce := block.nNonce }
  { pindexNew with
    bnChainTrust := (parent.map CBlockIndex.bnChainTrust).getD 0 + pindexNew.getBlockTrust }

def Node.insertBlockIndex (P : Primitives) (node : Node) (block : CBlock)
    (pindexNew : CBlockIndex) : Check Node := do
  let txdb ← node.pdb.open.txnBegin
  let txdb ← (txdb.writeBlockIndex P (.ofIndex pindexNew)).txnCommit
  pure { node with
    mapBlockIndex := node.mapBlockIndex.insert (P.getHash block) pindexNew
    pdb := txdb.pdb }

def addToBlockIndex (P : Primitives) (now : Int) (node : Node) (block : CBlock)
    (nFile nBlockPos : Nat) : Step :=
  if node.mapBlockIndex.contains (P.getHash block) then
    (.error (error "AddToBlockIndex() : %s already exists"), node)
  else
    let pindexNew := newBlockIndex node.mapBlockIndex block nFile nBlockPos
    match node.insertBlockIndex P block pindexNew with
    | .error failure => (.error failure, node)
    | .ok node =>
      if pindexNew.bnChainTrust > node.bnBestChainTrust then
        setBestChain P now node block pindexNew
      else (.ok (), node)

def initialBlock (P : Primitives) (now : Int) (node : Node) : Step :=
  match (genesisBlock P).checkBlock P now with
  | .error _ => (.error (.stop .assertion), node)
  | .ok _ =>
    let (files, nFile, nBlockPos) := node.files.writeToDisk (genesisBlock P)
    addToBlockIndex P now { node with files := files } (genesisBlock P) nFile nBlockPos

def checkAccept (now : Int) (node : Node) (block : CBlock) (pindexPrev : CBlockIndex) :
    Check Unit := do
  let nHeight := pindexPrev.nHeight + 1
  failIf (block.getBlockTime ≤ pindexPrev.getBlockTime)
    (error "AcceptBlock() : block's timestamp is before the previous blocks")
  failIf (block.getBlockTime < pindexPrev.getBlockTime + MIN_BLOCK_SPACING)
    (error "AcceptBlock() : block's timestamp is too early and isnt following 30 second min block time rules")
  failIf (¬ block.vtx.all fun tx => tx.isFinal node.nBestHeight now nHeight block.getBlockTime)
    (DoS 10 "AcceptBlock() : contains a non-final transaction")

def acceptBlock (P : Primitives) (now : Int) (node : Node) (block : CBlock) : Step :=
  if node.mapBlockIndex.contains (P.getHash block) then
    (.error (error "AcceptBlock() : block already in mapBlockIndex"), node)
  else
    match node.mapBlockIndex[block.hashPrevBlock]? with
    | none => (.error (DoS 10 "AcceptBlock() : prev block not found"), node)
    | some pindexPrev =>
      match checkAccept now node block pindexPrev with
      | .error failure => (.error failure, node)
      | .ok _ =>
        let (files, nFile, nBlockPos) := node.files.writeToDisk block
        match addToBlockIndex P now { node with files := files } block nFile nBlockPos with
        | (.error failure, node) =>
          (.error (failure.caller id "AcceptBlock() : AddToBlockIndex failed"), node)
        | (.ok _, node) => (.ok (), node)

def hexDigit (n : Nat) : UInt8 := (if n < 10 then 48 + n else 87 + n).toUInt8

def hexString (x : Uint256) : List UInt8 :=
  (List.range 64).map fun i => hexDigit (x.toNat >>> (4 * (63 - i)) % 16)

def CBlock.encstring (P : Primitives) (block : CBlock) : List UInt8 :=
  hexString (P.getHash block) ++ hexString block.hashPrevBlock ++ hexString block.hashMerkleRoot

/-- Copying the signature reads 512 bytes whatever its size. -/
def CBlock.checkAuthenticity (P : Primitives) (block : CBlock) : Check Unit := do
  failIf (block.authenticity.length < 512) (.stop .outOfRange)
  match P.rsaPublicDecrypt block.authenticity.length (block.authenticity.take 512) with
  | none =>
    throw (error "ProcessBlock() : There was a failure when decrypting the RSA signature with the public key")
  | some recoveredHash =>
    failIf (recoveredHash ≠ block.integrity)
      (error "ProcessBlock() : Integrity of block failed, hash found when decrypting not the same as hash sent with block")
    failIf (P.sha512 (block.encstring P) ≠ block.integrity)
      (error "ProcessBlock() : The generated hash from this blocks values do not match the sha hash sent with the block")

def nextTarget (pprev pprev2 : CBlockIndex) : UInt32 :=
  let nActualSpacing := pprev.getBlockTime - pprev2.getBlockTime
  let nTargetSpacing := MIN_BLOCK_SPACING / 4
  let nInterval : Int := 60 * 60 * 24
  let bnNew := setCompact pprev.nBits
    * ((nInterval - 1) * nTargetSpacing + nActualSpacing + nActualSpacing)
  -- `CBigNum` division rounds towards zero
  let bnNew := bnNew.tdiv ((nInterval + 1) * nTargetSpacing)
  getCompact (if bnNew > bnProofOfWorkLimit then bnProofOfWorkLimit else bnNew)

def checkWork (P : Primitives) (node : Node) (block : CBlock) : Check Unit :=
  if P.getHash block = hashGenesisBlock P then pure ()
  else if block.hashPrevBlock = hashGenesisBlock P then pure ()
  else do
    let tip ← node.mapBlockIndex.deref node.pindexBest
    if tip.nHeight < 3 then pure ()
    else
      match node.mapBlockIndex[block.hashPrevBlock]? with
      | none => throw (.reject 0 [])
      | some pindexPrev =>
        let pprev ← node.mapBlockIndex.deref pindexPrev.pprev
        let pprev2 ← node.mapBlockIndex.deref pprev.pprev
        failIf (block.nBits ≠ nextTarget pprev pprev2)
          (DoS 100 "AcceptBlock() : incorrect proof-of-work")

/-- The loop of `ComputeMinWork`; each round takes a day off `nTime`. -/
def relaxWork : Nat → Int → Int → Int
  | 0, bnResult, _ => bnResult
  | fuel + 1, bnResult, nTime =>
    if nTime > 0 ∧ bnResult < bnProofOfWorkLimit then
      relaxWork fuel (bnResult * 2) (nTime - 24 * 60 * 60)
    else bnResult

def computeMinWork (nBase : UInt32) (nTime : Int) : UInt32 :=
  let bnResult := relaxWork (nTime.toNat / (24 * 60 * 60) + 1) (setCompact nBase * 2) nTime
  getCompact (if bnResult > bnProofOfWorkLimit then bnProofOfWorkLimit else bnResult)

def checkMinWork (node : Node) (block : CBlock) : Check Unit :=
  if block.hashPrevBlock = node.hashBestChain then pure ()
  else do
    let tip ← node.mapBlockIndex.deref node.pindexBest
    let pprev ← node.mapBlockIndex.deref tip.pprev
    failIf (setCompact block.nBits > setCompact (computeMinWork pprev.nBits block.getBlockTime))
      (DoS 100 "ProcessBlock() : block with too little proof-of-work")

def preliminaryChecks (P : Primitives) (now : Int) (node : Node) (block : CBlock) : Check Unit := do
  failIf (node.mapBlockIndex.contains (P.getHash block))
    (error "ProcessBlock() : already have block %d %s")
  if P.getHash block ≠ hashGenesisBlock P ∧ block.hashPrevBlock ≠ hashGenesisBlock P then
    block.checkAuthenticity P
  (block.checkBlock P now).mapError (Failure.caller id "ProcessBlock() : CheckBlock FAILED")
  (checkWork P node block).mapError (Failure.caller id "ProcessBlock() : CheckWork FAILED")
  checkMinWork node block

def processBlock (P : Primitives) (now : Int) (node : Node) (block : CBlock) : Step :=
  match preliminaryChecks P now node block with
  | .error failure => (.error failure, node)
  | .ok _ =>
    -- an orphan is announced and dropped
    if ¬ node.mapBlockIndex.contains block.hashPrevBlock then (.ok (), node)
    else
      match acceptBlock P now node block with
      | (.error failure, node) =>
        (.error (failure.caller id "ProcessBlock() : AcceptBlock FAILED"), node)
      | (.ok _, node) => (.ok (), node)

def genesisIndex (P : Primitives) : CBlockIndex := newBlockIndex ∅ (genesisBlock P) 1 8

def genesisNode (P : Primitives) : Node :=
  { Node.fresh with
    mapBlockIndex := (∅ : BlockMap).insert (hashGenesisBlock P) (genesisIndex P)
    pindexGenesisBlock := some (hashGenesisBlock P)
    hashBestChain := hashGenesisBlock P
    pindexBest := some (hashGenesisBlock P)
    nBestHeight := 0
    bnBestChainTrust := (genesisIndex P).bnChainTrust
    pdb := ((∅ : LevelDB).insert (.blockindex (hashGenesisBlock P))
      (.blockIndex (.ofIndex (genesisIndex P)))).insert .hashBestChain (.uint256 (hashGenesisBlock P))
    files := ⟨[(1, genesisBlock P)], 1⟩ }

/-- What happens to a node after genesis: a block is received when the clock shows `now`, or
transactions come and go in the memory pool. -/
inductive Event
  | block (now : Int) (block : CBlock)
  | mempool (mempool : CTxMemPool)

def Node.receive (P : Primitives) (node : Node) : Event → Node
  | .block now block => (processBlock P now node block).2
  | .mempool mempool => { node with mempool := mempool }

def run (P : Primitives) (events : List Event) : Node :=
  events.foldl (Node.receive P) (genesisNode P)

end RitCoin.Model
