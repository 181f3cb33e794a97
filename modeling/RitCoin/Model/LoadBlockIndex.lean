import Mathlib.Data.List.Sort
import RitCoin.Model.Chain

/-!
# Starting from a database

`LoadBlockIndex` of `txdb-leveldb.cpp`: rebuilding `mapBlockIndex` from the records of the block
index, and the verification of the best chain. No shutdown is requested meanwhile.
-/

namespace RitCoin.Model
open Lib Std

/-- What a start depends on besides the disk: the clock, `-checklevel`, `-checkblocks`, and the
addresses of the entries, by which `sort` orders entries of one height. -/
structure Startup where
  now : Int
  nCheckLevel : Int
  nCheckDepth : Int
  address : Uint256 → Nat

def CBlockIndex.null : CBlockIndex := ⟨none, none, 0, 0, 0, 0, 0, 0, 0, 0, 0, 0, 0⟩

/-- The bytes of a hash in a key, as a number that orders them as leveldb does. -/
def keyBytes (hash : Uint256) : Nat :=
  bytesToNat ((List.range 32).map fun i => (hash.toNat >>> (8 * i)).toUInt8)

def blockRecord? : DbKey × DbValue → Option (Uint256 × CDiskBlockIndex)
  | (.blockindex hash, .blockIndex diskindex) => some (hash, diskindex)
  | _ => none

def LevelDB.blockIndexRecords (pdb : LevelDB) : List CDiskBlockIndex :=
  ((pdb.toList.filterMap blockRecord?).insertionSort
    fun a b => keyBytes a.1 ≤ keyBytes b.1).map Prod.snd

def BlockMap.insertBlockIndex (mapBlockIndex : BlockMap) (hash : Uint256) :
    BlockMap × Option Uint256 :=
  if hash = 0 then (mapBlockIndex, none)
  else if mapBlockIndex.contains hash then (mapBlockIndex, some hash)
  else (mapBlockIndex.insert hash .null, some hash)

def loadRecord (P : Primitives) (node : Node) (diskindex : CDiskBlockIndex) : Check Node :=
  let blockHash := P.hashHeader diskindex.header
  let self := node.mapBlockIndex.insertBlockIndex blockHash
  let pprev := self.1.insertBlockIndex diskindex.hashPrev
  let pnext := pprev.1.insertBlockIndex diskindex.hashNext
  match self.2.bind (pnext.1[·]?) with
  | none => .error (.stop .nullPointer)
  | some pindexNew =>
    .ok { node with
      mapBlockIndex := pnext.1.insert blockHash { pindexNew with
        pprev := pprev.2
        pnext := pnext.2
        nFile := diskindex.nFile
        nBlockPos := diskindex.nBlockPos
        nHeight := diskindex.nHeight
        nMint := diskindex.nMint
        nMoneySupply := diskindex.nMoneySupply
        nVersion := diskindex.nVersion
        hashMerkleRoot := diskindex.hashMerkleRoot
        nTime := diskindex.nTime
        nBits := diskindex.nBits
        nNonce := diskindex.nNonce }
      pindexGenesisBlock :=
        if node.pindexGenesisBlock = none ∧ blockHash = hashGenesisBlock P then some blockHash
        else node.pindexGenesisBlock }

def lowerFirst (address : Uint256 → Nat) (a b : Uint256 × CBlockIndex) : Prop :=
  a.2.nHeight < b.2.nHeight ∨ a.2.nHeight = b.2.nHeight ∧ address a.1 ≤ address b.1

instance (address : Uint256 → Nat) : DecidableRel (lowerFirst address) :=
  fun _ _ => inferInstanceAs (Decidable (_ ∨ _))

def sortedByHeight (address : Uint256 → Nat) (mapBlockIndex : BlockMap) : List Uint256 :=
  (mapBlockIndex.toList.insertionSort (lowerFirst address)).map Prod.fst

def calculateTrust (mapBlockIndex : BlockMap) (hash : Uint256) : BlockMap :=
  match mapBlockIndex[hash]? with
  | none => mapBlockIndex
  | some pindex =>
    mapBlockIndex.insert hash { pindex with
      bnChainTrust := ((pindex.pprev.bind (mapBlockIndex[·]?)).map CBlockIndex.bnChainTrust).getD 0
        + pindex.getBlockTrust }

def CBlock.readFromDisk (P : Primitives) (files : BlockFiles) (hash : Uint256)
    (pindex : CBlockIndex) : Check CBlock :=
  match readBlockAt files.writes pindex.nFile pindex.nBlockPos with
  | none => .error (error "%s() : deserialize or I/O error")
  | some block => do
      (checkProofOfWork block.nBits).mapError
        (Failure.caller id "CBlock::ReadFromDisk() : errors in block header")
      failIf (P.getHash block ≠ hash) (error "CBlock::ReadFromDisk() : GetHash() doesn't match index")
      pure block

def badSpender (files : BlockFiles) (hashTx : Uint256) (nOutput : Nat) (txpos : DiskPos) : Bool :=
  match files.readTx (some txpos) with
  | none => true
  | some txSpend =>
    decide (txSpend.checkTransaction ≠ .ok ())
      || !txSpend.vin.any fun txin => txin.prevout.hash == hashTx && txin.prevout.n.toNat == nOutput

def badSpent (files : BlockFiles) (nCheckLevel : Int) (mapBlockPos : List (Nat × Nat))
    (hashTx : Uint256) (output : CDiskTxPos × Nat) : Bool :=
  output.1.any fun txpos =>
    !mapBlockPos.contains (txpos.nFile, txpos.nBlockPos)
      || (decide (nCheckLevel > 5) && badSpender files hashTx output.2 txpos)

def badPosition (P : Primitives) (files : BlockFiles) (hashTx : Uint256) (pos : CDiskTxPos) : Bool :=
  match files.readTx pos with
  | none => true
  | some txFound => P.hashTx txFound != hashTx

def badTxIndex (P : Primitives) (files : BlockFiles) (nCheckLevel : Int)
    (mapBlockPos : List (Nat × Nat)) (pindex : CBlockIndex) (hashTx : Uint256) (txindex : CTxIndex) :
    Bool :=
  (decide (nCheckLevel > 2)
      || !txindex.pos.any (fun pos => pindex.nFile == pos.nFile && pindex.nBlockPos == pos.nBlockPos))
    && badPosition P files hashTx txindex.pos
    || decide (nCheckLevel > 3)
      && txindex.vSpent.zipIdx.any (badSpent files nCheckLevel mapBlockPos hashTx)

/-- Level 5: the output an input names is not marked. With no outputs `vSpent.size()-1` wraps and the
access is out of range. -/
def unspentPrevout (txdb : TxDB) (bad : Bool) (txin : CTxIn) : Check Bool :=
  match txdb.readTxIndex txin.prevout.hash with
  | none => pure bad
  | some txindex => do
      failIf (txindex.vSpent = []) (.stop .outOfRange)
      pure (bad || decide (txindex.vSpent.length - 1 < txin.prevout.n.toNat)
        || txindex.vSpent[txin.prevout.n.toNat]?.join == none)

def verifyTx (P : Primitives) (startup : Startup) (node : Node) (mapBlockPos : List (Nat × Nat))
    (pindex : CBlockIndex) (bad : Bool) (tx : CTransaction) : Check Bool :=
  let hashTx := P.hashTx tx
  let bad := bad || (node.pdb.open.readTxIndex hashTx).any
    (badTxIndex P node.files startup.nCheckLevel mapBlockPos pindex hashTx)
  if startup.nCheckLevel > 4 then tx.vin.foldlM (unspentPrevout node.pdb.open) bad else pure bad

def verifyBlock (P : Primitives) (startup : Startup) (node : Node) (mapBlockPos : List (Nat × Nat))
    (pindex : CBlockIndex) (block : CBlock) : Check Bool :=
  let bad := decide (startup.nCheckLevel > 0) && decide (block.checkBlock P startup.now ≠ .ok ())
  if startup.nCheckLevel > 1 then
    block.vtx.foldlM (verifyTx P startup node mapBlockPos pindex) bad
  else pure bad

def Startup.depth (startup : Startup) (nBestHeight : Int) : Int :=
  let nCheckDepth := if startup.nCheckDepth = 0 then 1000000000 else startup.nCheckDepth
  if nCheckDepth > nBestHeight then nBestHeight else nCheckDepth

def verifyLoop (P : Primitives) (startup : Startup) (node : Node) :
    List (Uint256 × CBlockIndex) → List (Nat × Nat) → Option Uint256 → Check (Option Uint256)
  | [], _, pindexFork => .ok pindexFork
  | (hash, pindex) :: rest, mapBlockPos, pindexFork =>
    if pindex.pprev = none then .ok pindexFork
    else if pindex.nHeight < node.nBestHeight - startup.depth node.nBestHeight then .ok pindexFork
    else do
      let block ← (CBlock.readFromDisk P node.files hash pindex).mapError
        (Failure.caller id "LoadBlockIndex() : block.ReadFromDisk failed")
      -- the source adds the position from level 2 on, and reads it from level 4 on
      let mapBlockPos := (pindex.nFile, pindex.nBlockPos) :: mapBlockPos
      let bad ← verifyBlock P startup node mapBlockPos pindex block
      verifyLoop P startup node rest mapBlockPos (if bad then pindex.pprev else pindexFork)

def verifyBestChain (P : Primitives) (startup : Startup) (node : Node) : Check (Option Uint256) :=
  verifyLoop P startup node (node.mapBlockIndex.ancestors node.pindexBest) [] none

def moveBack (P : Primitives) (startup : Startup) (node : Node) (pindexFork : Uint256) : Step :=
  match node.mapBlockIndex[pindexFork]? with
  | none => (.error (.stop .nullPointer), node)
  | some pindex =>
    match CBlock.readFromDisk P node.files pindexFork pindex with
    | .error failure =>
      (.error (failure.caller id "LoadBlockIndex() : block.ReadFromDisk failed"), node)
    | .ok block =>
      match setBestChain P startup.now node block pindex with
      | (.error (.reject _ _), node) => (.ok (), node)
      | step => step

def loadTree (P : Primitives) (startup : Startup) (node : Node) : Check Node := do
  let node ← node.pdb.blockIndexRecords.foldlM (loadRecord P) node
  pure { node with
    mapBlockIndex :=
      (sortedByHeight startup.address node.mapBlockIndex).foldl calculateTrust node.mapBlockIndex }

def loadBest (node : Node) : Except (Check Unit) Node :=
  match node.pdb.open.readHashBestChain with
  | none =>
    .error (failIf (node.pindexGenesisBlock ≠ none)
      (error "CTxDB::LoadBlockIndex() : hashBestChain not loaded"))
  | some hashBestChain =>
    match node.mapBlockIndex[hashBestChain]? with
    | none =>
      .error (.error (error "CTxDB::LoadBlockIndex() : hashBestChain not found in the block index"))
    | some pindexBest => .ok (node.setBest hashBestChain pindexBest)

def loadIndex (P : Primitives) (startup : Startup) (node : Node) : Except Step Node := do
  let node ← (loadTree P startup node).mapError fun failure => (.error failure, node)
  (loadBest node).mapError fun outcome => (outcome, node)

def loadBlockIndex (P : Primitives) (startup : Startup) (node : Node) : Step :=
  if node.mapBlockIndex.isEmpty = false then (.ok (), node)
  else
    match loadIndex P startup node with
    | .error step => step
    | .ok node =>
      match verifyBestChain P startup node with
      | .error failure => (.error failure, node)
      | .ok none => (.ok (), node)
      | .ok (some pindexFork) => moveBack P startup node pindexFork

def Node.restarted (node : Node) : Node :=
  { Node.fresh with pdb := node.pdb, files := { node.files with nCurrentBlockFile := 1 } }

end RitCoin.Model
