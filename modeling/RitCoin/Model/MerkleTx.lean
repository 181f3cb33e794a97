import RitCoin.Model.Chain

/-!
# Merkle branches

`GetMerkleBranch` and `CheckMerkleBranch` of `base/block.cpp`, and `CMerkleTx` of `base/merkletransaction.cpp`.
-/

namespace RitCoin.Model
open Lib Std

/-- The member `vMerkleTree` of a block. It is empty until `BuildMerkleTree` fills it. -/
structure CBlock.MerkleTree (P : Primitives) (block : CBlock) where
  nodes : List Uint256
  built : nodes = [] ∨ nodes = vMerkleTree P block.vtx.length (block.vtx.map P.hashTx)

def merkleBranch (tree : List Uint256) : Nat → Nat → Nat → Nat → Check (List Uint256)
  | 0, _, _, _ => pure []
  | fuel + 1, nSize, j, nIndex =>
    if nSize > 1 then
      match tree[j + min (nIndex ^^^ 1) (nSize - 1)]? with
      | none => throw (.stop .outOfRange)
      | some node => do
          let rest ← merkleBranch tree fuel ((nSize + 1) / 2) (j + nSize) (nIndex >>> 1)
          pure (node :: rest)
    else pure []

def CBlock.getMerkleBranch (P : Primitives) (block : CBlock) (tree : block.MerkleTree P) (nIndex : Nat) :
    Check (List Uint256) :=
  let nodes :=
    if tree.nodes = [] then vMerkleTree P block.vtx.length (block.vtx.map P.hashTx) else tree.nodes
  merkleBranch nodes block.vtx.length block.vtx.length 0 nIndex

def checkMerkleBranch (P : Primitives) (hash : Uint256) (vMerkleBranch : List Uint256) (nIndex : Int) :
    Uint256 :=
  if nIndex = -1 then 0
  else
    (vMerkleBranch.foldl (fun (hash, nIndex) otherside =>
      (if nIndex % 2 = 1 then P.hashPair otherside hash else P.hashPair hash otherside, nIndex / 2))
      (hash, nIndex)).1

structure CMerkleTx extends CTransaction where
  hashBlock : Uint256
  vMerkleBranch : List Uint256
  nIndex : Int
  fMerkleVerified : Bool
deriving DecidableEq, Repr

def CMerkleTx.init (tx : CTransaction) : CMerkleTx := ⟨tx, 0, [], -1, false⟩

def fClient : Bool := false

def Node.findInMainChain (node : Node) (hashBlock : Uint256) : Option CBlockIndex :=
  (node.mapBlockIndex[hashBlock]?).filter fun pindex =>
    pindex.pnext.isSome || node.pindexBest == some hashBlock

def Node.depthOf (node : Node) (pindex : CBlockIndex) : Check Int := do
  let pindexBest ← node.mapBlockIndex.deref node.pindexBest
  pure (pindexBest.nHeight - pindex.nHeight + 1)

def Node.blockOfTx (P : Primitives) (node : Node) (tx : CTransaction) : Option CBlock := do
  let txindex ← node.pdb.open.readTxIndex (P.hashTx tx)
  let pos ← txindex.pos
  let block ← readBlockAt node.files.writes pos.nFile pos.nBlockPos
  if (checkProofOfWork block.nBits).isOk then some block else none

namespace CMerkleTx
variable (P : Primitives) (node : Node)

def locate (wtx : CMerkleTx) (block : CBlock) (tree : block.MerkleTree P) : Check (CMerkleTx × Bool) :=
  let wtx := { wtx with hashBlock := P.getHash block }
  match block.vtx.idxOf? wtx.toCTransaction with
  | none => pure ({ wtx with vMerkleBranch := [], nIndex := -1 }, false)
  | some nIndex => do
      let vMerkleBranch ← block.getMerkleBranch P tree nIndex
      pure ({ wtx with nIndex := nIndex, vMerkleBranch := vMerkleBranch }, true)

def mainChainDepth (wtx : CMerkleTx) : Check (CMerkleTx × Int) :=
  match node.findInMainChain wtx.hashBlock with
  | none => pure (wtx, 0)
  | some pindex => do
      let depth ← node.depthOf pindex
      pure (wtx, depth)

def setMerkleBranch (wtx : CMerkleTx) (pblock : Option ((block : CBlock) × block.MerkleTree P)) :
    Check (CMerkleTx × Int) :=
  if fClient then
    if wtx.hashBlock = 0 then pure (wtx, 0) else wtx.mainChainDepth node
  else
    let loaded := (node.blockOfTx P wtx.toCTransaction).map fun block => ⟨block, [], .inl rfl⟩
    match pblock.or loaded with
    | none => pure (wtx, 0)
    | some ⟨block, tree⟩ => do
        let (wtx, found) ← wtx.locate P block tree
        if found then wtx.mainChainDepth node else pure (wtx, 0)

def getDepthInMainChain (wtx : CMerkleTx) : Check (CMerkleTx × Int) :=
  if wtx.hashBlock = 0 ∨ wtx.nIndex = -1 then pure (wtx, 0)
  else
    match node.findInMainChain wtx.hashBlock with
    | none => pure (wtx, 0)
    | some pindex =>
      if wtx.fMerkleVerified = false ∧ checkMerkleBranch P (P.hashTx wtx.toCTransaction)
          wtx.vMerkleBranch wtx.nIndex ≠ pindex.hashMerkleRoot then
        pure (wtx, 0)
      else do
        let depth ← node.depthOf pindex
        pure ({ wtx with fMerkleVerified := true }, depth)

end CMerkleTx

end RitCoin.Model
