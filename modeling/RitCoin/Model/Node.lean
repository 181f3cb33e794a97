import RitCoin.Model.BigNum
import RitCoin.Model.Files
import RitCoin.Model.TxDB

/-!
# The state of a node

The globals of `statics.cpp` and `base/files.cpp`, the memory pool, the database and the block
files. A pointer to an index entry is the hash under which `mapBlockIndex` holds the entry.
-/

namespace RitCoin.Model
open Lib Std

instance : Ord COutPoint := ⟨compareLex (compareOn COutPoint.hash) (compareOn COutPoint.n)⟩

instance : TransOrd COutPoint :=
  inferInstanceAs (TransCmp (compareLex (compareOn COutPoint.hash) (compareOn COutPoint.n)))

instance : LawfulEqOrd COutPoint where
  eq_of_compare {a b} h := by
    change compareLex (compareOn COutPoint.hash) (compareOn COutPoint.n) a b = .eq at h
    rw [compareLex_eq_eq] at h
    cases a
    cases b
    simp_all [compareOn]

/-- `mapNextTx` points at the spending transaction and the index of its input. -/
structure CTxMemPool where
  mapTx : ExtTreeMap Uint256 CTransaction
  mapNextTx : ExtTreeMap COutPoint (Uint256 × Nat)

def CTxMemPool.remove (P : Primitives) (mempool : CTxMemPool) (tx : CTransaction) : CTxMemPool :=
  let hash := P.hashTx tx
  if mempool.mapTx.contains hash then
    { mapNextTx := tx.vin.foldl (fun next txin => next.erase txin.prevout) mempool.mapNextTx
      mapTx := mempool.mapTx.erase hash }
  else mempool

abbrev BlockMap := ExtTreeMap Uint256 CBlockIndex

structure Node where
  mapBlockIndex : BlockMap
  pindexGenesisBlock : Option Uint256
  hashBestChain : Uint256
  pindexBest : Option Uint256
  nBestHeight : Int
  bnBestChainTrust : Int
  bnBestInvalidTrust : Int
  pdb : LevelDB
  files : BlockFiles
  mempool : CTxMemPool
  /-- What the registered wallets were told by `SyncWithWallets`, oldest first. -/
  wallets : List (CTransaction × CBlock)

def Node.fresh : Node where
  mapBlockIndex := ∅
  pindexGenesisBlock := none
  hashBestChain := 0
  pindexBest := none
  nBestHeight := -1
  bnBestChainTrust := 0
  bnBestInvalidTrust := 0
  pdb := ∅
  files := ⟨[], 1⟩
  mempool := ⟨∅, ∅⟩
  wallets := []

def BlockMap.deref (mapBlockIndex : BlockMap) : Option Uint256 → Check CBlockIndex
  | none => .error (.stop .nullPointer)
  | some hash =>
    match mapBlockIndex[hash]? with
    | some pindex => .ok pindex
    | none => .error (.stop .nullPointer)

def BlockMap.pprevs (mapBlockIndex : BlockMap) : Nat → Option Uint256 → List (Uint256 × CBlockIndex)
  | 0, _ | _, none => []
  | fuel + 1, some hash =>
    match mapBlockIndex[hash]? with
    | none => []
    | some pindex => (hash, pindex) :: mapBlockIndex.pprevs fuel pindex.pprev

/-- The heights fall along `pprev`, so the height of the first entry bounds the rounds. -/
def BlockMap.ancestors (mapBlockIndex : BlockMap) : Option Uint256 → List (Uint256 × CBlockIndex)
  | none => []
  | some hash =>
    match mapBlockIndex[hash]? with
    | none => []
    | some pindex => mapBlockIndex.pprevs (pindex.nHeight.toNat + 1) (some hash)

end RitCoin.Model
