import Mathlib.Logic.Relation
import RitCoin.Model.Chain

/-!
# The best chain as seen from outside

What an observer of a node calls its best chain, and the shape that `mapBlockIndex`, the globals and
the database should have around it.
-/

namespace RitCoin.Spec
open Model Std

/-- The hashes from genesis up to `pindexBest`, found by following `pprev` down from it. -/
def bestPath (node : Node) : List Uint256 :=
  ((node.mapBlockIndex.ancestors node.pindexBest).map Prod.fst).reverse

/-- The blocks of the best chain, read from the files at the positions the entries name. -/
def bestBlocks (node : Node) : List CBlock :=
  (bestPath node).filterMap fun hash =>
    (node.mapBlockIndex[hash]?).bind fun pindex =>
      readBlockAt node.files.writes pindex.nFile pindex.nBlockPos

def IsParent (map : BlockMap) (h h' : Uint256) : Prop :=
  ∃ e, map[h']? = some e ∧ e.pprev = some h

structure BlockTree (P : Primitives) (map : BlockMap) : Prop where
  root : ∃ e, map[hashGenesisBlock P]? = some e ∧ e.pprev = none ∧ e.nHeight = 0 ∧
    e.bnChainTrust = e.getBlockTrust
  parent : ∀ (h : Uint256) (e : CBlockIndex), map[h]? = some e → h ≠ hashGenesisBlock P →
    ∃ (p : Uint256) (pe : CBlockIndex), e.pprev = some p ∧ map[p]? = some pe ∧
      e.nHeight = pe.nHeight + 1 ∧ e.bnChainTrust = pe.bnChainTrust + e.getBlockTrust
  descends : ∀ (h : Uint256) (e : CBlockIndex), map[h]? = some e →
    Relation.ReflTransGen (IsParent map) (hashGenesisBlock P) h

/-- `pnext` leads along the best chain and nowhere else. -/
structure Threaded (node : Node) : Prop where
  isSome : ∀ (h : Uint256) (e : CBlockIndex), node.mapBlockIndex[h]? = some e →
    (e.pnext.isSome ↔ h ∈ (bestPath node).dropLast)
  next : ∀ (i : ℕ) (h h' : Uint256) (e : CBlockIndex), (bestPath node)[i]? = some h →
    (bestPath node)[i + 1]? = some h' → node.mapBlockIndex[h]? = some e → e.pnext = some h'

/-- The globals and the database agree on the end of the best chain. -/
structure BestBlock (P : Primitives) (node : Node) : Prop where
  first : (bestPath node).head? = some (hashGenesisBlock P)
  last : (bestPath node).getLast? = some node.hashBestChain
  length : ((bestPath node).length : Int) = node.nBestHeight + 1
  pindexBest : node.pindexBest = some node.hashBestChain
  entry : ∃ e, node.mapBlockIndex[node.hashBestChain]? = some e ∧ node.nBestHeight = e.nHeight ∧
    node.bnBestChainTrust = e.bnChainTrust
  database : node.pdb.open.readHashBestChain = some node.hashBestChain

/-- The best chain and all that hangs on it are the same in both nodes. -/
structure SameBestChain (node after : Node) : Prop where
  txindex : ∀ hash : Uint256, after.pdb[DbKey.tx hash]? = node.pdb[DbKey.tx hash]?
  record : after.pdb[DbKey.hashBestChain]? = node.pdb[DbKey.hashBestChain]?
  pindexBest : after.pindexBest = node.pindexBest
  nBestHeight : after.nBestHeight = node.nBestHeight
  hashBestChain : after.hashBestChain = node.hashBestChain
  pnext : ∀ h : Uint256, after.mapBlockIndex[h]?.bind CBlockIndex.pnext =
    node.mapBlockIndex[h]?.bind CBlockIndex.pnext
  mempool : after.mempool = node.mempool
  wallets : after.wallets = node.wallets

namespace SameBestChain

theorem refl (node : Node) : SameBestChain node node :=
  ⟨fun _ => rfl, rfl, rfl, rfl, rfl, fun _ => rfl, rfl, rfl⟩

theorem trans {node middle after : Node} (first : SameBestChain node middle) (second : SameBestChain middle after) :
    SameBestChain node after where
  txindex hash := (second.txindex hash).trans (first.txindex hash)
  record := second.record.trans first.record
  pindexBest := second.pindexBest.trans first.pindexBest
  nBestHeight := second.nBestHeight.trans first.nBestHeight
  hashBestChain := second.hashBestChain.trans first.hashBestChain
  pnext h := (second.pnext h).trans (first.pnext h)
  mempool := second.mempool.trans first.mempool
  wallets := second.wallets.trans first.wallets

end SameBestChain

end RitCoin.Spec
