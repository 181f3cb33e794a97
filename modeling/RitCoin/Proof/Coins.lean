import RitCoin.Model.Balance
import RitCoin.Proof.Coherence

namespace RitCoin.Proof
open Lib Model Model.Wallet Std

variable {Point : Type} {env : Surroundings Point} {node : Node} {now : Int} {wallet : CWallet}

def HasBest (node : Node) : Prop := ∃ best, node.mapBlockIndex.deref node.pindexBest = .ok best

theorem hasBest_run (P : Primitives) (events : List Event) : HasBest (run P events) := by
  obtain ⟨chain, inv⟩ := exists_inv P events
  obtain ⟨tip, -, deref, -⟩ := inv.best
  exact ⟨tip, deref⟩

theorem HasBest.withStores (hasBest : HasBest node) (pdb : LevelDB) (mempool : CTxMemPool) :
    HasBest { node with pdb := pdb, mempool := mempool } := hasBest

theorem HasBest.getDepthInMainChain (hasBest : HasBest node) (P : Primitives) (tx : CMerkleTx) :
    ∃ (fMerkleVerified : Bool) (nDepth : Int),
      tx.getDepthInMainChain P node = .ok ({ tx with fMerkleVerified := fMerkleVerified }, nDepth) := by
  obtain ⟨best, deref⟩ := hasBest
  rw [CMerkleTx.getDepthInMainChain]
  split_ifs
  · exact ⟨_, _, rfl⟩
  · cases node.findInMainChain tx.hashBlock with
    | none => exact ⟨_, _, rfl⟩
    | some pindex =>
      simp only [Node.depthOf, deref]
      split_ifs
      · exact ⟨_, _, rfl⟩
      · exact ⟨true, _, rfl⟩

theorem HasBest.walletDepth (hasBest : HasBest node) (env : Surroundings Point) (wtx : Wallet.CWalletTx) :
    ∃ (fMerkleVerified : Bool) (nDepth : Int), wtx.getDepthInMainChain env node =
      .ok ({ wtx with fMerkleVerified := fMerkleVerified }, nDepth) := by
  obtain ⟨fMerkleVerified, nDepth, depth⟩ := hasBest.getDepthInMainChain env.P wtx.toCMerkleTx
  refine ⟨fMerkleVerified, nDepth, ?_⟩
  rw [CWalletTx.getDepthInMainChain, depth]
  rfl

theorem HasBest.getBlocksToMaturity (hasBest : HasBest node) (env : Surroundings Point)
    (wtx : Wallet.CWalletTx) : ∃ (fMerkleVerified : Bool) (nBlocks : Int), wtx.getBlocksToMaturity env node =
      .ok ({ wtx with fMerkleVerified := fMerkleVerified }, nBlocks) := by
  obtain ⟨fMerkleVerified, nDepth, depth⟩ := hasBest.walletDepth env wtx
  rw [CWalletTx.getBlocksToMaturity, depth]
  split_ifs
  · exact ⟨_, _, rfl⟩
  · exact ⟨_, _, rfl⟩

def Selectable (env : Surroundings Point) (node : Node) (now : Int) (wallet : CWallet) (nSpendTime : UInt32)
    (fOnlyConfirmed : Bool) (hash : Uint256) (n : ℕ) : Prop :=
  ∃ vCoins, wallet.availableCoins env node now nSpendTime fOnlyConfirmed = .ok vCoins ∧
    ∃ coin ∈ vCoins, coin.hash = hash ∧ coin.i = n

theorem HasBest.coinsOf (hasBest : HasBest node) (nSpendTime : UInt32) {fOnlyConfirmed : Bool}
    (hash : Uint256) {pcoin : Wallet.CWalletTx} {offers : Bool}
    (whole : wallet.offersOutputs env node now fOnlyConfirmed pcoin = .ok offers) :
    ∃ nDepth, wallet.coinsOf env node now nSpendTime fOnlyConfirmed hash pcoin = .ok (if offers then
      (pcoin.vout.zipIdx.filter fun (txout, i) => wallet.offersOutput env nSpendTime pcoin txout i).map
        fun (_, i) => ⟨hash, i, nDepth⟩
      else []) := by
  obtain ⟨fMerkleVerified, nDepth, depth⟩ := hasBest.walletDepth env pcoin
  refine ⟨nDepth, ?_⟩
  rw [CWallet.coinsOf, whole, ok_bind]
  cases offers with
  | false => rfl
  | true =>
    simp only [not_true_eq_false, if_false, if_true, mapM_eq_ok, depth]
    rw [List.forall₂_map_right_iff, List.forall₂_same]
    exact fun _ _ => rfl

theorem selectable_iff (hasBest : HasBest node) {nSpendTime : UInt32} {fOnlyConfirmed : Bool} {hash : Uint256}
    {n : ℕ} : Selectable env node now wallet nSpendTime fOnlyConfirmed hash n ↔
      (∀ (hash : Uint256) pcoin, wallet.mapWallet[hash]? = some pcoin →
        ∃ offers, wallet.offersOutputs env node now fOnlyConfirmed pcoin = .ok offers) ∧
      ∃ pcoin txout, wallet.mapWallet[hash]? = some pcoin ∧
        wallet.offersOutputs env node now fOnlyConfirmed pcoin = .ok true ∧ pcoin.vout[n]? = some txout ∧
        wallet.offersOutput env nSpendTime pcoin txout n := by
  constructor
  · rintro ⟨vCoins, run, coin, member, rfl, rfl⟩
    obtain ⟨lists, listed, flat⟩ := bind_eq_ok.mp run
    obtain rfl := pure_eq_ok.mp flat
    have whole : ∀ (hash : Uint256) pcoin, wallet.mapWallet[hash]? = some pcoin →
        ∃ offers, wallet.offersOutputs env node now fOnlyConfirmed pcoin = .ok offers := by
      intro hash pcoin known
      obtain ⟨list, made⟩ := exists_mapM_eq_ok.mp ⟨lists, listed⟩ (hash, pcoin)
        (ExtTreeMap.mem_toList_iff_getElem?_eq_some.mpr known)
      obtain ⟨offers, offered, -⟩ := bind_eq_ok.mp made
      exact ⟨offers, offered⟩
    refine ⟨whole, ?_⟩
    obtain ⟨list, inLists, member⟩ := List.mem_flatten.mp member
    obtain ⟨⟨hash, pcoin⟩, stored, made⟩ := (mem_of_mapM_eq_ok listed).mp inLists
    have known := ExtTreeMap.mem_toList_iff_getElem?_eq_some.mp stored
    obtain ⟨offers, offered⟩ := whole hash pcoin known
    obtain ⟨nDepth, coins⟩ := hasBest.coinsOf nSpendTime hash offered
    obtain rfl := Except.ok.inj (coins.symm.trans made)
    cases offers with
    | false => exact absurd member List.not_mem_nil
    | true =>
      obtain ⟨⟨txout, i⟩, passes, rfl⟩ := List.mem_map.mp member
      obtain ⟨inside, passes⟩ := List.mem_filter.mp passes
      exact ⟨pcoin, txout, known, offered, List.mem_zipIdx_iff_getElem?.mp inside, passes⟩
  · rintro ⟨whole, pcoin, txout, known, offered, inside, passes⟩
    have all : ∀ item ∈ wallet.mapWallet.toList, ∃ list,
        wallet.coinsOf env node now nSpendTime fOnlyConfirmed item.1 item.2 = .ok list := by
      intro item member
      obtain ⟨offers, offered⟩ := whole item.1 item.2 (ExtTreeMap.mem_toList_iff_getElem?_eq_some.mp member)
      obtain ⟨nDepth, coins⟩ := hasBest.coinsOf nSpendTime item.1 offered
      exact ⟨_, coins⟩
    obtain ⟨lists, listed⟩ := exists_mapM_eq_ok.mpr all
    obtain ⟨nDepth, coins⟩ := hasBest.coinsOf nSpendTime hash offered
    have inLists := (mem_of_mapM_eq_ok listed).mpr
      ⟨(hash, pcoin), ExtTreeMap.mem_toList_iff_getElem?_eq_some.mpr known, coins⟩
    refine ⟨lists.flatten, ?_, ⟨hash, n, nDepth⟩, List.mem_flatten.mpr ⟨_, inLists, ?_⟩, rfl, rfl⟩
    · exact bind_eq_ok.mpr ⟨lists, listed, rfl⟩
    · exact List.mem_map.mpr ⟨(txout, n), List.mem_filter.mpr
        ⟨List.mem_zipIdx_iff_getElem?.mpr inside, passes⟩, rfl⟩

end RitCoin.Proof
