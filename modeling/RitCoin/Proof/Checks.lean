import RitCoin.Model.Chain

namespace RitCoin.Model
open Lib Std

structure CBlock.Checked (P : Primitives) (now : Int) (block : CBlock) : Prop where
  nonempty : block.vtx ≠ []
  count : block.vtx.length ≤ MAX_BLOCK_SIZE
  size : block.getSerializeSize ≤ MAX_BLOCK_SIZE
  work : checkProofOfWork block.nBits = .ok ()
  time : block.getBlockTime ≤ now + nMaxClockDrift
  coinbase : (block.vtx.head?.map CTransaction.isCoinBase).getD false
  single : block.vtx.tail.any CTransaction.isCoinBase = false
  coinbaseTime : block.getBlockTime
    ≤ ((block.vtx.head?.map fun tx => (tx.nTime.toNat : Int)).getD 0) + nMaxClockDrift
  txs : ∀ tx ∈ block.vtx, tx.checkTransaction = .ok ()
  nodup : (block.vtx.map P.hashTx).Nodup
  sigOps : (block.vtx.map CTransaction.getLegacySigOpCount).sum ≤ MAX_BLOCK_SIGOPS
  merkle : block.hashMerkleRoot = block.buildMerkleTree P

theorem CBlock.checkBlock_eq_ok {P : Primitives} {now : Int} {block : CBlock} :
    block.checkBlock P now = .ok () ↔ block.Checked P now := by
  simp only [CBlock.checkBlock, seq_eq_ok, failIf_eq_ok, mapError_eq_ok, forM_eq_ok, not_not, ne_eq,
    gt_iff_lt, Nat.not_lt, Int.not_lt, Bool.not_eq_false, Bool.not_eq_true]
  constructor
  · rintro ⟨h1, h2, h3, h4, h5, h6, h7, h8, h9, h10, h11, h12⟩
    exact ⟨h1, h2, h3, h4, h5, h6, h7, h8, h9, h10, h11, h12⟩
  · rintro ⟨h1, h2, h3, h4, h5, h6, h7, h8, h9, h10, h11, h12⟩
    exact ⟨h1, h2, h3, h4, h5, h6, h7, h8, h9, h10, h11, h12⟩

namespace CBlock.Checked
variable {P : Primitives} {now : Int} {block : CBlock}

theorem exists_coinbase (checked : block.Checked P now) :
    ∃ coinbase rest, block.vtx = coinbase :: rest ∧ coinbase.isCoinBase ∧
      ∀ tx ∈ rest, tx.isCoinBase = false := by
  cases vtx : block.vtx with
  | nil => exact absurd vtx checked.nonempty
  | cons coinbase rest =>
    refine ⟨coinbase, rest, rfl, ?_, ?_⟩
    · simpa [vtx] using checked.coinbase
    · simpa [vtx] using checked.single

theorem later (checked : block.Checked P now) {now' : Int} (le : now ≤ now') :
    block.Checked P now' :=
  { checked with time := checked.time.trans (by omega) }

end CBlock.Checked

namespace CTransaction
variable {tx : CTransaction}

theorem checkTransaction_nodup (checked : tx.checkTransaction = .ok ()) :
    (tx.vin.map CTxIn.prevout).Nodup := by
  simp only [checkTransaction, bind_eq_ok, failIf_eq_ok, not_not] at checked
  obtain ⟨_, _, _, _, _, _, _, _, _, nodup, _⟩ := checked
  exact nodup

theorem checkTransaction_vout (checked : tx.checkTransaction = .ok ()) : tx.vout ≠ [] := by
  simp only [checkTransaction, seq_eq_ok, failIf_eq_ok] at checked
  exact checked.2.1

theorem isCoinBase_prevout (coinbase : tx.isCoinBase = true) {txin : CTxIn} (input : txin ∈ tx.vin) :
    txin.prevout.hash = 0 := by
  unfold isCoinBase at coinbase
  split at coinbase
  · next only =>
      rw [only, List.mem_singleton] at input
      simp only [COutPoint.isNull, Bool.and_eq_true, beq_iff_eq] at coinbase
      rw [input]
      exact coinbase.1.1
  · cases coinbase

theorem getValueOut_eq_ok {v : Int64} (h : tx.getValueOut = .ok v) :
    v.toInt = (tx.vout.map fun txout => txout.nValue.toInt).sum ∧
    (∀ txout ∈ tx.vout, 0 ≤ txout.nValue.toInt) ∧ 0 ≤ v.toInt ∧ v.toInt ≤ MAX_MONEY.toInt := by
  have := foldlM_ok_rel (fun done acc =>
      acc.toInt = (done.map fun txout : CTxOut => txout.nValue.toInt).sum ∧
      (∀ txout ∈ done, 0 ≤ txout.nValue.toInt) ∧ 0 ≤ acc.toInt ∧ acc.toInt ≤ MAX_MONEY.toInt)
    ?_ tx.vout [] 0 v (by decide) h
  · simpa using this
  · rintro done txout acc acc' ⟨sum, each, low, high⟩ round
    simp only [addValueOut, seq_eq_ok, failIf_eq_ok, pure_eq_ok, not_or, not_not, moneyRange,
      Bool.and_eq_true, decide_eq_true_eq, Int64.le_iff_toInt_le] at round
    obtain ⟨⟨⟨lowTx, highTx⟩, lowSum, highSum⟩, rfl⟩ := round
    have zero : (0 : Int64).toInt = 0 := by decide
    have max : MAX_MONEY.toInt = 10000000000000000 := by decide
    rw [zero] at lowTx lowSum
    have exact : (acc + txout.nValue).toInt = acc.toInt + txout.nValue.toInt := by
      rw [Int64.toInt_add, Int.bmod_eq_of_le] <;> omega
    refine ⟨by simp [exact, sum], ?_, lowSum, highSum⟩
    simpa using fun txout' member => member.elim (each txout') (fun eq => eq ▸ lowTx)

end CTransaction

end RitCoin.Model
