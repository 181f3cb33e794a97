import RitCoin.Proof.TxIndex

/-!
# Fees are burned

A coinbase cannot claim the fees of its block, so each transfer takes at least `TX_FEE` out of circulation.
-/

namespace RitCoin.Proof
open Lib Model Spec

variable {P : Primitives}

def gain (P : Primitives) (tx : CTransaction) : ℤ := if tx.isCoinBase then valueOut P tx else -TX_FEE.toInt

def coinbaseTotal (P : Primitives) (blocks : List CBlock) : ℤ :=
  (((blocks.flatMap CBlock.vtx).filter CTransaction.isCoinBase).map (valueOut P)).sum

def transfers (blocks : List CBlock) : ℕ := (blocks.flatMap CBlock.vtx).countP fun tx => !tx.isCoinBase

theorem sum_gain (txs : List CTransaction) : (txs.map (gain P)).sum =
    ((txs.filter CTransaction.isCoinBase).map (valueOut P)).sum -
      TX_FEE.toInt * txs.countP fun tx => !tx.isCoinBase := by
  induction txs with
  | nil => rfl
  | cons tx txs ih =>
    rw [List.map_cons, List.sum_cons, ih, gain]
    cases kind : tx.isCoinBase with
    | true =>
      simp [kind]
      ring
    | false =>
      simp [kind]
      ring

theorem total_connectTxs_le {now : Int} {start : Ledger P} {height : ℕ} {block : CBlock}
    (accepts : Accepts now start height block) (finite : start.Finite) :
    (connectTxs height 0 start block.vtx).total ≤ start.total + (block.vtx.map (gain P)).sum := by
  refine (TxsOk.run (fun done coins => Midway start coins done ∧
    coins.total ≤ start.total + (done.map (gain P)).sum) ?_ accepts.txs ⟨.start finite, by simp⟩).2
  rintro done tx rest coins nSigOps split ⟨midway, bound⟩ ok
  have checked : tx.checkTransaction = .ok () := accepts.checked.txs tx (by simp [split])
  refine ⟨midway.apply ok checked _, ?_⟩
  rw [midway.total_apply ok checked (not_mem_of_split accepts.checked split), List.map_append, List.sum_append,
    List.map_singleton, List.sum_singleton, gain]
  cases kind : tx.isCoinBase with
  | true =>
    simp only [valueIn, form_spends_coinbase kind, List.map_nil, List.sum_nil, if_true]
    omega
  | false =>
    have fee := (ok.inputs kind).fee
    simp only [Bool.false_eq_true, if_false]
    omega

theorem total_ledgerOf_le {blocks : List CBlock} (valid : ValidChain P blocks) :
    (ledgerOf P blocks).total ≤ ((blocks.flatMap CBlock.vtx).map (gain P)).sum := by
  induction valid with
  | genesis =>
    rw [total_ledgerOf_nil]
    rfl
  | extend valid accepts ih =>
    have next := total_connectTxs_le accepts valid.total_le.1
    rw [ledgerOf_append, List.flatMap_append, List.map_append, List.sum_append, List.flatMap_singleton]
    omega

/-- The supply of the tip is at most what was minted above genesis, less a fee for every transfer. -/
theorem nMoneySupply_le_coinbaseTotal (P : Primitives) (events : List Event) :
    ∃ tip, (run P events).mapBlockIndex.deref (run P events).pindexBest = .ok tip ∧
      tip.nMoneySupply.toInt + TX_FEE.toInt * transfers (bestBlocks (run P events)).tail ≤
        coinbaseTotal P (bestBlocks (run P events)).tail := by
  obtain ⟨chain, inv⟩ := exists_inv P events
  obtain ⟨last, tip, _, _, lookup, _, _⟩ := inv.tip.best
  refine ⟨tip, by rw [inv.tip.pindexBest, BlockMap.deref, lookup], ?_⟩
  have blocks : blocksOf chain = (bestBlocks (run P events)).tail := by
    rw [inv.bestBlocks, blocksOf, List.map_tail]
  have bound := total_ledgerOf_le inv.valid
  rw [sum_gain, blocks] at bound
  rw [inv.supply tip lookup, blocks, coinbaseTotal, transfers]
  omega

end RitCoin.Proof
