import RitCoin.Proof.TxIndex

namespace RitCoin.Proof
open Lib Model Spec Std

/-- No transaction spends an output of a coinbase that is less than `nCoinbaseMaturity` blocks
below its own block. -/
theorem coinbase_consumed_mature (P : Primitives) (events : List Event) {p q : TxRef}
    {coinbase : CTransaction} {n i : ℕ} (isCoinBase : coinbase.isCoinBase = true)
    (consumed : ConsumedBy P (bestBlocks (run P events)) p coinbase n q i) :
    (p.height : Int) + nCoinbaseMaturity ≤ q.height := by
  obtain ⟨chain, inv⟩ := exists_inv P events
  rw [inv.bestBlocks] at consumed
  obtain ⟨txq, _, consumes⟩ := inv.consumes consumed
  exact inv.valid.matured _ _ _ consumes isCoinBase

def payToKey : CScript := 33 :: List.replicate 33 2 ++ [OP_CHECKSIG]

def payingCoinbase (nTime : UInt32) : CTransaction :=
  { toyCoinbase nTime with vout := [⟨10 * COIN, payToKey⟩] }

def payingBlock (hashPrevBlock : Uint256) (seconds : UInt32) (others : List CTransaction) : CBlock :=
  let block : CBlock := { toyBlock hashPrevBlock seconds 0 1 with
    vtx := payingCoinbase (1459892820 + seconds) :: others }
  { block with hashMerkleRoot := block.buildMerkleTree toy }

def payingBlocks : ℕ → List CBlock
  | 0 => []
  | n + 1 =>
    let below := payingBlocks n
    below ++ [payingBlock ((below.getLast?.map toy.getHash).getD (hashGenesisBlock toy))
      (30 * UInt32.ofNat (n + 1)) []]

def payingEvents (n : ℕ) : List Event := (payingBlocks n).map (.block toyNow)

def payment (nTime nSequence nLockTime : UInt32) : CTransaction where
  nVersion := 1
  nTime := nTime
  vin := [⟨⟨toy.hashTx (payingCoinbase 1459892850), 0⟩, [1, 1], nSequence⟩]
  vout := [⟨9 * COIN, payToKey⟩]
  nLockTime := nLockTime

def followUp : CTransaction :=
  { payment 1459892999 0xffffffff 0 with vin := [⟨⟨1459892998, 0⟩, [1, 1], 0xffffffff⟩], vout := [⟨8 * COIN, payToKey⟩] }

/-- A coinbase, a payment, and a transaction that spends the payment. -/
def busyBlock : CBlock :=
  payingBlock (run toy (payingEvents 5)).hashBestChain 180 [payment 1459892998 0xffffffff 0, followUp]

def busyEvents : List Event := payingEvents 5 ++ [.block toyNow busyBlock]

def paidEvents : List Event :=
  payingEvents 5 ++ [.block toyNow (payingBlock (run toy (payingEvents 5)).hashBestChain 180
    [payment 1459892999 0xffffffff 0])]

theorem coinbase_consumed_after_five : ∃ p coinbase,
    ConsumedBy toy (bestBlocks (run toy paidEvents)) p coinbase 0 (place 6 1) 0 ∧
    coinbase.isCoinBase = true ∧ (p.height : Int) + nCoinbaseMaturity ≤ 6 := by
  obtain ⟨spends, only⟩ :
      SpendsAt (bestBlocks (run toy paidEvents)) (place 6 1) 0 (1459892850, 0) ∧
      ∀ block ∈ bestBlocks (run toy paidEvents), ∀ tx ∈ block.vtx,
        toy.hashTx tx = 1459892850 → tx.isCoinBase = true := by
    constructor
    · exact ⟨payment 1459892999 0xffffffff 0, (payment 1459892999 0xffffffff 0).vin.head (by decide),
        by decide +kernel, by decide, by decide, by decide +kernel⟩
    · decide +kernel
  obtain ⟨chain, inv⟩ := exists_inv toy paidEvents
  rw [inv.bestBlocks] at spends only
  obtain ⟨p, coinbase, consumed, hash, _⟩ := inv.exists_consumed spends
  rw [← inv.bestBlocks] at consumed only
  have isCoinBase : coinbase.isCoinBase = true := by
    obtain ⟨block, inChain, inVtx⟩ := Option.bind_eq_some_iff.mp consumed.created
    exact only block (List.mem_of_getElem? inChain) coinbase (List.mem_of_getElem? inVtx) hash
  exact ⟨p, coinbase, consumed, isCoinBase, coinbase_consumed_mature toy paidEvents isCoinBase consumed⟩

end RitCoin.Proof
