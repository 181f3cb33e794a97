import RitCoin.Proof.Amounts

namespace RitCoin.Proof
open Lib Model Spec Std

def FitsInt64 (x : Int) : Prop := -2 ^ 63 ≤ x ∧ x < 2 ^ 63

theorem sum_take_le {xs : List Int} (nonneg : ∀ x ∈ xs, 0 ≤ x) (k : ℕ) :
    0 ≤ (xs.take k).sum ∧ (xs.take k).sum ≤ xs.sum := by
  have split := congrArg List.sum (List.take_append_drop k xs)
  rw [List.sum_append] at split
  have first : 0 ≤ (xs.take k).sum := List.sum_nonneg fun x member => nonneg x (List.mem_of_mem_take member)
  have rest : 0 ≤ (xs.drop k).sum := List.sum_nonneg fun x member => nonneg x (List.mem_of_mem_drop member)
  omega

/-- Each `GetValueIn` is in range; the sums over the block overflow when the block moves too much, which
is told from the coins of the chain below it. -/
theorem accumulators_fit_iff (P : Primitives) (events : List Event) {now : Int} {block : CBlock} {txdb' : TxDB}
    {pindex' : CBlockIndex} (prev : block.hashPrevBlock = (run P events).hashBestChain)
    (fresh : (run P events).mapBlockIndex[P.getHash block]? = none)
    (connect : connectBlock P now (stored P (run P events) block) (batch (stored P (run P events) block).pdb) block
      (newIndex (run P events) block) = .ok (txdb', pindex')) :
    let below := bestBlocks (run P events)
    let moved := ledgerAmounts below.length 0 (ledgerOf P below.tail) block.vtx
    (∀ k state, (block.vtx.take k).foldlM (connectTx P (stored P (run P events) block)
        (batch (stored P (run P events) block).pdb) (newIndex (run P events) block))
        (.start block (newIndex (run P events) block)) = .ok state →
      state.nValueIn = Int64.ofInt ((moved.take k).map Prod.fst).sum ∧
      state.nValueOut = Int64.ofInt ((moved.take k).map Prod.snd).sum) ∧
    (((∀ amount ∈ moved, FitsInt64 amount.1) ∧
        ∀ k, FitsInt64 ((moved.take k).map Prod.fst).sum ∧ FitsInt64 ((moved.take k).map Prod.snd).sum) ↔
      (moved.map Prod.fst).sum < 2 ^ 63 ∧ (block.vtx.map totalOut).sum < 2 ^ 63) ∧
    (block.vtx.length ≤ 922 → (moved.map Prod.fst).sum < 2 ^ 63 ∧ (block.vtx.map totalOut).sum < 2 ^ 63) := by
  obtain ⟨chain, inv⟩ := exists_inv P events
  obtain ⟨tip, lookup, -, -⟩ := inv.best
  have same := (inv.ready ⟨fresh, by rw [prev]; exact lookup⟩ prev).amounts_eq connect
  have height : (bestBlocks (run P events)).length = chain.length := by rw [inv.bestBlocks, List.length_map]
  rw [inv.blocksOf_eq] at same
  simp only [height, ← same]
  set moved := CBlock.amounts P (stored P (run P events) block) (batch (stored P (run P events) block).pdb)
    (newIndex (run P events) block) block
  obtain ⟨final, loop, -⟩ := connectBlock_loop connect
  obtain ⟨oks, -, -⟩ := loop_amounts block.vtx loop
  have created : moved.map Prod.snd = block.vtx.map totalOut := by
    have same : List.Forall₂ (fun (x : ℤ) y => x = y) (moved.map Prod.snd) (block.vtx.map totalOut) := by
      rw [List.forall₂_map_left_iff, List.forall₂_map_right_iff]
      exact oks.flip.imp fun _ _ ok => ok.created
    exact List.forall₂_eq_eq_eq ▸ same
  have each : ∀ amount ∈ moved, ∃ tx, AmountOk tx amount := by
    intro amount member
    obtain ⟨tx, _, ok⟩ := exists_of_forall₂ oks member
    exact ⟨tx, ok⟩
  have ins : ∀ x ∈ moved.map Prod.fst, 0 ≤ x ∧ x ≤ MAX_MONEY.toInt := by
    intro x member
    obtain ⟨amount, inMoved, rfl⟩ := List.mem_map.mp member
    obtain ⟨tx, ok⟩ := each amount inMoved
    exact ⟨ok.low.1, ok.high.1⟩
  have outs : ∀ x ∈ moved.map Prod.snd, 0 ≤ x ∧ x ≤ MAX_MONEY.toInt := by
    intro x member
    obtain ⟨amount, inMoved, rfl⟩ := List.mem_map.mp member
    obtain ⟨tx, ok⟩ := each amount inMoved
    exact ⟨ok.low.2, ok.high.2⟩
  refine ⟨fun k state partly => ?_, ⟨?_, ?_⟩, fun few => ?_⟩
  · obtain ⟨-, nValueIn, nValueOut⟩ := loop_amounts _ partly
    rw [amounts_take] at nValueIn nValueOut
    rw [nValueIn, nValueOut]
    exact ⟨Int64.zero_add _, Int64.zero_add _⟩
  · rintro ⟨-, fit⟩
    have all := fit moved.length
    rw [List.take_length] at all
    rw [← created]
    exact ⟨all.1.2, all.2.2⟩
  · rintro ⟨spent, made⟩
    rw [← created] at made
    refine ⟨fun amount member => ?_, fun k => ?_⟩
    · have bounds := ins _ (List.mem_map_of_mem member)
      rw [MAX_MONEY_toInt] at bounds
      constructor <;> omega
    · have sumIn := sum_take_le (fun x member => (ins x member).1) k
      have sumOut := sum_take_le (fun x member => (outs x member).1) k
      rw [← List.map_take] at sumIn sumOut
      exact ⟨⟨by omega, by omega⟩, by omega, by omega⟩
  · have sumIn := List.sum_le_card_nsmul _ _ fun x member => (ins x member).2
    have sumOut := List.sum_le_card_nsmul _ _ fun x member => (outs x member).2
    have length : moved.length = block.vtx.length := oks.length_eq.symm
    rw [List.length_map, length, MAX_MONEY_toInt, nsmul_eq_mul] at sumIn sumOut
    rw [← created]
    constructor <;> omega

/-- A block of two transactions, the second of which spends what the coinbase of the first block pays. -/
theorem paying_amounts_fit :
    let node := run toy (payingEvents 5)
    let block := payingBlock node.hashBestChain 180 [payment 1459892999 0xffffffff 0]
    let moved := ledgerAmounts (bestBlocks node).length 0 (ledgerOf toy (bestBlocks node).tail) block.vtx
    (∃ connected, connectNext node block = .ok connected) ∧
      ∀ k, FitsInt64 ((moved.take k).map Prod.fst).sum ∧ FitsInt64 ((moved.take k).map Prod.snd).sum := by
  intro node block moved
  obtain ⟨⟨txdb', pindex'⟩, connect⟩ := exists_eq_ok (x := connectNext node block) (by decide +kernel)
  obtain ⟨-, fit, few⟩ := accumulators_fit_iff toy (payingEvents 5) (by decide +kernel) (by decide +kernel) connect
  exact ⟨⟨_, connect⟩, (fit.mpr (few (by decide +kernel))).2⟩

def blockOf (hashPrevBlock : Uint256) (seconds : UInt32) (vtx : List CTransaction) : CBlock :=
  let block : CBlock := { toyBlock hashPrevBlock seconds 0 1 with vtx := vtx }
  { block with hashMerkleRoot := block.buildMerkleTree toy }

theorem blockOf_merkle (hashPrevBlock : Uint256) (seconds : UInt32) (vtx : List CTransaction) :
    (blockOf hashPrevBlock seconds vtx).hashMerkleRoot = (blockOf hashPrevBlock seconds vtx).buildMerkleTree toy := rfl

theorem blockOf_prev (hashPrevBlock : Uint256) (seconds : UInt32) (vtx : List CTransaction) :
    (blockOf hashPrevBlock seconds vtx).hashPrevBlock = hashPrevBlock := rfl

def richCoinbase : CTransaction := { toyCoinbase 1459892850 with vout := [⟨MAX_MONEY, []⟩] }

def richBlocks : List CBlock :=
  let next (below : List CBlock) (coinbase : CTransaction) : List CBlock :=
    below ++ [blockOf ((below.getLast?.map toy.getHash).getD (hashGenesisBlock toy)) (coinbase.nTime - 1459892820)
      [coinbase]]
  [richCoinbase, toyCoinbase 1459892880, toyCoinbase 1459892910, toyCoinbase 1459892940,
    toyCoinbase 1459892970].foldl next []

def richEvents : List Event := richBlocks.map (.block toyNow)

section Transfers
variable (worth : ℕ → Int64) (time : ℕ → UInt32)

def heldBy : ℕ → Uint256
  | 0 => toy.hashTx richCoinbase
  | k + 1 => BitVec.ofNat 256 (time k).toNat

def transfer (k : ℕ) : CTransaction where
  nVersion := 1
  nTime := time k
  vin := [⟨⟨heldBy time k, 0⟩, [], 0xffffffff⟩]
  vout := [⟨worth (k + 1), []⟩]
  nLockTime := 0

structure Schedule : Prop where
  worth : ∀ k < 1000, (worth k).toInt = 10000000000000000 - k * 1000000
  time : ∀ k < 1000, (time k).toNat = 1459893000 + k

variable {worth time} {start coins : Ledger toy} {k : ℕ} {c : Coin (form toy) TxRef}

theorem transfer_spending (k : ℕ) : (transfer worth time k).isCoinBase = false := by
  simp [transfer, CTransaction.isCoinBase, COutPoint.isNull]

theorem transfer_size (k : ℕ) : (transfer worth time k).getSerializeSize = 64 := by
  simp [CTransaction.getSerializeSize, CTxIn.getSerializeSize, CTxOut.getSerializeSize, transfer, bytesSize,
    getSizeOfCompactSize]

theorem Schedule.held (schedule : Schedule worth time) (few : k < 1000) :
    heldBy time (k + 1) = BitVec.ofNat 256 (1459893000 + k) := by
  rw [Proof.heldBy, schedule.time k few]

theorem Schedule.range (schedule : Schedule worth time) (few : k < 1000) :
    moneyRange (worth k) ∧ 0 < (worth k).toInt := by
  have value := schedule.worth k few
  rw [moneyRange_iff, MAX_MONEY_toInt]
  omega

theorem Schedule.checked (schedule : Schedule worth time) (few : k < 999) :
    (transfer worth time k).checkTransaction = .ok () := by
  obtain ⟨range, positive⟩ := schedule.range (k := k + 1) (by omega)
  have size : ¬ (transfer worth time k).getSerializeSize > MAX_BLOCK_SIZE := by
    rw [transfer_size]
    decide
  have nonzero : worth (k + 1) ≠ 0 := fun zero => by
    rw [zero, Int64.toInt_zero] at positive
    omega
  have high : ¬ worth (k + 1) > MAX_MONEY := by
    rw [gt_iff_lt, Int64.lt_iff_toInt_lt, Int.not_lt]
    exact (moneyRange_iff.mp range).2
  have output : (transfer worth time k).checkOutput 0 (⟨worth (k + 1), []⟩, 0) = .ok (worth (k + 1)) := by
    simp only [CTransaction.checkOutput, CTxOut.isEmpty, Int64.zero_add, seq_eq_ok, failIf_eq_ok, pure_eq_ok]
    simp [nonzero, high, range]
  simp only [CTransaction.checkTransaction, bind_eq_ok, failIf_eq_ok]
  refine ⟨⟨⟩, List.cons_ne_nil _ _, ⟨⟩, List.cons_ne_nil _ _, ⟨⟩, size, worth (k + 1), ?_, ⟨⟩, by simp [transfer], ?_⟩
  · change [((⟨worth (k + 1), []⟩ : CTxOut), 0)].foldlM (transfer worth time k).checkOutput 0 = _
    rw [List.foldlM_cons, output]
    rfl
  · rw [if_neg (by simp [transfer_spending])]
    simp [transfer, COutPoint.isNull]

structure Carries (worth : ℕ → Int64) (time : ℕ → UInt32) (coins : Ledger toy) (k : ℕ) (c : Coin (form toy) TxRef) :
    Prop where
  coin : coins (heldBy time k) = some c
  output : c.tx.vout[0]? = some ⟨worth k, []⟩
  unspent : c.spent[0]? = some none
  time : c.tx.nTime ≤ time k
  mature : c.tx.isCoinBase → (c.loc.height : Int) + nCoinbaseMaturity ≤ 6

theorem Schedule.carries (schedule : Schedule worth time) (few : k < 999) (coins : Ledger toy) (loc : TxRef) :
    Carries worth time (coins.apply loc (transfer worth time k)) (k + 1)
      (Coin.new (form toy) loc (transfer worth time k)) where
  coin := Coins.apply_self coins loc (transfer worth time k)
  output := rfl
  unspent := rfl
  time := by
    have here := schedule.time k (by omega)
    have next := schedule.time (k + 1) (by omega)
    change time k ≤ time (k + 1)
    rw [UInt32.le_iff_toNat_le]
    omega
  mature isCoinBase := by
    change (transfer worth time k).isCoinBase = true at isCoinBase
    rw [transfer_spending] at isCoinBase
    cases isCoinBase

theorem Carries.valueIn (carries : Carries worth time coins k c) :
    valueIn coins (transfer worth time k) = (worth k).toInt := by
  have spends : (transfer worth time k).vin.map outpoint = [(heldBy time k, 0)] := rfl
  rw [Spec.valueIn, form_spends (transfer_spending k), spends, List.map_singleton, List.sum_singleton]
  simp [Coins.value, carries.coin, form_values, carries.output]

theorem Carries.sigOps (carries : Carries worth time coins k c) : sigOps coins (transfer worth time k) = 0 := by
  have script : inputSigOps coins ⟨⟨heldBy time k, 0⟩, [], 0xffffffff⟩ = 0 := by
    simp only [inputSigOps, carries.coin, Option.bind_some, UInt32.toNat_zero, carries.output]
    rfl
  have vin : (transfer worth time k).vin = [⟨⟨heldBy time k, 0⟩, [], 0xffffffff⟩] := rfl
  have legacy : (transfer worth time k).getLegacySigOpCount = 0 := rfl
  rw [Spec.sigOps, legacy, transfer_spending, vin, List.map_singleton, script]
  rfl

theorem Schedule.txOk (schedule : Schedule worth time) (few : k < 999) (carries : Carries worth time coins k c)
    (free : start.Free (heldBy time (k + 1))) : TxOk start coins 6 0 (transfer worth time k) := by
  have before := schedule.worth k (by omega)
  have after := schedule.worth (k + 1) (by omega)
  have fee : TX_FEE.toInt = 1000000 := by decide
  have made : valueOut toy (transfer worth time k) = (worth (k + 1)).toInt := by
    rw [valueOut, form_values]
    exact List.sum_singleton
  refine ⟨free, ⟨worth (k + 1), ?_⟩, ?_, fun _ => ⟨fun i txin input => ?_, ?_, ?_⟩⟩
  · have range := (schedule.range (k := k + 1) (by omega)).1
    change (CTransaction.addValueOut 0 ⟨worth (k + 1), []⟩ >>= pure) = _
    simp [CTransaction.addValueOut, range, failIf]
  · rw [carries.sigOps]
    exact Nat.zero_le _
  · obtain ⟨rfl, rfl⟩ : i = 0 ∧ txin = ⟨⟨heldBy time k, 0⟩, [], 0xffffffff⟩ := by
      cases i with
      | zero => exact ⟨rfl, (Option.some.inj input).symm⟩
      | succ i => cases input
    exact ⟨c, ⟨worth k, []⟩, carries.coin, carries.output, carries.unspent, carries.mature, carries.time,
      (schedule.range (by omega)).1, rfl⟩
  · rw [carries.valueIn, before, MAX_MONEY_toInt]
    omega
  · rw [carries.valueIn, before, made, after, fee]
    push_cast
    omega

theorem Schedule.txsOk (schedule : Schedule worth time) (free : ∀ k < 999, start.Free (heldBy time (k + 1))) :
    ∀ (n k i : ℕ) (coins : Ledger toy) (c : Coin (form toy) TxRef), k + n < 1000 → Carries worth time coins k c →
      TxsOk start 6 i 0 coins ((List.range' k n).map (transfer worth time)) ∧
      (ledgerAmounts 6 i coins ((List.range' k n).map (transfer worth time))).map Prod.fst =
        (List.range' k n).map fun k => (worth k).toInt := by
  intro n
  induction n with
  | zero => exact fun _ _ _ _ _ _ => ⟨trivial, rfl⟩
  | succ n ih =>
    intro k i coins c few carries
    obtain ⟨ok, spent⟩ := ih (k + 1) (i + 1) _ _ (by omega) (schedule.carries (by omega) coins (place 6 i))
    rw [List.range'_succ, List.map_cons, List.map_cons]
    refine ⟨⟨schedule.txOk (by omega) carries (free k (by omega)), ?_⟩, ?_⟩
    · rw [carries.sigOps]
      exact ok
    · rw [ledgerAmounts, List.map_cons, carries.valueIn, spent]

end Transfers

def worthAfter (k : ℕ) : Int64 := MAX_MONEY - Int64.ofNat k * TX_FEE

def transferTime (k : ℕ) : UInt32 := 1459893000 + UInt32.ofNat k

theorem schedule : Schedule worthAfter transferTime where
  worth k few := by
    have count : (Int64.ofNat k).toInt = k := Int64.toInt_ofNat_of_lt (by omega)
    have fee : TX_FEE.toInt = 1000000 := by decide
    have paid : (Int64.ofNat k * TX_FEE).toInt = k * 1000000 := by
      rw [Int64.toInt_mul, count, fee, Int.bmod_eq_of_le] <;> omega
    rw [worthAfter, Int64.toInt_sub, MAX_MONEY_toInt, paid, Int.bmod_eq_of_le] <;> omega
  time k few := by
    have small : (UInt32.ofNat k).toNat = k := UInt32.toNat_ofNat_of_lt' (by change k < 4294967296; omega)
    rw [transferTime, UInt32.toNat_add, small]
    change (1459893000 + k) % 4294967296 = _
    omega

def longBlock : CBlock :=
  blockOf (run toy richEvents).hashBestChain 180
    (toyCoinbase 1459892999 :: (List.range' 0 923).map (transfer worthAfter transferTime))

theorem longBlock_checked : longBlock.Checked toy toyNow := by
  have vtx : longBlock.vtx = toyCoinbase 1459892999 :: (List.range' 0 923).map (transfer worthAfter transferTime) := rfl
  have facts : longBlock.vtx.length ≤ MAX_BLOCK_SIZE ∧ longBlock.getSerializeSize ≤ MAX_BLOCK_SIZE ∧
      checkProofOfWork longBlock.nBits = .ok () ∧ longBlock.getBlockTime ≤ toyNow + nMaxClockDrift ∧
      (longBlock.vtx.map CTransaction.getLegacySigOpCount).sum ≤ MAX_BLOCK_SIGOPS := by
    decide +kernel
  obtain ⟨count, size, work, time, sigOps⟩ := facts
  refine ⟨List.cons_ne_nil _ _, count, size, work, time, by rw [vtx]; rfl, ?_, by rw [vtx]; decide, ?_, ?_, sigOps,
    blockOf_merkle _ _ _⟩
  · rw [vtx, List.tail_cons, List.any_map, List.any_eq_false]
    intro k _
    simp [transfer_spending]
  · rw [vtx, List.forall_mem_cons]
    refine ⟨by decide, fun tx member => ?_⟩
    obtain ⟨k, inRange, rfl⟩ := List.mem_map.mp member
    rw [List.mem_range'_1] at inRange
    exact schedule.checked (by omega)
  · have hashes : longBlock.vtx.map toy.hashTx =
        BitVec.ofNat 256 1459892999 :: (List.range' 0 923).map fun k => heldBy transferTime (k + 1) := by
      rw [vtx, List.map_cons, List.map_map]
      rfl
    rw [hashes, List.nodup_cons]
    constructor
    · intro member
      obtain ⟨k, inRange, same⟩ := List.mem_map.mp member
      rw [List.mem_range'_1] at inRange
      rw [schedule.held (by omega)] at same
      have := congrArg BitVec.toNat same
      simp only [BitVec.toNat_ofNat] at this
      omega
    · refine List.Nodup.map_on ?_ List.nodup_range'
      intro k inRange k' inRange' same
      rw [List.mem_range'_1] at inRange inRange'
      rw [schedule.held (by omega), schedule.held (by omega)] at same
      have := congrArg BitVec.toNat same
      simp only [BitVec.toNat_ofNat] at this
      omega

theorem richEvents_state : (bestBlocks (run toy richEvents)).tail = richBlocks ∧
    (run toy richEvents).mapBlockIndex[toy.getHash longBlock]? = none ∧
    ((run toy richEvents).mapBlockIndex[(run toy richEvents).hashBestChain]?.map
      fun tip => checkAccept toyNow (run toy richEvents) longBlock tip) = some (.ok ()) ∧
    ∀ block ∈ richBlocks, ∀ tx ∈ block.vtx, toy.hashTx tx < 1459892999 := by
  decide +kernel

theorem rich_coin : ledgerOf toy richBlocks (heldBy transferTime 0) =
    some (Coin.new (form toy) (place 1 0) richCoinbase) := rfl

theorem rich_free (valid : ValidChain toy richBlocks) {id : Uint256} (late : ¬ id < 1459892999) :
    (ledgerOf toy richBlocks).Free id := by
  intro c found
  have records := valid.applied.records id c found
  obtain ⟨block, inBlocks, inVtx⟩ : ∃ block ∈ richBlocks, c.tx ∈ block.vtx := by
    obtain ⟨item, inBlocks, placed⟩ := List.mem_flatMap.mp records.created
    exact ⟨item.1, List.fst_mem_of_mem_zipIdx inBlocks, List.mem_of_getElem? (mem_placedTxs.mp placed).2⟩
  have early := richEvents_state.2.2.2 block inBlocks c.tx inVtx
  exact absurd (records.id_eq ▸ early) late

theorem longBlock_start : Carries worthAfter transferTime
    (Coins.apply (ledgerOf toy richBlocks) (place 6 0) (toyCoinbase 1459892999)) 0
      (Coin.new (form toy) (place 1 0) richCoinbase) where
  coin := by
    rw [Coins.apply_of_ne _ _ _ (by decide), form_spends_coinbase (by decide)]
    exact rich_coin
  output := by
    have all : worthAfter 0 = MAX_MONEY := by decide
    rw [all]
    rfl
  unspent := rfl
  time := by decide
  mature _ := by decide

theorem longBlock_txsOk (valid : ValidChain toy richBlocks) :
    TxsOk (ledgerOf toy richBlocks) 6 0 0 (ledgerOf toy richBlocks) longBlock.vtx ∧
      (ledgerAmounts 6 0 (ledgerOf toy richBlocks) longBlock.vtx).map Prod.fst =
        0 :: (List.range' 0 923).map fun k => (worthAfter k).toInt := by
  have free : ∀ k < 999, (ledgerOf toy richBlocks).Free (heldBy transferTime (k + 1)) := by
    intro k few
    apply rich_free valid
    have coinbase : BitVec.toNat (1459892999 : Uint256) = 1459892999 := by decide
    rw [schedule.held (by omega), BitVec.lt_def, BitVec.toNat_ofNat, coinbase]
    omega
  obtain ⟨ok, spent⟩ := schedule.txsOk free 923 0 1 _ _ (by omega) longBlock_start
  have first : sigOps (ledgerOf toy richBlocks) (toyCoinbase 1459892999) = 0 := by
    rw [sigOps_coinbase _ (by decide)]
    decide
  have vtx : longBlock.vtx = toyCoinbase 1459892999 :: (List.range' 0 923).map (transfer worthAfter transferTime) := rfl
  rw [vtx]
  refine ⟨⟨⟨rich_free valid (by decide), ⟨0, by decide⟩, ?_, ?_⟩, ?_⟩, ?_⟩
  · rw [first]
    exact Nat.zero_le _
  · exact fun spending => absurd spending (by decide)
  · rw [first]
    exact ok
  · rw [ledgerAmounts, List.map_cons, spent, valueIn, form_spends_coinbase (by decide)]
    rfl

theorem longBlock_accepts (valid : ValidChain toy richBlocks) :
    Accepts toyNow (ledgerOf toy richBlocks) 6 longBlock := by
  refine ⟨longBlock_checked, (longBlock_txsOk valid).1, fun coinbase first => ?_⟩
  obtain rfl : toyCoinbase 1459892999 = coinbase := Option.some.inj first
  have total := valid.total_le.2
  have nothing : valueOut toy (toyCoinbase 1459892999) = 0 := by decide
  rw [nothing]
  omega

theorem longBlock_overflows : Fits toy toyNow (run toy richEvents) longBlock ∧
    ∃ txdb' pindex', connectNext (run toy richEvents) longBlock = .ok (txdb', pindex') ∧
      2 ^ 63 ≤ ((CBlock.amounts toy (stored toy (run toy richEvents) longBlock)
        (batch (stored toy (run toy richEvents) longBlock).pdb) (newIndex (run toy richEvents) longBlock)
        longBlock).map Prod.fst).sum := by
  obtain ⟨chain, inv⟩ := exists_inv toy richEvents
  obtain ⟨tip, lookup, -, -⟩ := inv.best
  obtain ⟨best, fresh, accept, -⟩ := richEvents_state
  have blocks : blocksOf chain = richBlocks := by rw [inv.blocksOf_eq, best]
  have length : chain.length = 6 := by
    rw [length_blocksOf inv.path, blocks]
    rfl
  have valid : ValidChain toy richBlocks := blocks ▸ inv.valid
  have accepts := longBlock_accepts valid
  have prev : longBlock.hashPrevBlock = (run toy richEvents).hashBestChain := blockOf_prev _ _ _
  rw [lookup] at accept
  have attachable : Attachable toy (run toy richEvents) longBlock tip := ⟨fresh, by rw [prev]; exact lookup⟩
  have ready := inv.ready attachable prev
  rw [blocks, length] at ready
  obtain ⟨⟨txdb', pindex'⟩, connect⟩ := connectBlock_complete ready accepts
  refine ⟨(inv.fits_iff lookup).mpr ⟨prev, fresh, Option.some.inj accept, ?_⟩, txdb', pindex', connect, ?_⟩
  · rw [blocks, length]
    exact accepts
  · rw [ready.amounts_eq connect, (longBlock_txsOk valid).2, List.sum_cons]
    have least := List.card_nsmul_le_sum ((List.range' 0 923).map fun k => (worthAfter k).toInt) 9999999000000000 (by
      intro x member
      obtain ⟨k, inRange, rfl⟩ := List.mem_map.mp member
      rw [List.mem_range'_1] at inRange
      rw [schedule.worth k (by omega)]
      omega)
    rw [List.length_map, List.length_range', nsmul_eq_mul] at least
    omega

end RitCoin.Proof
