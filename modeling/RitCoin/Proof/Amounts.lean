import RitCoin.Proof.Acceptance
import RitCoin.Proof.Outputs

namespace RitCoin.Proof
open Lib Model Spec Std

def inputValue (inputs : MapPrevTx) (txin : CTxIn) : Int :=
  match CTransaction.getOutputFor txin inputs with
  | .ok txout => txout.nValue.toInt
  | .error _ => 0

def totalIn (inputs : MapPrevTx) (tx : CTransaction) : Int :=
  if tx.isCoinBase then 0 else (tx.vin.map (inputValue inputs)).sum

def amounts (P : Primitives) (node : Node) (txdb : TxDB) (pindex : CBlockIndex) :
    ConnectState → List CTransaction → List (Int × Int)
  | _, [] => []
  | state, tx :: rest =>
    let inputs := (tx.fetchInputs node txdb state.mapQueuedChanges true false).toOption.getD ∅
    (totalIn inputs tx, totalOut tx) ::
      (connectTx P node txdb pindex state tx).toOption.elim [] fun state => amounts P node txdb pindex state rest

def CBlock.amounts (P : Primitives) (node : Node) (txdb : TxDB) (pindex : CBlockIndex) (block : CBlock) :
    List (Int × Int) :=
  Proof.amounts P node txdb pindex (.start block pindex) block.vtx

section Rounds
variable {P : Primitives} {node : Node} {txdb : TxDB} {pindex : CBlockIndex} {tx : CTransaction}
  {inputs : MapPrevTx} {state state' : ConnectState}

theorem checkInput_value {v v' : Int64} {txin : CTxIn}
    (round : CTransaction.checkInput node tx inputs pindex v txin = .ok v') :
    ∃ txout, CTransaction.getOutputFor txin inputs = .ok txout ∧ v' = v + txout.nValue ∧
      moneyRange txout.nValue ∧ moneyRange v' := by
  rw [CTransaction.checkInput] at round
  cases entry : inputs[txin.prevout.hash]? with
  | none => simp [entry] at round
  | some pair =>
    obtain ⟨txindex, txPrev⟩ := pair
    simp only [entry, seq_eq_ok, failIf_eq_ok, pure_eq_ok, not_or, not_not] at round
    obtain ⟨inside, -, -, ⟨value, sum⟩, rfl⟩ := round
    simp only [CTransaction.prevoutOutOfRange, Bool.or_eq_true, decide_eq_true_eq, not_or, Nat.not_le] at inside
    have found := List.getElem?_eq_getElem inside.1
    rw [found, Option.map_some, Option.getD_some] at value sum
    refine ⟨_, ?_, by rw [found]; rfl, value, ?_⟩
    · simp only [CTransaction.getOutputFor, entry, found]
    · rw [found]
      exact sum

theorem checkInputs_total {v : Int64} (spending : tx.isCoinBase = false)
    (loop : tx.vin.foldlM (CTransaction.checkInput node tx inputs pindex) 0 = .ok v) :
    tx.getValueIn inputs = .ok v ∧ v.toInt = totalIn inputs tx ∧ moneyRange v := by
  have rounds : ∀ (rest : List CTxIn) (acc : Int64), moneyRange acc →
      rest.foldlM (CTransaction.checkInput node tx inputs pindex) acc = .ok v →
      rest.foldlM (CTransaction.addValueIn inputs) acc = .ok v ∧
        v.toInt = acc.toInt + (rest.map (inputValue inputs)).sum ∧ moneyRange v := by
    intro rest
    induction rest with
    | nil =>
      intro acc range loop
      obtain rfl : acc = v := by simpa [pure, Except.pure] using loop
      exact ⟨rfl, by simp, range⟩
    | cons txin rest ih =>
      intro acc range loop
      rw [List.foldlM_cons, bind_eq_ok] at loop
      obtain ⟨after, round, loop⟩ := loop
      obtain ⟨txout, found, rfl, value, range'⟩ := checkInput_value round
      obtain ⟨others, sum, range''⟩ := ih _ range' loop
      have first : CTransaction.addValueIn inputs acc txin = .ok (acc + txout.nValue) := by
        rw [CTransaction.addValueIn, found]
        rfl
      have exact : inputValue inputs txin = txout.nValue.toInt := by rw [inputValue, found]
      refine ⟨by rw [List.foldlM_cons, first]; exact others, ?_, range''⟩
      rw [sum, toInt_add_of_moneyRange range value, List.map_cons, List.sum_cons, exact, Int.add_assoc]
  obtain ⟨value, sum, range⟩ := rounds tx.vin 0 (by decide) loop
  refine ⟨?_, ?_, range⟩
  · rw [CTransaction.getValueIn, if_neg (by simp [spending])]
    exact value
  · rw [totalIn, if_neg (by simp [spending]), sum, Int64.toInt_zero, Int.zero_add]

structure AmountOk (tx : CTransaction) (amount : Int × Int) : Prop where
  low : 0 ≤ amount.1 ∧ 0 ≤ amount.2
  high : amount.1 ≤ MAX_MONEY.toInt ∧ amount.2 ≤ MAX_MONEY.toInt
  created : amount.2 = totalOut tx
  coinbase : tx.isCoinBase = true → amount.1 = 0
  fee : tx.isCoinBase = false → amount.2 + TX_FEE.toInt ≤ amount.1

theorem connectTx_adds (round : connectTx P node txdb pindex state tx = .ok state') :
    let amount :=
      (totalIn ((tx.fetchInputs node txdb state.mapQueuedChanges true false).toOption.getD ∅) tx, totalOut tx)
    AmountOk tx amount ∧ state'.nValueIn = state.nValueIn + Int64.ofInt amount.1 ∧
      state'.nValueOut = state.nValueOut + Int64.ofInt amount.2 := by
  simp only [connectTx, bind_eq_ok, pure_eq_ok] at round
  obtain ⟨_, -, _, -, middle, branch, rfl⟩ := round
  unfold connectValues at branch
  cases kind : tx.isCoinBase with
  | true =>
    simp only [kind, if_true, connectCoinBase, bind_eq_ok, pure_eq_ok] at branch
    obtain ⟨v, outputs, rfl⟩ := branch
    obtain ⟨sum, -, low, high⟩ := CTransaction.getValueOut_eq_ok outputs
    have total : totalOut tx = v.toInt := sum.symm
    have none : ∀ inputs, totalIn inputs tx = 0 := fun inputs => by rw [totalIn, if_pos kind]
    simp only [none, total, Int64.ofInt_toInt]
    refine ⟨⟨⟨le_rfl, low⟩, ⟨low.trans high, high⟩, total.symm, fun _ => rfl, fun spending => ?_⟩, ?_, trivial⟩
    · rw [kind] at spending
      cases spending
    · simp
  | false =>
    simp only [kind, Bool.false_eq_true, if_false, connectSpend, bind_eq_ok, pure_eq_ok, mapError_eq_ok] at branch
    obtain ⟨inputs, fetch, _, -, _, -, vIn, valueIn', vOut, outputs, queue, connect, rfl⟩ := branch
    simp only [CTransaction.connectInputs, kind, Bool.false_eq_true, if_false, bind_eq_ok, failIf_eq_ok,
      pure_eq_ok] at connect
    obtain ⟨v, cheapLoop, _, -, vOut', outputs', _, h₁, _, h₂, _, h₃, _, h₄, -⟩ := connect
    obtain ⟨value, exact, range⟩ := checkInputs_total kind cheapLoop
    rw [value] at valueIn'
    obtain rfl : v = vIn := Except.ok.inj valueIn'
    rw [outputs] at outputs'
    obtain rfl : vOut = vOut' := Except.ok.inj outputs'
    obtain ⟨sum, -, rangeOut⟩ := CTransaction.getValueOut_eq_ok outputs
    have total : totalOut tx = vOut.toInt := sum.symm
    have paid := (fee_iff range (moneyRange_iff.mpr rangeOut)).mp ⟨h₁, h₂, h₃, not_not.mp h₄⟩
    have bounds := moneyRange_iff.mp range
    have fetched : (tx.fetchInputs node txdb state.mapQueuedChanges true false).toOption.getD ∅ = inputs := by
      rw [fetch]
      rfl
    simp only [fetched, ← exact, total, Int64.ofInt_toInt]
    refine ⟨⟨⟨bounds.1, rangeOut.1⟩, ⟨bounds.2, rangeOut.2⟩, total.symm, fun coinbase => ?_, fun _ => paid⟩,
      trivial, trivial⟩
    rw [kind] at coinbase
    cases coinbase

theorem loop_amounts : ∀ (txs : List CTransaction) {state final : ConnectState},
    txs.foldlM (connectTx P node txdb pindex) state = .ok final →
      List.Forall₂ AmountOk txs (amounts P node txdb pindex state txs) ∧
      final.nValueIn = state.nValueIn + Int64.ofInt ((amounts P node txdb pindex state txs).map Prod.fst).sum ∧
      final.nValueOut = state.nValueOut + Int64.ofInt ((amounts P node txdb pindex state txs).map Prod.snd).sum := by
  intro txs
  induction txs with
  | nil =>
    intro state final loop
    obtain rfl : state = final := by simpa [pure, Except.pure] using loop
    exact ⟨.nil, by simp [amounts], by simp [amounts]⟩
  | cons tx rest ih =>
    intro state final loop
    rw [List.foldlM_cons, bind_eq_ok] at loop
    obtain ⟨state₁, round, loop⟩ := loop
    obtain ⟨ok, nValueIn, nValueOut⟩ := connectTx_adds round
    obtain ⟨oks, sumIn, sumOut⟩ := ih loop
    rw [amounts, round]
    refine ⟨.cons ok oks, ?_, ?_⟩
    · rw [sumIn, nValueIn, List.map_cons, List.sum_cons, Int64.ofInt_add, Int64.add_assoc]
      rfl
    · rw [sumOut, nValueOut, List.map_cons, List.sum_cons, Int64.ofInt_add, Int64.add_assoc]
      rfl

theorem amounts_take : ∀ (txs : List CTransaction) (k : ℕ) (state : ConnectState),
    amounts P node txdb pindex state (txs.take k) = (amounts P node txdb pindex state txs).take k := by
  intro txs
  induction txs with
  | nil => intro k state; simp [amounts]
  | cons tx rest ih =>
    intro k state
    cases k with
    | zero => simp [amounts]
    | succ k =>
      rw [List.take_succ_cons, amounts, amounts, List.take_succ_cons]
      cases connectTx P node txdb pindex state tx with
      | error _ => simp [Except.toOption]
      | ok state₁ => simp [Except.toOption, ih]

end Rounds

theorem exists_of_forall₂ {α β : Type} {R : α → β → Prop} {xs : List α} {ys : List β} (related : List.Forall₂ R xs ys)
    {y : β} (member : y ∈ ys) : ∃ x ∈ xs, R x y := by
  induction related with
  | nil => cases member
  | cons first _ ih =>
    rcases List.mem_cons.mp member with rfl | later
    · exact ⟨_, .head _, first⟩
    · obtain ⟨x, found, holds⟩ := ih later
      exact ⟨x, .tail _ found, holds⟩

section Block
variable {P : Primitives} {now : Int} {node : Node} {txdb txdb' : TxDB} {block : CBlock}
  {pindex pindex' : CBlockIndex}

theorem connectBlock_loop (connect : connectBlock P now node txdb block pindex = .ok (txdb', pindex')) :
    ∃ state, block.vtx.foldlM (connectTx P node txdb pindex) (.start block pindex) = .ok state ∧
      pindex' = pindex.trackSupply (pindex.pprev.bind (node.mapBlockIndex[·]?)) state := by
  simp only [connectBlock, bind_eq_ok, pure_eq_ok, Prod.mk.injEq] at connect
  obtain ⟨_, -, state, loop, _, -, _, -, _, -, -, rfl⟩ := connect
  exact ⟨state, loop, rfl⟩

end Block

def ledgerAmounts {P : Primitives} (height : ℕ) : ℕ → Ledger P → List CTransaction → List (Int × Int)
  | _, _, [] => []
  | i, coins, tx :: rest =>
    (valueIn coins tx, valueOut P tx) :: ledgerAmounts height (i + 1) (coins.apply (place height i) tx) rest

section Ledger
variable {P : Primitives} {now : Int} {node : Node} {txdb : TxDB} {pindex : CBlockIndex} {full : List Placed}
  {height : ℕ} {start coins : Ledger P} {block : CBlock} {tx : CTransaction}

theorem totalIn_eq {inputs : MapPrevTx} (fetched : Fetched full coins tx inputs) (spending : tx.isCoinBase = false)
    (present : ∀ txin ∈ tx.vin, Present coins txin) : totalIn inputs tx = valueIn coins tx := by
  rw [totalIn, if_neg (by simp [spending]), valueIn, form_spends spending, List.map_map]
  congr 1
  apply List.map_congr_left
  intro txin member
  obtain ⟨c, txout, coin, found⟩ := present txin member
  rw [inputValue, getOutputFor_eq_ok fetched member coin found]
  exact (value_outpoint coin found).symm

theorem amounts_eq (backed : Backed node txdb pindex full height start) (top : OnTop pindex full height block)
    (checked : block.Checked P now) :
    ∀ (rest done : List CTransaction) (state final : ConnectState) (coins : Ledger P), block.vtx = done ++ rest →
      Tracks txdb pindex full block start coins done state →
      rest.foldlM (connectTx P node txdb pindex) state = .ok final →
      amounts P node txdb pindex state rest = ledgerAmounts height done.length coins rest := by
  intro rest
  induction rest with
  | nil => exact fun _ _ _ _ _ _ _ => rfl
  | cons tx rest ih =>
    intro done state final coins split tracks loop
    rw [List.foldlM_cons, bind_eq_ok] at loop
    obtain ⟨state₁, round, loop⟩ := loop
    obtain ⟨-, -, tracks₁⟩ := connectTx_sound backed tracks top checked split round
    have others := ih (done ++ [tx]) state₁ final _ (by simp [split]) tracks₁ loop
    rw [List.length_append, List.length_singleton] at others
    have spent : totalIn ((tx.fetchInputs node txdb state.mapQueuedChanges true false).toOption.getD ∅) tx =
        valueIn coins tx := by
      cases kind : tx.isCoinBase with
      | true => rw [totalIn, if_pos kind, valueIn, form_spends_coinbase kind]; rfl
      | false =>
        obtain ⟨-, -, middle, branch, -⟩ := (connectTx_eq_ok backed).mp round
        simp only [connectValues, kind, Bool.false_eq_true, if_false, connectSpend, bind_eq_ok,
          mapError_eq_ok] at branch
        obtain ⟨inputs, fetch, -⟩ := branch
        obtain ⟨fetched, present⟩ := fetchInputs_sound backed tracks.standing tracks.shown kind fetch
        change tx.fetchInputs node txdb state.mapQueuedChanges true false = .ok inputs at fetch
        rw [fetch]
        exact totalIn_eq fetched kind present
    rw [amounts, ledgerAmounts, round, spent]
    exact congrArg _ others

theorem total_connectTxs (checked : block.Checked P now) :
    ∀ (rest done : List CTransaction) (nSigOps : ℕ) (coins : Ledger P), block.vtx = done ++ rest →
      Midway start coins done → TxsOk start height done.length nSigOps coins rest →
      (connectTxs height done.length coins rest).total = coins.total +
        ((ledgerAmounts height done.length coins rest).map Prod.snd).sum -
        ((ledgerAmounts height done.length coins rest).map Prod.fst).sum := by
  intro rest
  induction rest with
  | nil => intro done nSigOps coins _ _ _; simp [connectTxs, ledgerAmounts]
  | cons tx rest ih =>
    intro done nSigOps coins split midway ok
    have checkedTx : tx.checkTransaction = .ok () := checked.txs tx (by simp [split])
    have moved := midway.total_apply ok.1 checkedTx (not_mem_of_split checked split) (place height done.length)
    have others := ih (done ++ [tx]) _ _ (by simp [split]) (midway.apply ok.1 checkedTx (place height done.length))
      (by rw [List.length_append]; exact ok.2)
    rw [List.length_append, List.length_singleton, moved] at others
    simp only [connectTxs, ledgerAmounts, List.map_cons, List.sum_cons]
    omega

theorem Ready.amounts_eq {tip pindex' : CBlockIndex} {txdb' : TxDB}
    (ready : Ready node txdb pindex full height block start tip)
    (connect : connectBlock P now node txdb block pindex = .ok (txdb', pindex')) :
    CBlock.amounts P node txdb pindex block = ledgerAmounts height 0 start block.vtx := by
  obtain ⟨accepts, -⟩ := connectBlock_sound ready connect
  obtain ⟨final, loop, -⟩ := connectBlock_loop connect
  exact Proof.amounts_eq ready.backed ready.top accepts.checked block.vtx [] _ final start rfl
    (.first ready.backed ready.standing ready.finite) loop

end Ledger

def fees (moved : List (Int × Int)) : List Int := moved.tail.map fun amount => amount.1 - amount.2

theorem sum_fees (first : Int × Int) (others : List (Int × Int)) :
    (fees (first :: others)).sum = (others.map Prod.fst).sum - (others.map Prod.snd).sum := by
  rw [fees, List.tail_cons]
  induction others with
  | nil => rfl
  | cons amount others ih =>
    simp only [List.map_cons, List.sum_cons, ih]
    omega

/-- Fees are taken from the amount entered as minted, so it is the coinbase's only where there are none. -/
theorem nMint_eq_coinbase_iff (P : Primitives) (events : List Event) {now : Int} {block : CBlock} {txdb' : TxDB}
    {pindex' : CBlockIndex} (prev : block.hashPrevBlock = (run P events).hashBestChain)
    (fresh : (run P events).mapBlockIndex[P.getHash block]? = none)
    (connect : connectBlock P now (stored P (run P events) block) (batch (stored P (run P events) block).pdb) block
      (newIndex (run P events) block) = .ok (txdb', pindex')) :
    ∃ coinbase others tip, block.vtx = coinbase :: others ∧
      (run P events).mapBlockIndex.deref (run P events).pindexBest = .ok tip ∧
      let paid := fees (CBlock.amounts P (stored P (run P events) block) (batch (stored P (run P events) block).pdb)
        (newIndex (run P events) block) block)
      (∀ fee ∈ paid, TX_FEE.toInt ≤ fee) ∧ paid.length = others.length ∧
      totalOut coinbase = pindex'.nMoneySupply.toInt - tip.nMoneySupply.toInt + paid.sum ∧
      pindex'.nMint.toInt = totalOut coinbase - paid.sum ∧
      (pindex'.nMint.toInt = totalOut coinbase ↔ others = []) := by
  obtain ⟨chain, inv⟩ := exists_inv P events
  obtain ⟨tip, lookup, best, -⟩ := inv.best
  have attachable : Attachable P (run P events) block tip := ⟨fresh, by rw [prev]; exact lookup⟩
  have ready := inv.ready attachable prev
  obtain ⟨accepts, state, tracks, rfl, -⟩ := connectBlock_sound ready connect
  obtain ⟨coinbase, others, vtx, isCoinBase, single⟩ := accepts.checked.exists_coinbase
  obtain ⟨final, loop, -⟩ := connectBlock_loop connect
  have oks := (loop_amounts block.vtx loop).1
  have moved := ready.amounts_eq connect
  -- the first amount is the coinbase's
  obtain ⟨first, rest, amounts⟩ : ∃ first rest, CBlock.amounts P (stored P (run P events) block)
      (batch (stored P (run P events) block).pdb) (newIndex (run P events) block) block = first :: rest := by
    rw [CBlock.amounts, vtx]
    exact ⟨_, _, rfl⟩
  change List.Forall₂ AmountOk block.vtx (CBlock.amounts _ _ _ _ _) at oks
  rw [amounts, vtx, List.forall₂_cons] at oks
  obtain ⟨firstOk, restOk⟩ := oks
  have low : 0 ≤ (connectTxs chain.length 0 (ledgerOf P (blocksOf chain)) block.vtx).total := by
    have length := length_blocksOf inv.path
    have valid : ValidChain P (blocksOf chain ++ [block]) := .extend inv.valid (length ▸ accepts)
    have nonneg := valid.total_nonneg
    rwa [ledgerOf_append, ← length] at nonneg
  have high := (accepts.total_le ready.finite).2
  have before := ready.supply
  have range := moneyRange_iff.mp ready.range
  have supply := Tracks.nMoneySupply ready tracks low high
  have change := total_connectTxs accepts.checked block.vtx [] 0 _ rfl (.start ready.finite) accepts.txs
  rw [List.length_nil, ← moved, amounts, List.map_cons, List.map_cons, List.sum_cons, List.sum_cons, firstOk.created,
    firstOk.coinbase isCoinBase] at change
  have sum := sum_fees first rest
  rw [MAX_MONEY_toInt] at high range
  have mint : ((newIndex (run P events) block).trackSupply (some tip) state).nMint.toInt =
      totalOut coinbase - (fees (first :: rest)).sum := by
    have entered : ((newIndex (run P events) block).trackSupply (some tip) state).nMint =
        state.nValueOut - state.nValueIn := Int64.add_zero _
    have size : Int64.size = 18446744073709551616 := rfl
    rw [entered, tracks.sums, Int64.toInt_ofInt, Int.bmod_eq_of_le] <;> omega
  have each : ∀ fee ∈ fees (first :: rest), TX_FEE.toInt ≤ fee := by
    intro fee member
    obtain ⟨amount, inRest, rfl⟩ := List.mem_map.mp member
    obtain ⟨tx, inOthers, ok⟩ := exists_of_forall₂ restOk inRest
    have paid := ok.fee (single tx inOthers)
    omega
  refine ⟨coinbase, others, tip, vtx, best, ?_⟩
  rw [amounts]
  have count : (fees (first :: rest)).length = others.length := by
    rw [fees, List.length_map, List.tail_cons, restOk.length_eq]
  refine ⟨each, count, by omega, mint, ?_⟩
  rw [mint]
  constructor
  · intro same
    have least := List.card_nsmul_le_sum _ _ each
    have fee : TX_FEE.toInt = 1000000 := by decide
    rw [count, fee, nsmul_eq_mul] at least
    apply List.eq_nil_of_length_eq_zero
    omega
  · rintro rfl
    cases restOk
    rw [fees]
    simp

def connectNext (node : Node) (block : CBlock) : Check (TxDB × CBlockIndex) :=
  connectBlock toy toyNow (stored toy node block) (batch (stored toy node block).pdb) block (newIndex node block)

theorem first_nMint : ∃ txdb' pindex',
    connectNext (run toy []) (payingBlock (hashGenesisBlock toy) 30 []) = .ok (txdb', pindex') ∧
      pindex'.nMint.toInt = totalOut (payingCoinbase 1459892850) := by
  obtain ⟨⟨txdb', pindex'⟩, connect⟩ :=
    exists_eq_ok (x := connectNext (run toy []) (payingBlock (hashGenesisBlock toy) 30 [])) (by decide +kernel)
  obtain ⟨coinbase, others, tip, vtx, -, -, -, -, -, exactly⟩ := nMint_eq_coinbase_iff toy []
    (by decide +kernel) (by decide +kernel) connect
  obtain ⟨rfl, rfl⟩ : payingCoinbase 1459892850 = coinbase ∧ [] = others := List.cons.inj vtx
  exact ⟨txdb', pindex', connect, exactly.mpr rfl⟩

theorem paid_nMint :
    (connectNext (run toy (payingEvents 5)) (payingBlock (run toy (payingEvents 5)).hashBestChain 180
      [payment 1459892999 0xffffffff 0])).map (fun connected => connected.2.nMint) = .ok (9 * COIN) ∧
    (payingCoinbase 1459893000).getValueOut = .ok (10 * COIN) := by
  decide +kernel

end RitCoin.Proof
