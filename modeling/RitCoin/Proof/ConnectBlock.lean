import RitCoin.Proof.ConnectInputs

namespace RitCoin.Proof
open Lib Model Spec
variable {state' state : ConnectState} {tip pindex : CBlockIndex} {P : Primitives} {now : Int} {node : Node}
  {txdb : TxDB} {full : List Placed} {height : ℕ} {start coins : Ledger P} {tx : CTransaction} {block : CBlock}
  {done rest : List CTransaction}

structure Tracks (txdb : TxDB) (pindex : CBlockIndex) (full : List Placed) (block : CBlock)
    (start coins : Ledger P) (done : List CTransaction) (state : ConnectState) : Prop where
  pos : state.nTxPos = pindex.nBlockPos + block.txOffset done.length
  shown : Shows txdb full state.mapQueuedChanges coins
  standing : Standing full coins
  midway : Midway start coins done
  sums : state.nValueOut - state.nValueIn = Int64.ofInt (coins.total - start.total)

def OnTop (pindex : CBlockIndex) (full : List Placed) (height : ℕ) (block : CBlock) : Prop :=
  full[height]? = some ⟨pindex.nFile, pindex.nBlockPos, block⟩

theorem unspentDuplicate_eq_false (backed : Backed node txdb pindex full height start)
    (hashTx : Uint256) : unspentDuplicate txdb hashTx = false ↔ start.Free hashTx := by
  rw [unspentDuplicate, backed.lookup]
  unfold Coins.Free
  cases start hashTx with
  | none => simp
  | some c => simpa using indexed_fullySpent full c

theorem txOffset_succ (split : block.vtx = done ++ tx :: rest) :
    block.txOffset (done ++ [tx]).length = block.txOffset done.length + tx.getSerializeSize := by
  simp [CBlock.txOffset, split, List.take_append, List.take_of_length_le, Nat.add_assoc]

theorem OnTop.diskPos (top : OnTop pindex full height block)
    (tracks : Tracks txdb pindex full block start coins done state) :
    diskPos full (place height done.length) = ⟨pindex.nFile, pindex.nBlockPos, state.nTxPos⟩ := by
  have found : full[(place height done.length).height]? =
      some ⟨pindex.nFile, pindex.nBlockPos, block⟩ := top
  rw [diskPos_of_getElem? found, tracks.pos]
  rfl

theorem Tracks.next (tracks : Tracks txdb pindex full block start coins done state)
    (top : OnTop pindex full height block) (checked : block.Checked P now)
    (split : block.vtx = done ++ tx :: rest)
    (ok : TxOk start coins height state.nSigOps tx) {queue : TxIndexMap}
    (shown : Shows txdb full queue
      (coins.spendAll (place height done.length) ((form P).spends tx)))
    (nSigOps : ℕ) {nIn nOut : Int64} (inputs : nIn = Int64.ofInt (valueIn coins tx))
    (outputs : nOut = Int64.ofInt (valueOut P tx)) :
    Tracks txdb pindex full block start (coins.apply (place height done.length) tx) (done ++ [tx])
      ⟨state.nTxPos + tx.getSerializeSize,
        queue.insert (P.hashTx tx)
          (.new ⟨pindex.nFile, pindex.nBlockPos, state.nTxPos⟩ tx.vout.length),
        state.nValueIn + nIn, state.nValueOut + nOut, nSigOps⟩ where
  pos := by rw [tracks.pos, txOffset_succ split, Nat.add_assoc]
  shown := by
    rw [← top.diskPos tracks, ← indexed_new]
    exact shown.insert _ _
  standing := tracks.standing.apply top (by simp [split])
  midway := tracks.midway.apply ok (checked.txs tx (by simp [split])) _
  sums := by
    have moved := tracks.midway.total_apply ok (checked.txs tx (by simp [split]))
      (not_mem_of_split checked split) (place height done.length)
    have split' : coins.total - valueIn coins tx + valueOut P tx - start.total =
        (coins.total - start.total) + (valueOut P tx - valueIn coins tx) := by ring
    rw [moved, split', Int64.ofInt_add, ← tracks.sums, Int64.ofInt_sub, ← inputs, ← outputs]
    grind

def ConnectState.counted (state : ConnectState) (tx : CTransaction) : ConnectState :=
  { state with
    nTxPos := state.nTxPos + tx.getSerializeSize
    nSigOps := state.nSigOps + tx.getLegacySigOpCount }

section
variable (backed : Backed node txdb pindex full height start)
include backed

theorem connectTx_eq_ok :
    connectTx P node txdb pindex state tx = .ok state' ↔
      start.Free (P.hashTx tx) ∧ state.nSigOps + tx.getLegacySigOpCount ≤ MAX_BLOCK_SIGOPS ∧
      ∃ middle, connectValues P node txdb pindex ⟨pindex.nFile, pindex.nBlockPos, state.nTxPos⟩ tx
          (ConnectState.counted state tx) = .ok middle ∧
        state' = { middle with
          mapQueuedChanges := middle.mapQueuedChanges.insert (P.hashTx tx)
            (.new ⟨pindex.nFile, pindex.nBlockPos, state.nTxPos⟩ tx.vout.length) } := by
  rw [connectTx, seq_eq_ok, failIf_eq_ok, Bool.not_eq_true, unspentDuplicate_eq_false backed,
    seq_eq_ok, tooManySigOps, failIf_eq_ok, gt_iff_lt, Nat.not_lt, bind_eq_ok]
  simp only [pure_eq_ok, ConnectState.counted, @eq_comm _ state']

section
variable (tracks : Tracks txdb pindex full block start coins done state) (top : OnTop pindex full height block)
include tracks top

theorem connectTx_sound (checked : block.Checked P now) (split : block.vtx = done ++ tx :: rest)
    (round : connectTx P node txdb pindex state tx = .ok state') :
    TxOk start coins height state.nSigOps tx ∧
    state'.nSigOps = state.nSigOps + sigOps coins tx ∧
    Tracks txdb pindex full block start (coins.apply (place height done.length) tx) (done ++ [tx])
      state' := by
  obtain ⟨free, legacy, middle, branch, rfl⟩ := (connectTx_eq_ok backed).mp round
  unfold connectValues at branch
  cases kind : tx.isCoinBase with
  | true =>
    simp only [kind, if_true, connectCoinBase, bind_eq_ok, pure_eq_ok] at branch
    obtain ⟨v, outputs, rfl⟩ := branch
    have sum := (CTransaction.getValueOut_eq_ok outputs).1
    have sigs : sigOps coins tx = tx.getLegacySigOpCount := by simp [sigOps, kind]
    have ok : TxOk start coins height state.nSigOps tx :=
      ⟨free, ⟨v, outputs⟩, by rw [sigs]; exact legacy, by simp [kind]⟩
    have spends : (form P).spends tx = [] := form_spends_coinbase kind
    refine ⟨ok, by rw [sigs]; rfl, ?_⟩
    have next := tracks.next top checked split ok (by rw [spends]; exact tracks.shown)
      (state.nSigOps + tx.getLegacySigOpCount)
      (by simp [valueIn, spends] : (0 : Int64) = Int64.ofInt (valueIn coins tx))
      (by rw [valueOut, form_values, ← sum, Int64.ofInt_toInt] : v = Int64.ofInt (valueOut P tx))
    rw [Int64.add_zero] at next
    exact next
  | false =>
    simp only [kind, Bool.false_eq_true, if_false, connectSpend, bind_eq_ok, pure_eq_ok,
      mapError_eq_ok, tooManySigOps, failIf_eq_ok] at branch
    obtain ⟨inputs, fetch, nP2SH, p2sh, _, limit, vIn, valueIn', vOut, outputs, queue, connect, rfl⟩ :=
      branch
    obtain ⟨fetched, present⟩ := fetchInputs_sound backed tracks.standing tracks.shown kind fetch
    rw [getP2SHSigOpCount_eq fetched kind present] at p2sh
    cases p2sh
    rw [getValueIn_eq fetched kind present] at valueIn'
    cases valueIn'
    rw [← top.diskPos tracks] at connect
    obtain ⟨inputsOk, shown⟩ := connectInputs_sound backed tracks.standing fetched tracks.shown kind
      present (place height done.length) connect
    have sum := (CTransaction.getValueOut_eq_ok outputs).1
    have sigs : sigOps coins tx = tx.getLegacySigOpCount + (tx.vin.map (inputSigOps coins)).sum := by
      simp [sigOps, kind]
    have ok : TxOk start coins height state.nSigOps tx := by
      refine ⟨free, ⟨vOut, outputs⟩, ?_, fun _ => inputsOk⟩
      simp only [ConnectState.counted] at limit
      rw [sigs]
      omega
    refine ⟨ok, by rw [sigs, ← Nat.add_assoc]; rfl, ?_⟩
    exact tracks.next top checked split ok (by rw [form_spends kind]; exact shown) _ rfl
      (by rw [valueOut, form_values, ← sum, Int64.ofInt_toInt])

theorem connectTx_complete (checked : tx.checkTransaction = .ok ()) (ok : TxOk start coins height state.nSigOps tx) :
    ∃ state', connectTx P node txdb pindex state tx = .ok state' := by
  have limit := ok.sigOps
  obtain ⟨vOut, outputs⟩ := ok.outputs
  have branch : ∃ middle, connectValues P node txdb pindex
      ⟨pindex.nFile, pindex.nBlockPos, state.nTxPos⟩ tx (ConnectState.counted state tx) = .ok middle := by
    unfold connectValues
    cases kind : tx.isCoinBase with
    | true =>
      simp only [if_true, connectCoinBase, bind_eq_ok, pure_eq_ok]
      exact ⟨_, vOut, outputs, rfl⟩
    | false =>
      have inputsOk := ok.inputs kind
      have present : ∀ txin ∈ tx.vin, Present coins txin := by
        intro txin member
        obtain ⟨i, input⟩ := List.getElem?_of_mem member
        obtain ⟨c, txout, coin, h⟩ := inputsOk.each i txin input
        exact ⟨c, txout, coin, h.output⟩
      obtain ⟨inputs, fetch⟩ := fetchInputs_complete backed tracks.standing tracks.shown kind present
      obtain ⟨fetched, _⟩ := fetchInputs_sound backed tracks.standing tracks.shown kind fetch
      have nodup := (ok.applicable checked).nodup
      rw [form_spends kind] at nodup
      obtain ⟨queue, connect⟩ := connectInputs_complete backed tracks.standing fetched tracks.shown
        kind nodup inputsOk outputs (place height done.length)
      rw [top.diskPos tracks] at connect
      have sigs : sigOps coins tx =
          tx.getLegacySigOpCount + (tx.vin.map (inputSigOps coins)).sum := by
        simp [sigOps, kind]
      simp only [Bool.false_eq_true, if_false, connectSpend, bind_eq_ok, pure_eq_ok,
        mapError_eq_ok, tooManySigOps, failIf_eq_ok]
      exact ⟨_, inputs, fetch, _, getP2SHSigOpCount_eq fetched kind present, ⟨⟩,
        by simp only [ConnectState.counted]; omega, _, getValueIn_eq fetched kind present, vOut,
        outputs, queue, connect, rfl⟩
  obtain ⟨middle, branch⟩ := branch
  exact ⟨_, (connectTx_eq_ok backed).mpr ⟨ok.free, by unfold sigOps at limit; omega, middle, branch, rfl⟩⟩

end

theorem connectTxs_sound (top : OnTop pindex full height block) (checked : block.Checked P now) :
    ∀ (rest done : List CTransaction) (state state' : ConnectState) (coins : Ledger P),
      block.vtx = done ++ rest → Tracks txdb pindex full block start coins done state →
      rest.foldlM (connectTx P node txdb pindex) state = .ok state' →
      TxsOk start height done.length state.nSigOps coins rest ∧
      Tracks txdb pindex full block start (connectTxs height done.length coins rest) block.vtx
        state' := by
  intro rest
  induction rest with
  | nil =>
    intro done state state' coins split tracks loop
    rw [List.foldlM_nil, pure_eq_ok] at loop
    subst loop
    rw [split, List.append_nil]
    exact ⟨trivial, tracks⟩
  | cons tx rest ih =>
    intro done state state' coins split tracks loop
    rw [List.foldlM_cons, bind_eq_ok] at loop
    obtain ⟨state₁, round, loop⟩ := loop
    obtain ⟨ok, nSigOps, tracks₁⟩ := connectTx_sound backed tracks top checked split round
    have others := ih (done ++ [tx]) state₁ state' _ (by simp [split]) tracks₁ loop
    rw [List.length_append, List.length_singleton, nSigOps] at others
    exact ⟨⟨ok, others.1⟩, others.2⟩

theorem connectTxs_complete (top : OnTop pindex full height block) (checked : block.Checked P now) :
    ∀ (rest done : List CTransaction) (state : ConnectState) (coins : Ledger P),
      block.vtx = done ++ rest → Tracks txdb pindex full block start coins done state →
      TxsOk start height done.length state.nSigOps coins rest →
      ∃ state', rest.foldlM (connectTx P node txdb pindex) state = .ok state' := by
  intro rest
  induction rest with
  | nil => intro done state coins _ _ _; exact ⟨state, rfl⟩
  | cons tx rest ih =>
    intro done state coins split tracks ok
    obtain ⟨state₁, round⟩ := connectTx_complete backed tracks top
      (checked.txs tx (by simp [split])) ok.1
    obtain ⟨_, nSigOps, tracks₁⟩ := connectTx_sound backed tracks top checked split round
    have ok₁ : TxsOk start height (done ++ [tx]).length state₁.nSigOps
        (coins.apply (place height done.length) tx) rest := by
      rw [List.length_append, List.length_singleton, nSigOps]
      exact ok.2
    obtain ⟨state', loop⟩ := ih (done ++ [tx]) state₁ _ (by simp [split]) tracks₁ ok₁
    exact ⟨state', by rw [List.foldlM_cons, round]; exact loop⟩

theorem Tracks.first (standing : Standing full start) (finite : start.Finite) :
    Tracks txdb pindex full block start start [] (ConnectState.start block pindex) where
  pos := by simp [ConnectState.start, CBlock.txOffset]
  shown := .start backed
  standing := standing
  midway := .start finite
  sums := by simp [ConnectState.start]

end

theorem getProofOfWorkReward_toInt {supply : Int64} (range : moneyRange supply) :
    (getProofOfWorkReward supply).toInt = MAX_MONEY.toInt - supply.toInt := by
  have := moneyRange_iff.mp range
  have max : MAX_MONEY.toInt = 10000000000000000 := by decide
  unfold getProofOfWorkReward
  split
  · rw [Int64.toInt_sub, Int.bmod_eq_of_le] <;> omega
  · next full =>
      have : MAX_MONEY.toInt ≤ supply.toInt := by simpa [Int64.lt_iff_toInt_lt] using full
      rw [Int64.toInt_zero]
      omega

theorem coinbaseValue_eq_ok {v : Int64} :
    block.coinbaseValue = .ok v ↔
      ∃ coinbase, block.vtx.head? = some coinbase ∧ coinbase.getValueOut = .ok v := by
  unfold CBlock.coinbaseValue
  cases block.vtx.head? <;> simp [throw, throwThe, MonadExceptOf.throw]

structure Ready (node : Node) (txdb : TxDB) (pindex : CBlockIndex) (full : List Placed) (height : ℕ)
    (block : CBlock) (start : Ledger P) (tip : CBlockIndex) : Prop where
  backed : Backed node txdb pindex full height start
  top : OnTop pindex full height block
  standing : Standing full start
  finite : start.Finite
  best : node.mapBlockIndex.deref node.pindexBest = .ok tip
  parent : pindex.pprev.bind (node.mapBlockIndex[·]?) = some tip
  supply : tip.nMoneySupply.toInt = start.total
  range : moneyRange tip.nMoneySupply

variable (ready : Ready node txdb pindex full height block start tip)
include ready

theorem connectBlock_sound {txdb' : TxDB} {pindex' : CBlockIndex}
    (connect : connectBlock P now node txdb block pindex = .ok (txdb', pindex')) :
    Accepts now start height block ∧
    ∃ state, Tracks txdb pindex full block start (connectTxs height 0 start block.vtx) block.vtx
        state ∧
      pindex' = pindex.trackSupply (some tip) state ∧
      txdb' = writeConnected P txdb block pindex' (some tip) state.mapQueuedChanges := by
  simp only [connectBlock, bind_eq_ok, coinbaseValue_eq_ok, ready.best, ready.parent, failIf_eq_ok,
    pure_eq_ok, Prod.mk.injEq, Except.ok.injEq] at connect
  obtain ⟨_, checks, state, loop, v, ⟨coinbase, first, outputs⟩, _, rfl, _, reward, rfl, rfl⟩ := connect
  have checked := CBlock.checkBlock_eq_ok.mp checks
  obtain ⟨ok, tracks⟩ := connectTxs_sound ready.backed ready.top checked block.vtx [] _ state start rfl
    (.first ready.backed ready.standing ready.finite) loop
  refine ⟨⟨checked, ok, ?_⟩, state, tracks, rfl, rfl⟩
  intro coinbase' first'
  rw [first] at first'
  cases first'
  rw [gt_iff_lt, Int64.lt_iff_toInt_lt, getProofOfWorkReward_toInt ready.range, ready.supply] at reward
  rw [valueOut, form_values, ← (CTransaction.getValueOut_eq_ok outputs).1]
  exact not_lt.mp reward

theorem connectBlock_complete (accepts : Accepts now start height block) :
    ∃ r, connectBlock P now node txdb block pindex = .ok r := by
  obtain ⟨state, loop⟩ := connectTxs_complete ready.backed ready.top accepts.checked block.vtx []
    (ConnectState.start block pindex) start rfl (.first ready.backed ready.standing ready.finite)
    accepts.txs
  obtain ⟨coinbase, others, vtx, _, _⟩ := accepts.checked.exists_coinbase
  obtain ⟨v, outputs⟩ := accepts.txs.outputs _ _ _ _ coinbase (by simp [vtx])
  have first : block.vtx.head? = some coinbase := by simp [vtx]
  have reward := accepts.reward coinbase first
  rw [valueOut, form_values, ← (CTransaction.getValueOut_eq_ok outputs).1] at reward
  simp only [connectBlock, bind_eq_ok, coinbaseValue_eq_ok, ready.best, ready.parent, failIf_eq_ok,
    pure_eq_ok]
  refine ⟨_, ⟨⟩, CBlock.checkBlock_eq_ok.mpr accepts.checked, state, loop, v,
    ⟨coinbase, first, outputs⟩, tip, rfl, ⟨⟩, ?_, rfl⟩
  rw [gt_iff_lt, Int64.lt_iff_toInt_lt, getProofOfWorkReward_toInt ready.range, ready.supply]
  exact not_lt.mpr reward

theorem Tracks.nMoneySupply (tracks : Tracks txdb pindex full block start coins done state) (low : 0 ≤ coins.total)
    (high : coins.total ≤ MAX_MONEY.toInt) :
    (pindex.trackSupply (some tip) state).nMoneySupply.toInt = coins.total := by
  have max : MAX_MONEY.toInt = 10000000000000000 := by decide
  have wrapped : (pindex.trackSupply (some tip) state).nMoneySupply = Int64.ofInt coins.total := by
    have before : tip.nMoneySupply = Int64.ofInt start.total := by
      rw [← ready.supply, Int64.ofInt_toInt]
    have sum : coins.total = start.total + (coins.total - start.total) := by ring
    rw [sum, Int64.ofInt_add, ← before, ← tracks.sums]
    simp only [CBlockIndex.trackSupply, Option.map_some, Option.getD_some]
    grind
  have size : Int64.size = 18446744073709551616 := rfl
  rw [wrapped, Int64.toInt_ofInt, Int.bmod_eq_of_le] <;> omega

end RitCoin.Proof
