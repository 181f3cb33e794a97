import RitCoin.Proof.Agreement
import RitCoin.Proof.Mempool

namespace RitCoin.Proof
open Lib Model Spec Std

variable {P : Primitives} {C : Crypto} {fTestNet : Bool} {now : Int} {node : Node} {tx coinbase : CTransaction}
  {block : CBlock} {pindexPrev tip : CBlockIndex} {chain : List Placed} {events : List Event} {coins : Ledger P}
  {height : ℕ}

theorem fetchPrev_loose {txdb : TxDB} {hash : Uint256} (known : (txdb.readTxIndex hash).isSome) :
    CTransaction.fetchPrev node txdb ∅ false false hash = CTransaction.fetchPrev node txdb ∅ true false hash := by
  obtain ⟨txindex, found⟩ := Option.isSome_iff_exists.mp known
  simp [CTransaction.fetchPrev, found]

theorem foldlM_fetchInput_loose {txdb : TxDB} (vin : List CTxIn) (inputs : MapPrevTx)
    (known : ∀ txin ∈ vin, (txdb.readTxIndex txin.prevout.hash).isSome) :
    vin.foldlM (CTransaction.fetchInput node txdb ∅ false false) inputs =
      vin.foldlM (CTransaction.fetchInput node txdb ∅ true false) inputs := by
  induction vin generalizing inputs with
  | nil => rfl
  | cons txin vin ih =>
    have first : CTransaction.fetchInput node txdb ∅ false false inputs txin =
        CTransaction.fetchInput node txdb ∅ true false inputs txin := by
      rw [CTransaction.fetchInput, CTransaction.fetchInput, fetchPrev_loose (known txin (by simp))]
    rw [List.foldlM_cons, List.foldlM_cons, first]
    congr 1
    funext inputs'
    exact ih inputs' fun txin' later => known txin' (by simp [later])

theorem fetchInputs_loose {txdb : TxDB}
    (known : ∀ txin ∈ tx.vin, (txdb.readTxIndex txin.prevout.hash).isSome) :
    tx.fetchInputs node txdb ∅ false false = tx.fetchInputs node txdb ∅ true false := by
  rw [CTransaction.fetchInputs, CTransaction.fetchInputs, foldlM_fetchInput_loose tx.vin ∅ known]

theorem Inv.backed (inv : Inv P events node chain) (lookup : node.mapBlockIndex[node.hashBestChain]? = some tip) :
    Backed node node.pdb.open tip chain (chain.length - 1) (ledgerOf P (blocksOf chain)) := by
  obtain ⟨last, positive, atEnd, hash⟩ := inv.tip_at
  have height := inv.tip_height lookup
  rw [hash] at lookup
  refine ⟨by omega, by rw [inv.nBestHeight]; omega, inv.readTxIndex, inv.disk, ?_⟩
  intro ref bound
  obtain ⟨q, target⟩ : ∃ q, chain[ref.height]? = some q := ⟨_, List.getElem?_eq_getElem (by omega)⟩
  rw [CTransaction.coinbaseIsImmature, height, Int.toNat_natCast,
    coinbaseLoop_eq_true inv.path inv.disk target _ _ _ atEnd lookup, height]
  omega

theorem Inv.admitted_inputsOk (inv : Inv P events node chain) (admitted : Admitted P C fTestNet node tx true)
    (confirmed : ∀ txin ∈ tx.vin, (node.pdb.open.readTxIndex txin.prevout.hash).isSome) :
    InputsOk (ledgerOf P (blocksOf chain)) (chain.length - 1) tx ∧ ∃ v, tx.getValueOut = .ok v := by
  obtain ⟨tip, lookup, deref, _⟩ := inv.best
  have backed := inv.backed lookup
  have standing := standing_ledgerOf inv.valid
  obtain ⟨mapInputs, fetch, connect⟩ := admitted.inputs rfl
  rw [fetchInputs_loose confirmed] at fetch
  obtain ⟨fetched, present⟩ := fetchInputs_sound backed standing (.start backed) admitted.spending fetch
  simp only [CTransaction.connectLoose, bind_eq_ok, deref, mapError_eq_ok] at connect
  obtain ⟨_, _, _, _, _, _, vOut, outputs, _, _, _, same, _, spend, _⟩ := connect
  cases same
  exact ⟨connectInputs_inputsOk backed standing fetched admitted.spending present spend, vOut, outputs⟩

def withTxs (P : Primitives) (block : CBlock) (txs : List CTransaction) : CBlock :=
  { block with vtx := txs, hashMerkleRoot := { block with vtx := txs }.buildMerkleTree P }

theorem accepts_pair_iff (alone : Accepts now coins height (withTxs P block [coinbase]))
    (checked : tx.checkTransaction = .ok ()) (spending : tx.isCoinBase = false)
    (free : coins.Free (P.hashTx tx)) (outputs : ∃ v, tx.getValueOut = .ok v) (inputs : InputsOk coins height tx) :
    Accepts now coins height (withTxs P block [coinbase, tx]) ↔
      P.hashTx coinbase ≠ P.hashTx tx ∧
      coinbase.getLegacySigOpCount + sigOps coins tx ≤ MAX_BLOCK_SIGOPS ∧
      (withTxs P block [coinbase, tx]).getSerializeSize ≤ MAX_BLOCK_SIZE := by
  have isCoinBase : coinbase.isCoinBase = true := by simpa [withTxs] using alone.checked.coinbase
  obtain ⟨first, _⟩ : TxOk coins coins height 0 coinbase ∧ True := alone.txs
  have same := lookup_after_coinbase inputs isCoinBase first.free (place height 0)
  have sigs := sigOps_congr same
  constructor
  · intro accepts
    obtain ⟨_, second, _⟩ : TxOk coins coins height 0 coinbase ∧
        TxOk coins (coins.apply (place height 0) coinbase) height (0 + sigOps coins coinbase) tx ∧ True :=
      accepts.txs
    have limit := second.sigOps
    rw [sigs, sigOps_coinbase coins isCoinBase, Nat.zero_add] at limit
    exact ⟨by simpa [withTxs] using accepts.checked.nodup, limit, accepts.checked.size⟩
  · rintro ⟨ne, limit, size⟩
    have legacy : tx.getLegacySigOpCount ≤ sigOps coins tx := Nat.le_add_right _ _
    refine ⟨⟨by simp [withTxs], by simp [withTxs, MAX_BLOCK_SIZE], size, alone.checked.work, alone.checked.time,
      isCoinBase, ?_, alone.checked.coinbaseTime, ?_, ?_, ?_, rfl⟩, ⟨first, ?_, trivial⟩, alone.reward⟩
    · simpa [withTxs] using spending
    · intro tx' member
      rcases List.mem_cons.mp member with rfl | member
      · exact alone.checked.txs _ (by simp [withTxs])
      · rw [List.mem_singleton.mp member]
        exact checked
    · simpa [withTxs] using ne
    · simp only [withTxs, List.map_cons, List.map_nil, List.sum_cons, List.sum_nil]
      omega
    · refine ⟨free, outputs, ?_, fun _ => inputs.congr same⟩
      rw [sigs, sigOps_coinbase coins isCoinBase, Nat.zero_add]
      exact limit

theorem checkAccept_eq_ok : checkAccept now node block pindexPrev = .ok () ↔
    ¬ block.getBlockTime ≤ pindexPrev.getBlockTime ∧
    ¬ block.getBlockTime < pindexPrev.getBlockTime + MIN_BLOCK_SPACING ∧
    ∀ tx ∈ block.vtx, tx.isFinal node.nBestHeight now (pindexPrev.nHeight + 1) block.getBlockTime = true := by
  simp only [checkAccept, seq_eq_ok, failIf_eq_ok, not_not, List.all_eq_true]

theorem addWritten_eq_ok (genesis : node.pindexGenesisBlock.isSome)
    (attachable : Attachable P node block pindexPrev)
    (high : node.bnBestChainTrust < (newIndex node block).bnChainTrust)
    (tip : block.hashPrevBlock = node.hashBestChain) :
    (addWritten P now node block).1 = .ok () ↔
      ∃ r, connectBlock P now (stored P node block) (batch (stored P node block).pdb) block
        (newIndex node block) = .ok r := by
  have added := addWritten_addedBlock now genesis attachable
  generalize addWritten P now node block = step at added
  cases added with
  | side low => exact absurd high (Int.not_lt.mpr low)
  | apart _ _ ne => exact absurd tip ne
  | failed _ _ connect => simp [connect]
  | connected _ _ connect => simp [connect]

structure Fits (P : Primitives) (now : Int) (node : Node) (block : CBlock) : Prop where
  prev : block.hashPrevBlock = node.hashBestChain
  checked : block.checkBlock P now = .ok ()
  accepted : (acceptBlock P now node block).1 = .ok ()

theorem acceptBlock_eq_ok (parent : node.mapBlockIndex[block.hashPrevBlock]? = some pindexPrev) :
    (acceptBlock P now node block).1 = .ok () ↔
      node.mapBlockIndex[P.getHash block]? = none ∧ checkAccept now node block pindexPrev = .ok () ∧
      (addWritten P now node block).1 = .ok () := by
  cases fresh : node.mapBlockIndex[P.getHash block]? with
  | some e => simp [acceptBlock, contains_eq_true.mpr ⟨e, fresh⟩]
  | none =>
    simp only [acceptBlock, contains_eq_false.mpr fresh, Bool.false_eq_true, if_false, parent, true_and]
    cases checkAccept now node block pindexPrev with
    | error => simp
    | ok _ =>
      rw [addWritten]
      generalize addToBlockIndex P now _ block _ _ = step
      obtain ⟨outcome, after⟩ := step
      cases outcome <;> simp

theorem Inv.fits_iff (inv : Inv P events node chain) (lookup : node.mapBlockIndex[node.hashBestChain]? = some tip) :
    Fits P now node block ↔
      block.hashPrevBlock = node.hashBestChain ∧ node.mapBlockIndex[P.getHash block]? = none ∧
      checkAccept now node block tip = .ok () ∧
      Accepts now (ledgerOf P (blocksOf chain)) chain.length block := by
  have genesis : node.pindexGenesisBlock.isSome := Option.isSome_iff_exists.mpr ⟨_, inv.tip.genesis⟩
  constructor
  · rintro ⟨prev, checked, accepted⟩
    have parent : node.mapBlockIndex[block.hashPrevBlock]? = some tip := by rw [prev, lookup]
    have checked := CBlock.checkBlock_eq_ok.mp checked
    obtain ⟨fresh, accept, added⟩ := (acceptBlock_eq_ok parent).mp accepted
    have attachable : Attachable P node block tip := ⟨fresh, parent⟩
    have high := inv.trust_lt attachable checked prev
    obtain ⟨⟨_, _⟩, connect⟩ := (addWritten_eq_ok genesis attachable high prev).mp added
    exact ⟨prev, fresh, accept, (connectBlock_sound (inv.ready attachable prev) connect).1⟩
  · rintro ⟨prev, fresh, accept, accepts⟩
    have parent : node.mapBlockIndex[block.hashPrevBlock]? = some tip := by rw [prev, lookup]
    have attachable : Attachable P node block tip := ⟨fresh, parent⟩
    have high := inv.trust_lt attachable accepts.checked prev
    have connect := connectBlock_complete (inv.ready attachable prev) accepts
    exact ⟨prev, CBlock.checkBlock_eq_ok.mpr accepts.checked, (acceptBlock_eq_ok parent).mpr
      ⟨fresh, accept, (addWritten_eq_ok genesis attachable high prev).mpr connect⟩⟩

theorem Inv.containsTx (inv : Inv P events node chain) (hash : Uint256) :
    node.pdb.open.containsTx hash = (ledgerOf P (blocksOf chain) hash).isSome := by
  change node.pdb.contains (DbKey.tx hash) = _
  rw [ExtTreeMap.contains_eq_isSome_getElem?, inv.txindex]
  exact Option.isSome_map

theorem Inv.blocksOf_eq (inv : Inv P events node chain) : blocksOf chain = (Spec.bestBlocks node).tail := by
  rw [inv.bestBlocks, blocksOf, List.map_tail]

/-- A transaction that the pool accepts with input checks, all of them confirmed, keeps the rules for inputs and
for duplicates. It makes a block with a good coinbase fail for nothing but finality, room, and hashes that are
taken. -/
theorem accepted_fits_iff (P : Primitives) (C : Crypto) (fTestNet : Bool) (events : List Event) {now : Int}
    {tx coinbase : CTransaction} {block : CBlock} {mempool : CTxMemPool}
    (accepted : CTxMemPool.accept P C fTestNet (run P events) tx true = .ok mempool)
    (confirmed : ∀ txin ∈ tx.vin, (run P events).pdb.open.containsTx txin.prevout.hash = true)
    (valid : Fits P now (run P events) (withTxs P block [coinbase])) (time : block.getBlockTime = now) :
    let coins := ledgerOf P (bestBlocks (run P events)).tail
    (coins.Free (P.hashTx tx) ∧ InputsOk coins (bestBlocks (run P events)).length tx) ∧
      (Fits P now (run P events) (withTxs P block [coinbase, tx]) ↔
        (run P events).mapBlockIndex[P.getHash (withTxs P block [coinbase, tx])]? = none ∧
        P.hashTx coinbase ≠ P.hashTx tx ∧
        tx.isFinal (run P events).nBestHeight now ((run P events).nBestHeight + 1) now = true ∧
        coinbase.getLegacySigOpCount + sigOps coins tx ≤ MAX_BLOCK_SIGOPS ∧
        (withTxs P block [coinbase, tx]).getSerializeSize ≤ MAX_BLOCK_SIZE) := by
  obtain ⟨chain, inv⟩ := exists_inv P events
  obtain ⟨tip, lookup, _, height⟩ := inv.best
  obtain ⟨admitted, _⟩ := accept_eq_ok.mp accepted
  obtain ⟨prev, _, accept, alone⟩ := (inv.fits_iff lookup).mp valid
  have indexed : ∀ txin ∈ tx.vin, ((run P events).pdb.open.readTxIndex txin.prevout.hash).isSome := by
    intro txin member
    rw [inv.readTxIndex, Option.isSome_map, ← inv.containsTx]
    exact confirmed txin member
  have free : (ledgerOf P (blocksOf chain)).Free (P.hashTx tx) := by
    have unknown := admitted.unknown rfl
    rw [inv.containsTx, Option.isSome_eq_false_iff, Option.isNone_iff_eq_none] at unknown
    intro c found
    rw [unknown] at found
    cases found
  obtain ⟨inputs, outputs⟩ := inv.admitted_inputsOk admitted indexed
  have inputs' : InputsOk (ledgerOf P (blocksOf chain)) chain.length tx := inputs.mono (Nat.sub_le _ _)
  have pair := accepts_pair_iff alone admitted.checked admitted.spending free outputs inputs'
  have final : checkAccept now (run P events) (withTxs P block [coinbase, tx]) tip = .ok () ↔
      tx.isFinal (run P events).nBestHeight now ((run P events).nBestHeight + 1) now = true := by
    have aloneTime : (withTxs P block [coinbase]).getBlockTime = now := time
    have pairTime : (withTxs P block [coinbase, tx]).getBlockTime = now := time
    rw [checkAccept_eq_ok, aloneTime, ← height] at accept
    obtain ⟨order, spacing, finals⟩ := accept
    rw [checkAccept_eq_ok, pairTime, ← height]
    constructor
    · rintro ⟨_, _, finals'⟩
      exact finals' tx (by simp [withTxs])
    · intro isFinal
      refine ⟨order, spacing, ?_⟩
      intro tx' member
      rcases List.mem_cons.mp member with rfl | member
      · exact finals _ (by simp [withTxs])
      · rw [List.mem_singleton.mp member]
        exact isFinal
  have length : (bestBlocks (run P events)).length = chain.length := by rw [inv.bestBlocks, List.length_map]
  dsimp only
  rw [inv.fits_iff lookup, final, pair, length, ← inv.blocksOf_eq]
  refine ⟨⟨free, inputs'⟩, ?_⟩
  constructor
  · rintro ⟨_, fresh, isFinal, ne, limit, size⟩
    exact ⟨fresh, ne, isFinal, limit, size⟩
  · rintro ⟨fresh, ne, isFinal, limit, size⟩
    exact ⟨prev, fresh, isFinal, ne, limit, size⟩

def dueBlock : CBlock := payingBlock (run scripted (payingEvents 6)).hashBestChain 210 []

theorem dueBlock_fits : Fits scripted 1459893030 (run scripted (payingEvents 6))
    (withTxs scripted dueBlock [payingCoinbase 1459893030]) := by
  constructor
  · decide +kernel
  · decide +kernel
  · decide +kernel

theorem payments_accepted :
    (∃ mempool, CTxMemPool.accept scripted zeroCrypto false (run scripted (payingEvents 6))
      (payment 1459892999 0xffffffff 0) true = .ok mempool) ∧
    ∃ mempool, CTxMemPool.accept scripted zeroCrypto false (run scripted (payingEvents 6))
      (payment 1459892999 0 2000000000) true = .ok mempool := by
  constructor
  · exact exists_eq_ok (by decide +kernel)
  · exact exists_eq_ok (by decide +kernel)

theorem payment_fits : Fits scripted 1459893030 (run scripted (payingEvents 6))
    (withTxs scripted dueBlock [payingCoinbase 1459893030, payment 1459892999 0xffffffff 0]) := by
  obtain ⟨⟨mempool, accepted⟩, _⟩ := payments_accepted
  refine (accepted_fits_iff scripted zeroCrypto false (payingEvents 6) accepted (by decide +kernel) dueBlock_fits
    (by decide +kernel)).2.mpr ?_
  decide +kernel

theorem locked_payment_does_not_fit :
    (∃ mempool, CTxMemPool.accept scripted zeroCrypto false (run scripted (payingEvents 6))
      (payment 1459892999 0 2000000000) true = .ok mempool) ∧
    (∀ txin ∈ (payment 1459892999 0 2000000000).vin,
      (run scripted (payingEvents 6)).pdb.open.containsTx txin.prevout.hash = true) ∧
    Fits scripted 1459893030 (run scripted (payingEvents 6))
      (withTxs scripted dueBlock [payingCoinbase 1459893030]) ∧
    dueBlock.getBlockTime = 1459893030 ∧
    (acceptBlock scripted 1459893030 (run scripted (payingEvents 6))
      (withTxs scripted dueBlock [payingCoinbase 1459893030, payment 1459892999 0 2000000000])).1 =
        .error (DoS 10 "AcceptBlock() : contains a non-final transaction") := by
  refine ⟨payments_accepted.2, ?_, dueBlock_fits, ?_, ?_⟩
  · decide +kernel
  · decide +kernel
  · decide +kernel

end RitCoin.Proof
