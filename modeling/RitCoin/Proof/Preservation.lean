import RitCoin.Proof.Invariant

namespace RitCoin.Proof
open Lib Model Spec Std
variable {map : BlockMap} {e pindexPrev : CBlockIndex} {h : Uint256} {i : ℕ} {p q : Placed} {ref : TxRef}
  {writes : List (ℕ × CBlock)} {events' events : List Event} {P : Primitives} {now : Int} {node : Node}
  {block : CBlock} {chain : List Placed}

section
variable (path : Path P map chain)
  (disk : ∀ placed ∈ chain, Holds writes placed.nFile placed.nBlockPos placed.block)
include path disk

theorem same_position_iff (found : chain[i]? = some p) (is : Matches i p e) (target : chain[ref.height]? = some q) :
    (some (diskPos chain ref)).any
        (fun pos => e.nBlockPos == pos.nBlockPos && e.nFile == pos.nFile) = true ↔
      i = ref.height := by
  rw [diskPos_of_getElem? target]
  simp only [Option.any_some, Bool.and_eq_true, beq_iff_eq, is.nFile, is.nBlockPos]
  constructor
  · rintro ⟨nBlockPos, nFile⟩
    have here := disk p (List.mem_of_getElem? found)
    rw [nBlockPos, nFile] at here
    have same := here.unique (disk q (List.mem_of_getElem? target))
    exact path.index_unique found target (by rw [same])
  · rintro rfl
    rw [found] at target
    cases target
    exact ⟨rfl, rfl⟩

theorem coinbaseLoop_eq_true {pindexBlock : CBlockIndex} (target : chain[ref.height]? = some q) :
    ∀ (i : ℕ) (p : Placed) (e : CBlockIndex), chain[i]? = some p →
      map[P.getHash p.block]? = some e →
      (CTransaction.coinbaseLoop map pindexBlock (some (diskPos chain ref)) (i + 1) e = true ↔
        ref.height ≤ i ∧ pindexBlock.nHeight - ref.height < nCoinbaseMaturity) := by
  intro i
  induction i with
  | zero =>
    intro p e found lookup
    obtain ⟨e', lookup', is⟩ := path.entry 0 p found
    rw [lookup] at lookup'
    cases lookup'
    have height := is.height
    have position := same_position_iff path disk found is target
    have pprev : e.pprev = none := is.pprev
    simp only [CTransaction.coinbaseLoop, pprev, Option.bind_none, Bool.or_false, Bool.and_eq_true,
      position, decide_eq_true_eq]
    omega
  | succ i ih =>
    intro p e found lookup
    obtain ⟨e', lookup', is⟩ := path.entry (i + 1) p found
    rw [lookup] at lookup'
    cases lookup'
    have bound := (List.getElem?_eq_some_iff.mp found).1
    have below : chain[i]? = some chain[i] := List.getElem?_eq_getElem (by omega)
    obtain ⟨parent, lookupParent, _⟩ := path.entry i _ below
    have height := is.height
    have position := same_position_iff path disk found is target
    have pprev : e.pprev = some p.block.hashPrevBlock := is.pprev
    have bind : e.pprev.bind (map[·]?) = some parent := by
      rw [pprev, path.link i _ p below found]
      exact lookupParent
    rw [CTransaction.coinbaseLoop, bind]
    simp only [Bool.and_eq_true, Bool.or_eq_true, position, decide_eq_true_eq,
      ih _ parent below lookupParent]
    omega

end

theorem Inv.effect (inv : Inv P events node chain) (now : Int) (block : CBlock) :
    Effect P now node block (processBlock P now node block) :=
  processBlock_effect (Option.isSome_iff_exists.mpr ⟨_, inv.tip.genesis⟩) now block

theorem Inv.tip_entry (inv : Inv P events node chain)
    (attachable : Attachable P node block pindexPrev)
    (tip : block.hashPrevBlock = node.hashBestChain) :
    ∃ last, chain.getLast? = some last ∧ block.hashPrevBlock = P.getHash last.block ∧
      pindexPrev.nHeight = node.nBestHeight := by
  obtain ⟨last, e, top, hash, found, height, _⟩ := inv.tip.best
  have parent := attachable.parent
  rw [tip, found] at parent
  cases parent
  exact ⟨last, top, tip.trans hash, height.symm⟩

theorem Inv.disk_append (inv : Inv P events node chain) (block : CBlock) :
    ∀ placed ∈ chain ++ [placedAt node block],
      Holds (stored P node block).files.writes placed.nFile placed.nBlockPos placed.block := by
  intro placed member
  rcases List.mem_append.mp member with old | new
  · exact (inv.disk placed old).writeToDisk block
  · rw [List.mem_singleton.mp new]
    exact holds_writeToDisk node.files block

theorem stored_tx (P : Primitives) (node : Node) (block : CBlock) (id : Uint256) :
    (stored P node block).pdb[DbKey.tx id]? = node.pdb[DbKey.tx id]? := by
  simp [stored, ExtTreeMap.getElem?_insert]

theorem Inv.ready (inv : Inv P events node chain)
    (attachable : Attachable P node block pindexPrev)
    (tip : block.hashPrevBlock = node.hashBestChain) :
    Ready (stored P node block) (batch (stored P node block).pdb) (newIndex node block)
      (chain ++ [placedAt node block]) chain.length block (ledgerOf P (blocksOf chain)) pindexPrev := by
  obtain ⟨last, top, prev, height⟩ := inv.tip_entry attachable tip
  have path := inv.path.extend attachable top prev
  have disk := inv.disk_append block
  have atTop : (chain ++ [placedAt node block])[chain.length]? = some (placedAt node block) := by simp
  have lookup : (stored P node block).mapBlockIndex[P.getHash block]? = some (newIndex node block) := by
    simp [stored_getElem?]
  obtain ⟨e, lookup', is⟩ := path.entry _ _ atTop
  rw [show P.getHash (placedAt node block).block = P.getHash block from rfl, lookup] at lookup'
  cases lookup'
  have newHeight : (newIndex node block).nHeight = chain.length := is.height
  have supply := inv.supply pindexPrev (by rw [← tip]; exact attachable.parent)
  refine ⟨⟨by simp, ?_, ?_, disk, ?_⟩, atTop, (standing_ledgerOf inv.valid).append _,
    inv.valid.total_le.1, ?_, ?_, supply, ?_⟩
  · have := inv.rooted.nonneg _ _ attachable.parent
    rw [height] at this
    exact this
  · intro id
    rw [readTxIndex_eq_view, view_batch, stored_tx, inv.txindex]
    cases found : ledgerOf P (blocksOf chain) id with
    | none => rfl
    | some c =>
      rw [Option.map_some, Option.map_some, indexed_append inv.path inv.valid _ found]
      rfl
  · intro ref bound
    obtain ⟨q, target⟩ : ∃ q, (chain ++ [placedAt node block])[ref.height]? = some q :=
      ⟨_, List.getElem?_eq_getElem (by simp; omega)⟩
    rw [CTransaction.coinbaseIsImmature, newHeight, Int.toNat_natCast,
      coinbaseLoop_eq_true path disk target chain.length _ _ atTop lookup, newHeight]
    omega
  · rw [show (stored P node block).pindexBest = some block.hashPrevBlock from
      inv.tip.pindexBest.trans (by rw [tip])]
    simp [BlockMap.deref, attachable.stored_parent]
  · rw [attachable.pprev]
    exact attachable.stored_parent
  · rw [moneyRange_iff, supply]
    exact ⟨inv.valid.total_nonneg, inv.valid.total_le.2⟩

theorem Entered.mono (entered : Entered P events block) (sub : events ⊆ events') : Entered P events' block := by
  obtain ⟨now, received, checked⟩ := entered.received
  exact ⟨⟨now, sub received, checked⟩, entered.authentic⟩

theorem Inv.mono (inv : Inv P events node chain) (sub : events ⊆ events') : Inv P events' node chain :=
  { inv with entered := fun i placed found => (inv.entered i placed found).mono sub }

theorem Inv.mempool (inv : Inv P events node chain) (mempool : CTxMemPool) :
    Inv P events { node with mempool := mempool } chain :=
  ⟨inv.rooted, inv.path, inv.pnext, ⟨inv.tip.best, inv.tip.pindexBest, inv.tip.genesis, inv.tip.record⟩,
    inv.blockindex, inv.txindex, inv.disk, inv.filed, inv.valid, inv.supply, inv.entered⟩

theorem Attachable.ne_known (attachable : Attachable P node block pindexPrev)
    (found : node.mapBlockIndex[h]? = some e) : P.getHash block ≠ h := by
  rintro rfl
  rw [attachable.fresh] at found
  cases found

theorem Path.ne_new (path : Path P map chain) (fresh : map[h]? = none) (found : chain[i]? = some p) :
    P.getHash p.block ≠ h := by
  rintro rfl
  obtain ⟨e, lookup, _⟩ := path.entry i p found
  rw [fresh] at lookup
  cases lookup

theorem Inv.store (inv : Inv P events node chain)
    (admission : Admission P now node block pindexPrev) :
    Inv P events (stored P node block) chain where
  rooted := inv.rooted.store admission.attachable
  path := inv.path.store admission.attachable
  pnext h e found h' := by
    rw [stored_getElem?] at found
    split at found
    · next same =>
        cases found
        constructor
        · intro next; cases next
        · rintro ⟨i, p, q, found, _, hash, _⟩
          exact absurd (hash.trans same.symm) (inv.path.ne_new admission.fresh found)
    · exact inv.pnext h e found h'
  tip := by
    obtain ⟨last, e, top, hash, found, rest⟩ := inv.tip.best
    have record : (stored P node block).pdb[DbKey.hashBestChain]? = node.pdb[DbKey.hashBestChain]? := by
      simp [stored, ExtTreeMap.getElem?_insert]
    exact ⟨⟨last, e, top, hash, admission.attachable.stored_old found, rest⟩, inv.tip.pindexBest,
      inv.tip.genesis, record.trans inv.tip.record⟩
  blockindex h := by
    have key : P.hashHeader (CDiskBlockIndex.ofIndex (newIndex node block)).header = P.getHash block := by
      rw [admission.attachable.header]
      rfl
    simp only [stored, key, ExtTreeMap.getElem?_insert, Std.compare_eq_iff_eq, DbKey.blockindex.injEq]
    split
    · rfl
    · exact inv.blockindex h
  txindex id := by rw [stored_tx, inv.txindex]
  disk placed member := (inv.disk placed member).writeToDisk block
  filed h e found := by
    rw [stored_getElem?] at found
    split at found
    · cases found
      exact ⟨block, holds_writeToDisk node.files block, admission.attachable.header.symm⟩
    · obtain ⟨block', holds, header⟩ := inv.filed h e found
      exact ⟨block', holds.writeToDisk block, header⟩
  valid := inv.valid
  supply e found := by
    obtain ⟨last, tip, top, hash, known, rest⟩ := inv.tip.best
    change (stored P node block).mapBlockIndex[node.hashBestChain]? = some e at found
    rw [stored_getElem?, if_neg (admission.attachable.ne_known known)] at found
    exact inv.supply e found
  entered := inv.entered

theorem Inv.invalidChainFound (inv : Inv P events node chain) (pindexNew : CBlockIndex) :
    Inv P events (node.invalidChainFound pindexNew) chain := by
  unfold Node.invalidChainFound
  split
  · have pdb : ∀ key, key ≠ DbKey.bnBestInvalidTrust →
        (node.pdb.open.writeBestInvalidTrust pindexNew.bnChainTrust).pdb[key]? = node.pdb[key]? := by
      intro key ne
      simp only [LevelDB.open, CTxDB.writeBestInvalidTrust, CTxDB.write, ExtTreeMap.getElem?_insert,
        Std.compare_eq_iff_eq]
      rw [if_neg ne.symm]
    exact ⟨inv.rooted, inv.path, inv.pnext, ⟨inv.tip.best, inv.tip.pindexBest, inv.tip.genesis,
        (pdb _ (by simp)).trans inv.tip.record⟩,
      fun h => (pdb _ (by simp)).trans (inv.blockindex h), fun id => (pdb _ (by simp)).trans (inv.txindex id),
      inv.disk, inv.filed, inv.valid, inv.supply, inv.entered⟩
  · exact inv

theorem Inv.afterFailure (inv : Inv P events node chain) (pindexNew : CBlockIndex) (reason : Failure) :
    Inv P events (afterFailure node pindexNew reason) chain := by
  cases reason with
  | reject nDoS messages => exact inv.invalidChainFound pindexNew
  | throw what => exact inv
  | stop fault => exact inv

section Connect
variable {pindexNew : CBlockIndex} {txdb : TxDB}

theorem connected_getElem? (P : Primitives) (node : Node) (block : CBlock)
    (pindexNew pindexPrev : CBlockIndex) (txdb : TxDB) (h : Uint256) :
    (connected P (stored P node block) block pindexNew pindexPrev txdb).mapBlockIndex[h]? =
      if block.hashPrevBlock = h then some { pindexPrev with pnext := some (P.getHash block) }
      else if P.getHash block = h then some pindexNew
      else node.mapBlockIndex[h]? := by
  simp only [connected, Node.attach, Node.setBest, ExtTreeMap.getElem?_insert,
    Std.compare_eq_iff_eq, stored_getElem?]
  split_ifs <;> rfl

theorem Attachable.sameCore (attachable : Attachable P node block pindexPrev)
    (core_new : core pindexNew = core (newIndex node block)) (txdb : TxDB) :
    SameCore (stored P node block).mapBlockIndex
      (connected P (stored P node block) block pindexNew pindexPrev txdb).mapBlockIndex := by
  intro h
  rw [connected_getElem?, stored_getElem?]
  split_ifs with prev new new
  · exact absurd (new.trans prev.symm) attachable.ne
  · subst prev
    rw [attachable.parent]
    rfl
  · exact congrArg some core_new
  · rfl

theorem connected_pdb (rooted : Rooted P node.mapBlockIndex)
    (admission : Admission P now node block pindexPrev)
    (core_new : core pindexNew = core (newIndex node block)) (queue : TxIndexMap) (key : DbKey) :
    ((writeConnected P (batch (stored P node block).pdb) block pindexNew (some pindexPrev)
        queue).writeHashBestChain (P.getHash block)).view[key]? =
      match key with
      | .hashBestChain => some (.uint256 (P.getHash block))
      | .tx id => if queue.contains id then queue[id]?.map .txIndex else node.pdb[key]?
      | .blockindex h =>
        if block.hashPrevBlock = h then
          some (.blockIndex (.ofIndex { pindexPrev with pnext := some (P.getHash block) }))
        else if P.getHash block = h then some (.blockIndex (.ofIndex pindexNew))
        else node.pdb[key]?
      | .bnBestInvalidTrust => node.pdb[key]? := by
  have newKey : P.hashHeader (CDiskBlockIndex.ofIndex pindexNew).header = P.getHash block := by
    rw [(core_eq core_new).2.2.2.2.2.2, admission.attachable.header]
    rfl
  have storedKey : P.hashHeader (CDiskBlockIndex.ofIndex (newIndex node block)).header =
      P.getHash block := by
    rw [admission.attachable.header]
    rfl
  have prevKey : P.hashHeader (CDiskBlockIndex.header
      { CDiskBlockIndex.ofIndex pindexPrev with hashNext := P.getHash block }) = block.hashPrevBlock :=
    rooted.header _ _ admission.parent
  rw [view_writeHashBestChain, writeConnected, view_writeBlockIndex, prevKey]
  cases key with
  | hashBestChain => simp
  | tx id =>
    simp [ExtTreeMap.getElem?_insert, view_writeQueuedChanges, stored]
  | bnBestInvalidTrust =>
    simp [ExtTreeMap.getElem?_insert, view_writeQueuedChanges, stored]
  | blockindex h =>
    simp only [ExtTreeMap.getElem?_insert, Std.compare_eq_iff_eq, reduceCtorEq, if_false,
      DbKey.blockindex.injEq, view_writeQueuedChanges, view_writeBlockIndex, newKey, view_batch,
      stored, storedKey]
    split_ifs <;> rfl

theorem Inv.connect_pnext (inv : Inv P events node chain) (admission : Admission P now node block pindexPrev)
    {last : Placed} (top : chain.getLast? = some last) (prev : block.hashPrevBlock = P.getHash last.block)
    (pnext : pindexNew.pnext = none)
    (found : (connected P (stored P node block) block pindexNew pindexPrev txdb).mapBlockIndex[h]? = some e)
    (h' : Uint256) : e.pnext = some h' ↔ Adjacent P (chain ++ [placedAt node block]) h h' := by
  rw [adjacent_append top, ← prev]
  rw [connected_getElem?] at found
  split_ifs at found with isPrev isNew
  · cases found
    subst isPrev
    -- the tip was the last block, so it had no successor
    have none : ∀ h', ¬ Adjacent P chain block.hashPrevBlock h' := by
      rintro h' ⟨i, p, q, hp, hq, hash, _⟩
      obtain ⟨_, atEnd⟩ := getLast?_eq_some_iff.mp top
      have := inv.path.index_unique hp atEnd (hash.trans prev)
      have := (List.getElem?_eq_some_iff.mp hq).1
      omega
    simp [none h', placedAt, Option.some.injEq]
  · cases found
    subst isNew
    have none : ∀ h', ¬ Adjacent P chain (P.getHash block) h' := by
      rintro h' ⟨i, p, q, hp, _, hash, _⟩
      exact inv.path.ne_new admission.fresh hp hash
    simp [none h', isPrev, pnext]
  · simp [inv.pnext h e found h', isPrev]

theorem Inv.connect (inv : Inv P events node chain)
    (admission : Admission P now node block pindexPrev)
    (tip : block.hashPrevBlock = node.hashBestChain)
    (connect : connectBlock P now (stored P node block) (batch (stored P node block).pdb) block
      (newIndex node block) = .ok (txdb, pindexNew))
    (received : Event.block now block ∈ events) :
    Inv P events (connected P (stored P node block) block pindexNew pindexPrev txdb)
      (chain ++ [placedAt node block]) := by
  have ready := inv.ready admission.attachable tip
  obtain ⟨last, top, prev, height⟩ := inv.tip_entry admission.attachable tip
  obtain ⟨accepts, state, tracks, shape, db⟩ := connectBlock_sound ready connect
  have core_new : core pindexNew = core (newIndex node block) := by rw [shape]; rfl
  have same := admission.attachable.sameCore core_new txdb
  have length := length_blocksOf inv.path
  have blocks : blocksOf (chain ++ [placedAt node block]) = blocksOf chain ++ [block] :=
    blocksOf_append inv.path _
  have valid : ValidChain P (blocksOf chain ++ [block]) := .extend inv.valid (length ▸ accepts)
  have ledger : ledgerOf P (blocksOf chain ++ [block]) =
      connectTxs chain.length 0 (ledgerOf P (blocksOf chain)) block.vtx := by
    rw [ledgerOf_append, length]
  have isTip : (connected P (stored P node block) block pindexNew pindexPrev txdb).mapBlockIndex[
      P.getHash block]? = some pindexNew := by
    rw [connected_getElem?, if_neg admission.attachable.ne.symm, if_pos rfl]
  have pdb := connected_pdb inv.rooted admission core_new state.mapQueuedChanges
  rw [← db] at pdb
  refine ⟨(inv.rooted.store admission.attachable).congr same, (inv.path.extend admission.attachable top prev).congr same,
    fun h e found h' => inv.connect_pnext admission top prev (by rw [shape]; rfl) found h',
    ⟨⟨placedAt node block, pindexNew, by simp, rfl, isTip, rfl, rfl⟩, rfl, inv.tip.genesis, pdb _⟩,
    ?_, ?_, inv.disk_append block, ?_, blocks ▸ valid, ?_, ?_⟩
  · intro h
    change (txdb.writeHashBestChain (P.getHash block)).view[DbKey.blockindex h]? = _
    rw [pdb, connected_getElem?]
    dsimp only
    split_ifs
    · rfl
    · rfl
    · exact inv.blockindex h
  · intro id
    change (txdb.writeHashBestChain (P.getHash block)).view[DbKey.tx id]? = _
    rw [pdb, blocks, ledger]
    dsimp only
    have shown := tracks.shown id
    split_ifs with queued
    · rw [if_pos queued] at shown
      rw [shown, Option.map_map]
      rfl
    · rw [if_neg queued, ready.backed.lookup] at shown
      have old : node.pdb[DbKey.tx id]? = ((ledgerOf P (blocksOf chain) id).map
          (indexed (chain ++ [placedAt node block]))).map DbValue.txIndex := by
        rw [inv.txindex]
        cases found : ledgerOf P (blocksOf chain) id with
        | none => rfl
        | some c => simp [indexed_append inv.path inv.valid _ found]
      rw [old, shown, Option.map_map]
      rfl
  · intro h e found
    obtain ⟨e', found', eq⟩ := same.symm.exists_some found
    obtain ⟨block', holds, header⟩ := (inv.store admission).filed h e' found'
    obtain ⟨_, _, _, nFile, nBlockPos, _, header'⟩ := core_eq eq
    exact ⟨block', by rw [← nFile, ← nBlockPos]; exact holds, by rw [header, header']⟩
  · intro e found
    change (connected P (stored P node block) block pindexNew pindexPrev txdb).mapBlockIndex[
      P.getHash block]? = some e at found
    rw [isTip] at found
    cases found
    rw [blocks, shape, ledger]
    exact tracks.nMoneySupply ready (ledger ▸ valid.total_nonneg) (ledger ▸ valid.total_le.2)
  · intro i placed found
    rcases Nat.lt_or_ge (i + 1) chain.length with low | high
    · rw [List.getElem?_append_left low] at found
      exact inv.entered i placed found
    · rw [List.getElem?_append_right high] at found
      obtain rfl : placed = placedAt node block := by simpa using List.mem_of_getElem? found
      exact ⟨⟨now, received, admission.checked⟩, admission.authentic⟩

end Connect

end RitCoin.Proof
