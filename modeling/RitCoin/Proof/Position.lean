import RitCoin.Proof.Maturity
import RitCoin.Proof.Serialize

namespace RitCoin.Proof
open Lib Model Std
variable {posThisTx pos : DiskPos} {nFile : ℕ} {α : Type} {hash : Uint256} {e : CTxIndex}
  {after : MapPrevTx × TxIndexMap} {P : Primitives} {node : Node} {txdb : TxDB} {pindex : CBlockIndex}
  {block : CBlock} {tx : CTransaction} {inputs : MapPrevTx} {queue queue' : TxIndexMap}
  {state state' : ConnectState}

theorem length_fileBytes (writes : List (ℕ × CBlock)) (n : ℕ) :
    (fileBytes writes n).length = fileSize writes n := by
  induction writes with
  | nil => rfl
  | cons w older ih =>
    obtain ⟨nFile, block⟩ := w
    rw [fileBytes, fileSize, List.length_append, ih]
    split_ifs
    · simp [pchMessageStart, length_block]
      omega
    · rfl

theorem fileBytes_newer (newer older : List (ℕ × CBlock)) (n : ℕ) :
    ∃ later, fileBytes (newer ++ older) n = fileBytes older n ++ later := by
  induction newer with
  | nil => exact ⟨[], (List.append_nil _).symm⟩
  | cons w newer ih =>
    obtain ⟨later, eq⟩ := ih
    obtain ⟨nFile, block⟩ := w
    rw [List.cons_append, fileBytes, eq, List.append_assoc]
    exact ⟨_, rfl⟩

theorem holds_bytes {writes : List (ℕ × CBlock)} {nBlockPos : ℕ} (holds : Holds writes nFile nBlockPos block) :
    ∃ before after,
      fileBytes writes nFile = before ++ (block.serialize ++ after) ∧ before.length = nBlockPos := by
  obtain ⟨newer, older, rfl, rfl⟩ := holds
  obtain ⟨later, eq⟩ := fileBytes_newer newer ((nFile, block) :: older) nFile
  refine ⟨fileBytes older nFile ++ (pchMessageStart ++ leBytes 4 block.getSerializeSize), later, ?_, ?_⟩
  · rw [eq, fileBytes, if_pos rfl]
    simp only [List.append_assoc]
  · simp [length_fileBytes, pchMessageStart]

theorem serialize_vtx (block : CBlock) : ∃ header, header.length = block.txStart ∧
    block.serialize = header ++ block.vtx.flatMap CTransaction.serialize := by
  obtain ⟨header, eq⟩ : ∃ header, block.serialize = header ++ block.vtx.flatMap CTransaction.serialize := by
    simp only [CBlock.serialize, serializeVector, ← List.append_assoc]
    exact ⟨_, rfl⟩
  refine ⟨header, ?_, eq⟩
  have length := congrArg List.length eq
  rw [length_block, List.length_append, List.length_flatMap] at length
  simp only [length_transaction] at length
  have size : block.getSerializeSize - vtxSize block.vtx + vtxSize block.vtx = block.getSerializeSize :=
    Nat.sub_add_cancel (by rw [CBlock.getSerializeSize]; exact Nat.le_add_left _ _)
  rw [CBlock.txStart]
  simp only [vtxSize] at size ⊢
  change _ = header.length + (block.vtx.map CTransaction.getSerializeSize).sum at length
  omega

theorem serialize_at {i : ℕ} (found : block.vtx[i]? = some tx) : ∃ before after,
    block.serialize = before ++ (tx.serialize ++ after) ∧ before.length = block.txOffset i := by
  obtain ⟨inside, rfl⟩ := List.getElem?_eq_some_iff.mp found
  have vtx : block.vtx.flatMap CTransaction.serialize =
      (block.vtx.take i).flatMap CTransaction.serialize ++
        (block.vtx[i].serialize ++ (block.vtx.drop (i + 1)).flatMap CTransaction.serialize) := by
    rw [← List.flatMap_cons, ← List.drop_eq_getElem_cons inside, ← List.flatMap_append,
      List.take_append_drop]
  obtain ⟨header, length, eq⟩ := serialize_vtx block
  refine ⟨header ++ (block.vtx.take i).flatMap CTransaction.serialize,
    (block.vtx.drop (i + 1)).flatMap CTransaction.serialize, ?_, ?_⟩
  · rw [eq, vtx, List.append_assoc]
  · rw [List.length_append, length, List.length_flatMap, CBlock.txOffset]
    simp only [length_transaction]

theorem le_sum_map (size : α → ℕ) {v : List α} {a : α} (member : a ∈ v) : size a ≤ (v.map size).sum :=
  List.single_le_sum (fun _ _ => Nat.zero_le _) _ (List.mem_map_of_mem member)

theorem length_le_sum_map (size : α → ℕ) (positive : ∀ a, 1 ≤ size a) (v : List α) :
    v.length ≤ (v.map size).sum := by
  have each := List.length_le_sum_of_one_le (v.map size) fun n member => by
    obtain ⟨a, _, rfl⟩ := List.mem_map.mp member
    exact positive a
  rwa [List.length_map] at each

theorem bounded_of_size (small : tx.getSerializeSize ≤ MAX_SIZE) : Bounded tx := by
  have vin := length_le_sum_map CTxIn.getSerializeSize
    (fun txin => by rw [CTxIn.getSerializeSize]; omega) tx.vin
  have vout := length_le_sum_map CTxOut.getSerializeSize
    (fun txout => by rw [CTxOut.getSerializeSize]; omega) tx.vout
  rw [CTransaction.getSerializeSize] at small
  refine ⟨by omega, ?_, by omega, ?_⟩
  · intro txin member
    have each := le_sum_map CTxIn.getSerializeSize member
    rw [CTxIn.getSerializeSize, bytesSize] at each
    omega
  · intro txout member
    have each := le_sum_map CTxOut.getSerializeSize member
    rw [CTxOut.getSerializeSize, bytesSize] at each
    omega

theorem getSerializeSize_le (member : tx ∈ block.vtx) : tx.getSerializeSize ≤ block.getSerializeSize := by
  have each := le_sum_map CTransaction.getSerializeSize member
  rw [CBlock.getSerializeSize, vtxSize]
  omega

theorem txFromDisk_eq_ok (layout : Layout) (bounded : Bounded tx) {file before after : List UInt8}
    (eq : file = before ++ (tx.serialize ++ after)) (here : before.length = pos.nTxPos) :
    CTransaction.readFromDisk layout file pos = .ok tx := by
  obtain ⟨_, run, _⟩ := decodes_transaction file_delivers layout bounded (tx.serialize ++ after) after _
    le_rfl rfl
  rw [CTransaction.readFromDisk, eq, List.drop_left' here, run]

theorem txAtOffset_eq_some {offset : ℕ} : ∀ {vtx : List CTransaction} {start : ℕ},
    txAtOffset offset start vtx = some tx → ∃ i, vtx[i]? = some tx ∧
      offset = start + ((vtx.take i).map CTransaction.getSerializeSize).sum := by
  intro vtx
  induction vtx with
  | nil => exact fun found => nomatch found
  | cons first rest ih =>
    intro start found
    rw [txAtOffset] at found
    split_ifs at found with here
    · exact ⟨0, found, here.symm⟩
    · obtain ⟨i, at', offset⟩ := ih found
      refine ⟨i + 1, at', ?_⟩
      rw [offset, List.take_succ_cons, List.map_cons, List.sum_cons, Nat.add_assoc]

theorem readTxAt_bytes {nTxPos : ℕ} : ∀ {writes : List (ℕ × CBlock)},
    readTxAt writes nFile nTxPos = some tx → ∃ before after,
      fileBytes writes nFile = before ++ (tx.serialize ++ after) ∧ before.length = nTxPos := by
  intro writes
  induction writes with
  | nil => exact fun found => nomatch found
  | cons w older ih =>
    obtain ⟨n, block⟩ := w
    intro found
    have below : readTxAt older nFile nTxPos = some tx → ∃ before after,
        fileBytes ((n, block) :: older) nFile = before ++ (tx.serialize ++ after) ∧
          before.length = nTxPos := by
      intro found
      obtain ⟨before, after, eq, length⟩ := ih found
      refine ⟨before, after ++ if n = nFile then
        pchMessageStart ++ (leBytes 4 block.getSerializeSize ++ block.serialize) else [], ?_, length⟩
      rw [fileBytes, eq]
      simp only [List.append_assoc]
    rw [readTxAt] at found
    split at found
    · next same =>
        subst same
        split at found
        · next tx' inBlock =>
            cases found
            obtain ⟨i, at', offset⟩ := txAtOffset_eq_some inBlock
            obtain ⟨before, after, inBlock, length⟩ := serialize_at at'
            refine ⟨fileBytes older n ++ (pchMessageStart ++ (leBytes 4 block.getSerializeSize ++ before)),
              after, ?_, ?_⟩
            · rw [fileBytes, if_pos rfl, inBlock]
              simp only [List.append_assoc]
            · simp only [List.length_append, length_fileBytes, length, length_leBytes, CBlock.txOffset,
                pchMessageStart, List.length_cons, List.length_nil]
              omega
        · exact below found
    · exact below found

theorem readTx_refines (layout : Layout) {files : BlockFiles} (bounded : Bounded tx)
    (read : files.readTx (some pos) = some tx) :
    CTransaction.readFromDisk layout (fileBytes files.writes pos.nFile) pos = .ok tx := by
  obtain ⟨before, after, eq, length⟩ := readTxAt_bytes read
  exact txFromDisk_eq_ok layout bounded eq length

def KeepsPos (queue queue' : TxIndexMap) : Prop :=
  ∀ (id : Uint256) (e : CTxIndex), queue[id]? = some e →
    ∃ e' : CTxIndex, queue'[id]? = some e' ∧ e'.pos = e.pos

theorem KeepsPos.refl (queue : TxIndexMap) : KeepsPos queue queue :=
  fun _ e found => ⟨e, found, rfl⟩

def FromQueue (queue : TxIndexMap) (inputs : MapPrevTx) : Prop :=
  ∀ (id : Uint256) (entry : CTxIndex × CTransaction), inputs[id]? = some entry →
    ∀ e : CTxIndex, queue[id]? = some e → entry.1.pos = e.pos

theorem fetchPrev_pos {entry : CTxIndex × CTransaction}
    (fetch : CTransaction.fetchPrev node txdb queue true false hash = .ok entry) (queued : queue[hash]? = some e) :
    entry.1 = e := by
  have present : queue.contains hash = true := by
    rw [ExtTreeMap.contains_eq_isSome_getElem?, queued]
    rfl
  simp only [CTransaction.fetchPrev, Bool.or_false, Bool.true_and, present, if_true, queued] at fetch
  rw [seq_eq_ok] at fetch
  obtain ⟨_, fetch⟩ := fetch
  split at fetch
  · split at fetch
    · cases fetch
    · rw [pure_eq_ok] at fetch
      rw [← fetch]
  · split at fetch
    · cases fetch
    · rw [pure_eq_ok] at fetch
      rw [← fetch]

theorem fetchInputs_fromQueue (spending : tx.isCoinBase = false)
    (fetch : tx.fetchInputs node txdb queue true false = .ok inputs) : FromQueue queue inputs := by
  simp only [CTransaction.fetchInputs, spending, Bool.false_eq_true, if_false, bind_eq_ok,
    mapError_eq_ok, pure_eq_ok] at fetch
  obtain ⟨inputs, loop, _, _, rfl⟩ := fetch
  refine foldlM_ok_rel (fun _ inputs => FromQueue queue inputs) ?_ tx.vin [] ∅ inputs ?_ loop
  · intro _ txin inputs inputs' before round
    unfold CTransaction.fetchInput at round
    split at round
    · rw [pure_eq_ok] at round
      exact round ▸ before
    · rw [bind_eq_ok] at round
      obtain ⟨entry, fetched, round⟩ := round
      rw [pure_eq_ok] at round
      subst round
      intro id entry' found e queued
      rw [ExtTreeMap.getElem?_insert] at found
      split_ifs at found with same
      · cases found
        rw [Std.compare_eq_iff_eq] at same
        rw [fetchPrev_pos fetched (same ▸ queued)]
      · exact before id entry' found e queued
  · intro id entry found
    simp at found

theorem spendInput_eq {item : CTxIn × ℕ}
    (round : CTransaction.spendInput P node tx posThisTx true false true (inputs, queue) item = .ok after) :
    ∃ (txindex txindex' : CTxIndex) (txPrev : CTransaction),
      inputs[item.1.prevout.hash]? = some (txindex, txPrev) ∧ txindex'.pos = txindex.pos ∧
      after = (inputs.insert item.1.prevout.hash (txindex', txPrev),
        queue.insert item.1.prevout.hash txindex') := by
  obtain ⟨txin, i⟩ := item
  rw [CTransaction.spendInput] at round
  cases lookup : inputs[txin.prevout.hash]? with
  | none =>
    simp only [lookup] at round
    cases round
  | some entry =>
    simp only [lookup, seq_eq_ok] at round
    obtain ⟨_, round⟩ := round
    let marked : CTxIndex :=
      { entry.1 with vSpent := entry.1.vSpent.set txin.prevout.n.toNat (some posThisTx) }
    split at round
    · rw [bind_eq_ok] at round
      obtain ⟨valid, _, round⟩ := round
      split at round
      · -- a signature that fails ends the round
        simp only [if_true, bind_eq_ok] at round
        obtain ⟨_, _, _, _, _, stop, _⟩ := round
        cases stop
      · exact ⟨entry.1, marked, entry.2, rfl, rfl, (pure_eq_ok.mp round).symm⟩
    · exact ⟨entry.1, marked, entry.2, rfl, rfl, (pure_eq_ok.mp round).symm⟩

theorem spendInputs_keepsPos (fetched : FromQueue queue inputs)
    (loop : tx.vin.zipIdx.foldlM (CTransaction.spendInput P node tx posThisTx true false true) (inputs, queue) =
      .ok after) :
    KeepsPos queue after.2 := by
  refine (foldlM_ok_rel (fun _ (state : MapPrevTx × TxIndexMap) =>
    FromQueue queue state.1 ∧ KeepsPos queue state.2) ?_ _ [] _ after ⟨fetched, .refl queue⟩ loop).2
  rintro _ item ⟨inputs, current⟩ state ⟨fetched, keeps⟩ round
  obtain ⟨txindex, txindex', txPrev, lookup, pos, rfl⟩ := spendInput_eq round
  constructor
  · intro id entry found e queued
    rw [ExtTreeMap.getElem?_insert] at found
    split_ifs at found with same
    · cases found
      rw [Std.compare_eq_iff_eq] at same
      rw [pos]
      exact fetched _ _ lookup e (same ▸ queued)
    · exact fetched id entry found e queued
  · intro id e queued
    rw [ExtTreeMap.getElem?_insert]
    split_ifs with same
    · rw [Std.compare_eq_iff_eq] at same
      exact ⟨txindex', rfl, pos.trans (fetched _ _ lookup e (same ▸ queued))⟩
    · exact keeps id e queued

theorem connectInputs_keepsPos (spending : tx.isCoinBase = false) (fetched : FromQueue queue inputs)
    (connect : tx.connectInputs P node inputs queue posThisTx pindex true false true = .ok queue') :
    KeepsPos queue queue' := by
  simp only [CTransaction.connectInputs, spending, Bool.false_eq_true, if_false, bind_eq_ok, pure_eq_ok]
    at connect
  obtain ⟨_, _, ⟨_, after⟩, loop, _, _, _, _, _, _, _, _, _, _, rfl⟩ := connect
  exact spendInputs_keepsPos fetched loop

theorem connectValues_keepsPos (values : connectValues P node txdb pindex posThisTx tx state = .ok state') :
    state'.nTxPos = state.nTxPos ∧ KeepsPos state.mapQueuedChanges state'.mapQueuedChanges := by
  rw [connectValues] at values
  cases coinbase : tx.isCoinBase with
  | true =>
    simp only [coinbase, if_true, connectCoinBase, bind_eq_ok, pure_eq_ok] at values
    obtain ⟨_, _, rfl⟩ := values
    exact ⟨rfl, .refl _⟩
  | false =>
    simp only [coinbase, Bool.false_eq_true, if_false, connectSpend, bind_eq_ok, mapError_eq_ok,
      pure_eq_ok] at values
    obtain ⟨inputs, fetch, _, _, _, _, _, _, _, _, queue, connect, rfl⟩ := values
    exact ⟨rfl, connectInputs_keepsPos coinbase (fetchInputs_fromQueue coinbase fetch) connect⟩

structure Positioned (P : Primitives) (pindex : CBlockIndex) (block : CBlock) (done : List CTransaction)
    (state : ConnectState) : Prop where
  next : state.nTxPos = pindex.nBlockPos + block.txStart + (done.map CTransaction.getSerializeSize).sum
  queued : ∀ i tx, done[i]? = some tx → ∃ e : CTxIndex, state.mapQueuedChanges[P.hashTx tx]? = some e ∧
    e.pos = some ⟨pindex.nFile, pindex.nBlockPos, pindex.nBlockPos + block.txStart +
      ((done.take i).map CTransaction.getSerializeSize).sum⟩

theorem connectTx_positioned {done : List CTransaction} (before : Positioned P pindex block done state)
    (fresh : P.hashTx tx ∉ done.map P.hashTx)
    (round : connectTx P node txdb pindex state tx = .ok state') :
    Positioned P pindex block (done ++ [tx]) state' := by
  simp only [connectTx, bind_eq_ok, pure_eq_ok] at round
  obtain ⟨_, _, _, _, after, values, rfl⟩ := round
  obtain ⟨pos, keeps⟩ := connectValues_keepsPos values
  constructor
  · simp only [pos, before.next, List.map_append, List.sum_append, List.map_cons, List.map_nil,
      List.sum_cons, List.sum_nil]
    omega
  · intro i other found
    rw [List.getElem?_append] at found
    simp only [ExtTreeMap.getElem?_insert]
    split_ifs at found with old
    · obtain ⟨e, queued, eq⟩ := before.queued i other found
      obtain ⟨e', queued', eq'⟩ := keeps _ e queued
      have apart : ¬ compare (P.hashTx tx) (P.hashTx other) = .eq := by
        rw [Std.compare_eq_iff_eq]
        exact fun same => fresh (same ▸ List.mem_map_of_mem (List.mem_of_getElem? found))
      refine ⟨e', by rw [if_neg apart]; exact queued', ?_⟩
      rw [eq', eq, List.take_append_of_le_length old.le]
    · rw [List.getElem?_singleton] at found
      split_ifs at found with last
      cases found
      have here : i = done.length := by omega
      refine ⟨_, if_pos (Std.compare_eq_iff_eq.mpr rfl), ?_⟩
      rw [CTxIndex.new, before.next, here, List.take_left' rfl]

theorem connectTxs_positioned (nodup : (block.vtx.map P.hashTx).Nodup)
    (loop : block.vtx.foldlM (connectTx P node txdb pindex) (.start block pindex) = .ok state) :
    Positioned P pindex block block.vtx state := by
  refine foldlM_ok_rel (fun done state => (done.map P.hashTx).Nodup → Positioned P pindex block done state)
    ?_ block.vtx [] _ state (fun _ => ⟨rfl, fun i tx found => nomatch found⟩) loop nodup
  intro done tx state state' before round nodup
  rw [List.map_append, List.nodup_append] at nodup
  refine connectTx_positioned (before nodup.1) ?_ round
  exact fun member => nodup.2.2 _ member _ (List.mem_singleton_self _) rfl

theorem readTxIndex_writeConnected {parent : Option CBlockIndex} (queued : queue[hash]? = some e) :
    (writeConnected P txdb block pindex parent queue).readTxIndex hash = some e := by
  have written : (writeQueuedChanges (txdb.writeBlockIndex P (.ofIndex pindex)) queue).view[DbKey.tx hash]? =
      some (.txIndex e) := by
    have present : queue.contains hash = true := by
      rw [ExtTreeMap.contains_eq_isSome_getElem?, queued]
      rfl
    rw [view_writeQueuedChanges]
    simp [present, queued]
  rw [readTxIndex_eq_view]
  cases parent with
  | none =>
    simp only [writeConnected, written]
    rfl
  | some parent =>
    simp only [writeConnected, view_writeBlockIndex, ExtTreeMap.getElem?_insert]
    rw [if_neg (by simp), written]
    rfl

/-- The position that `ConnectBlock` enters for a transaction is the offset of its first byte in the
file, and reading there gives the transaction back, also after later blocks were written. -/
theorem txIndex_position (P : Primitives) (layout : Layout) (now : Int) (node : Node) (txdb txdb' : TxDB)
    (files : BlockFiles) (block : CBlock) (pindex pindex' : CBlockIndex)
    (stored : (pindex.nFile, pindex.nBlockPos) = (files.writeToDisk block).2)
    (connected : connectBlock P now node txdb block pindex = .ok (txdb', pindex')) (i : ℕ)
    (tx : CTransaction) (found : block.vtx[i]? = some tx) (newer : List (ℕ × CBlock)) :
    ∃ (txindex : CTxIndex) (pos : DiskPos) (before after : List UInt8),
      txdb'.readTxIndex (P.hashTx tx) = some txindex ∧ txindex.pos = some pos ∧
      pos.nFile = pindex.nFile ∧ pos.nBlockPos = pindex.nBlockPos ∧
      fileBytes (newer ++ (files.writeToDisk block).1.writes) pos.nFile =
        before ++ (tx.serialize ++ after) ∧ before.length = pos.nTxPos ∧
      CTransaction.readFromDisk layout (fileBytes (newer ++ (files.writeToDisk block).1.writes) pos.nFile)
        pos = .ok tx := by
  simp only [connectBlock, bind_eq_ok, pure_eq_ok, Prod.mk.injEq] at connected
  obtain ⟨_, ok, state, loop, _, _, _, _, _, _, rfl, rfl⟩ := connected
  have checked := CBlock.checkBlock_eq_ok.mp ok
  obtain ⟨e, queued, pos⟩ := (connectTxs_positioned checked.nodup loop).queued i tx found
  -- the block stands at the entry's position, the transaction at its offset in the block
  have holds : Holds (newer ++ (files.writeToDisk block).1.writes) pindex.nFile pindex.nBlockPos block := by
    have nFile : pindex.nFile = files.appendBlockFile := congrArg Prod.fst stored
    have nBlockPos : pindex.nBlockPos = fileSize files.writes files.appendBlockFile + 8 :=
      congrArg Prod.snd stored
    rw [nFile, nBlockPos]
    exact ⟨newer, files.writes, rfl, rfl⟩
  obtain ⟨front, back, file, length⟩ := holds_bytes holds
  obtain ⟨before, after, inBlock, length'⟩ := serialize_at found
  have bytes : fileBytes (newer ++ (files.writeToDisk block).1.writes) pindex.nFile =
      (front ++ before) ++ (tx.serialize ++ (after ++ back)) := by
    rw [file, inBlock]
    simp only [List.append_assoc]
  have offset : (front ++ before).length = pindex.nBlockPos + block.txStart +
      ((block.vtx.take i).map CTransaction.getSerializeSize).sum := by
    rw [List.length_append, length, length', CBlock.txOffset, Nat.add_assoc]
  have bounded : Bounded tx := by
    refine bounded_of_size ((getSerializeSize_le (List.mem_of_getElem? found)).trans (checked.size.trans ?_))
    decide
  exact ⟨e, _, front ++ before, after ++ back, readTxIndex_writeConnected queued, pos, rfl, rfl, bytes, offset,
    txFromDisk_eq_ok layout bounded bytes offset⟩

def busyFiles : BlockFiles := (run toy (payingEvents 5)).files

/-- The node that has written the block and is about to connect it. -/
def busyNode : Node := { run toy (payingEvents 5) with files := (busyFiles.writeToDisk busyBlock).1 }

def busyIndex : CBlockIndex :=
  newBlockIndex busyNode.mapBlockIndex busyBlock (busyFiles.writeToDisk busyBlock).2.1
    (busyFiles.writeToDisk busyBlock).2.2

theorem txIndex_position_busy :
    ∃ (txdb' : TxDB) (pindex' : CBlockIndex) (txindex : CTxIndex) (pos : DiskPos),
      connectBlock toy toyNow busyNode busyNode.pdb.open busyBlock busyIndex = .ok (txdb', pindex') ∧
      txdb'.readTxIndex (toy.hashTx followUp) = some txindex ∧ txindex.pos = some pos ∧
      CTransaction.readFromDisk toyLayout (fileBytes busyNode.files.writes pos.nFile) pos = .ok followUp := by
  obtain ⟨⟨txdb', pindex'⟩, connected⟩ :
      ∃ r, connectBlock toy toyNow busyNode busyNode.pdb.open busyBlock busyIndex = .ok r :=
    exists_eq_ok (by decide +kernel)
  have stored : (busyIndex.nFile, busyIndex.nBlockPos) = (busyFiles.writeToDisk busyBlock).2 := by
    unfold busyIndex
    generalize busyFiles.writeToDisk busyBlock = placed
    rfl
  have found : busyBlock.vtx[2]? = some followUp := by decide +kernel
  obtain ⟨txindex, pos, _, _, read, eq, _, _, _, _, onDisk⟩ := txIndex_position toy toyLayout toyNow busyNode
    busyNode.pdb.open txdb' busyFiles busyBlock busyIndex pindex' stored connected 2 _ found []
  exact ⟨txdb', pindex', txindex, pos, connected, read, eq, onDisk⟩

theorem Inv.bounded {events : List Event} {chain : List Placed} (inv : Inv P events node chain) {k : ℕ}
    {placed : Placed} (top : chain[k]? = some placed) (inVtx : tx ∈ placed.block.vtx) : Bounded tx := by
  cases k with
  | zero =>
    obtain rfl := Option.some.inj (top.symm.trans inv.path.genesis)
    obtain rfl : tx = genesisTx := List.mem_singleton.mp inVtx
    exact bounded_of_size (by decide +kernel)
  | succ k =>
    obtain ⟨now, -, checked⟩ := (inv.entered k placed top).received
    refine bounded_of_size ((getSerializeSize_le inVtx).trans (checked.size.trans ?_))
    decide

/-- Every record of the index, in a node that has been running for any time, leads to the bytes of its transaction. -/
theorem txIndex_onDisk (P : Primitives) (layout : Layout) (events : List Event) {hash : Uint256} {txindex : CTxIndex}
    (found : (run P events).pdb.open.readTxIndex hash = some txindex) :
    ∃ pos tx, txindex.pos = some pos ∧ P.hashTx tx = hash ∧ txindex.vSpent.length = tx.vout.length ∧
      CTransaction.readFromDisk layout (fileBytes (run P events).files.writes pos.nFile) pos = .ok tx := by
  obtain ⟨chain, inv⟩ := exists_inv P events
  rw [inv.readTxIndex, Option.map_eq_some_iff] at found
  obtain ⟨c, coin, rfl⟩ := found
  obtain ⟨hash, read⟩ := inv.readTx coin
  obtain ⟨-, placed, top, inVtx⟩ := standing_ledgerOf inv.valid _ c coin
  have bounded := inv.bounded top (List.mem_of_getElem? inVtx)
  exact ⟨_, c.tx, rfl, hash, indexed_length chain c, readTx_refines layout bounded read⟩

theorem txIndex_onDisk_busy :
    ∃ txindex pos tx, (run toy busyEvents).pdb.open.readTxIndex 1459892999 = some txindex ∧
      txindex.pos = some pos ∧ toy.hashTx tx = 1459892999 ∧ txindex.vSpent.length = tx.vout.length ∧
      CTransaction.readFromDisk toyLayout (fileBytes (run toy busyEvents).files.writes pos.nFile) pos = .ok tx := by
  have some : ((run toy busyEvents).pdb.open.readTxIndex 1459892999).isSome = true := by decide +kernel
  obtain ⟨txindex, found⟩ := Option.isSome_iff_exists.mp some
  obtain ⟨pos, tx, read⟩ := txIndex_onDisk toy toyLayout busyEvents found
  exact ⟨txindex, pos, tx, found, read⟩

end RitCoin.Proof
