import RitCoin.Model.TxMessage
import RitCoin.Proof.Serialize
import RitCoin.Proof.Taken

namespace RitCoin.Proof
open Lib Model Std
variable {pvMsg : Pointer} {hashPrev hash : Uint256} {accepted : List Uint256} {mempool : CTxMemPool}
  {tip : CBlockIndex} {pool' pool : OrphanPool} {P : Primitives} {C : Crypto} {fTestNet : Bool} {layout : Layout}
  {node : Node} {d : Delivery} {work work' : TxWork} {tx : CTransaction}

def Found (node : Node) (pooled : Prop) (hash : Uint256) : Prop :=
  match node.pdb.open.readTxIndex hash with
  | some txindex =>
    if txindex.pos = some ⟨1, 1, 1⟩ then pooled else (node.files.readTx txindex.pos).isSome
  | none => pooled

theorem Found.mono {pooled pooled' : Prop} (found : Found node pooled hash) (more : pooled → pooled') :
    Found node pooled' hash := by
  unfold Found at *
  split at found
  · split_ifs at found ⊢
    · exact more found
    · exact found
  · exact more found

theorem available_iff : Available node hash ↔ Found node (node.mempool.mapTx.contains hash = true) hash := by
  have noFail : failIf (ε := Failure) (node.pdb.open.readTxIndex hash = none ∧ (false || false) = true)
      (if false = true then .reject 0 [] else error "FetchInputs() : %s prev tx %s index entry not found") = .ok ⟨⟩ :=
    failIf_of_not (by simp)
  rw [Available, Found, CTransaction.fetchPrev, contains_eq_true, if_neg (by simp), noFail, ok_bind]
  cases node.pdb.open.readTxIndex hash with
  | none =>
    cases node.mempool.mapTx[hash]? with
    | none => simp
    | some txPrev => exact iff_of_true ⟨_, rfl⟩ ⟨_, rfl⟩
  | some txindex =>
    dsimp only
    split_ifs
    · cases node.mempool.mapTx[hash]? with
      | none => simp
      | some txPrev => exact iff_of_true ⟨_, rfl⟩ ⟨_, rfl⟩
    · cases node.files.readTx txindex.pos with
      | none => simp
      | some txPrev => exact iff_of_true ⟨_, rfl⟩ rfl

def Pooling (node : Node) (accepted : List Uint256) (hash : Uint256) : Prop :=
  node.mempool.mapTx.contains hash = true ∨ hash ∈ accepted

structure Working (d : Delivery) (work : TxWork) : Prop where
  chain : work.node = { d.node with mempool := work.node.mempool }
  heap : work.pool.heap = d.pool.heap
  map : work.pool.mapOrphanTransactions = d.pool.mapOrphanTransactions
  bucket : ∀ prev, work.pool.mapOrphanTransactionsByPrev.bucket prev = d.pool.mapOrphanTransactionsByPrev.bucket prev
  taken : ∃ txs, d.Taken txs work.node.mempool ∧ work.vWorkQueue = txs.map d.P.hashTx ∧
    ∀ hash ∈ work.vEraseQueue, hash ∈ work.vWorkQueue ∨
      ∃ orphan, d.Waiting orphan ∧ d.P.hashTx orphan = hash ∧ d.Refused txs orphan
  erase : ∀ hash ∈ work.vWorkQueue, hash ∈ work.vEraseQueue
  buckets : ∀ prev, work.pool.mapOrphanTransactionsByPrev.contains prev = true →
    d.pool.mapOrphanTransactionsByPrev.contains prev = true ∨ prev ∈ work.vWorkQueue

namespace Working
variable (working : Working d work)
include working

theorem available : Available work.node hash ↔ Found d.node (Pooling d.node work.vWorkQueue hash) hash := by
  obtain ⟨txs, taken, queue, -⟩ := working.taken
  have pooled : work.node.mempool.mapTx.contains hash = true ↔ Pooling d.node work.vWorkQueue hash := by
    simp only [Pooling, queue, contains_eq_true, taken.mapTx, exists_or, List.mem_map]
  rw [available_iff, working.chain, ← pooled]
  rfl

theorem load : work.pool.load layout pvMsg = d.pool.load layout pvMsg := by
  rw [OrphanPool.load, working.heap, OrphanPool.load]

theorem accept_eq : CTxMemPool.accept d.P d.C d.fTestNet work.node tx true = d.accept work.node.mempool tx := by
  rw [Delivery.accept, ← working.chain]

theorem length_le (listed : Listed d.P d.layout d.pool) :
    work.vWorkQueue.length ≤ d.pool.mapOrphanTransactions.size + 1 := by
  obtain ⟨txs, taken, queue, -⟩ := working.taken
  have subset : txs.map d.P.hashTx ⊆ d.P.hashTx d.tx :: d.pool.mapOrphanTransactions.keys := by
    intro hash member
    obtain ⟨tx, inside, rfl⟩ := List.mem_map.mp member
    rcases taken.received_or_waiting inside with rfl | ⟨hash, pvMsg, stored⟩
    · exact List.mem_cons_self
    · refine List.mem_cons_of_mem _ (ExtTreeMap.mem_keys.mpr (ExtTreeMap.contains_iff_mem.mp ?_))
      exact contains_eq_true.mpr ⟨pvMsg, listed.hashTx stored ▸ stored.1⟩
  have length := (List.subperm_of_subset taken.nodup subset).length_le
  rwa [← queue, List.length_cons, ExtTreeMap.length_keys] at length

theorem lookUp (queued : hashPrev ∈ work.vWorkQueue) : Working d (work.lookUp hashPrev) where
  chain := working.chain
  heap := working.heap
  map := working.map
  bucket prev := Buckets.bucket_touch.trans (working.bucket prev)
  taken := working.taken
  erase := working.erase
  buckets prev held := by
    change (work.pool.mapOrphanTransactionsByPrev.insert hashPrev _).contains prev = true at held
    rw [ExtTreeMap.contains_insert, Bool.or_eq_true, beq_iff_eq, Std.compare_eq_iff_eq] at held
    rcases held with rfl | held
    · exact .inr queued
    · exact working.buckets prev held

theorem accept (accept : d.accept work.node.mempool tx = .ok mempool) (waiting : d.Waiting tx)
    (parent : ∃ h ∈ work.vWorkQueue, h ∈ prevHashes tx) : Working d (work.accepted mempool (d.P.hashTx tx)) where
  chain := by rw [TxWork.accepted, working.chain]
  heap := working.heap
  map := working.map
  bucket := working.bucket
  taken := by
    obtain ⟨txs, taken, queue, dropped⟩ := working.taken
    obtain ⟨h, member, spent⟩ := parent
    rw [queue] at member
    obtain ⟨before, inside, rfl⟩ := List.mem_map.mp member
    refine ⟨txs ++ [tx], taken.next ⟨waiting, before, inside, spent⟩ accept, by simp [TxWork.accepted, queue], ?_⟩
    intro hash member
    rcases List.mem_append.mp member with old | new
    · refine (dropped hash old).imp (List.mem_append_left _) ?_
      rintro ⟨orphan, waiting', same, txs', before, failed, taken', subset, refused⟩
      exact ⟨orphan, waiting', same, txs', before, failed, taken',
        List.Subset.trans subset (List.subset_append_left ..), refused⟩
    · exact .inl (List.mem_append_right _ new)
  erase hash member := by
    rcases List.mem_append.mp member with old | new
    · exact List.mem_append_left _ (working.erase hash old)
    · exact List.mem_append_right _ new
  buckets prev held := (working.buckets prev held).imp_right (List.mem_append_left _)

theorem refuse {failed : AcceptFailure} (refused : d.accept work.node.mempool tx = .error failed)
    (rejects : Rejects failed.failure) (found : failed.fMissingInputs = false) (waiting : d.Waiting tx) :
    Working d { work with vEraseQueue := work.vEraseQueue ++ [d.P.hashTx tx] } where
  chain := working.chain
  heap := working.heap
  map := working.map
  bucket := working.bucket
  taken := by
    obtain ⟨txs, taken, queue, dropped⟩ := working.taken
    refine ⟨txs, taken, queue, fun hash member => ?_⟩
    rcases List.mem_append.mp member with old | new
    · exact dropped hash old
    · exact .inr ⟨tx, waiting, (List.mem_singleton.mp new).symm, txs, _, failed, taken, List.Subset.refl _, refused,
        rejects, found⟩
  erase hash member := List.mem_append_left _ (working.erase hash member)
  buckets := working.buckets

end Working

structure Growing (work work' : TxWork) : Prop where
  queue : work.vWorkQueue <+: work'.vWorkQueue
  erase : work.vEraseQueue ⊆ work'.vEraseQueue
  i : work'.i = work.i

theorem Growing.refl (work : TxWork) : Growing work work := ⟨List.prefix_rfl, List.Subset.refl _, rfl⟩

theorem Growing.trans {work'' : TxWork} (growing : Growing work work') (later : Growing work' work'') :
    Growing work work'' :=
  ⟨growing.queue.trans later.queue, List.Subset.trans growing.erase later.erase, later.i.trans growing.i⟩

/-- The orphan leaves with the others at the end, or it still lacks an input when only the given transactions have
been accepted. -/
def Tried (node : Node) (accepted : List Uint256) (work : TxWork) (hash : Uint256) (tx : CTransaction) : Prop :=
  hash ∈ work.vEraseQueue ∨ ∃ txin ∈ tx.vin, ¬ Found node (Pooling node accepted txin.prevout.hash) txin.prevout.hash

/-- A stored orphan with all its inputs makes an exception. -/
def Stuck (d : Delivery) (work : TxWork) : Prop :=
  ∃ tx failed, d.Waiting tx ∧ (∃ h ∈ work.vWorkQueue, h ∈ prevHashes tx) ∧
    d.accept work.node.mempool tx = .error failed ∧ ¬ Rejects failed.failure

theorem Found.pooling {accepted' : List Uint256} (found : Found node (Pooling node accepted hash) hash)
    (subset : accepted ⊆ accepted') : Found node (Pooling node accepted' hash) hash :=
  found.mono fun pooling => pooling.imp_right fun member => subset member

theorem Tried.growing (tried : Tried node accepted work hash tx) (growing : Growing work work') :
    Tried node accepted work' hash tx :=
  tried.imp_left fun member => growing.erase member

section Loops
variable {tip : CBlockIndex} (best : d.node.mapBlockIndex.deref d.node.pindexBest = .ok tip)
  (listed : Listed d.P d.layout d.pool)
variable {entry : Uint256 × Pointer}

include best listed

section
variable (working : Working d work) (stored : Stored d.layout d.pool entry.1 entry.2 tx)
  (subset : accepted ⊆ work.vWorkQueue)
include working stored subset

theorem offer_meets (parent : ∃ h ∈ work.vWorkQueue, h ∈ prevHashes tx) :
    Meets (fun failed => Working d failed.2 ∧ Stuck d failed.2)
      (fun work' => Working d work' ∧ Growing work work' ∧ Tried d.node accepted work' entry.1 tx)
      (work.offer d.P d.C d.fTestNet tx) := by
  have hashTx := listed.hashTx stored
  have waiting : d.Waiting tx := ⟨entry.1, entry.2, stored⟩
  have best' : work.node.mapBlockIndex.deref work.node.pindexBest = .ok tip := by rw [working.chain]; exact best
  rw [TxWork.offer]
  cases accept : CTxMemPool.accept d.P d.C d.fTestNet work.node tx true with
  | ok mempool =>
    rw [working.accept_eq] at accept
    refine .pure ⟨working.accept accept waiting parent, ⟨List.prefix_append .., List.subset_append_left .., rfl⟩,
      .inl ?_⟩
    rw [hashTx]
    exact List.mem_append_right _ (List.mem_singleton_self _)
  | error failed =>
    have turned := accept_fails best' failed accept
    rw [working.accept_eq] at accept
    obtain ⟨failure, fMissingInputs⟩ := failed
    cases failure with
    | reject nDoS messages =>
      cases fMissingInputs with
      | false =>
        refine .pure ⟨working.refuse accept (by simp) rfl waiting,
          ⟨List.prefix_rfl, List.subset_append_left .., rfl⟩, .inl ?_⟩
        rw [hashTx]
        exact List.mem_append_right _ (List.mem_singleton_self _)
      | true =>
        refine .pure ⟨working, .refl work, .inr ?_⟩
        have lacks : Lacks work.node tx := turned.elim (fun both => both.2 rfl) fun both =>
          absurd (rejects_reject ..) both.1
        obtain ⟨txin, member, missing⟩ := lacks
        rw [working.available] at missing
        exact ⟨txin, member, fun found => missing (found.pooling subset)⟩
    | throw what => exact .error ⟨working, tx, _, waiting, parent, accept, nofun⟩
    | stop fault => exact .error ⟨working, tx, _, waiting, parent, accept, nofun⟩

theorem tryOrphan_meets (parent : ∃ h ∈ work.vWorkQueue, h ∈ prevHashes tx) :
    Meets (fun failed => Working d failed.2 ∧ Stuck d failed.2)
      (fun work' => Working d work' ∧ Growing work work' ∧ Tried d.node accepted work' entry.1 tx)
      (work.tryOrphan d.P d.C d.fTestNet d.layout entry) := by
  rw [TxWork.tryOrphan, working.load, stored.2]
  exact offer_meets best listed working stored subset parent

end

theorem bucketLoop_meets (working : Working d work) (next : work.vWorkQueue[work.i]? = some hashPrev) :
    Meets (fun failed => Working d failed.2 ∧ Stuck d failed.2)
      (fun work' => Working d work' ∧ Growing work work' ∧
        ∀ hash pvMsg tx, Stored d.layout d.pool hash pvMsg tx → hashPrev ∈ prevHashes tx →
          Tried d.node (work.vWorkQueue.take (work.i + 1)) work' hash tx)
      ((work.pool.mapOrphanTransactionsByPrev.bucket hashPrev).toList.foldlM
        (TxWork.tryOrphan d.P d.C d.fTestNet d.layout) (work.lookUp hashPrev)) := by
  rw [working.bucket]
  refine (Meets.foldlM (fun done work' => Working d work' ∧ Growing work work' ∧
    ∀ entry ∈ done, ∀ tx, Stored d.layout d.pool entry.1 entry.2 tx →
      Tried d.node (work.vWorkQueue.take (work.i + 1)) work' entry.1 tx)
    ⟨working.lookUp (List.mem_of_getElem? next), ⟨List.prefix_rfl, List.Subset.refl _, rfl⟩, nofun⟩
    fun done entry rest work' split reached => ?_).mono fun work' reached => ?_
  · obtain ⟨working', growing, tried⟩ := reached
    have inBucket : entry ∈ (d.pool.mapOrphanTransactionsByPrev.bucket hashPrev).toList := by rw [split]; simp
    obtain ⟨tx, stored, member⟩ := (listed.listed ..).mp (ExtTreeMap.mem_toList_iff_getElem?_eq_some.mp inBucket)
    have subset : work.vWorkQueue.take (work.i + 1) ⊆ work'.vWorkQueue := fun hash member =>
      growing.queue.subset (List.mem_of_mem_take member)
    have parent := growing.queue.subset (List.mem_of_getElem? next)
    refine (tryOrphan_meets best listed working' stored subset ⟨hashPrev, parent, member⟩).mono ?_
    rintro work'' ⟨working'', later, now⟩
    refine ⟨working'', growing.trans later, fun entry' member' tx' stored' => ?_⟩
    rcases List.mem_append.mp member' with old | new
    · exact (tried entry' old tx' stored').growing later
    · obtain rfl := List.mem_singleton.mp new
      obtain rfl : tx = tx' := Except.ok.inj (stored.2.symm.trans stored'.2)
      exact now
  · obtain ⟨working', growing, tried⟩ := reached
    refine ⟨working', growing, fun hash pvMsg tx stored member => tried (hash, pvMsg) ?_ tx stored⟩
    exact ExtTreeMap.mem_toList_iff_getElem?_eq_some.mpr ((listed.listed ..).mpr ⟨tx, stored, member⟩)

def Processed (d : Delivery) (work : TxWork) : Prop :=
  ∀ hash pvMsg tx, Stored d.layout d.pool hash pvMsg tx →
    (∃ h ∈ work.vWorkQueue.take work.i, h ∈ prevHashes tx) → Tried d.node (work.vWorkQueue.take work.i) work hash tx

omit best listed in
theorem Processed.next (processed : Processed d work) (next : work.vWorkQueue[work.i]? = some hashPrev)
    (growing : Growing work work')
    (tried : ∀ hash pvMsg tx, Stored d.layout d.pool hash pvMsg tx → hashPrev ∈ prevHashes tx →
      Tried d.node (work.vWorkQueue.take (work.i + 1)) work' hash tx) :
    Processed d { work' with i := work'.i + 1 } := by
  have inside : work.i < work.vWorkQueue.length := (List.getElem?_eq_some_iff.mp next).1
  have front : work'.vWorkQueue.take (work'.i + 1) = work.vWorkQueue.take work.i ++ [hashPrev] := by
    obtain ⟨rest, queue⟩ := growing.queue
    rw [growing.i, ← queue, List.take_append_of_le_length (by omega), List.take_add_one, next]
    rfl
  have front' : work.vWorkQueue.take (work.i + 1) = work.vWorkQueue.take work.i ++ [hashPrev] := by
    rw [List.take_add_one, next]
    rfl
  intro hash pvMsg tx stored parent
  change ∃ h ∈ work'.vWorkQueue.take (work'.i + 1), _ at parent
  change Tried d.node (work'.vWorkQueue.take (work'.i + 1)) work' hash tx
  rw [front] at parent ⊢
  by_cases spends : hashPrev ∈ prevHashes tx
  · rw [← front']
    exact tried hash pvMsg tx stored spends
  · obtain ⟨h, member, spent⟩ := parent
    have old : h ∈ work.vWorkQueue.take work.i := by
      rcases List.mem_append.mp member with old | new
      · exact old
      · rw [List.mem_singleton.mp new] at spent
        exact absurd spent spends
    refine ((processed hash pvMsg tx stored ⟨h, old, spent⟩).growing growing).imp_right ?_
    rintro ⟨txin, input, missing⟩
    refine ⟨txin, input, fun found => missing (found.mono ?_)⟩
    rintro (held | member)
    · exact .inl held
    · rcases List.mem_append.mp member with old | new
      · exact .inr old
      · rw [← List.mem_singleton.mp new] at spends
        exact absurd (List.mem_map_of_mem input) spends

theorem processQueue_meets {fuel : ℕ} (working : Working d work)
    (processed : Processed d work) (inside : work.i ≤ work.vWorkQueue.length)
    (enough : d.pool.mapOrphanTransactions.size + 2 ≤ work.i + fuel) :
    Meets (fun failed => Working d failed.2 ∧ Stuck d failed.2)
      (fun work' => Working d work' ∧ Processed d work' ∧
        work'.i = work'.vWorkQueue.length)
      (work.processQueue d.P d.C d.fTestNet d.layout fuel) := by
  induction fuel generalizing work with
  | zero =>
    have := working.length_le listed
    omega
  | succ fuel ih =>
    rw [TxWork.processQueue]
    cases next : work.vWorkQueue[work.i]? with
    | none => exact .pure ⟨working, processed, inside.antisymm (List.getElem?_eq_none_iff.mp next)⟩
    | some hashPrev =>
      refine (bucketLoop_meets best listed working next).bind ?_
      rintro work' ⟨working', growing, tried⟩
      have later : work.i < work.vWorkQueue.length := (List.getElem?_eq_some_iff.mp next).1
      have longer := growing.queue.length_le
      have same := growing.i
      refine ih ?_ (processed.next next growing tried) ?_ ?_
      · exact ⟨working'.chain, working'.heap, working'.map, working'.bucket, working'.taken, working'.erase,
          working'.buckets⟩
      · change work'.i + 1 ≤ work'.vWorkQueue.length
        omega
      · change _ ≤ work'.i + 1 + fuel
        omega

end Loops

theorem Listed.eraseOrphans (listed : Listed P layout pool) (hashes : List Uint256) :
    ∃ pool', eraseOrphans layout hashes pool = .ok pool' ∧ Listed P layout pool' ∧
      (pool.mapOrphanTransactionsByPrev.Full → pool'.mapOrphanTransactionsByPrev.Full) ∧
      ∀ hash pvMsg tx, Stored layout pool' hash pvMsg tx ↔ Stored layout pool hash pvMsg tx ∧ hash ∉ hashes := by
  induction hashes generalizing pool with
  | nil => exact ⟨pool, rfl, listed, id, by simp⟩
  | cons hash hashes ih =>
    obtain ⟨next, erase, effect⟩ := listed.eraseOrphanTx hash
    have step : Listed P layout next ∧
        (pool.mapOrphanTransactionsByPrev.Full → next.mapOrphanTransactionsByPrev.Full) ∧
        ∀ hash' pvMsg tx, Stored layout next hash' pvMsg tx ↔ Stored layout pool hash' pvMsg tx ∧ hash ≠ hash' := by
      rcases effect with ⟨rfl, absent⟩ | ⟨pvMsg, tx, erased⟩
      · refine ⟨listed, id, fun hash' pvMsg tx => ⟨fun stored => ⟨stored, ?_⟩, And.left⟩⟩
        rintro rfl
        rw [Stored, absent] at stored
        cases stored.1
      · exact ⟨erased.listed listed, erased.full, fun hash' pvMsg' tx' => erased.stored listed⟩
    obtain ⟨pool', rest, listed', full, stored⟩ := ih step.1
    refine ⟨pool', ?_, listed', fun start => full (step.2.1 start), fun hash' pvMsg tx => ?_⟩
    · rw [Model.eraseOrphans, List.foldlM_cons, erase]
      exact rest
    · rw [stored, step.2.2, List.mem_cons, not_or, and_assoc, ne_comm]

theorem Working.stored (working : Working d work) :
    Stored layout work.pool hash pvMsg tx ↔ Stored layout d.pool hash pvMsg tx := by
  rw [Stored, Stored, working.map, working.load]

theorem Working.listed (working : Working d work) (listed : Listed P layout d.pool) :
    Listed P layout work.pool where
  live hash pvMsg found := by
    rw [working.map] at found
    rw [working.load]
    exact listed.live hash pvMsg found
  listed prev hash pvMsg := by
    simp only [working.bucket, listed.listed, working.stored]

/-- The orphans that spend from the transactions accepted during the call lack an input, and the accepted ones are
no orphans any more. -/
structure Settled (layout : Layout) (outcome : TxOutcome) : Prop where
  lacking : ∀ hash pvMsg tx, Stored layout outcome.work.pool hash pvMsg tx →
    (∃ h ∈ outcome.work.vWorkQueue, h ∈ prevHashes tx) → Lacks outcome.work.node tx
  removed : ∀ hash ∈ outcome.work.vWorkQueue, outcome.work.pool.mapOrphanTransactions[hash]? = none

section
variable (working : Working d work) (processed : Processed d work) (ended : work.i = work.vWorkQueue.length)
include working processed ended

theorem Processed.lacks (stored : Stored d.layout d.pool hash pvMsg tx)
    (parent : ∃ h ∈ work.vWorkQueue, h ∈ prevHashes tx) : hash ∈ work.vEraseQueue ∨ Lacks work.node tx := by
  have all : work.vWorkQueue.take work.i = work.vWorkQueue := by rw [ended, List.take_length]
  have tried := processed hash pvMsg tx stored (by rw [all]; exact parent)
  rw [all] at tried
  refine tried.imp_right ?_
  rintro ⟨txin, member, missing⟩
  exact ⟨txin, member, fun available => missing (working.available.mp available)⟩

theorem Processed.settled (listed : Listed P d.layout pool')
    (stored : ∀ hash pvMsg tx, Stored d.layout pool' hash pvMsg tx ↔ Stored d.layout work.pool hash pvMsg tx ∧
      hash ∉ work.vEraseQueue) : Settled d.layout ⟨none, { work with pool := pool' }⟩ where
  lacking hash pvMsg tx left parent := by
    obtain ⟨before, kept⟩ := (stored hash pvMsg tx).mp left
    exact (processed.lacks working ended (working.stored.mp before) parent).resolve_left kept
  removed hash member := by
    by_contra found
    obtain ⟨pvMsg, found⟩ := Option.ne_none_iff_exists'.mp found
    obtain ⟨tx, load, -⟩ := listed.live hash pvMsg found
    exact ((stored hash pvMsg tx).mp ⟨found, load⟩).2 (working.erase hash member)

end

theorem Processed.complete (listed : Listed d.P d.layout d.pool) (working : Working d work)
    (processed : Processed d work) (ended : work.i = work.vWorkQueue.length) :
    ∃ txs, d.Complete txs work.node.mempool := by
  obtain ⟨txs, taken, queue, dropped⟩ := working.taken
  refine ⟨txs, taken, fun orphan follows => ?_⟩
  obtain ⟨⟨hash, pvMsg, stored⟩, parent, inside, spent⟩ := follows
  have hashTx := listed.hashTx stored
  rw [← queue, ← working.chain, ← or_assoc]
  refine (processed.lacks working ended stored ⟨_, queue ▸ List.mem_map_of_mem inside, spent⟩).imp_left fun erased => ?_
  rw [hashTx]
  refine (dropped hash erased).imp_right ?_
  rintro ⟨orphan', waiting, same, refused⟩
  obtain rfl := waiting.unique listed ⟨hash, pvMsg, stored⟩ (same.trans hashTx.symm)
  exact refused

theorem Admitted.exists_tip (admitted : Admitted P C fTestNet node tx true) :
    ∃ tip, node.mapBlockIndex.deref node.pindexBest = .ok tip := by
  obtain ⟨inputs, -, connect⟩ := admitted.inputs rfl
  simp only [CTransaction.connectLoose, bind_eq_ok] at connect
  obtain ⟨_, _, _, _, _, _, _, _, _, _, tip, best, -⟩ := connect
  exact ⟨tip, best⟩

theorem working_accepted (accept : d.accept d.node.mempool d.tx = .ok mempool) :
    Working d (TxWork.accepted ⟨d.node, d.pool, [], [], 0⟩ mempool (d.P.hashTx d.tx)) where
  chain := rfl
  heap := rfl
  map := rfl
  bucket _ := rfl
  taken := ⟨[d.tx], .first accept, rfl, fun _ member => .inl member⟩
  erase _ member := member
  buckets _ held := .inl held

inductive Ended (d : Delivery) : TxOutcome → Prop
  | thrown (failure : Failure) (work : TxWork) : Working d work → Stuck d work → Ended d ⟨some failure, work⟩
  | erased (work : TxWork) (pool' : OrphanPool) : Working d work → Processed d work →
      work.i = work.vWorkQueue.length → Listed d.P d.layout pool' →
      (work.pool.mapOrphanTransactionsByPrev.Full → pool'.mapOrphanTransactionsByPrev.Full) →
      (∀ hash pvMsg tx, Stored d.layout pool' hash pvMsg tx ↔
        Stored d.layout work.pool hash pvMsg tx ∧ hash ∉ work.vEraseQueue) →
      Ended d ⟨none, { work with pool := pool' }⟩

theorem processAccepted_ended (best : d.node.mapBlockIndex.deref d.node.pindexBest = .ok tip)
    (listed : Listed d.P d.layout d.pool) (working : Working d work) (start : work.i = 0) :
    Ended d (processAccepted d.P d.C d.fTestNet d.layout work) := by
  have untouched : Processed d work := by
    rintro _ _ _ _ ⟨_, member, _⟩
    rw [start] at member
    cases member
  have enough : d.pool.mapOrphanTransactions.size + 2 ≤ work.i + (work.pool.mapOrphanTransactions.size + 2) := by
    rw [working.map]
    omega
  have loop := processQueue_meets best listed working untouched (start ▸ Nat.zero_le _) enough
  rw [processAccepted]
  cases run : work.processQueue d.P d.C d.fTestNet d.layout (work.pool.mapOrphanTransactions.size + 2) with
  | error failed =>
    obtain ⟨working', stuck⟩ := loop.fails failed run
    exact .thrown failed.1 failed.2 working' stuck
  | ok work' =>
    obtain ⟨working', processed, ended⟩ := loop.ok work' run
    obtain ⟨pool', erase, listed', full, stored⟩ := (working'.listed listed).eraseOrphans work'.vEraseQueue
    dsimp only
    rw [erase]
    exact .erased work' pool' working' processed ended listed' full stored

theorem Listed.storeOrphan (listed : Listed P layout pool) {address : Pointer} {getRandHash : ℕ → Uint256}
    {vMsg : CDataStream} (store : storeOrphan P layout address getRandHash vMsg pool = .ok pool') :
    Listed P layout pool' ∧
      (pool.mapOrphanTransactionsByPrev.Full → pool'.mapOrphanTransactionsByPrev.Full) := by
  obtain ⟨⟨new, added⟩, add, rest⟩ := bind_eq_ok.mp store
  have first : Listed P layout added ∧
      (pool.mapOrphanTransactionsByPrev.Full → added.mapOrphanTransactionsByPrev.Full) := by
    rcases addOrphanTx_cases add with rfl | ⟨tx, pvMsg, added⟩
    · exact ⟨listed, id⟩
    · exact ⟨added.listed listed, added.full⟩
  obtain ⟨nEvicted, after, limit, listed', -, full⟩ := first.1.limitLoop 0 le_rfl
  obtain ⟨⟨nEvicted', after'⟩, limit', same⟩ := bind_eq_ok.mp rest
  rw [OrphanPool.limitOrphanTxSize, limit] at limit'
  cases limit'
  cases same
  exact ⟨listed', fun start => full (first.2 start)⟩

theorem Ended.listed {outcome : TxOutcome} (ended : Ended d outcome) (listed : Listed d.P d.layout d.pool) :
    Listed d.P d.layout outcome.work.pool := by
  cases ended with
  | thrown failure work working => exact working.listed listed
  | erased work pool' working processed ended listed' => exact listed'

theorem processTx_cases (P : Primitives) (C : Crypto) (fTestNet : Bool) (layout : Layout) (address : Pointer)
    (getRandHash : ℕ → Uint256) (node : Node) (pool : OrphanPool) (vRecv : CDataStream) :
    (processTx P C fTestNet layout address getRandHash node pool vRecv).work = ⟨node, pool, [], [], 0⟩ ∨
    (∃ pool', storeOrphan P layout address getRandHash vRecv pool = .ok pool' ∧
      (processTx P C fTestNet layout address getRandHash node pool vRecv).work = ⟨node, pool', [], [], 0⟩) ∨
    ∃ tx, (∃ mempool, CTxMemPool.accept P C fTestNet node tx true = .ok mempool) ∧ parseTx layout vRecv = .ok tx ∧
      (Listed P layout pool → Ended ⟨P, C, fTestNet, layout, node, pool, tx⟩
        (processTx P C fTestNet layout address getRandHash node pool vRecv)) := by
  rw [processTx]
  cases parse : parseTx layout vRecv with
  | error failure => exact .inl rfl
  | ok tx =>
    dsimp only
    cases accept : CTxMemPool.accept P C fTestNet node tx true with
    | ok mempool =>
      refine .inr (.inr ⟨tx, ⟨mempool, accept⟩, rfl, fun listed => ?_⟩)
      obtain ⟨tip, best⟩ := (accept_eq_ok.mp accept).1.exists_tip
      exact processAccepted_ended (d := ⟨P, C, fTestNet, layout, node, pool, tx⟩) best listed
        (working_accepted accept) rfl
    | error failed =>
      obtain ⟨failure, fMissingInputs⟩ := failed
      cases failure with
      | throw what => exact .inl rfl
      | stop fault => exact .inl rfl
      | reject nDoS messages =>
        cases fMissingInputs with
        | false => exact .inl rfl
        | true =>
          dsimp only
          rw [if_pos rfl]
          cases store : storeOrphan P layout address getRandHash vRecv pool with
          | error failure => exact .inl rfl
          | ok pool' => exact .inr (.inl ⟨pool', rfl, rfl⟩)

theorem Listed.processTx (listed : Listed P layout pool) (C : Crypto) (fTestNet : Bool) (address : Pointer)
    (getRandHash : ℕ → Uint256) (node : Node) (vRecv : CDataStream) :
    Listed P layout (processTx P C fTestNet layout address getRandHash node pool vRecv).work.pool := by
  rcases processTx_cases P C fTestNet layout address getRandHash node pool vRecv with
    same | ⟨pool', store, same⟩ | ⟨tx, -, -, ended⟩
  · rwa [same]
  · rw [same]
    exact (listed.storeOrphan store).1
  · exact (ended listed).listed listed

def spending (values : List Int64) : CTransaction where
  nVersion := 1
  nTime := 1459893001
  vin := [⟨⟨1459892999, 0⟩, [1, 1], 0xffffffff⟩]
  vout := values.map (⟨·, payToKey⟩)
  nLockTime := 0

theorem waiting_eq (hash : Uint256) (pvMsg : Pointer) {orphan : CTransaction}
    (only : d.pool.mapOrphanTransactions.toList = [(hash, pvMsg)]) (load : d.pool.load d.layout pvMsg = .ok tx)
    (waiting : d.Waiting orphan) : orphan = tx := by
  obtain ⟨hash', pvMsg', found, load'⟩ := waiting
  have member := ExtTreeMap.mem_toList_iff_getElem?_eq_some.mpr found
  rw [only, List.mem_singleton, Prod.mk.injEq] at member
  rw [member.2, load] at load'
  exact (Except.ok.inj load').symm

end RitCoin.Proof
