import RitCoin.Model.Orphan
import RitCoin.Proof.Runs

namespace RitCoin.Proof
open Lib Model Std
variable {hash' hash prev : Uint256} {pvMsg' pvMsg : Pointer} {tx' tx : CTransaction} {P : Primitives}
  {layout : Layout} {pool pool' : OrphanPool} {vMsg : CDataStream}

def prevHashes (tx : CTransaction) : List Uint256 := tx.vin.map fun txin => txin.prevout.hash

def Stored (layout : Layout) (pool : OrphanPool) (hash : Uint256) (pvMsg : Pointer) (tx : CTransaction) : Prop :=
  pool.mapOrphanTransactions[hash]? = some pvMsg ∧ pool.load layout pvMsg = .ok tx

structure Listed (P : Primitives) (layout : Layout) (pool : OrphanPool) : Prop where
  live : ∀ hash pvMsg, pool.mapOrphanTransactions[hash]? = some pvMsg →
    ∃ tx, pool.load layout pvMsg = .ok tx ∧ P.hashTx tx = hash
  listed : ∀ prev hash pvMsg, (pool.mapOrphanTransactionsByPrev.bucket prev)[hash]? = some pvMsg ↔
    ∃ tx, Stored layout pool hash pvMsg tx ∧ prev ∈ prevHashes tx

theorem Listed.hashTx (listed : Listed P layout pool) (stored : Stored layout pool hash pvMsg tx) :
    P.hashTx tx = hash := by
  obtain ⟨tx', load, same⟩ := listed.live hash pvMsg stored.1
  rw [stored.2] at load
  cases load
  exact same

theorem Listed.unique (listed : Listed P layout pool) (stored : pool.mapOrphanTransactions[hash]? = some pvMsg)
    (stored' : pool.mapOrphanTransactions[hash']? = some pvMsg) : hash = hash' := by
  obtain ⟨tx, load, same⟩ := listed.live hash pvMsg stored
  rw [← same]
  exact listed.hashTx ⟨stored', load⟩

theorem load_eq_ok : pool.load layout pvMsg = .ok tx ↔ ∃ vMsg, pool.heap[pvMsg]? = some vMsg ∧
    parseTx layout vMsg = .ok tx := by
  rw [OrphanPool.load]
  cases pool.heap[pvMsg]? <;> simp

theorem le_foldl_max {n : ℕ} (ns : List ℕ) (start : ℕ) (le : n ∈ ns ∨ n ≤ start) : n ≤ ns.foldl max start := by
  induction ns generalizing start with
  | nil => exact le.resolve_left List.not_mem_nil
  | cons m ns ih =>
    refine ih _ ?_
    rcases le with member | le
    · rcases List.mem_cons.mp member with rfl | member
      · exact .inr (le_max_right ..)
      · exact .inl member
    · exact .inr (le.trans (le_max_left ..))

theorem heap_fresh (heap : Heap) (address : Pointer) : heap[heap.fresh address]? = none := by
  rw [Heap.fresh]
  split_ifs with used
  · by_contra found
    obtain ⟨vMsg, found⟩ := Option.ne_none_iff_exists'.mp found
    have member : heap.keys.foldl max 0 + 1 ∈ heap.keys :=
      ExtTreeMap.mem_keys.mpr (ExtTreeMap.mem_iff_isSome_getElem?.mpr (by rw [found]; rfl))
    have := le_foldl_max heap.keys 0 (.inl member)
    omega
  · exact contains_eq_false.mp (Bool.eq_false_iff.mpr used)

structure Added (P : Primitives) (layout : Layout) (pool : OrphanPool) (vMsg : CDataStream) (tx : CTransaction)
    (pvMsg : Pointer) (pool' : OrphanPool) : Prop where
  parse : parseTx layout vMsg = .ok tx
  new : pool.mapOrphanTransactions[P.hashTx tx]? = none
  unused : pool.heap[pvMsg]? = none
  heap : pool'.heap = pool.heap.insert pvMsg vMsg
  map : pool'.mapOrphanTransactions = pool.mapOrphanTransactions.insert (P.hashTx tx) pvMsg
  byPrev : pool'.mapOrphanTransactionsByPrev = (prevHashes tx).foldl
    (fun byPrev prev => byPrev.put prev (P.hashTx tx) pvMsg) pool.mapOrphanTransactionsByPrev

theorem addOrphanTx_cases {address : Pointer} {result : Bool}
    (add : pool.addOrphanTx P layout address vMsg = .ok (result, pool')) :
    pool' = pool ∨ ∃ tx pvMsg, Added P layout pool vMsg tx pvMsg pool' := by
  obtain ⟨tx, parse, rest⟩ := bind_eq_ok.mp add
  dsimp only at rest
  by_cases known : pool.mapOrphanTransactions.contains (P.hashTx tx) = true
  · rw [if_pos known] at rest
    cases rest
    exact .inl rfl
  by_cases large : vMsg.size > 5000
  · rw [if_neg known, if_pos large] at rest
    cases rest
    exact .inl rfl
  · rw [if_neg known, if_neg large] at rest
    cases rest
    exact .inr ⟨tx, _, parse, contains_eq_false.mp (Bool.eq_false_iff.mpr known), heap_fresh .., rfl, rfl, rfl⟩

namespace Added
variable (added : Added P layout pool vMsg tx pvMsg pool')
include added

theorem load :
    pool'.load layout pvMsg' = .ok tx' ↔ pvMsg' = pvMsg ∧ tx' = tx ∨ pool.load layout pvMsg' = .ok tx' := by
  rw [load_eq_ok, load_eq_ok, added.heap, ExtTreeMap.getElem?_insert]
  by_cases same : pvMsg = pvMsg'
  · subst same
    simp [added.unused, added.parse, eq_comm]
  · simp [same, Ne.symm same]

theorem stored (listed : Listed P layout pool) :
    Stored layout pool' hash' pvMsg' tx' ↔
      hash' = P.hashTx tx ∧ pvMsg' = pvMsg ∧ tx' = tx ∨ Stored layout pool hash' pvMsg' tx' := by
  rw [Stored, Stored, added.load, added.map, ExtTreeMap.getElem?_insert]
  have unused : pool.load layout pvMsg ≠ .ok tx' := by
    intro load
    obtain ⟨vMsg', found, -⟩ := load_eq_ok.mp load
    rw [added.unused] at found
    cases found
  have new := added.new
  by_cases same : P.hashTx tx = hash'
  · subst same
    simp only [ReflCmp.compare_self, ↓reduceIte, Option.some.injEq, new]
    constructor
    · rintro ⟨rfl, ⟨-, rfl⟩ | load⟩
      · exact .inl ⟨trivial, rfl, rfl⟩
      · exact absurd load unused
    · rintro (⟨-, rfl, rfl⟩ | ⟨⟨⟩, -⟩)
      exact ⟨rfl, .inl ⟨rfl, rfl⟩⟩
  · rw [if_neg (by rwa [Std.compare_eq_iff_eq])]
    constructor
    · rintro ⟨found, ⟨rfl, rfl⟩ | load⟩
      · obtain ⟨tx', load, -⟩ := listed.live _ _ found
        obtain ⟨vMsg', found', -⟩ := load_eq_ok.mp load
        rw [added.unused] at found'
        cases found'
      · exact .inr ⟨found, load⟩
    · rintro (⟨rfl, -⟩ | ⟨found, load⟩)
      · exact absurd rfl same
      · exact ⟨found, .inr load⟩

theorem listed (listed : Listed P layout pool) : Listed P layout pool' where
  live hash' pvMsg' found := by
    rw [added.map, ExtTreeMap.getElem?_insert] at found
    split_ifs at found with same
    · cases found
      exact ⟨tx, added.load.mpr (.inl ⟨rfl, rfl⟩), Std.compare_eq_iff_eq.mp same⟩
    · obtain ⟨tx', load, hash⟩ := listed.live hash' pvMsg' found
      exact ⟨tx', added.load.mpr (.inr load), hash⟩
  listed prev hash' pvMsg' := by
    rw [added.byPrev, Buckets.getElem?_foldl_put, Option.or_eq_some_iff, listed.listed]
    simp only [added.stored listed]
    constructor
    · rintro (⟨tx', stored, member⟩ | ⟨-, new⟩)
      · exact ⟨tx', .inr stored, member⟩
      · split_ifs at new with listed
        cases new
        exact ⟨tx, .inl ⟨listed.2.symm, rfl, rfl⟩, listed.1⟩
    · rintro ⟨tx', ⟨rfl, rfl, rfl⟩ | stored, member⟩
      · refine .inr ⟨?_, if_pos ⟨member, rfl⟩⟩
        by_contra found
        obtain ⟨other, found⟩ := Option.ne_none_iff_exists'.mp found
        obtain ⟨_, stored, -⟩ := (listed.listed ..).mp found
        rw [Stored, added.new] at stored
        cases stored.1
      · exact .inl ⟨tx', stored, member⟩

theorem full (full : pool.mapOrphanTransactionsByPrev.Full) : pool'.mapOrphanTransactionsByPrev.Full := by
  rw [added.byPrev]
  exact List.foldlRecOn _ _ full fun _ full _ _ => full.put

end Added

structure Erased (layout : Layout) (pool : OrphanPool) (hash : Uint256) (pvMsg : Pointer) (tx : CTransaction)
    (pool' : OrphanPool) : Prop where
  found : Stored layout pool hash pvMsg tx
  heap : pool'.heap = pool.heap.erase pvMsg
  map : pool'.mapOrphanTransactions = pool.mapOrphanTransactions.erase hash
  byPrev : pool'.mapOrphanTransactionsByPrev = (prevHashes tx).foldl
    (fun byPrev prev => byPrev.drop prev hash) pool.mapOrphanTransactionsByPrev

theorem Listed.eraseOrphanTx (listed : Listed P layout pool) (hash : Uint256) :
    ∃ pool', pool.eraseOrphanTx layout hash = .ok pool' ∧
      (pool' = pool ∧ pool.mapOrphanTransactions[hash]? = none ∨
        ∃ pvMsg tx, Erased layout pool hash pvMsg tx pool') := by
  rw [OrphanPool.eraseOrphanTx]
  cases found : pool.mapOrphanTransactions[hash]? with
  | none => exact ⟨pool, rfl, .inl ⟨rfl, rfl⟩⟩
  | some pvMsg =>
    obtain ⟨tx, load, -⟩ := listed.live hash pvMsg found
    dsimp only
    rw [load]
    exact ⟨_, rfl, .inr ⟨pvMsg, tx, ⟨found, load⟩, rfl, rfl, rfl⟩⟩

namespace Erased
variable (erased : Erased layout pool hash pvMsg tx pool')
include erased

theorem stored (listed : Listed P layout pool) :
    Stored layout pool' hash' pvMsg' tx' ↔ Stored layout pool hash' pvMsg' tx' ∧ hash ≠ hash' := by
  rw [Stored, Stored, load_eq_ok, load_eq_ok, erased.map, erased.heap, ExtTreeMap.getElem?_erase,
    ExtTreeMap.getElem?_erase]
  by_cases same : hash = hash'
  · simp [same]
  · rw [if_neg (by rwa [Std.compare_eq_iff_eq])]
    constructor
    · rintro ⟨found, vMsg', live, parse⟩
      split_ifs at live
      exact ⟨⟨found, vMsg', live, parse⟩, same⟩
    · rintro ⟨⟨found, vMsg', live, parse⟩, -⟩
      refine ⟨found, vMsg', ?_, parse⟩
      rwa [if_neg]
      rw [Std.compare_eq_iff_eq]
      rintro rfl
      exact same (listed.unique erased.found.1 found)

theorem listed (listed : Listed P layout pool) : Listed P layout pool' where
  live hash' pvMsg' found := by
    have kept : pool.mapOrphanTransactions[hash']? = some pvMsg' ∧ hash ≠ hash' := by
      rw [erased.map, ExtTreeMap.getElem?_erase] at found
      split_ifs at found with same
      exact ⟨found, fun eq => same (Std.compare_eq_iff_eq.mpr eq)⟩
    obtain ⟨tx', load, hash⟩ := listed.live hash' pvMsg' kept.1
    exact ⟨tx', ((erased.stored listed).mpr ⟨⟨kept.1, load⟩, kept.2⟩).2, hash⟩
  listed prev hash' pvMsg' := by
    rw [erased.byPrev, Buckets.getElem?_foldl_drop_eq_some, listed.listed]
    simp only [erased.stored listed]
    constructor
    · rintro ⟨⟨tx', stored, member⟩, kept⟩
      refine ⟨tx', ⟨stored, ?_⟩, member⟩
      rintro rfl
      have same := erased.found.2
      obtain rfl : pvMsg = pvMsg' := Option.some.inj (erased.found.1.symm.trans stored.1)
      rw [stored.2] at same
      cases same
      exact kept ⟨member, rfl⟩
    · rintro ⟨tx', ⟨stored, other⟩, member⟩
      exact ⟨⟨tx', stored, member⟩, fun both => other both.2⟩

theorem full (full : pool.mapOrphanTransactionsByPrev.Full) : pool'.mapOrphanTransactionsByPrev.Full := by
  rw [erased.byPrev]
  exact List.foldlRecOn _ _ full fun _ full _ _ => full.drop

theorem size : pool'.mapOrphanTransactions.size + 1 = pool.mapOrphanTransactions.size := by
  have member : hash ∈ pool.mapOrphanTransactions := by
    rw [ExtTreeMap.mem_iff_isSome_getElem?, erased.found.1]
    rfl
  have positive : pool.mapOrphanTransactions.size ≠ 0 := by
    intro zero
    rw [ExtTreeMap.eq_empty_iff_size_eq_zero.mpr zero] at member
    exact ExtTreeMap.not_mem_empty member
  rw [erased.map, ExtTreeMap.size_erase, if_pos (ExtTreeMap.contains_iff_mem.mpr member)]
  omega

end Erased

theorem exists_pick (randomhash : Uint256) (positive : 0 < pool.mapOrphanTransactions.size) :
    ∃ hash pvMsg, pool.pick randomhash = some hash ∧ pool.mapOrphanTransactions[hash]? = some pvMsg := by
  have held : ∀ hash ∈ pool.mapOrphanTransactions.keys, ∃ pvMsg, pool.mapOrphanTransactions[hash]? = some pvMsg :=
    fun hash member => contains_eq_true.mp (ExtTreeMap.contains_iff_mem.mpr (ExtTreeMap.mem_keys.mp member))
  rw [OrphanPool.pick]
  cases later : pool.mapOrphanTransactions.keys.find? fun hash => decide (randomhash ≤ hash) with
  | some hash =>
    obtain ⟨pvMsg, found⟩ := held hash (List.mem_of_find?_eq_some later)
    exact ⟨hash, pvMsg, rfl, found⟩
  | none =>
    rw [← ExtTreeMap.length_keys] at positive
    obtain ⟨hash, rest, keys⟩ := List.exists_cons_of_length_pos positive
    rw [keys]
    obtain ⟨pvMsg, found⟩ := held hash (keys ▸ List.mem_cons_self)
    exact ⟨hash, pvMsg, rfl, found⟩

theorem Listed.limitLoop {nMaxOrphans fuel : ℕ} {getRandHash : ℕ → Uint256} (nEvicted : ℕ)
    (listed : Listed P layout pool) (enough : pool.mapOrphanTransactions.size ≤ fuel) :
    ∃ evicted pool', pool.limitLoop layout nMaxOrphans getRandHash fuel nEvicted = .ok (evicted, pool') ∧
      Listed P layout pool' ∧ pool'.mapOrphanTransactions.size ≤ nMaxOrphans ∧
      (pool.mapOrphanTransactionsByPrev.Full → pool'.mapOrphanTransactionsByPrev.Full) := by
  induction fuel generalizing pool nEvicted with
  | zero => exact ⟨nEvicted, pool, rfl, listed, (Nat.le_zero.mp enough).trans_le (Nat.zero_le _), id⟩
  | succ fuel ih =>
    rw [OrphanPool.limitLoop]
    split_ifs with many
    · obtain ⟨hash, pvMsg, pick, found⟩ := exists_pick (getRandHash nEvicted) (Nat.zero_lt_of_lt many)
      obtain ⟨after, erase, ⟨-, none⟩ | ⟨pvMsg', tx, erased⟩⟩ := listed.eraseOrphanTx hash
      · rw [none] at found
        cases found
      · have size := erased.size
        rw [pick]
        dsimp only
        rw [erase, ok_bind]
        obtain ⟨evicted, pool', rest, listed', limit, full⟩ := ih (nEvicted + 1) (erased.listed listed)
          (by omega)
        exact ⟨evicted, pool', rest, listed', limit, fun start => full (erased.full start)⟩
    · exact ⟨nEvicted, pool, rfl, listed, Nat.not_lt.mp many, id⟩

theorem Listed.perform (listed : Listed P layout pool) (call : OrphanCall) :
    Listed P layout (pool.perform P layout call) := by
  cases call with
  | add vMsg address =>
    rw [OrphanPool.perform]
    cases add : pool.addOrphanTx P layout address vMsg with
    | error failure => exact listed
    | ok result =>
      obtain ⟨new, after⟩ := result
      rcases addOrphanTx_cases add with rfl | ⟨tx, pvMsg, added⟩
      · exact listed
      · exact added.listed listed
  | erase hash =>
    rw [OrphanPool.perform]
    obtain ⟨after, erase, ⟨rfl, -⟩ | ⟨pvMsg, tx, erased⟩⟩ := listed.eraseOrphanTx hash
    · rw [erase]
      exact listed
    · rw [erase]
      exact erased.listed listed
  | limit nMaxOrphans getRandHash =>
    obtain ⟨evicted, after, limit, listed', -⟩ := listed.limitLoop 0 le_rfl
    rw [OrphanPool.perform, OrphanPool.limitOrphanTxSize, limit]
    exact listed'

theorem Listed.empty : Listed P layout .empty where
  live hash pvMsg found := by
    rw [OrphanPool.empty, ExtTreeMap.getElem?_empty] at found
    cases found
  listed prev hash pvMsg := by
    simp [OrphanPool.empty, Buckets.bucket, Stored]

theorem Listed.run (calls : List OrphanCall) : Listed P layout (orphanRun P layout calls) := by
  induction calls using List.reverseRecOn with
  | nil => exact .empty
  | append_singleton calls call ih =>
    rw [orphanRun, List.foldl_append]
    exact ih.perform call

/-- Stored orphans are live and listed under the transactions they spend from, nothing else is listed, and a limit
is kept. -/
theorem orphans_listed (P : Primitives) (layout : Layout) (calls : List OrphanCall) :
    let pool := orphanRun P layout calls
    (∀ (hash : Uint256) (pvMsg : Pointer), pool.mapOrphanTransactions[hash]? = some pvMsg →
      ∃ vMsg tx, pool.heap[pvMsg]? = some vMsg ∧ parseTx layout vMsg = .ok tx ∧ P.hashTx tx = hash ∧
        ∀ prev, (∃ listed, (pool.mapOrphanTransactionsByPrev.bucket prev)[hash]? = some listed) ↔
          prev ∈ tx.vin.map fun txin => txin.prevout.hash) ∧
    (∀ (prev hash : Uint256) (pvMsg : Pointer),
      (pool.mapOrphanTransactionsByPrev.bucket prev)[hash]? = some pvMsg →
        pool.mapOrphanTransactions[hash]? = some pvMsg ∧ ∃ vMsg, pool.heap[pvMsg]? = some vMsg) ∧
    ∀ nMaxOrphans getRandHash, ∃ nEvicted after,
      pool.limitOrphanTxSize layout nMaxOrphans getRandHash = .ok (nEvicted, after) ∧
        after.mapOrphanTransactions.size ≤ nMaxOrphans := by
  intro pool
  have listed : Listed P layout pool := .run calls
  refine ⟨fun hash pvMsg found => ?_, fun prev hash pvMsg entry => ?_, fun nMaxOrphans getRandHash => ?_⟩
  · obtain ⟨tx, load, same⟩ := listed.live hash pvMsg found
    obtain ⟨vMsg, live, parse⟩ := load_eq_ok.mp load
    refine ⟨vMsg, tx, live, parse, same, fun prev => ⟨?_, fun member => ?_⟩⟩
    · rintro ⟨pvMsg', entry⟩
      obtain ⟨tx', stored, member⟩ := (listed.listed prev hash pvMsg').mp entry
      obtain rfl : pvMsg = pvMsg' := Option.some.inj (found.symm.trans stored.1)
      obtain rfl : tx = tx' := Except.ok.inj (load.symm.trans stored.2)
      exact member
    · exact ⟨pvMsg, (listed.listed prev hash pvMsg).mpr ⟨tx, ⟨found, load⟩, member⟩⟩
  · obtain ⟨tx, stored, -⟩ := (listed.listed prev hash pvMsg).mp entry
    obtain ⟨vMsg, live, -⟩ := load_eq_ok.mp stored.2
    exact ⟨stored.1, vMsg, live⟩
  · obtain ⟨nEvicted, after, limit, -, size, -⟩ := listed.limitLoop 0 le_rfl
    exact ⟨nEvicted, after, limit, size⟩

end RitCoin.Proof
