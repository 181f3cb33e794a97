import RitCoin.Lib.Inverse
import RitCoin.Model.Mempool
import RitCoin.Proof.Maturity
import RitCoin.Proof.Rejection
import RitCoin.Proof.SigOps

namespace RitCoin.Proof
open Lib Model Spec Std
variable {i : ℕ} {o : COutPoint} {seen : Set CTransaction} {P : Primitives} {C : Crypto}
  {fTestNet fCheckInputs : Bool} {node : Node} {tx : CTransaction} {mempool : CTxMemPool} {chain : List Placed}
  {events : List Event}

def prevouts (tx : CTransaction) : List COutPoint := tx.vin.map CTxIn.prevout

theorem prevouts_getElem? : (prevouts tx)[i]? = some o ↔ ∃ txin, tx.vin[i]? = some txin ∧ txin.prevout = o := by
  simp [prevouts]

theorem remove_eq_self (absent : mempool.mapTx[P.hashTx tx]? = none) : mempool.remove P tx = mempool := by
  simp only [CTxMemPool.remove, contains_eq_false.mpr absent, Bool.false_eq_true, if_false]

theorem remove_of_mem (held : mempool.mapTx.contains (P.hashTx tx) = true) :
    mempool.remove P tx =
      ⟨mempool.mapTx.erase (P.hashTx tx),
        tx.vin.foldl (fun next txin => next.erase txin.prevout) mempool.mapNextTx⟩ := by
  simp only [CTxMemPool.remove, held, if_true]

theorem remove_mapTx (P : Primitives) (mempool : CTxMemPool) (tx : CTransaction) (hash : Uint256) :
    (mempool.remove P tx).mapTx[hash]? = if P.hashTx tx = hash then none else mempool.mapTx[hash]? := by
  cases held : mempool.mapTx.contains (P.hashTx tx) with
  | true => simp [remove_of_mem held, ExtTreeMap.getElem?_erase]
  | false =>
    have absent := contains_eq_false.mp held
    rw [remove_eq_self absent]
    split
    · next same => rw [← same, absent]
    · rfl

theorem foldl_remove_mapTx (P : Primitives) (txs : List CTransaction) (mempool : CTxMemPool)
    (hash : Uint256) :
    (txs.foldl (CTxMemPool.remove P) mempool).mapTx[hash]? =
      if hash ∈ txs.map P.hashTx then none else mempool.mapTx[hash]? := by
  induction txs generalizing mempool with
  | nil => simp
  | cons tx txs ih =>
    rw [List.foldl_cons, ih, remove_mapTx]
    by_cases same : P.hashTx tx = hash
    · simp [same]
    · simp [same, Ne.symm same]

theorem addUnchecked_mapTx (P : Primitives) (mempool : CTxMemPool) (tx : CTransaction) (hash : Uint256) :
    (mempool.addUnchecked P tx).mapTx[hash]? = if P.hashTx tx = hash then some tx else mempool.mapTx[hash]? := by
  simp [CTxMemPool.addUnchecked, ExtTreeMap.getElem?_insert]

theorem map_zipIdx_prevout (tx : CTransaction) : tx.vin.zipIdx.map (fun item => item.1.prevout) = prevouts tx := by
  rw [prevouts]
  conv_rhs => rw [← List.zipIdx_map_fst 0 tx.vin]
  rw [List.map_map]
  rfl

theorem addUnchecked_mapNextTx (absent : o ∉ prevouts tx) :
    (mempool.addUnchecked P tx).mapNextTx[o]? = mempool.mapNextTx[o]? :=
  getElem?_foldl_insert _ _ _ _ (map_zipIdx_prevout tx ▸ absent)

theorem addUnchecked_mapNextTx_self (nodup : (prevouts tx).Nodup) (place : (prevouts tx)[i]? = some o) :
    (mempool.addUnchecked P tx).mapNextTx[o]? = some (P.hashTx tx, i) := by
  obtain ⟨txin, input, rfl⟩ := prevouts_getElem?.mp place
  exact getElem?_foldl_insert_of_nodup (fun item : CTxIn × ℕ => item.1.prevout) (fun item => (P.hashTx tx, item.2))
    tx.vin.zipIdx mempool.mapNextTx (map_zipIdx_prevout tx ▸ nodup) (List.mk_mem_zipIdx_iff_getElem?.mpr input)

structure Pooled (P : Primitives) (seen : Set CTransaction) (mempool : CTxMemPool) : Prop where
  keyed : ∀ hash tx, mempool.mapTx[hash]? = some tx → tx ∈ seen ∧ P.hashTx tx = hash
  inverse : Inverse prevouts (mempool.mapTx[·]?) (mempool.mapNextTx[·]?)

namespace Pooled
variable {seen : Set CTransaction}

theorem empty : Pooled P seen ⟨∅, ∅⟩ where
  keyed hash tx found := by simp at found
  inverse := by simpa using Inverse.empty

theorem remove (pooled : Pooled P seen mempool) (distinct : seen.InjOn P.hashTx) (member : tx ∈ seen) :
    Pooled P seen (mempool.remove P tx) where
  keyed hash tx' found := by
    rw [remove_mapTx] at found
    split at found
    · cases found
    · exact pooled.keyed hash tx' found
  inverse := by
    cases found : mempool.mapTx.contains (P.hashTx tx) with
    | false =>
      rw [remove_eq_self (contains_eq_false.mp found)]
      exact pooled.inverse
    | true =>
      obtain ⟨old, held⟩ := contains_eq_true.mp found
      obtain ⟨known, hash⟩ := pooled.keyed _ _ held
      obtain rfl := distinct known member hash
      have next : ∀ o : COutPoint, (mempool.remove P old).mapNextTx[o]? =
          if o ∈ prevouts old then none else mempool.mapNextTx[o]? := by
        intro o
        rw [remove_of_mem found]
        exact getElem?_foldl_erase CTxIn.prevout old.vin mempool.mapNextTx o
      refine pooled.inverse.remove (k := P.hashTx old) ?_ ?_ held ?_ ?_
      · intro hash' ne
        rw [remove_mapTx, if_neg (Ne.symm ne)]
      · intro o absent
        rw [next, if_neg absent]
      · rw [remove_mapTx, if_pos rfl]
      · intro o item
        rw [next, if_pos item]

theorem foldl_remove (distinct : seen.InjOn P.hashTx) (txs : List CTransaction) :
    ∀ {mempool : CTxMemPool}, Pooled P seen mempool → (∀ tx ∈ txs, tx ∈ seen) →
      Pooled P seen (txs.foldl (CTxMemPool.remove P) mempool) := by
  induction txs with
  | nil =>
    intro mempool pooled _
    exact pooled
  | cons tx txs ih =>
    intro mempool pooled members
    exact ih (pooled.remove distinct (members tx (by simp))) fun tx' later => members tx' (by simp [later])

theorem addUnchecked (pooled : Pooled P seen mempool) (member : tx ∈ seen)
    (nodup : (prevouts tx).Nodup) (fresh : mempool.mapTx[P.hashTx tx]? = none)
    (free : ∀ o ∈ prevouts tx, mempool.mapNextTx[o]? = none) :
    Pooled P seen (mempool.addUnchecked P tx) := by
  constructor
  · intro hash tx' found
    rw [addUnchecked_mapTx] at found
    split at found
    · next same =>
        cases found
        exact ⟨member, same⟩
    · exact pooled.keyed hash tx' found
  · refine pooled.inverse.add (k := P.hashTx tx) (t := tx) ?_ ?_ fresh ?_ free ?_
    · intro hash ne
      rw [addUnchecked_mapTx, if_neg (Ne.symm ne)]
    · exact fun o absent => addUnchecked_mapNextTx absent
    · rw [addUnchecked_mapTx, if_pos rfl]
    · exact fun o i place => addUnchecked_mapNextTx_self nodup place

end Pooled

structure Admitted (P : Primitives) (C : Crypto) (fTestNet : Bool) (node : Node) (tx : CTransaction)
    (fCheckInputs : Bool) : Prop where
  checked : tx.checkTransaction = .ok ()
  spending : tx.isCoinBase = false
  nLockTime : tx.nLockTime ≤ 0x7fffffff
  standard : fTestNet = false → tx.isStandard = true
  fresh : node.mempool.mapTx[P.hashTx tx]? = none
  free : ∀ o ∈ prevouts tx, node.mempool.mapNextTx[o]? = none
  unknown : fCheckInputs = true → node.pdb.open.containsTx (P.hashTx tx) = false
  inputs : fCheckInputs = true → ∃ mapInputs,
    tx.fetchInputs node node.pdb.open ∅ false false = .ok mapInputs ∧
    tx.connectLoose P C fTestNet node mapInputs = .ok ()

theorem conflicts_eq_false : mempool.conflicts tx = false ↔ ∀ o ∈ prevouts tx, mempool.mapNextTx[o]? = none := by
  simp [CTxMemPool.conflicts, prevouts]

theorem accept_eq_ok : CTxMemPool.accept P C fTestNet node tx fCheckInputs = .ok mempool ↔
    Admitted P C fTestNet node tx fCheckInputs ∧ mempool = node.mempool.addUnchecked P tx := by
  simp only [CTxMemPool.accept, CTransaction.checkLoose, seq_eq_ok, mapError_eq_ok, failIf_eq_ok, not_and,
    Bool.not_eq_true, Bool.not_eq_false, contains_eq_false, conflicts_eq_false, gt_iff_lt, UInt32.not_lt]
  constructor
  · rintro ⟨⟨checked, spending, nLockTime, standard⟩, fresh, unknown, free, rest⟩
    cases fCheckInputs with
    | false => exact ⟨⟨checked, spending, nLockTime, standard, fresh, free, nofun, nofun⟩, (pure_eq_ok.mp rest).symm⟩
    | true =>
      simp only [if_true, bind_eq_ok, mapError_eq_ok, pure_eq_ok] at rest
      obtain ⟨mapInputs, fetch, _, connect, rfl⟩ := rest
      exact ⟨⟨checked, spending, nLockTime, standard, fresh, free, unknown, fun _ => ⟨mapInputs, fetch, connect⟩⟩,
        rfl⟩
  · rintro ⟨admitted, rfl⟩
    refine ⟨⟨admitted.checked, admitted.spending, admitted.nLockTime, admitted.standard⟩, admitted.fresh,
      admitted.unknown, admitted.free, ?_⟩
    cases fCheckInputs with
    | false => rfl
    | true =>
      obtain ⟨mapInputs, fetch, connect⟩ := admitted.inputs rfl
      simp only [if_true, bind_eq_ok, mapError_eq_ok, pure_eq_ok]
      exact ⟨mapInputs, fetch, ⟨⟩, connect, trivial⟩

theorem Inv.receive_block (inv : Inv P events node chain) (now : Int) (block : CBlock) :
    let after := (processBlock P now node block).2
    (Spec.bestBlocks after = Spec.bestBlocks node ∧ after.mempool = node.mempool) ∨
    (Spec.bestBlocks after = Spec.bestBlocks node ++ [block] ∧
      after.mempool = block.vtx.foldl (CTxMemPool.remove P) node.mempool) := by
  have effect := inv.effect now block
  have received := inv.mono (List.subset_append_left events [.block now block])
  generalize processBlock P now node block = step at effect
  rw [inv.bestBlocks]
  cases effect with
  | rejected => exact .inl ⟨inv.bestBlocks, rfl⟩
  | orphan => exact .inl ⟨inv.bestBlocks, rfl⟩
  | side admission => exact .inl ⟨(received.store admission).bestBlocks, rfl⟩
  | apart _ admission => exact .inl ⟨(received.store admission).bestBlocks, rfl⟩
  | failed _ reason admission =>
    refine .inl ⟨((received.store admission).afterFailure _ reason).bestBlocks, ?_⟩
    cases reason with
    | reject => exact (invalidChainFound_same (stored P node block) (newIndex node block)).mempool
    | throw => rfl
    | stop => rfl
  | connected admission _ tip connect =>
    refine .inr ⟨?_, rfl⟩
    rw [(received.connect admission tip connect (by simp)).bestBlocks, List.map_append]
    rfl

theorem exists_run (P : Primitives) (C : Crypto) (fTestNet : Bool) (events : List PoolEvent) :
    ∃ received, poolRun P C fTestNet events = run P received := by
  induction events using List.reverseRecOn with
  | nil => exact ⟨[], rfl⟩
  | append_singleton events event ih =>
    obtain ⟨received, same⟩ := ih
    have last : poolRun P C fTestNet (events ++ [event]) =
        (run P received).handle P C fTestNet event := by
      rw [← same]
      simp [poolRun]
    rw [last]
    cases event with
    | accept tx fCheckInputs =>
      cases outcome : CTxMemPool.accept P C fTestNet (run P received) tx fCheckInputs with
      | error => exact ⟨received, by simp only [Node.handle, outcome]⟩
      | ok mempool => exact ⟨received ++ [.mempool mempool], by
          rw [run_append]
          simp only [Node.handle, outcome, Node.receive]⟩
    | remove tx =>
      exact ⟨received ++ [.mempool ((run P received).mempool.remove P tx)], by rw [run_append]; rfl⟩
    | block now block => exact ⟨received ++ [.block now block], by rw [run_append]; rfl⟩

theorem Pooled.handle (inv : Inv P events node chain) (pooled : Pooled P seen node.mempool)
    (distinct : seen.InjOn P.hashTx) (event : PoolEvent) (members : ∀ tx ∈ event.txs, tx ∈ seen) :
    Pooled P seen (node.handle P C fTestNet event).mempool := by
  cases event with
  | accept tx fCheckInputs =>
    simp only [Node.handle]
    cases outcome : CTxMemPool.accept P C fTestNet node tx fCheckInputs with
    | error => exact pooled
    | ok mempool =>
      obtain ⟨admitted, rfl⟩ := accept_eq_ok.mp outcome
      exact pooled.addUnchecked (members tx (by simp [PoolEvent.txs]))
        (tx.checkTransaction_nodup admitted.checked) admitted.fresh admitted.free
  | remove tx => exact pooled.remove distinct (members tx (by simp [PoolEvent.txs]))
  | block now block =>
    rcases inv.receive_block now block with ⟨_, same⟩ | ⟨_, removed⟩
    · rw [Node.handle, same]
      exact pooled
    · rw [Node.handle, removed]
      exact Pooled.foldl_remove distinct block.vtx pooled members

theorem poolRun_pooled (P : Primitives) (C : Crypto) (fTestNet : Bool) (distinct : seen.InjOn P.hashTx)
    (events : List PoolEvent) (members : ∀ event ∈ events, ∀ tx ∈ event.txs, tx ∈ seen) :
    Pooled P seen (poolRun P C fTestNet events).mempool := by
  induction events using List.reverseRecOn with
  | nil => exact .empty
  | append_singleton events event ih =>
    have pooled := ih fun event earlier => members event (by simp [earlier])
    have last : poolRun P C fTestNet (events ++ [event]) =
        (poolRun P C fTestNet events).handle P C fTestNet event := by
      simp [poolRun]
    obtain ⟨received, same⟩ := exists_run P C fTestNet events
    obtain ⟨chain, inv⟩ := exists_inv P received
    rw [← same] at inv
    rw [last]
    exact pooled.handle inv distinct event (members event (by simp))

/-- `mapNextTx` sends an outpoint to an input of a transaction of the pool exactly if that input spends
the outpoint, so no two transactions of the pool spend the same one. -/
theorem mapNextTx_inverse (P : Primitives) (C : Crypto) (fTestNet : Bool) (events : List PoolEvent)
    (distinct : Set.InjOn P.hashTx {tx | tx ∈ events.flatMap PoolEvent.txs}) :
    let mempool := (poolRun P C fTestNet events).mempool
    (∀ (o : COutPoint) hash i, mempool.mapNextTx[o]? = some (hash, i) ↔
      ∃ tx txin, mempool.mapTx[hash]? = some tx ∧ tx.vin[i]? = some txin ∧ txin.prevout = o) ∧
    ∀ (hash hash' : Uint256) tx tx', mempool.mapTx[hash]? = some tx → mempool.mapTx[hash']? = some tx' →
      ∀ txin ∈ tx.vin, ∀ txin' ∈ tx'.vin, txin.prevout = txin'.prevout → hash = hash' := by
  have pooled := poolRun_pooled P C fTestNet distinct events fun event member tx inside =>
    List.mem_flatMap.mpr ⟨event, member, inside⟩
  constructor
  · intro o hash i
    rw [pooled.inverse o hash i]
    simp only [prevouts_getElem?, exists_and_left]
  · intro hash hash' tx tx' held held' txin input txin' input' same
    refine pooled.inverse.unique held held' (List.mem_map_of_mem input) ?_
    rw [same]
    exact List.mem_map_of_mem input'

def scripted : Primitives := toy.interpreting zeroCrypto

def offeredEvents : List PoolEvent :=
  (payingBlocks 6).map (.block toyNow) ++ [.accept (payment 1459892999 0xffffffff 0) true]

theorem offered_indexed :
    (poolRun scripted zeroCrypto false offeredEvents).mempool.mapNextTx[(⟨1459892850, 0⟩ : COutPoint)]? =
      some (1459892999, 0) := by
  have distinct : ∀ tx ∈ offeredEvents.flatMap PoolEvent.txs, ∀ tx' ∈ offeredEvents.flatMap PoolEvent.txs,
      scripted.hashTx tx = scripted.hashTx tx' → tx = tx' := by
    decide +kernel
  have inverse := mapNextTx_inverse scripted zeroCrypto false offeredEvents fun tx member tx' member' =>
    distinct tx member tx' member'
  exact (inverse.1 _ _ _).mpr ⟨payment 1459892999 0xffffffff 0, (payment 1459892999 0xffffffff 0).vin.head (by decide),
    by decide +kernel, rfl, rfl⟩

def SpentIn (blocks : List CBlock) (o : COutPoint) : Prop :=
  ∃ block ∈ blocks, ∃ tx ∈ block.vtx, o ∈ prevouts tx

theorem spentIn_append {blocks : List CBlock} {block : CBlock} :
    SpentIn (blocks ++ [block]) o ↔ SpentIn blocks o ∨ ∃ tx ∈ block.vtx, o ∈ prevouts tx := by
  simp [SpentIn, or_and_right, exists_or]

structure ConflictFree (node : Node) : Prop where
  apart : ∀ (hash hash' : Uint256) tx tx' o, node.mempool.mapTx[hash]? = some tx →
    node.mempool.mapTx[hash']? = some tx' → o ∈ prevouts tx → o ∈ prevouts tx' → hash = hash'
  unspent : ∀ (hash : Uint256) tx o, node.mempool.mapTx[hash]? = some tx → o ∈ prevouts tx →
    ¬ SpentIn (bestBlocks node) o

/-- A block takes the transactions with its own hashes out of the pool and no others; what the rest
spends is then spent by the best chain too exactly where a transaction of the block spends it that was
not in the pool itself. -/
theorem spent_after_block_iff (P : Primitives) (events : List Event) (now : Int) (block : CBlock)
    (connects : bestBlocks (run P (events ++ [.block now block])) = bestBlocks (run P events) ++ [block]) :
    let after := run P (events ++ [.block now block])
    (∀ hash : Uint256, after.mempool.mapTx[hash]? =
      if hash ∈ block.vtx.map P.hashTx then none else (run P events).mempool.mapTx[hash]?) ∧
    (ConflictFree (run P events) → ∀ (hash : Uint256) tx o, after.mempool.mapTx[hash]? = some tx →
      o ∈ prevouts tx → (SpentIn (bestBlocks after) o ↔
        ∃ tx' ∈ block.vtx, o ∈ prevouts tx' ∧ (run P events).mempool.mapTx[P.hashTx tx']? ≠ some tx')) := by
  obtain ⟨chain, inv⟩ := exists_inv P events
  have removed : (run P (events ++ [.block now block])).mempool =
      block.vtx.foldl (CTxMemPool.remove P) (run P events).mempool := by
    rw [run_append] at connects ⊢
    rcases inv.receive_block now block with ⟨same, _⟩ | ⟨_, removed⟩
    · rw [Node.receive, same] at connects
      simp at connects
    · exact removed
  simp only [removed, foldl_remove_mapTx, true_and, implies_true]
  intro free hash tx o stays spends
  split at stays
  · cases stays
  next kept =>
    rw [connects, spentIn_append, or_iff_right (free.unspent hash tx o stays spends)]
    constructor
    · rintro ⟨tx', inBlock, spends'⟩
      refine ⟨tx', inBlock, spends', fun held => kept ?_⟩
      rw [free.apart hash _ tx tx' o stays held spends spends']
      exact List.mem_map_of_mem inBlock
    · rintro ⟨tx', inBlock, spends', _⟩
      exact ⟨tx', inBlock, spends'⟩

def rivalEvents : List Event :=
  payingEvents 6 ++ [.mempool (poolRun scripted zeroCrypto false offeredEvents).mempool]

def rivalBlock : CBlock :=
  payingBlock (run scripted (payingEvents 6)).hashBestChain 210 [payment 1459892998 0xffffffff 0]

theorem rivalEvents_conflictFree : ConflictFree (run scripted rivalEvents) := by
  have only : ∀ (hash : Uint256) tx, (run scripted rivalEvents).mempool.mapTx[hash]? = some tx →
      hash = 1459892999 ∧ tx = payment 1459892999 0xffffffff 0 := by
    intro hash tx held
    have list : (run scripted rivalEvents).mempool.mapTx.toList =
        [(1459892999, payment 1459892999 0xffffffff 0)] := by decide +kernel
    have member := ExtTreeMap.mem_toList_iff_getElem?_eq_some.mpr held
    rw [list] at member
    simpa using member
  constructor
  · intro hash hash' tx tx' o held held' _ _
    rw [(only hash tx held).1, (only hash' tx' held').1]
  · intro hash tx o held spends
    have unspent : ∀ block ∈ bestBlocks (run scripted rivalEvents), ∀ tx ∈ block.vtx,
        ∀ o ∈ prevouts (payment 1459892999 0xffffffff 0), o ∉ prevouts tx := by
      decide +kernel
    rw [(only hash tx held).2] at spends
    rintro ⟨block, inChain, tx', inBlock, spends'⟩
    exact unspent block inChain tx' inBlock o spends spends'

theorem rivalBlock_connects :
    bestBlocks (run scripted (rivalEvents ++ [.block toyNow rivalBlock])) =
        bestBlocks (run scripted rivalEvents) ++ [rivalBlock] ∧
      (run scripted (rivalEvents ++ [.block toyNow rivalBlock])).mempool.mapTx[(1459892999 : Uint256)]? =
        some (payment 1459892999 0xffffffff 0) := by
  decide +kernel

theorem rival_spent_after_block :
    SpentIn (bestBlocks (run scripted (rivalEvents ++ [.block toyNow rivalBlock]))) ⟨1459892850, 0⟩ := by
  have spent := (spent_after_block_iff scripted rivalEvents toyNow rivalBlock rivalBlock_connects.1).2
    rivalEvents_conflictFree _ _ ⟨1459892850, 0⟩ rivalBlock_connects.2 (by decide)
  exact spent.mpr ⟨payment 1459892998 0xffffffff 0, by decide, by decide, by decide +kernel⟩

theorem rival_stays : ConflictFree (run scripted rivalEvents) ∧
    bestBlocks (run scripted (rivalEvents ++ [.block toyNow rivalBlock])) =
      bestBlocks (run scripted rivalEvents) ++ [rivalBlock] ∧
    ∃ (hash : Uint256) (tx : CTransaction) (o : COutPoint),
      (run scripted (rivalEvents ++ [.block toyNow rivalBlock])).mempool.mapTx[hash]? = some tx ∧
      o ∈ prevouts tx ∧ SpentIn (bestBlocks (run scripted (rivalEvents ++ [.block toyNow rivalBlock]))) o := by
  refine ⟨rivalEvents_conflictFree, rivalBlock_connects.1, 1459892999, payment 1459892999 0xffffffff 0,
    ⟨1459892850, 0⟩, rivalBlock_connects.2, by decide, ?_⟩
  rw [rivalBlock_connects.1, spentIn_append]
  exact .inr ⟨payment 1459892998 0xffffffff 0, by decide, by decide⟩

end RitCoin.Proof
