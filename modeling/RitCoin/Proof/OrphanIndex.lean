import RitCoin.Proof.TxMessage

namespace RitCoin.Proof
open Lib Model Std

variable {P : Primitives} {layout : Layout} {d : Delivery} {pool : OrphanPool} {prev : Uint256} {work : TxWork}
  {outcome : TxOutcome}

def Spent (layout : Layout) (pool : OrphanPool) (prev : Uint256) : Prop :=
  ∃ hash pvMsg tx, Stored layout pool hash pvMsg tx ∧ prev ∈ prevHashes tx

theorem Listed.bucket_ne_empty (listed : Listed P layout pool) :
    pool.mapOrphanTransactionsByPrev.bucket prev ≠ ∅ ↔ Spent layout pool prev := by
  rw [Buckets.ne_empty_iff]
  simp only [listed.listed]
  rfl

theorem Listed.full_iff (listed : Listed P layout pool) : pool.mapOrphanTransactionsByPrev.Full ↔
    ∀ prev, pool.mapOrphanTransactionsByPrev.contains prev = true → Spent layout pool prev := by
  simp only [contains_eq_true, ← listed.bucket_ne_empty]
  constructor
  · rintro full prev ⟨values, found⟩
    rw [Buckets.bucket, found]
    exact full prev values found
  · intro spent prev values found
    have some := spent prev ⟨values, found⟩
    rwa [Buckets.bucket, found] at some

/-- Whatever can be accepted in a row, an orphan that is stored before spends from it. -/
def Followed (d : Delivery) : Prop :=
  ∀ txs mempool, d.Taken txs mempool → ∀ tx ∈ txs, Spent d.layout d.pool (d.P.hashTx tx)

theorem Working.full (working : Working d work) (listed : Listed d.P d.layout d.pool)
    (full : d.pool.mapOrphanTransactionsByPrev.Full) (followed : Followed d) :
    work.pool.mapOrphanTransactionsByPrev.Full := by
  rw [(working.listed listed).full_iff]
  intro prev held
  have waiting : Spent d.layout d.pool prev := by
    rcases working.buckets prev held with old | queued
    · exact listed.full_iff.mp full prev old
    · obtain ⟨txs, taken, queue, -⟩ := working.taken
      rw [queue] at queued
      obtain ⟨tx, member, rfl⟩ := List.mem_map.mp queued
      exact followed txs _ taken tx member
  rw [← listed.bucket_ne_empty, ← working.bucket] at waiting
  exact (working.listed listed).bucket_ne_empty.mp waiting

theorem Ended.full (ended : Ended d outcome) (listed : Listed d.P d.layout d.pool)
    (full : d.pool.mapOrphanTransactionsByPrev.Full) (followed : Followed d) :
    outcome.work.pool.mapOrphanTransactionsByPrev.Full := by
  cases ended with
  | thrown failure work working => exact working.full listed full followed
  | erased work pool' working _ _ _ kept => exact kept (working.full listed full followed)

section Messages
variable (P : Primitives) (C : Crypto) (fTestNet : Bool) (layout : Layout)

theorem txRun_append (messages : List TxMessage) (message : TxMessage) :
    txRun P C fTestNet layout (messages ++ [message]) =
      (handled P C fTestNet layout (txRun P C fTestNet layout messages) message).work.pool := by
  rw [txRun, List.foldl_append]
  rfl

theorem txRun_listed (messages : List TxMessage) : Listed P layout (txRun P C fTestNet layout messages) := by
  induction messages using List.reverseRecOn with
  | nil => exact .empty
  | append_singleton messages message ih =>
    rw [txRun_append]
    exact ih.processTx ..

def TxMessage.delivery (pool : OrphanPool) (message : TxMessage) (tx : CTransaction) : Delivery :=
  ⟨P, C, fTestNet, layout, message.node, pool, tx⟩

theorem handled_full (listed : Listed P layout pool) (full : pool.mapOrphanTransactionsByPrev.Full)
    (message : TxMessage) (followed : ∀ tx, parseTx layout message.vRecv = .ok tx →
      Followed (TxMessage.delivery P C fTestNet layout pool message tx)) :
    (handled P C fTestNet layout pool message).work.pool.mapOrphanTransactionsByPrev.Full := by
  rw [handled]
  rcases processTx_cases P C fTestNet layout message.address message.getRandHash message.node pool message.vRecv with
    same | ⟨pool', store, same⟩ | ⟨tx, -, parse, ended⟩
  · rwa [same]
  · rw [same]
    exact (listed.storeOrphan store).2 full
  · exact (ended listed).full listed full (followed tx parse)

end Messages

def orphanTxs (layout : Layout) (pool : OrphanPool) : List CTransaction :=
  pool.mapOrphanTransactions.toList.filterMap fun entry => (pool.load layout entry.2).toOption

theorem size_le_inputs (spent : ∀ prev, pool.mapOrphanTransactionsByPrev.contains prev = true → Spent layout pool prev) :
    pool.mapOrphanTransactionsByPrev.size ≤ ((orphanTxs layout pool).map fun tx => tx.vin.length).sum := by
  have subset : pool.mapOrphanTransactionsByPrev.keys ⊆ (orphanTxs layout pool).flatMap prevHashes := by
    intro prev member
    obtain ⟨hash, pvMsg, tx, stored, spends⟩ :=
      spent prev (ExtTreeMap.contains_iff_mem.mpr (ExtTreeMap.mem_keys.mp member))
    refine List.mem_flatMap.mpr ⟨tx, List.mem_filterMap.mpr ⟨(hash, pvMsg), ?_, ?_⟩, spends⟩
    · exact ExtTreeMap.mem_toList_iff_getElem?_eq_some.mpr stored.1
    · rw [stored.2]
      rfl
  have length := (List.subperm_of_subset ExtTreeMap.nodup_keys subset).length_le
  rw [ExtTreeMap.length_keys, List.length_flatMap] at length
  simpa only [prevHashes, List.length_map] using length

/-- If each message finds its transaction, and all that can be accepted after it, spent by stored orphans, all
buckets are. -/
theorem buckets_spent (P : Primitives) (C : Crypto) (fTestNet : Bool) (layout : Layout) (messages : List TxMessage)
    (followed : ∀ before message after, messages = before ++ message :: after →
      ∀ tx, parseTx layout message.vRecv = .ok tx →
        Followed (TxMessage.delivery P C fTestNet layout (txRun P C fTestNet layout before) message tx)) :
    (∀ prev, (txRun P C fTestNet layout messages).mapOrphanTransactionsByPrev.contains prev = true →
      Spent layout (txRun P C fTestNet layout messages) prev) ∧
    (txRun P C fTestNet layout messages).mapOrphanTransactionsByPrev.size ≤
      ((orphanTxs layout (txRun P C fTestNet layout messages)).map fun tx => tx.vin.length).sum := by
  have full : (txRun P C fTestNet layout messages).mapOrphanTransactionsByPrev.Full := by
    induction messages using List.reverseRecOn with
    | nil => exact .empty
    | append_singleton messages message ih =>
      rw [txRun_append]
      refine handled_full P C fTestNet layout (txRun_listed ..) (ih ?_) message (followed messages message [] rfl)
      intro before message' after split
      exact followed before message' (after ++ [message]) (by rw [split]; simp)
  have spent := (txRun_listed P C fTestNet layout messages).full_iff.mp full
  exact ⟨spent, size_le_inputs spent⟩

def sending (tx : CTransaction) : TxMessage :=
  ⟨run scripted (payingEvents 6), .ofBytes tx.serialize, 0, fun _ => 0⟩

def spendingTwo : CTransaction :=
  { spending [COIN] with vin := [⟨⟨1459892999, 0⟩, [1, 1], 0xffffffff⟩, ⟨⟨7, 0⟩, [1, 1], 0xffffffff⟩] }

def waitingMessages : List TxMessage := [sending spendingTwo, sending (payment 1459892999 0xffffffff 0)]

theorem Followed.of_refused (refused : (d.accept d.node.mempool d.tx).isOk = false) : Followed d := by
  intro txs mempool taken
  obtain ⟨mempool', accept⟩ := taken.received
  rw [accept] at refused
  cases refused

theorem Followed.of_lacking (orphan : CTransaction) (only : ∀ tx, d.Waiting tx → tx = orphan)
    (spent : Spent d.layout d.pool (d.P.hashTx d.tx))
    (lacking : ∀ mempool ∈ (d.accept d.node.mempool d.tx).toOption, (d.accept mempool orphan).isOk = false) :
    Followed d := by
  have alone : ∀ {txs mempool}, d.Taken txs mempool → txs = [d.tx] ∧ d.accept d.node.mempool d.tx = .ok mempool := by
    intro txs mempool taken
    induction taken with
    | first accept => exact ⟨rfl, accept⟩
    | next _ follows accept ih =>
      obtain rfl := only _ follows.1
      have refused := lacking _ (by rw [ih.2]; rfl)
      rw [accept] at refused
      cases refused
  intro txs mempool taken tx member
  rw [(alone taken).1, List.mem_singleton] at member
  exact member ▸ spent

theorem waitingMessages_followed : ∀ before message after, waitingMessages = before ++ message :: after →
    ∀ tx, parseTx toyLayout message.vRecv = .ok tx → Followed (TxMessage.delivery scripted zeroCrypto false toyLayout
      (txRun scripted zeroCrypto false toyLayout before) message tx) := by
  rintro (_ | ⟨a, _ | ⟨b, before⟩⟩) message after split tx parse
  · obtain ⟨rfl, -⟩ := List.cons.inj split
    have same : parseTx toyLayout (sending spendingTwo).vRecv = .ok spendingTwo := by decide +kernel
    obtain rfl := Except.ok.inj (parse.symm.trans same)
    exact .of_refused (by decide +kernel)
  · obtain ⟨rfl, rest⟩ := List.cons.inj split
    obtain ⟨rfl, -⟩ := List.cons.inj rest
    have same : parseTx toyLayout (sending (payment 1459892999 0xffffffff 0)).vRecv =
        .ok (payment 1459892999 0xffffffff 0) := by decide +kernel
    obtain rfl := Except.ok.inj (parse.symm.trans same)
    refine Followed.of_lacking spendingTwo (fun tx waiting => ?_) ?_ (by decide +kernel)
    · exact waiting_eq 1459893001 0 (by decide +kernel) (by decide +kernel) waiting
    · exact ⟨1459893001, 0, spendingTwo, ⟨by decide +kernel, by decide +kernel⟩, by decide⟩
  · have length := congrArg List.length split
    simp [waitingMessages] at length

theorem waitingMessages_spent :
    (txRun scripted zeroCrypto false toyLayout waitingMessages).mapOrphanTransactionsByPrev.size ≤
      ((orphanTxs toyLayout (txRun scripted zeroCrypto false toyLayout waitingMessages)).map
        fun tx => tx.vin.length).sum ∧
    (txRun scripted zeroCrypto false toyLayout waitingMessages).mapOrphanTransactionsByPrev.size = 2 :=
  ⟨(buckets_spent scripted zeroCrypto false toyLayout waitingMessages waitingMessages_followed).2, by decide +kernel⟩

theorem payment_leaves_bucket :
    (txRun scripted zeroCrypto false toyLayout
      [sending (payment 1459892999 0xffffffff 0)]).mapOrphanTransactionsByPrev.contains 1459892999 = true ∧
    ¬ Spent toyLayout (txRun scripted zeroCrypto false toyLayout [sending (payment 1459892999 0xffffffff 0)])
      1459892999 := by
  refine ⟨by decide +kernel, ?_⟩
  rintro ⟨hash, pvMsg, tx, ⟨stored, -⟩, -⟩
  have none : (txRun scripted zeroCrypto false toyLayout
      [sending (payment 1459892999 0xffffffff 0)]).mapOrphanTransactions.isEmpty = true := by decide +kernel
  rw [ExtTreeMap.isEmpty_iff.mp none, ExtTreeMap.getElem?_empty] at stored
  cases stored

end RitCoin.Proof
