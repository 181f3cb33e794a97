import RitCoin.Proof.Attempt
import RitCoin.Proof.Orphan

namespace RitCoin.Proof
open Lib Model Std

/-- A transaction that comes while orphans are stored. -/
structure Delivery where
  P : Primitives
  C : Crypto
  fTestNet : Bool
  layout : Layout
  node : Node
  pool : OrphanPool
  tx : CTransaction

namespace Delivery
variable (d : Delivery)

def accept (mempool : CTxMemPool) (tx : CTransaction) : Except AcceptFailure CTxMemPool :=
  CTxMemPool.accept d.P d.C d.fTestNet { d.node with mempool := mempool } tx true

def Waiting (tx : CTransaction) : Prop := ∃ hash pvMsg, Stored d.layout d.pool hash pvMsg tx

def Follows (txs : List CTransaction) (orphan : CTransaction) : Prop :=
  d.Waiting orphan ∧ ∃ parent ∈ txs, d.P.hashTx parent ∈ prevHashes orphan

/-- The transactions that can be accepted one after the other, with the memory pool they lead to: the one that
comes, and then stored orphans that spend from one before, in any order. -/
inductive Taken : List CTransaction → CTxMemPool → Prop
  | first {mempool : CTxMemPool} : d.accept d.node.mempool d.tx = .ok mempool → Taken [d.tx] mempool
  | next {txs : List CTransaction} {mempool mempool' : CTxMemPool} {orphan : CTransaction} : Taken txs mempool →
      d.Follows txs orphan → d.accept mempool orphan = .ok mempool' → Taken (txs ++ [orphan]) mempool'

/-- No output is spent by two of the transactions, the one that comes and the stored ones. -/
def Apart : Prop :=
  ∀ tx tx', tx = d.tx ∨ d.Waiting tx → d.Waiting tx' → ∀ o ∈ prevouts tx, o ∈ prevouts tx' → tx = tx'

def Refused (txs : List CTransaction) (orphan : CTransaction) : Prop :=
  ∃ txs' mempool failed, d.Taken txs' mempool ∧ txs' ⊆ txs ∧ d.accept mempool orphan = .error failed ∧
    Rejects failed.failure ∧ failed.fMissingInputs = false

variable {d} {txs txs' : List CTransaction} {mempool mempool' mempool'' : CTxMemPool} {tx orphan : CTransaction}
  {hash : Uint256}

theorem accept_mapTx (accept : d.accept mempool tx = .ok mempool') {tx' : CTransaction} :
    mempool'.mapTx[hash]? = some tx' ↔ mempool.mapTx[hash]? = some tx' ∨ tx' = tx ∧ d.P.hashTx tx' = hash := by
  obtain ⟨admitted, rfl⟩ := accept_eq_ok.mp accept
  have fresh : mempool.mapTx[d.P.hashTx tx]? = none := admitted.fresh
  rw [addUnchecked_mapTx]
  split_ifs with same
  · subst same
    rw [fresh]
    grind
  · grind

theorem accept_mapNextTx (accept : d.accept mempool tx = .ok mempool') {o : COutPoint} :
    mempool'.mapNextTx[o]? = none ↔ mempool.mapNextTx[o]? = none ∧ o ∉ prevouts tx := by
  obtain ⟨admitted, rfl⟩ := accept_eq_ok.mp accept
  by_cases spent : o ∈ prevouts tx
  · obtain ⟨i, place⟩ := List.mem_iff_getElem?.mp spent
    simp only [addUnchecked_mapNextTx_self (tx.checkTransaction_nodup admitted.checked) place, spent]
    simp
  · simp only [addUnchecked_mapNextTx spent, spent, not_false_eq_true, and_true]

namespace Taken

variable (taken : d.Taken txs mempool)
include taken

theorem mapTx : mempool.mapTx[hash]? = some tx ↔
    d.node.mempool.mapTx[hash]? = some tx ∨ tx ∈ txs ∧ d.P.hashTx tx = hash := by
  induction taken with
  | first accept => rw [accept_mapTx accept, List.mem_singleton]
  | next _ _ accept ih =>
    rw [accept_mapTx accept, ih, List.mem_append, List.mem_singleton]
    tauto

theorem mapNextTx {o : COutPoint} : mempool.mapNextTx[o]? = none ↔
    d.node.mempool.mapNextTx[o]? = none ∧ ∀ tx ∈ txs, o ∉ prevouts tx := by
  induction taken with
  | first accept => rw [accept_mapNextTx accept, List.forall_mem_singleton]
  | next _ _ accept ih =>
    rw [accept_mapNextTx accept, ih, List.forall_mem_append, List.forall_mem_singleton, and_assoc]

theorem mem : d.tx ∈ txs := by
  induction taken with
  | first => exact List.mem_singleton_self _
  | next _ _ _ ih => exact List.mem_append_left _ ih

theorem received : ∃ mempool', d.accept d.node.mempool d.tx = .ok mempool' := by
  induction taken with
  | first accept => exact ⟨_, accept⟩
  | next _ _ _ ih => exact ih

theorem nodup : (txs.map d.P.hashTx).Nodup := by
  induction taken with
  | first => exact List.nodup_singleton _
  | next taken _ accept ih =>
    rw [List.map_append]
    refine List.Nodup.append ih (List.nodup_singleton _) ?_
    rw [List.map_singleton, List.disjoint_singleton]
    intro member
    obtain ⟨tx, held, same⟩ := List.mem_map.mp member
    have fresh := (accept_eq_ok.mp accept).1.fresh
    rw [taken.mapTx.mpr (.inr ⟨held, same⟩)] at fresh
    cases fresh

theorem accepted (member : tx ∈ txs) : tx = d.tx ∨
    ∃ txs' before after, d.Taken txs' before ∧ txs' ⊆ txs ∧ d.Waiting tx ∧ d.accept before tx = .ok after := by
  induction taken with
  | first => exact .inl (List.mem_singleton.mp member)
  | next taken follows accept ih =>
    rcases List.mem_append.mp member with old | new
    · refine (ih old).imp_right ?_
      rintro ⟨txs', before, after, taken', subset, rest⟩
      exact ⟨txs', before, after, taken', fun tx inside => List.mem_append_left _ (subset inside), rest⟩
    · rw [List.mem_singleton.mp new]
      exact .inr ⟨_, _, _, taken, List.subset_append_left .., follows.1, accept⟩

theorem received_or_waiting (member : tx ∈ txs) : tx = d.tx ∨ d.Waiting tx :=
  (taken.accepted member).imp_right fun ⟨_, _, _, _, _, waiting, _⟩ => waiting

end Taken

theorem Waiting.unique (listed : Listed d.P d.layout d.pool) (waiting : d.Waiting tx) (waiting' : d.Waiting orphan)
    (same : d.P.hashTx tx = d.P.hashTx orphan) : tx = orphan := by
  obtain ⟨hash, pvMsg, stored⟩ := waiting
  obtain ⟨hash', pvMsg', stored'⟩ := waiting'
  rw [listed.hashTx stored, listed.hashTx stored'] at same
  subst same
  obtain rfl := Option.some.inj (stored.1.symm.trans stored'.1)
  exact Except.ok.inj (stored.2.symm.trans stored'.2)

end Delivery

section Included
variable {node : Node} {mempool mempool' top : CTxMemPool} {tx : CTransaction}

def Included (mempool mempool' : CTxMemPool) : Prop :=
  ∀ (hash : Uint256) tx, mempool.mapTx[hash]? = some tx → mempool'.mapTx[hash]? = some tx

theorem Included.fetchPrev (included : Included mempool mempool') {hash : Uint256} {entry : CTxIndex × CTransaction}
    (fetch : CTransaction.fetchPrev { node with mempool := mempool } node.pdb.open ∅ false false hash = .ok entry) :
    CTransaction.fetchPrev { node with mempool := mempool' } node.pdb.open ∅ false false hash = .ok entry := by
  cases known : mempool.mapTx[hash]? with
  | some txPrev =>
    simp only [CTransaction.fetchPrev, known, included hash txPrev known] at fetch ⊢
    exact fetch
  | none =>
    simp only [CTransaction.fetchPrev, known] at fetch ⊢
    obtain ⟨⟨⟩, passed, fetch⟩ := bind_eq_ok.mp fetch
    rw [passed, ok_bind]
    split at fetch
    · split_ifs at fetch ⊢
      exact fetch
    · cases fetch

theorem Included.lacks (included : Included mempool mempool') (lacks : Lacks { node with mempool := mempool' } tx) :
    Lacks { node with mempool := mempool } tx := by
  obtain ⟨txin, member, missing⟩ := lacks
  exact ⟨txin, member, fun ⟨entry, found⟩ => missing ⟨entry, included.fetchPrev found⟩⟩

theorem Included.fetchLoop (included : Included mempool mempool') (present : ¬ Lacks { node with mempool := mempool } tx) :
    tx.vin.foldlM (CTransaction.fetchInput { node with mempool := mempool } node.pdb.open ∅ false false) ∅ =
      tx.vin.foldlM (CTransaction.fetchInput { node with mempool := mempool' } node.pdb.open ∅ false false) ∅ := by
  have available : ∀ txin ∈ tx.vin, Available { node with mempool := mempool } txin.prevout.hash := by
    intro txin member
    by_contra missing
    exact present ⟨txin, member, missing⟩
  generalize (∅ : MapPrevTx) = inputs
  generalize tx.vin = vin at available
  induction vin generalizing inputs with
  | nil => rfl
  | cons txin rest ih =>
    rw [List.forall_mem_cons] at available
    obtain ⟨entry, fetch⟩ := available.1
    have fetch' := included.fetchPrev fetch
    have same : CTransaction.fetchInput { node with mempool := mempool } node.pdb.open ∅ false false inputs txin =
        CTransaction.fetchInput { node with mempool := mempool' } node.pdb.open ∅ false false inputs txin := by
      rw [CTransaction.fetchInput, CTransaction.fetchInput]
      change (if _ then _ else (CTransaction.fetchPrev _ _ _ _ _ _ >>= _)) = _
      rw [fetch, fetch']
    rw [List.foldlM_cons, List.foldlM_cons, same]
    congr 1
    funext inputs'
    exact ih inputs' available.2

/-- Two pools that both have all inputs, out of one pool, have the same ones. -/
theorem fetchInputs_congr (included : Included mempool top) (included' : Included mempool' top)
    (present : ¬ Lacks { node with mempool := mempool } tx) (present' : ¬ Lacks { node with mempool := mempool' } tx) :
    tx.fetchInputs { node with mempool := mempool } node.pdb.open ∅ false false =
      tx.fetchInputs { node with mempool := mempool' } node.pdb.open ∅ false false := by
  rw [CTransaction.fetchInputs, CTransaction.fetchInputs, included.fetchLoop present, included'.fetchLoop present']

end Included

namespace Delivery
variable {d : Delivery} {txs txs' : List CTransaction} {mempool mempool' top : CTxMemPool} {tx orphan : CTransaction}

theorem Taken.included (taken : d.Taken txs mempool) (taken' : d.Taken txs' mempool') (subset : txs ⊆ txs') :
    Included mempool mempool' := by
  intro hash tx found
  rw [taken.mapTx] at found
  exact taken'.mapTx.mpr (found.imp_right fun both => ⟨subset both.1, both.2⟩)

/-- What is asked of an orphan whatever the memory pool holds. -/
def Screened (d : Delivery) (tx : CTransaction) : Prop :=
  tx.checkLoose d.fTestNet = .ok () ∧ d.node.pdb.open.containsTx (d.P.hashTx tx) = false

def attempt (d : Delivery) (mempool : CTxMemPool) (tx : CTransaction) : Except AcceptFailure Unit := do
  let inputs ← (tx.fetchInputs { d.node with mempool := mempool } d.node.pdb.open ∅ false false).mapError
    AcceptFailure.ofFetch
  (tx.connectLoose d.P d.C d.fTestNet { d.node with mempool := mempool } inputs).mapError (⟨·, false⟩)

theorem Screened.accept (screened : d.Screened tx) (fresh : mempool.mapTx[d.P.hashTx tx]? = none)
    (free : mempool.conflicts tx = false) :
    d.accept mempool tx = (d.attempt mempool tx >>= fun _ => pure (mempool.addUnchecked d.P tx)) := by
  simp only [Delivery.accept, CTxMemPool.accept, screened.1, contains_eq_false.mpr fresh, screened.2, free, attempt]
  simp only [failIf, Except.mapError, Bool.false_eq_true, and_false, if_false, if_true, ok_bind]
  rw [bind_assoc]

theorem screened_of_accept (decided : ∀ failed, d.accept mempool tx = .error failed → ¬ Rejects failed.failure) :
    d.Screened tx ∧ mempool.mapTx[d.P.hashTx tx]? = none ∧ mempool.conflicts tx = false := by
  have rejects : Rejects (.reject 0 []) := by simp
  rw [← contains_eq_false]
  simp only [Delivery.accept, CTxMemPool.accept] at decided
  cases loose : tx.checkLoose d.fTestNet with
  | error failure =>
    rw [loose] at decided
    exact absurd (checkLoose_rejects tx failure loose) (decided _ rfl)
  | ok =>
    simp only [loose, Except.mapError, ok_bind] at decided
    cases held : mempool.mapTx.contains (d.P.hashTx tx) with
    | true =>
      simp only [held, failIf, if_true] at decided
      exact absurd rejects (decided _ rfl)
    | false =>
      cases known : d.node.pdb.open.containsTx (d.P.hashTx tx) with
      | true =>
        simp only [held, known, failIf, if_true, and_self, Bool.false_eq_true, if_false, ok_bind] at decided
        exact absurd rejects (decided _ rfl)
      | false =>
        cases free : mempool.conflicts tx with
        | true =>
          simp only [held, known, free, failIf, if_true, Bool.false_eq_true, and_false, if_false, ok_bind] at decided
          exact absurd rejects (decided _ rfl)
        | false => exact ⟨⟨loose, known⟩, rfl, rfl⟩

theorem Screened.present (screened : d.Screened tx) (fresh : mempool.mapTx[d.P.hashTx tx]? = none)
    (free : mempool.conflicts tx = false)
    (looked : ∀ failed, d.accept mempool tx = .error failed →
      failed.fMissingInputs = false ∨ ¬ Rejects failed.failure) : ¬ Lacks { d.node with mempool := mempool } tx := by
  have spending : tx.isCoinBase = false := by
    have loose := screened.1
    simp only [CTransaction.checkLoose, seq_eq_ok, failIf_eq_ok, Bool.not_eq_true] at loose
    exact loose.2.1
  have fetches := fetchInputs_meets { d.node with mempool := mempool } spending
  cases fetch : tx.fetchInputs { d.node with mempool := mempool } d.node.pdb.open ∅ false false with
  | ok inputs => exact (fetches.ok inputs fetch).1
  | error failed =>
    obtain ⟨rejects, missing⟩ := fetches.fails failed fetch
    have turned : d.accept mempool tx = .error (AcceptFailure.ofFetch failed) := by
      rw [screened.accept fresh free, attempt, fetch]
      rfl
    rw [← missing]
    intro valid
    rw [AcceptFailure.ofFetch, if_neg (by simp [valid])] at turned
    rcases looked _ turned with found | other
    · cases found
    · exact other (rejects.caller _ _)

theorem attempt_congr (included : Included mempool top) (included' : Included mempool' top)
    (present : ¬ Lacks { d.node with mempool := mempool } tx)
    (present' : ¬ Lacks { d.node with mempool := mempool' } tx) : d.attempt mempool tx = d.attempt mempool' tx := by
  rw [attempt, attempt, fetchInputs_congr included included' present present']
  rfl

/-- Nothing is left to be tried that would be accepted. -/
structure Complete (d : Delivery) (all : List CTransaction) (top : CTxMemPool) : Prop where
  taken : d.Taken all top
  tried : ∀ orphan, d.Follows all orphan → d.P.hashTx orphan ∈ all.map d.P.hashTx ∨ d.Refused all orphan ∨
    Lacks { d.node with mempool := top } orphan

namespace Complete
variable {all : List CTransaction} (complete : d.Complete all top) (listed : Listed d.P d.layout d.pool)
include complete listed

theorem accepts_known (taken : d.Taken txs mempool) (subset : txs ⊆ all) (waiting : d.Waiting orphan)
    (decided : ∀ failed, d.accept mempool orphan = .error failed → ¬ Rejects failed.failure)
    (member : d.P.hashTx orphan ∈ all.map d.P.hashTx) :
    orphan ∈ all ∧ ∃ after, d.accept mempool orphan = .ok after := by
  obtain ⟨screened, fresh, free⟩ := screened_of_accept decided
  have present := screened.present fresh free fun failed error => .inr (decided failed error)
  obtain ⟨tx, inAll, same⟩ := List.mem_map.mp member
  rcases complete.taken.accepted inAll with rfl | ⟨txs', before, after, taken', subset', waiting', accept⟩
  · rw [taken.mapTx.mpr (.inr ⟨taken.mem, same⟩)] at fresh
    cases fresh
  · obtain rfl := waiting'.unique listed waiting same
    have never : ∀ failed, d.accept before tx = .error failed → ¬ Rejects failed.failure := by simp [accept]
    obtain ⟨-, fresh', free'⟩ := screened_of_accept never
    have present' := screened.present fresh' free' fun failed error => .inr (never failed error)
    rw [screened.accept fresh' free', attempt_congr (taken'.included complete.taken subset')
      (taken.included complete.taken subset) present' present] at accept
    obtain ⟨_, passed, -⟩ := bind_eq_ok.mp accept
    exact ⟨inAll, _, by rw [screened.accept fresh free, passed]; rfl⟩

/-- An orphan that is accepted, or makes an exception, after some of the transactions was accepted among them. -/
theorem accepts (apart : d.Apart) (taken : d.Taken txs mempool) (subset : txs ⊆ all) (follows : d.Follows txs orphan)
    (decided : ∀ failed, d.accept mempool orphan = .error failed → ¬ Rejects failed.failure) :
    orphan ∈ all ∧ ∃ after, d.accept mempool orphan = .ok after := by
  obtain ⟨screened, fresh, free⟩ := screened_of_accept decided
  have present := screened.present fresh free fun failed error => .inr (decided failed error)
  have included := taken.included complete.taken subset
  have known := complete.accepts_known listed taken subset follows.1 decided
  obtain ⟨waiting, parent, inside, spent⟩ := follows
  rcases complete.tried orphan ⟨waiting, parent, subset inside, spent⟩ with
    member | ⟨txs', before, failed, taken', subset', refused, rejects, found⟩ | lacks
  · exact known member
  · cases held : before.mapTx[d.P.hashTx orphan]? with
    | some tx =>
      rcases taken'.mapTx.mp held with old | ⟨member, same⟩
      · rw [taken.mapTx.mpr (.inl old)] at fresh
        cases fresh
      · exact known (List.mem_map.mpr ⟨tx, subset' member, same⟩)
    | none =>
      cases conflict : before.conflicts orphan with
      | true =>
        -- the output is spent by a transaction that has been accepted, and that is the orphan
        obtain ⟨tx, member, o, spends', spends⟩ : ∃ tx ∈ txs', ∃ o ∈ prevouts tx, o ∈ prevouts orphan := by
          by_contra none
          push Not at none
          have unspent : before.conflicts orphan = false := conflicts_eq_false.mpr fun o spends =>
            taken'.mapNextTx.mpr ⟨(taken.mapNextTx.mp (conflicts_eq_false.mp free o spends)).1,
              fun tx member spends' => none tx member o spends' spends⟩
          rw [conflict] at unspent
          cases unspent
        obtain rfl := apart tx orphan (taken'.received_or_waiting member) waiting o spends' spends
        exact known (List.mem_map_of_mem (subset' member))
      | false =>
        have present' := screened.present held conflict fun failed' error => by
          rw [refused] at error
          cases error
          exact .inl found
        rw [screened.accept held conflict, attempt_congr (taken'.included complete.taken subset') included present'
          present] at refused
        rcases bind_eq_error.mp refused with error | ⟨_, _, impossible⟩
        · exact absurd rejects (decided failed (by rw [screened.accept fresh free, error]; rfl))
        · cases impossible
  · exact absurd (included.lacks lacks) present

theorem subset (apart : d.Apart) (taken : d.Taken txs mempool) : txs ⊆ all := by
  induction taken with
  | first => simpa using complete.taken.mem
  | next taken follows accept ih =>
    have new := (complete.accepts listed apart taken ih follows (by simp [accept])).1
    simpa using ⟨ih, new⟩

end Complete

end Delivery

end RitCoin.Proof
