import RitCoin.Spec.Ledger

/-!
# Valid chains

What holds of the ledger of every valid chain: it is the result of applying the chain's transactions
one after the other, its total stays between 0 and `MAX_MONEY`, and no created output is negative.
-/

namespace RitCoin.Spec
open Lib Model
variable {P : Primitives} {height nSigOps : ℕ} {txs done : List CTransaction} {e : TxRef × CTransaction}
  {blocks : List CBlock} {tx : CTransaction} {coins : Ledger P} {now : Int} {block : CBlock}

theorem place_lt_place {i height' i' : ℕ} :
    place height i < place height' i' ↔ height < height' ∨ height = height' ∧ i < i' :=
  Prod.Lex.toLex_lt_toLex

@[simp] theorem height_place (height i : ℕ) : (place height i).height = height := rfl

@[simp] theorem index_place (height i : ℕ) : (place height i).index = i := rfl

theorem place_height_index (ref : TxRef) : place ref.height ref.index = ref := rfl

def placedTxs (height : ℕ) (txs : List CTransaction) : List (TxRef × CTransaction) :=
  txs.zipIdx.map fun item => (place height item.2, item.1)

/-- The transactions of the blocks above genesis in chain order. -/
def historyOf (blocks : List CBlock) : List (TxRef × CTransaction) :=
  (blocks.zipIdx 1).flatMap fun item => placedTxs item.2 item.1.vtx

theorem placedTxs_append (height : ℕ) (done : List CTransaction) (tx : CTransaction) :
    placedTxs height (done ++ [tx]) = placedTxs height done ++ [(place height done.length, tx)] := by
  simp [placedTxs, List.zipIdx_append]

theorem historyOf_append (blocks : List CBlock) (block : CBlock) :
    historyOf (blocks ++ [block]) = historyOf blocks ++ placedTxs (blocks.length + 1) block.vtx := by
  simp [historyOf, List.zipIdx_append, Nat.add_comm 1]

theorem ledgerOf_append (blocks : List CBlock) (block : CBlock) :
    ledgerOf P (blocks ++ [block]) =
      connectTxs (blocks.length + 1) 0 (ledgerOf P blocks) block.vtx := by
  simp [ledgerOf, List.zipIdx_append, Nat.add_comm 1]

theorem mem_placedTxs : e ∈ placedTxs height txs ↔ e.1.height = height ∧ txs[e.1.index]? = some e.2 := by
  obtain ⟨ref, tx⟩ := e
  simp only [placedTxs, List.mem_map, Prod.mk.injEq, Prod.exists, List.mk_mem_zipIdx_iff_getElem?]
  constructor
  · rintro ⟨_, i, found, rfl, rfl⟩
    exact ⟨rfl, found⟩
  · rintro ⟨rfl, found⟩
    exact ⟨tx, ref.index, found, rfl, rfl⟩

theorem mem_historyOf :
    e ∈ historyOf blocks ↔ ∃ k block, e.1.height = k + 1 ∧ blocks[k]? = some block ∧
      block.vtx[e.1.index]? = some e.2 := by
  simp only [historyOf, List.mem_flatMap, Prod.exists, List.mk_mem_zipIdx_iff_le_and_getElem?_sub,
    mem_placedTxs]
  constructor
  · rintro ⟨block, height, ⟨low, found⟩, rfl, member⟩
    exact ⟨_, block, (Nat.sub_add_cancel low).symm, found, member⟩
  · rintro ⟨k, block, height, found, member⟩
    exact ⟨block, k + 1, ⟨by omega, by simpa using found⟩, height, member⟩

theorem historyOf_lt (member : e ∈ historyOf blocks) : e.1 < place (blocks.length + 1) 0 := by
  obtain ⟨k, block, height, found, _⟩ := mem_historyOf.mp member
  have := (List.getElem?_eq_some_iff.mp found).1
  rw [← place_height_index e.1, place_lt_place]
  omega

theorem outpoint_injective : Function.Injective fun o : COutPoint => (o.hash, o.n.toNat) := by
  rintro ⟨hash, n⟩ ⟨hash', n'⟩ h
  simp only [Prod.mk.injEq, UInt32.toNat_inj] at h
  simp [h]

theorem form_spends (spending : tx.isCoinBase = false) : (form P).spends tx = tx.vin.map outpoint := by
  simp [form, spending]

theorem form_spends_coinbase (coinbase : tx.isCoinBase = true) : (form P).spends tx = [] := by
  simp [form, coinbase]

theorem TxOk.applicable {start : Ledger P} (ok : TxOk start coins height nSigOps tx)
    (checked : tx.checkTransaction = .ok ()) : coins.Applicable tx := by
  cases kind : tx.isCoinBase with
  | true => exact ⟨by simp [form_spends_coinbase kind], by simp [form_spends_coinbase kind]⟩
  | false =>
    constructor
    · rw [form_spends kind]
      have nodup := (tx.checkTransaction_nodup checked).map outpoint_injective
      rwa [List.map_map] at nodup
    · intro o member
      rw [form_spends kind] at member
      obtain ⟨txin, inVin, rfl⟩ := List.mem_map.mp member
      obtain ⟨i, found⟩ := List.getElem?_of_mem inVin
      obtain ⟨c, txout, lookup, input⟩ := (ok.inputs kind).each i txin found
      exact ⟨c, lookup, input.unspent⟩

section Inputs
variable {coins : Ledger P} {height : ℕ} {tx coinbase : CTransaction}

theorem InputsOk.mono {height' : ℕ} (ok : InputsOk coins height tx) (le : height ≤ height') :
    InputsOk coins height' tx := by
  refine ⟨fun i txin input => ?_, ok.range, ok.fee⟩
  obtain ⟨c, txout, coin, inputOk⟩ := ok.each i txin input
  exact ⟨c, txout, coin, { inputOk with mature := fun isCoinBase => (inputOk.mature isCoinBase).trans (by omega) }⟩

section SameLookup
variable {coins' : Ledger P} (same : ∀ txin ∈ tx.vin, coins' txin.prevout.hash = coins txin.prevout.hash)
include same

theorem valueIn_congr : valueIn coins' tx = valueIn coins tx := by
  cases kind : tx.isCoinBase with
  | true => simp [valueIn, form_spends_coinbase kind]
  | false =>
    rw [valueIn, valueIn, form_spends kind, List.map_map, List.map_map]
    congr 1
    apply List.map_congr_left
    intro txin member
    simp [Coins.value, outpoint, same txin member]

theorem InputsOk.congr (ok : InputsOk coins height tx) : InputsOk coins' height tx := by
  refine ⟨fun i txin input => ?_, ?_, ?_⟩
  · rw [same txin (List.mem_of_getElem? input)]
    exact ok.each i txin input
  · rw [valueIn_congr same]
    exact ok.range
  · rw [valueIn_congr same]
    exact ok.fee

theorem sigOps_congr : sigOps coins' tx = sigOps coins tx := by
  have each : tx.vin.map (inputSigOps coins') = tx.vin.map (inputSigOps coins) := by
    apply List.map_congr_left
    intro txin member
    rw [inputSigOps, inputSigOps, same txin member]
  rw [sigOps, sigOps, each]

end SameLookup

theorem lookup_after_coinbase (ok : InputsOk coins height tx) (isCoinBase : coinbase.isCoinBase = true)
    (free : coins.Free (P.hashTx coinbase)) (loc : TxRef) :
    ∀ txin ∈ tx.vin, coins.apply loc coinbase txin.prevout.hash = coins txin.prevout.hash := by
  intro txin member
  obtain ⟨i, input⟩ := List.getElem?_of_mem member
  obtain ⟨c, txout, coin, inputOk⟩ := ok.each i txin input
  have ne : txin.prevout.hash ≠ P.hashTx coinbase := by
    intro same
    rw [same] at coin
    exact free c coin (List.mem_of_getElem? inputOk.unspent)
  rw [Coins.apply_of_ne coins loc coinbase ne, form_spends_coinbase isCoinBase]
  rfl

theorem sigOps_coinbase (coins : Ledger P) (isCoinBase : coinbase.isCoinBase = true) :
    sigOps coins coinbase = coinbase.getLegacySigOpCount := by
  simp [sigOps, isCoinBase]

end Inputs

private theorem TxsOk.run_from {start : Ledger P} (R : List CTransaction → Ledger P → Prop)
    (step : ∀ done tx rest coins nSigOps, txs = done ++ tx :: rest → R done coins →
      TxOk start coins height nSigOps tx → R (done ++ [tx]) (coins.apply (place height done.length) tx)) :
    ∀ (rest done : List CTransaction) (nSigOps : ℕ) (coins : Ledger P), txs = done ++ rest →
      TxsOk start height done.length nSigOps coins rest → R done coins →
      R txs (connectTxs height done.length coins rest) := by
  intro rest
  induction rest with
  | nil => intro done nSigOps coins split _ h; simpa [split, connectTxs] using h
  | cons tx rest ih =>
    intro done nSigOps coins split ok h
    have next := ih (done ++ [tx]) (nSigOps + sigOps coins tx)
      (coins.apply (place height done.length) tx) (by simp [split])
    simp only [List.length_append, List.length_singleton] at next
    exact next ok.2 (step done tx rest coins nSigOps split h ok.1)

theorem TxsOk.run {start : Ledger P} (R : List CTransaction → Ledger P → Prop)
    (step : ∀ done tx rest coins nSigOps, txs = done ++ tx :: rest → R done coins →
      TxOk start coins height nSigOps tx → R (done ++ [tx]) (coins.apply (place height done.length) tx))
    (ok : TxsOk start height 0 nSigOps coins txs) (first : R [] coins) : R txs (connectTxs height 0 coins txs) :=
  TxsOk.run_from R step txs [] nSigOps coins rfl ok first

theorem TxsOk.outputs {start : Ledger P} (txs : List CTransaction) :
    ∀ (i nSigOps : ℕ) (coins : Ledger P), TxsOk start height i nSigOps coins txs →
      ∀ tx ∈ txs, ∃ v, tx.getValueOut = .ok v := by
  induction txs with
  | nil => simp
  | cons tx rest ih =>
    intro i nSigOps coins ok tx' member
    rcases List.mem_cons.mp member with rfl | member
    · exact ok.1.outputs
    · exact ih _ _ _ ok.2 tx' member

section Run
variable {R : List (TxRef × CTransaction) → Ledger P → Prop}
  (step : ∀ history start coins height nSigOps i tx, Coins.Applied history coins → R history coins →
    (∀ e ∈ history, e.1 < place height i) → TxOk start coins height nSigOps tx →
    R (history ++ [(place height i, tx)]) (coins.apply (place height i) tx))
include step

theorem Accepts.run (accepts : Accepts now (ledgerOf P blocks) (blocks.length + 1) block)
    (applied : Coins.Applied (historyOf blocks) (ledgerOf P blocks))
    (holds : R (historyOf blocks) (ledgerOf P blocks)) :
    Coins.Applied (historyOf (blocks ++ [block])) (ledgerOf P (blocks ++ [block])) ∧
      R (historyOf (blocks ++ [block])) (ledgerOf P (blocks ++ [block])) := by
  rw [historyOf_append, ledgerOf_append]
  refine TxsOk.run (fun done coins =>
      Coins.Applied (historyOf blocks ++ placedTxs (blocks.length + 1) done) coins ∧
        R (historyOf blocks ++ placedTxs (blocks.length + 1) done) coins)
    ?_ accepts.txs (by simpa [placedTxs] using ⟨applied, holds⟩)
  rintro done tx rest coins nSigOps split ⟨applied, holds⟩ ok
  have checked : tx.checkTransaction = .ok () := accepts.checked.txs tx (by simp [split])
  have later : ∀ e ∈ historyOf blocks ++ placedTxs (blocks.length + 1) done,
      e.1 < place (blocks.length + 1) done.length := by
    intro e member
    rcases List.mem_append.mp member with old | new
    · exact (historyOf_lt old).trans_le (Prod.Lex.toLex_le_toLex.mpr (.inr ⟨rfl, Nat.zero_le _⟩))
    · obtain ⟨height, found⟩ := mem_placedTxs.mp new
      have := (List.getElem?_eq_some_iff.mp found).1
      rw [← place_height_index e.1, place_lt_place]
      omega
  rw [placedTxs_append, ← List.append_assoc]
  exact ⟨.next applied later (ok.applicable checked),
    step _ _ coins _ nSigOps _ tx applied holds later ok⟩

theorem ValidChain.run (valid : ValidChain P blocks) (first : R [] fun _ => none) :
    Coins.Applied (historyOf blocks) (ledgerOf P blocks) ∧ R (historyOf blocks) (ledgerOf P blocks) := by
  induction valid with
  | genesis => exact ⟨.start, first⟩
  | extend _ accepts ih => exact accepts.run step ih.1 ih.2

end Run

theorem ValidChain.applied (valid : ValidChain P blocks) : Coins.Applied (historyOf blocks) (ledgerOf P blocks) :=
  (valid.run (R := fun _ _ => True) (fun _ _ _ _ _ _ _ _ _ _ _ => trivial) trivial).1

def Matured (P : Primitives) (history : List (TxRef × CTransaction)) : Prop :=
  ∀ p q o, Coins.Consumes (form P) history p q o → p.2.isCoinBase = true →
    (p.1.height : Int) + nCoinbaseMaturity ≤ q.1.height

theorem Matured.next {history : List (TxRef × CTransaction)} {start : Ledger P} {i : ℕ}
    (applied : Coins.Applied history coins) (matured : Matured P history)
    (later : ∀ e ∈ history, e.1 < place height i) (ok : TxOk start coins height nSigOps tx) :
    Matured P (history ++ [(place height i, tx)]) := by
  intro p q o consumes coinbase
  rcases List.mem_append.mp consumes.spender with old | new
  · exact matured p q o (consumes.of_append later old) coinbase
  · obtain rfl := List.mem_singleton.mp new
    have spends : o ∈ (form P).spends tx := consumes.spends
    have spending : tx.isCoinBase = false := by
      by_contra kind
      rw [form_spends_coinbase (by simpa using kind)] at spends
      cases spends
    rw [form_spends spending] at spends
    obtain ⟨txin, inVin, rfl⟩ := List.mem_map.mp spends
    obtain ⟨k, found⟩ := List.getElem?_of_mem inVin
    obtain ⟨c, txout, lookup, input⟩ := (ok.inputs spending).each k txin found
    obtain rfl := applied.consumed_eq later consumes lookup
    exact input.mature coinbase

theorem ValidChain.matured (valid : ValidChain P blocks) : Matured P (historyOf blocks) := by
  refine (valid.run (R := fun history _ => Matured P history) ?_ ?_).2
  · intro history start coins height nSigOps i tx applied matured later ok
    exact matured.next applied later ok
  · intro p q o consumes
    cases consumes.creator

/-- Ids that no unspent output was under before the block are left alone until a transaction of the
block takes them. -/
def Untouched (start coins : Ledger P) (done : List CTransaction) : Prop :=
  ∀ id, start.Free id → id ∉ done.map P.hashTx → coins id = start id

theorem Untouched.apply {start : Ledger P} (untouched : Untouched start coins done)
    (applicable : coins.Applicable tx) (loc : TxRef) : Untouched start (coins.apply loc tx) (done ++ [tx]) := by
  intro id free fresh
  obtain ⟨old, new⟩ : id ∉ done.map P.hashTx ∧ id ≠ P.hashTx tx := by simpa using fresh
  rw [Coins.apply_of_ne coins loc tx new, Coins.spendAll_of_not_mem, untouched id free old]
  rintro o member rfl
  obtain ⟨c, found, unspent⟩ := applicable.unspent o member
  rw [untouched o.1 free old] at found
  exact free c found (List.mem_of_getElem? unspent)

theorem Untouched.free {start : Ledger P} {id : Uint256} (untouched : Untouched start coins done)
    (free : start.Free id) (fresh : id ∉ done.map P.hashTx) : coins.Free id := by
  intro c found
  rw [untouched id free fresh] at found
  exact free c found

/-- The ledger between two transactions of a block: what the next one creates overwrites nothing. -/
structure Midway (start coins : Ledger P) (done : List CTransaction) : Prop where
  untouched : Untouched start coins done
  finite : coins.Finite

theorem Midway.start {start : Ledger P} (finite : start.Finite) : Midway start start [] :=
  ⟨fun _ _ _ => rfl, finite⟩

section Midway
variable {start coins : Ledger P} {done : List CTransaction} {height nSigOps : ℕ} {tx : CTransaction}
variable (midway : Midway start coins done) (ok : TxOk start coins height nSigOps tx)
  (checked : tx.checkTransaction = .ok ())
include midway ok checked

theorem Midway.apply (loc : TxRef) : Midway start (coins.apply loc tx) (done ++ [tx]) :=
  ⟨midway.untouched.apply (ok.applicable checked) loc,
    Coins.finite_apply midway.finite loc tx (ok.applicable checked)⟩

theorem Midway.total_apply (fresh : P.hashTx tx ∉ done.map P.hashTx) (loc : TxRef) :
    (coins.apply loc tx).total = coins.total - valueIn coins tx + valueOut P tx :=
  Coins.total_apply midway.finite loc tx (ok.applicable checked) (midway.untouched.free ok.free fresh)

end Midway

theorem not_mem_of_split (checked : block.Checked P now) {rest : List CTransaction}
    (split : block.vtx = done ++ tx :: rest) : P.hashTx tx ∉ done.map P.hashTx := by
  have nodup := checked.nodup
  rw [split, List.map_append, List.map_cons] at nodup
  intro member
  exact (List.nodup_append.mp nodup).2.2 _ member _ (.head _) rfl

theorem Accepts.total_le {start : Ledger P} (accepts : Accepts now start height block) (finite : start.Finite) :
    (connectTxs height 0 start block.vtx).Finite ∧
      (connectTxs height 0 start block.vtx).total ≤ MAX_MONEY.toInt := by
  obtain ⟨coinbase, others, vtx, isCoinBase, single⟩ := accepts.checked.exists_coinbase
  have run := TxsOk.run (fun done coins => Midway start coins done ∧
      coins.total ≤ start.total + done.head?.elim 0 (valueOut P)) ?_ accepts.txs
    ⟨.start finite, by simp⟩
  · have reward := accepts.reward coinbase (by simp [vtx])
    have bound := run.2
    simp only [vtx, List.head?_cons, Option.elim_some] at bound
    exact ⟨run.1.finite, by rw [vtx]; omega⟩
  · rintro done tx rest coins nSigOps split ⟨midway, bound⟩ ok
    have checked : tx.checkTransaction = .ok () := accepts.checked.txs tx (by simp [split])
    refine ⟨midway.apply ok checked _, ?_⟩
    rw [midway.total_apply ok checked (not_mem_of_split accepts.checked split)]
    cases done with
    | nil =>
      have first : tx = coinbase := by
        rw [vtx, List.nil_append] at split
        exact (List.cons.inj split).1.symm
      simp only [List.head?_nil, Option.elim_none, add_zero] at bound
      simp only [valueIn, first, form_spends_coinbase isCoinBase, List.map_nil, List.sum_nil,
        List.nil_append, List.head?_cons, Option.elim_some]
      omega
    | cons first done =>
      have spending : tx.isCoinBase = false := by
        apply single
        have tail : others = done ++ tx :: rest := by
          rw [vtx, List.cons_append] at split
          exact (List.cons.inj split).2
        simp [tail]
      have fee := (ok.inputs spending).fee
      have : TX_FEE.toInt = 1000000 := by decide
      simp only [List.head?_cons, Option.elim_some, List.cons_append] at bound ⊢
      omega

theorem ValidChain.outputs (valid : ValidChain P blocks) :
    ∀ e ∈ historyOf blocks, ∃ v, e.2.getValueOut = .ok v := by
  induction valid with
  | genesis => simp [historyOf]
  | extend _ accepts ih =>
    intro e member
    rw [historyOf_append] at member
    rcases List.mem_append.mp member with old | new
    · exact ih e old
    · exact accepts.txs.outputs _ _ _ _ e.2 (List.mem_of_getElem? (mem_placedTxs.mp new).2)

theorem total_ledgerOf_nil : (ledgerOf P []).total = 0 := by
  simp [Coins.total, Coins.worth, ledgerOf]

theorem ValidChain.total_le (valid : ValidChain P blocks) :
    (ledgerOf P blocks).Finite ∧ (ledgerOf P blocks).total ≤ MAX_MONEY.toInt := by
  induction valid with
  | genesis =>
    refine ⟨by simp [Coins.Finite, ledgerOf], ?_⟩
    rw [total_ledgerOf_nil]
    decide
  | extend _ accepts ih =>
    rw [ledgerOf_append]
    exact accepts.total_le ih.1

theorem ValidChain.total_nonneg (valid : ValidChain P blocks) : 0 ≤ (ledgerOf P blocks).total := by
  apply Coins.total_nonneg
  intro id c found v member
  obtain ⟨txout, inVout, rfl⟩ := List.mem_map.mp member
  obtain ⟨sum, getValueOut⟩ := valid.outputs _ (valid.applied.records id c found).created
  exact (CTransaction.getValueOut_eq_ok getValueOut).2.1 txout inVout

end RitCoin.Spec
