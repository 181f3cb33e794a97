import RitCoin.Proof.FetchInputs

namespace RitCoin.Proof
open Lib Model Spec
variable {v : Int64} {txin : CTxIn} {txout : CTxOut} {i height : ℕ} {state : MapPrevTx × TxIndexMap}
  {P : Primitives} {node : Node} {txdb : TxDB} {pindex : CBlockIndex} {full : List Placed} {start coins : Ledger P}
  {queue : TxIndexMap} {tx : CTransaction} {inputs : MapPrevTx}

theorem moneyRange_iff : moneyRange v ↔ 0 ≤ v.toInt ∧ v.toInt ≤ MAX_MONEY.toInt := by
  simp only [moneyRange, Bool.and_eq_true, decide_eq_true_eq, Int64.le_iff_toInt_le, Int64.toInt_zero]

theorem toInt_add_of_moneyRange {w : Int64} (hv : moneyRange v) (hw : moneyRange w) :
    (v + w).toInt = v.toInt + w.toInt := by
  have := moneyRange_iff.mp hv
  have := moneyRange_iff.mp hw
  have : MAX_MONEY.toInt = 10000000000000000 := by decide
  rw [Int64.toInt_add, Int.bmod_eq_of_le] <;> omega

structure Cheap (height : ℕ) (tx : CTransaction) (c : Coin (form P) TxRef) (txout : CTxOut) : Prop where
  mature : c.tx.isCoinBase → (c.loc.height : Int) + nCoinbaseMaturity ≤ height
  time : c.tx.nTime ≤ tx.nTime
  value : moneyRange txout.nValue

section
variable (backed : Backed node txdb pindex full height start) (standing : Standing full coins)
  (fetched : Fetched full coins tx inputs)
include backed standing fetched

theorem checkInput_eq_ok (member : txin ∈ tx.vin) {c : Coin (form P) TxRef}
    (coin : coins txin.prevout.hash = some c) (found : c.tx.vout[txin.prevout.n.toNat]? = some txout) {v' : Int64} :
    CTransaction.checkInput node tx inputs pindex v txin = .ok v' ↔
      Cheap height tx c txout ∧ moneyRange v' ∧ v' = v + txout.nValue := by
  have bound : txin.prevout.n.toNat < c.tx.vout.length := (List.getElem?_eq_some_iff.mp found).1
  obtain ⟨_, _, low⟩ := backed.readTx (standing _ c coin)
  have immature := backed.immature c.loc low
  have pos : (indexed full c).pos = some (diskPos full c.loc) := rfl
  have inRange : CTransaction.prevoutOutOfRange (entry full c) txin.prevout = false := by
    rw [Bool.eq_false_iff, ne_eq, CTransaction.prevoutOutOfRange, Bool.or_eq_true,
      decide_eq_true_iff, decide_eq_true_iff, entry, indexed_length]
    dsimp only
    omega
  rw [CTransaction.checkInput, fetched txin member, coin]
  simp only [Option.map_some, entry, seq_eq_ok, failIf_eq_ok, pure_eq_ok, found, Option.getD_some]
  simp only [entry] at inRange
  simp only [inRange, pos, immature, Bool.false_eq_true, not_false_eq_true, true_and, not_and, not_or, not_not]
  constructor
  · rintro ⟨mature, time, ⟨value, sum⟩, rfl⟩
    exact ⟨⟨fun h => by have := mature h; omega, by simpa using time, value⟩, sum, rfl⟩
  · rintro ⟨⟨mature, time, value⟩, sum, rfl⟩
    exact ⟨fun h => by have := mature h; omega, by simpa using time, ⟨value, sum⟩, rfl⟩

theorem checkInputs_sound (spending : tx.isCoinBase = false) (present : ∀ txin ∈ tx.vin, Present coins txin)
    (loop : tx.vin.foldlM (CTransaction.checkInput node tx inputs pindex) 0 = .ok v) :
    (∀ txin ∈ tx.vin, ∀ c txout, coins txin.prevout.hash = some c →
      c.tx.vout[txin.prevout.n.toNat]? = some txout → Cheap height tx c txout) ∧
    v.toInt = valueIn coins tx ∧ moneyRange v := by
  have all := foldlM_ok_rel (fun done (v : Int64) => (∀ txin ∈ done, txin ∈ tx.vin) →
      (∀ txin ∈ done, ∀ c txout, coins txin.prevout.hash = some c →
        c.tx.vout[txin.prevout.n.toNat]? = some txout → Cheap height tx c txout) ∧
      v.toInt = ((done.map outpoint).map coins.value).sum ∧ moneyRange v) ?_ tx.vin [] 0 v
    (by intro _; exact ⟨by simp, by simp, by decide⟩) loop
  · simpa [valueIn, form_spends spending] using all (by simp)
  · intro done txin v v' before round inside
    obtain ⟨cheap, sum, range⟩ := before (fun txin member => inside txin (by simp [member]))
    have member : txin ∈ tx.vin := inside txin (by simp)
    obtain ⟨c, txout, coin, found⟩ := present txin member
    obtain ⟨now, range', rfl⟩ := (checkInput_eq_ok backed standing fetched member coin found).mp round
    refine ⟨?_, ?_, range'⟩
    · intro txin' member' c' txout' coin' found'
      rcases List.mem_append.mp member' with old | new
      · exact cheap txin' old c' txout' coin' found'
      · rw [List.mem_singleton.mp new, coin] at coin'
        cases coin'
        rw [List.mem_singleton.mp new, found] at found'
        cases found'
        exact now
    · simp only [List.map_append, List.map_cons, List.map_nil, List.sum_append, List.sum_cons,
        List.sum_nil, value_outpoint coin found, add_zero, ← sum]
      exact toInt_add_of_moneyRange range now.value

theorem checkInputs_complete (spending : tx.isCoinBase = false)
    (cheap : ∀ txin ∈ tx.vin, ∃ c txout, coins txin.prevout.hash = some c ∧
      c.tx.vout[txin.prevout.n.toNat]? = some txout ∧ Cheap height tx c txout)
    (range : valueIn coins tx ≤ MAX_MONEY.toInt) :
    ∃ v, tx.vin.foldlM (CTransaction.checkInput node tx inputs pindex) 0 = .ok v := by
  have positive : ∀ txin ∈ tx.vin, 0 ≤ coins.value (outpoint txin) := by
    intro txin member
    obtain ⟨c, txout, coin, found, ok⟩ := cheap txin member
    rw [value_outpoint coin found]
    exact (moneyRange_iff.mp ok.value).1
  obtain ⟨v, loop, _⟩ := foldlM_complete (CTransaction.checkInput node tx inputs pindex) tx.vin
    (fun done (v : Int64) => v.toInt = ((done.map outpoint).map coins.value).sum ∧ moneyRange v) 0
    ⟨rfl, by decide⟩ (by
      rintro done txin rest v split ⟨sum, low⟩
      have member : txin ∈ tx.vin := by simp [split]
      obtain ⟨c, txout, coin, found, ok⟩ := cheap txin member
      have step := toInt_add_of_moneyRange low ok.value
      have total : valueIn coins tx = v.toInt + txout.nValue.toInt
          + ((rest.map outpoint).map coins.value).sum := by
        simp only [valueIn, form_spends spending, split, List.map_append, List.map_cons,
          List.sum_append, List.sum_cons, value_outpoint coin found, sum]
        ring
      have rest0 : 0 ≤ ((rest.map outpoint).map coins.value).sum := by
        apply List.sum_nonneg
        simp only [List.map_map, List.mem_map, Function.comp_apply, forall_exists_index, and_imp,
          forall_apply_eq_imp_iff₂]
        exact fun txin' member' => positive txin' (by simp [split, member'])
      have range' : moneyRange (v + txout.nValue) := by
        have := (moneyRange_iff.mp low).1
        have := (moneyRange_iff.mp ok.value).1
        rw [moneyRange_iff, step]
        omega
      refine ⟨_, (checkInput_eq_ok backed standing fetched member coin found).mpr
        ⟨ok, range', rfl⟩, ?_, range'⟩
      simp [step, sum, value_outpoint coin found])
  exact ⟨v, loop⟩

end

theorem verifySignature_eq_ok {c : Coin (form P) TxRef} (input : tx.vin[i]? = some txin)
    (hash : P.hashTx c.tx = txin.prevout.hash) (found : c.tx.vout[txin.prevout.n.toNat]? = some txout)
    (fStrict : Bool) :
    CTransaction.verifySignature P c.tx tx i fStrict 0 =
      .ok (P.verifyScript txin.scriptSig txout.scriptPubKey tx i fStrict 0) := by
  simp [CTransaction.verifySignature, input, found, hash, pure, Except.pure]

def MarksMore (earlier later : MapPrevTx) : Prop :=
  ∀ (h : Uint256) txindex' txPrev, later[h]? = some (txindex', txPrev) →
    ∃ txindex, earlier[h]? = some (txindex, txPrev) ∧
      ∀ n : ℕ, txindex'.vSpent[n]?.join = none → txindex.vSpent[n]?.join = none

theorem MarksMore.refl (inputs : MapPrevTx) : MarksMore inputs inputs :=
  fun _ txindex _ found => ⟨txindex, found, fun _ => id⟩

theorem join_set {vSpent : List CDiskTxPos} {k n : ℕ} {pos : DiskPos}
    (free : (vSpent.set k (some pos))[n]?.join = none) : vSpent[n]?.join = none := by
  rw [List.getElem?_set] at free
  split at free
  · next same =>
      split at free
      · cases free
      · next high => rw [← same, List.getElem?_eq_none (by omega), Option.join_none]
  · exact free

theorem MarksMore.insert {inputs state : MapPrevTx} (more : MarksMore inputs state) {h : Uint256}
    {txindex : CTxIndex} {txPrev : CTransaction} (found : state[h]? = some (txindex, txPrev)) (k : ℕ)
    (pos : DiskPos) :
    MarksMore inputs (state.insert h ({ txindex with vSpent := txindex.vSpent.set k (some pos) }, txPrev)) := by
  intro h' txindex' txPrev' found'
  rw [Std.ExtTreeMap.getElem?_insert] at found'
  split at found'
  · next same =>
      cases found'
      obtain rfl := Std.LawfulEqOrd.eq_of_compare same
      obtain ⟨first, lookup, fewer⟩ := more h txindex txPrev found
      exact ⟨first, lookup, fun n free => fewer n (join_set free)⟩
  · exact more h' txindex' txPrev' found'

section Anywhere
variable {posThisTx : DiskPos} {fBlock fMiner : Bool}

theorem spendInput_checked (best : 0 ≤ node.nBestHeight) {state' : MapPrevTx × TxIndexMap} {item : CTxIn × ℕ}
    (round : CTransaction.spendInput P node tx posThisTx fBlock fMiner true state item = .ok state') :
    ∃ txindex txPrev, state.1[item.1.prevout.hash]? = some (txindex, txPrev) ∧
      txindex.vSpent[item.1.prevout.n.toNat]?.join = none ∧
      CTransaction.verifySignature P txPrev tx item.2 true 0 = .ok true ∧
      state'.1 = state.1.insert item.1.prevout.hash
        ({ txindex with vSpent := txindex.vSpent.set item.1.prevout.n.toNat (some posThisTx) }, txPrev) := by
  have high : ¬ (fBlock = true ∧ node.nBestHeight < CTransaction.getTotalBlocksEstimate) :=
    fun h => absurd h.2 (not_lt.mpr best)
  cases found : state.1[item.1.prevout.hash]? with
  | none => simp [CTransaction.spendInput, found] at round
  | some entry =>
    obtain ⟨txindex, txPrev⟩ := entry
    simp only [CTransaction.spendInput, found, failIf_eq_ok, high, not_false_eq_true, if_true, bind_eq_ok,
      ne_eq, not_not] at round
    obtain ⟨_, free, valid, signature, rest⟩ := round
    cases valid with
    | true =>
      simp only [not_true_eq_false, if_false, pure_eq_ok] at rest
      exact ⟨txindex, txPrev, rfl, free, signature, by rw [← rest]⟩
    | false =>
      simp only [Bool.false_eq_true, not_false_eq_true, if_true, bind_eq_ok] at rest
      obtain ⟨_, _, _, _, _, thrown, _⟩ := rest
      cases thrown

theorem spendInputs_checked (best : 0 ≤ node.nBestHeight)
    (loop : tx.vin.zipIdx.foldlM (CTransaction.spendInput P node tx posThisTx fBlock fMiner true)
      (inputs, queue) = .ok state)
    (input : tx.vin[i]? = some txin) :
    ∃ txindex txPrev, inputs[txin.prevout.hash]? = some (txindex, txPrev) ∧
      txindex.vSpent[txin.prevout.n.toNat]?.join = none ∧
      CTransaction.verifySignature P txPrev tx i true 0 = .ok true := by
  have all := foldlM_ok_rel (fun (done : List (CTxIn × ℕ)) (state : MapPrevTx × TxIndexMap) =>
      MarksMore inputs state.1 ∧ ∀ item ∈ done, ∃ txindex txPrev,
        inputs[item.1.prevout.hash]? = some (txindex, txPrev) ∧
        txindex.vSpent[item.1.prevout.n.toNat]?.join = none ∧
        CTransaction.verifySignature P txPrev tx item.2 true 0 = .ok true) ?_ tx.vin.zipIdx []
    (inputs, queue) state ⟨.refl inputs, by simp⟩ loop
  · exact all.2 (txin, i) (by simpa [List.mem_zipIdx_iff_getElem?] using input)
  · rintro done item state state' ⟨more, each⟩ round
    obtain ⟨txindex, txPrev, found, free, signature, next⟩ := spendInput_checked best round
    refine ⟨next ▸ more.insert found _ _, ?_⟩
    intro item' member
    rcases List.mem_append.mp member with old | new
    · exact each item' old
    · obtain rfl := List.mem_singleton.mp new
      obtain ⟨first, lookup, fewer⟩ := more _ _ _ found
      exact ⟨first, txPrev, lookup, fewer _ free, signature⟩

end Anywhere

theorem join_indexed {c : Coin (form P) TxRef} (found : c.tx.vout[txin.prevout.n.toNat]? = some txout) :
    (indexed full c).vSpent[txin.prevout.n.toNat]?.join = none ↔
      c.spent[txin.prevout.n.toNat]? = some none := by
  have bound : txin.prevout.n.toNat < c.spent.length := by
    have := (List.getElem?_eq_some_iff.mp found).1
    rw [c.sized, form_values, List.length_map]
    exact this
  rw [indexed_getElem?, List.getElem?_eq_getElem bound]
  cases c.spent[txin.prevout.n.toNat] <;> simp

theorem spendInput_eq_ok (backed : Backed node txdb pindex full height start) (standing : Standing full coins)
    (fetched : Fetched full coins tx inputs) (input : tx.vin[i]? = some txin) {c : Coin (form P) TxRef}
    (coin : coins txin.prevout.hash = some c) (found : c.tx.vout[txin.prevout.n.toNat]? = some txout)
    (loc : TxRef) :
    CTransaction.spendInput P node tx (diskPos full loc) true false true (inputs, queue) (txin, i) =
        .ok state ↔
      c.spent[txin.prevout.n.toNat]? = some none ∧
      P.verifyScript txin.scriptSig txout.scriptPubKey tx i true 0 ∧
      state = (inputs.insert txin.prevout.hash (entry full (c.mark txin.prevout.n.toNat loc)),
        queue.insert txin.prevout.hash (indexed full (c.mark txin.prevout.n.toNat loc))) := by
  have signature := verifySignature_eq_ok input (standing _ c coin).hash found
  have best : ¬ node.nBestHeight < CTransaction.getTotalBlocksEstimate := not_lt.mpr backed.best
  rw [CTransaction.spendInput, fetched txin (List.mem_of_getElem? input), coin]
  simp only [Option.map_some, entry, indexed_mark]
  rw [seq_eq_ok, failIf_eq_ok, ne_eq, not_not, join_indexed found]
  cases script : P.verifyScript txin.scriptSig txout.scriptPubKey tx i true 0 with
  | true => simp [signature, best, script, bind, Except.bind, pure, Except.pure, eq_comm]
  | false =>
    simp only [signature, best, script, bind, Except.bind, Bool.false_eq_true, false_and, and_false,
      iff_false, not_and, not_false_eq_true, if_true]
    intro _
    cases P.verifyScript txin.scriptSig txout.scriptPubKey tx i false 0 <;>
      simp [failIf, throw, throwThe, MonadExceptOf.throw]

structure SpentSoFar (txdb : TxDB) (full : List Placed) (coins : Ledger P) (tx : CTransaction)
    (loc : TxRef) (done : List (CTxIn × ℕ)) (state : MapPrevTx × TxIndexMap) : Prop where
  fetched : Fetched full (coins.spendAll loc (done.map fun item => outpoint item.1)) tx state.1
  shown : Shows txdb full state.2 (coins.spendAll loc (done.map fun item => outpoint item.1))

theorem SpentSoFar.next {loc : TxRef} {done : List (CTxIn × ℕ)}
    (spent : SpentSoFar txdb full coins tx loc done state) (txin : CTxIn) (i : ℕ) {c : Coin (form P) TxRef}
    (coin : coins.spendAll loc (done.map fun item => outpoint item.1) txin.prevout.hash = some c) :
    SpentSoFar txdb full coins tx loc (done ++ [(txin, i)])
      (state.1.insert txin.prevout.hash (entry full (c.mark txin.prevout.n.toNat loc)),
        state.2.insert txin.prevout.hash (indexed full (c.mark txin.prevout.n.toNat loc))) := by
  have step : coins.spendAll loc ((done ++ [(txin, i)]).map fun item => outpoint item.1) =
      Function.update (coins.spendAll loc (done.map fun item => outpoint item.1)) txin.prevout.hash
        (some (c.mark txin.prevout.n.toNat loc)) := by
    simp only [Coins.spendAll, List.map_append, List.map_cons, List.map_nil, List.foldl_append,
      List.foldl_cons, List.foldl_nil] at coin ⊢
    rw [Coins.spend, outpoint, coin, Option.map_some]
  constructor
  · intro txin' member
    rw [step]
    by_cases same : txin'.prevout.hash = txin.prevout.hash
    · simp [same]
    · have apart : txin.prevout.hash ≠ txin'.prevout.hash := fun eq => same eq.symm
      simpa [same, apart, Std.ExtTreeMap.getElem?_insert] using spent.fetched txin' member
  · rw [step]
    exact spent.shown.insert _ _

theorem spent_coin (loc : TxRef) (outputs : List (Uint256 × ℕ)) {c : Coin (form P) TxRef}
    (coin : coins txin.prevout.hash = some c) :
    ∃ c', coins.spendAll loc outputs txin.prevout.hash = some c' ∧ c'.tx = c.tx ∧
      (outpoint txin ∉ outputs →
        c'.spent[txin.prevout.n.toNat]? = c.spent[txin.prevout.n.toNat]?) := by
  obtain ⟨c', lookup, tx', _, marks⟩ := Coins.spendAll_some loc outputs coins _ c coin
  refine ⟨c', lookup, tx', ?_⟩
  intro fresh
  rw [marks, if_neg (fun h => fresh h.1)]

theorem map_outpoint_zipIdx (vin : List CTxIn) :
    vin.zipIdx.map (fun item => outpoint item.1) = vin.map outpoint := by
  conv_rhs => rw [← List.zipIdx_map_fst 0 vin]
  rw [List.map_map]
  rfl

section
variable (backed : Backed node txdb pindex full height start) (standing : Standing full coins)
  (fetched : Fetched full coins tx inputs)
include backed standing fetched

theorem spendInputs_sound (shows : Shows txdb full queue coins) (present : ∀ txin ∈ tx.vin, Present coins txin)
    (loc : TxRef)
    (loop : tx.vin.zipIdx.foldlM (CTransaction.spendInput P node tx (diskPos full loc) true false true)
      (inputs, queue) = .ok state) : Shows txdb full state.2 (coins.spendAll loc (tx.vin.map outpoint)) := by
  have all := foldlM_ok_rel (fun done state => (∀ item ∈ done, tx.vin[item.2]? = some item.1) →
      SpentSoFar txdb full coins tx loc done state) ?_ tx.vin.zipIdx []
    (inputs, queue) state (by intro _; exact ⟨fetched, shows⟩) loop
  · rw [← map_outpoint_zipIdx]
    exact (all (by simp [List.mem_zipIdx_iff_getElem?])).shown
  · rintro done ⟨txin, i⟩ state state' before round inside
    have spent := before (fun item member => inside item (by simp [member]))
    have input : tx.vin[i]? = some txin := inside (txin, i) (by simp)
    obtain ⟨c, txout, coin, found⟩ := present txin (List.mem_of_getElem? input)
    obtain ⟨c', lookup, tx', _⟩ := spent_coin loc (done.map fun item => outpoint item.1) coin
    obtain ⟨_, _, rfl⟩ := (spendInput_eq_ok backed (standing.spendAll _ _) spent.fetched
      input lookup (tx' ▸ found) loc).mp round
    exact spent.next txin i lookup

theorem spendInputs_complete (shows : Shows txdb full queue coins) (nodup : (tx.vin.map outpoint).Nodup)
    (ok : ∀ i txin, tx.vin[i]? = some txin → ∃ c txout, coins txin.prevout.hash = some c ∧
      InputOk P height tx i txin c txout) (loc : TxRef) :
    ∃ state, tx.vin.zipIdx.foldlM
      (CTransaction.spendInput P node tx (diskPos full loc) true false true) (inputs, queue) =
        .ok state := by
  obtain ⟨state, loop, _⟩ := foldlM_complete
    (CTransaction.spendInput P node tx (diskPos full loc) true false true) tx.vin.zipIdx
    (SpentSoFar txdb full coins tx loc) (inputs, queue) ⟨fetched, shows⟩ (by
      rintro done ⟨txin, i⟩ rest state split spent
      have input : tx.vin[i]? = some txin := by
        rw [← List.mk_mem_zipIdx_iff_getElem?, split]
        simp
      obtain ⟨c, txout, coin, inputOk⟩ := ok i txin input
      obtain ⟨c', lookup, tx', free⟩ :=
        spent_coin loc (done.map fun item => outpoint item.1) coin
      have fresh : outpoint txin ∉ done.map fun item => outpoint item.1 := by
        rw [← map_outpoint_zipIdx, split, List.map_append, List.map_cons] at nodup
        intro member
        exact (List.nodup_append.mp nodup).2.2 _ member _ (.head _) rfl
      exact ⟨_, (spendInput_eq_ok backed (standing.spendAll _ _) spent.fetched input lookup
        (tx' ▸ inputOk.output) loc).mpr ⟨(free fresh).trans inputOk.unspent, inputOk.script, rfl⟩,
        spent.next txin i lookup⟩)
  exact ⟨state, loop⟩

end

theorem fee_iff {vIn vOut : Int64} (rangeIn : moneyRange vIn) (rangeOut : moneyRange vOut) :
    (¬ vIn < vOut ∧ ¬ vIn - vOut < 0 ∧ ¬ vIn - vOut < TX_FEE ∧ moneyRange (0 + (vIn - vOut))) ↔
      vOut.toInt + TX_FEE.toInt ≤ vIn.toInt := by
  have := moneyRange_iff.mp rangeIn
  have := moneyRange_iff.mp rangeOut
  have max : MAX_MONEY.toInt = 10000000000000000 := by decide
  have fee : TX_FEE.toInt = 1000000 := by decide
  have diff : (vIn - vOut).toInt = vIn.toInt - vOut.toInt := by
    rw [Int64.toInt_sub, Int.bmod_eq_of_le] <;> omega
  rw [Int64.zero_add, moneyRange_iff]
  simp only [Int64.lt_iff_toInt_lt, diff, Int64.toInt_zero]
  omega

variable (backed : Backed node txdb pindex full height start) (standing : Standing full coins)
  (fetched : Fetched full coins tx inputs)
include backed standing fetched

theorem connectInputs_inputsOk (spending : tx.isCoinBase = false) (present : ∀ txin ∈ tx.vin, Present coins txin)
    {posThisTx : DiskPos} {fBlock fMiner : Bool} {queue' : TxIndexMap}
    (connect : tx.connectInputs P node inputs queue posThisTx pindex fBlock fMiner true = .ok queue') :
    InputsOk coins height tx := by
  simp only [CTransaction.connectInputs, spending, Bool.false_eq_true, if_false, bind_eq_ok,
    failIf_eq_ok, pure_eq_ok] at connect
  obtain ⟨vIn, cheapLoop, _, spendLoop, vOut, outputs, _, h₁, _, h₂, _, h₃, _, h₄, _⟩ := connect
  obtain ⟨cheap, sum, range⟩ := checkInputs_sound backed standing fetched spending present cheapLoop
  refine ⟨?_, ?_, ?_⟩
  · intro i txin input
    have member := List.mem_of_getElem? input
    obtain ⟨c, txout, coin, found⟩ := present txin member
    obtain ⟨mature, time, value⟩ := cheap txin member c txout coin found
    obtain ⟨txindex, txPrev, lookup, free, signature⟩ := spendInputs_checked backed.best spendLoop input
    rw [fetched txin member, coin, Option.map_some, entry, Option.some.injEq, Prod.mk.injEq] at lookup
    obtain ⟨rfl, rfl⟩ := lookup
    rw [verifySignature_eq_ok input (standing _ c coin).hash found, Except.ok.injEq] at signature
    exact ⟨c, txout, coin, found, (join_indexed found).mp free, mature, time, value, signature⟩
  · rw [← sum]
    exact (moneyRange_iff.mp range).2
  · obtain ⟨sumOut, _, rangeOut⟩ := CTransaction.getValueOut_eq_ok outputs
    rw [← sum, valueOut, form_values, ← sumOut]
    exact (fee_iff range (moneyRange_iff.mpr rangeOut)).mp ⟨h₁, h₂, h₃, not_not.mp h₄⟩

theorem connectInputs_sound (shows : Shows txdb full queue coins) (spending : tx.isCoinBase = false)
    (present : ∀ txin ∈ tx.vin, Present coins txin) (loc : TxRef) {queue' : TxIndexMap}
    (connect : tx.connectInputs P node inputs queue (diskPos full loc) pindex true false true =
      .ok queue') :
    InputsOk coins height tx ∧ Shows txdb full queue' (coins.spendAll loc (tx.vin.map outpoint)) := by
  refine ⟨connectInputs_inputsOk backed standing fetched spending present connect, ?_⟩
  simp only [CTransaction.connectInputs, spending, Bool.false_eq_true, if_false, bind_eq_ok,
    failIf_eq_ok, pure_eq_ok] at connect
  obtain ⟨_, _, ⟨_, _⟩, spendLoop, _, _, _, _, _, _, _, _, _, _, rfl⟩ := connect
  exact spendInputs_sound backed standing fetched shows present loc spendLoop

theorem connectInputs_complete (shows : Shows txdb full queue coins) (spending : tx.isCoinBase = false)
    (nodup : (tx.vin.map outpoint).Nodup) (ok : InputsOk coins height tx) {vOut : Int64}
    (outputs : tx.getValueOut = .ok vOut) (loc : TxRef) :
    ∃ queue', tx.connectInputs P node inputs queue (diskPos full loc) pindex true false true =
      .ok queue' := by
  have cheap : ∀ txin ∈ tx.vin, ∃ c txout, coins txin.prevout.hash = some c ∧
      c.tx.vout[txin.prevout.n.toNat]? = some txout ∧ Cheap height tx c txout := by
    intro txin member
    obtain ⟨i, input⟩ := List.getElem?_of_mem member
    obtain ⟨c, txout, coin, h⟩ := ok.each i txin input
    exact ⟨c, txout, coin, h.output, h.mature, h.time, h.value⟩
  have present : ∀ txin ∈ tx.vin, Present coins txin := by
    intro txin member
    obtain ⟨c, txout, coin, found, _⟩ := cheap txin member
    exact ⟨c, txout, coin, found⟩
  obtain ⟨vIn, cheapLoop⟩ := checkInputs_complete backed standing fetched spending cheap ok.range
  obtain ⟨state, spendLoop⟩ := spendInputs_complete backed standing fetched shows nodup ok.each loc
  obtain ⟨_, sum, range⟩ := checkInputs_sound backed standing fetched spending present cheapLoop
  obtain ⟨sumOut, _, rangeOut⟩ := CTransaction.getValueOut_eq_ok outputs
  have fee := ok.fee
  rw [← sum, valueOut, form_values, ← sumOut] at fee
  obtain ⟨h₁, h₂, h₃, h₄⟩ := (fee_iff range (moneyRange_iff.mpr rangeOut)).mpr fee
  refine ⟨state.2, ?_⟩
  simp only [CTransaction.connectInputs, spending, Bool.false_eq_true, if_false, bind_eq_ok,
    failIf_eq_ok, pure_eq_ok]
  exact ⟨vIn, cheapLoop, state, spendLoop, vOut, outputs, ⟨⟩, h₁, ⟨⟩, h₂, ⟨⟩, h₃, ⟨⟩, not_not.mpr h₄, rfl⟩

end RitCoin.Proof
