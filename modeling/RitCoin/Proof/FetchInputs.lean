import RitCoin.Proof.Placement

namespace RitCoin.Proof
open Lib Model Spec

variable {P : Primitives} {node : Node} {txdb : TxDB} {pindex : CBlockIndex} {full : List Placed}
  {height : ℕ} {start coins : Ledger P} {queue : TxIndexMap} {tx : CTransaction}
  {inputs : MapPrevTx}

def entry (full : List Placed) (c : Coin (form P) TxRef) : CTxIndex × CTransaction :=
  (indexed full c, c.tx)

def Present (coins : Ledger P) (txin : CTxIn) : Prop :=
  ∃ c txout, coins txin.prevout.hash = some c ∧
    c.tx.vout[txin.prevout.n.toNat]? = some txout

def Fetched (full : List Placed) (coins : Ledger P) (tx : CTransaction) (inputs : MapPrevTx) : Prop :=
  ∀ txin ∈ tx.vin, inputs[txin.prevout.hash]? = (coins txin.prevout.hash).map (entry full)

section
variable (backed : Backed node txdb pindex full height start) (standing : Standing full coins)
  (shows : Shows txdb full queue coins)
include backed standing shows

theorem fetchPrev_eq_ok {hash : Uint256} {e : CTxIndex × CTransaction} :
    CTransaction.fetchPrev node txdb queue true false hash = .ok e ↔
      ∃ c, coins hash = some c ∧ e = entry full c := by
  have found := shows hash
  simp only [CTransaction.fetchPrev, Bool.or_false, Bool.true_and, found]
  cases coin : coins hash with
  | none => simp [failIf, bind, Except.bind]
  | some c =>
    obtain ⟨read, pos, _⟩ := backed.readTx (standing hash c coin)
    have pos' : (indexed full c).pos = some (diskPos full c.loc) := rfl
    rw [pos'] at pos
    simp [failIf, bind, Except.bind, pure, Except.pure, pos, pos', read, entry, eq_comm]

theorem fetchInput_sound {inputs' : MapPrevTx} (done : List CTxIn) (txin : CTxIn)
    (before : ∀ h, inputs[h]? = if h ∈ done.map (·.prevout.hash) then (coins h).map (entry full)
      else none) (round : CTransaction.fetchInput node txdb queue true false inputs txin = .ok inputs') :
    ∀ h, inputs'[h]? = if h ∈ (done ++ [txin]).map (·.prevout.hash) then (coins h).map (entry full)
      else none := by
  intro h
  unfold CTransaction.fetchInput at round
  split at round
  · next already =>
      rw [pure_eq_ok] at round
      subst round
      rw [before h]
      have known : txin.prevout.hash ∈ done.map (·.prevout.hash) := by
        by_contra unknown
        have absent := before txin.prevout.hash
        rw [if_neg unknown] at absent
        simp [Std.ExtTreeMap.contains_eq_isSome_getElem?, absent] at already
      by_cases same : h = txin.prevout.hash
      · subst same; simp [known]
      · simp [same]
  · next fresh =>
      rw [bind_eq_ok] at round
      obtain ⟨e, fetched, round⟩ := round
      obtain ⟨c, coin, rfl⟩ := (fetchPrev_eq_ok backed standing shows).mp fetched
      rw [pure_eq_ok] at round
      subst round
      by_cases same : h = txin.prevout.hash
      · subst same; simp [coin]
      · have apart : txin.prevout.hash ≠ h := fun eq => same eq.symm
        simp [Std.ExtTreeMap.getElem?_insert, apart, before h, same]

end

theorem checkPrevoutRange_eq_ok (fetched : Fetched full coins tx inputs) {txin : CTxIn}
    (member : txin ∈ tx.vin) :
    CTransaction.checkPrevoutRange inputs txin = .ok () ↔ Present coins txin := by
  rw [CTransaction.checkPrevoutRange, fetched txin member]
  unfold Present
  cases coins txin.prevout.hash with
  | none => simp
  | some c =>
    have length := indexed_length full c
    simp only [Option.map_some, failIf_eq_ok, CTransaction.prevoutOutOfRange, entry, length,
      Bool.or_self, decide_eq_true_eq, not_le, Option.some.injEq]
    constructor
    · intro bound
      exact ⟨c, c.tx.vout[txin.prevout.n.toNat], rfl, List.getElem?_eq_getElem bound⟩
    · rintro ⟨_, txout, rfl, found⟩
      exact (List.getElem?_eq_some_iff.mp found).1

section
variable (backed : Backed node txdb pindex full height start) (standing : Standing full coins)
  (shows : Shows txdb full queue coins)
include backed standing shows

theorem fetchInputs_sound (spending : tx.isCoinBase = false)
    (fetch : tx.fetchInputs node txdb queue true false = .ok inputs) :
    Fetched full coins tx inputs ∧ ∀ txin ∈ tx.vin, Present coins txin := by
  simp only [CTransaction.fetchInputs, spending, Bool.false_eq_true, if_false, bind_eq_ok,
    mapError_eq_ok, forM_eq_ok, pure_eq_ok] at fetch
  obtain ⟨inputs, loop, _, range, rfl⟩ := fetch
  have all := foldlM_ok_rel (fun done (inputs : MapPrevTx) =>
      ∀ h, inputs[h]? = if h ∈ done.map (·.prevout.hash) then (coins h).map (entry full) else none)
    (fun done txin _ _ before round => fetchInput_sound backed standing shows done txin before round)
    tx.vin [] ∅ _ (by simp) loop
  have fetched : Fetched full coins tx inputs := by
    intro txin member
    rw [all, if_pos (by simpa using List.mem_map_of_mem member)]
  exact ⟨fetched, fun txin member => (checkPrevoutRange_eq_ok fetched member).mp (range txin member)⟩

theorem fetchInputs_complete (spending : tx.isCoinBase = false) (present : ∀ txin ∈ tx.vin, Present coins txin) :
    ∃ inputs, tx.fetchInputs node txdb queue true false = .ok inputs := by
  have round : ∀ txin ∈ tx.vin, ∀ inputs, ∃ inputs',
      CTransaction.fetchInput node txdb queue true false inputs txin = .ok inputs' := by
    intro txin member inputs
    obtain ⟨c, _, coin, _⟩ := present txin member
    have fetch := (fetchPrev_eq_ok backed standing shows).mpr ⟨c, coin, rfl⟩
    unfold CTransaction.fetchInput
    split
    · exact ⟨_, rfl⟩
    · exact ⟨_, by rw [fetch]; rfl⟩
  obtain ⟨inputs, loop, all⟩ := foldlM_complete (CTransaction.fetchInput node txdb queue true false)
    tx.vin (fun done (inputs : MapPrevTx) =>
      ∀ h, inputs[h]? = if h ∈ done.map (·.prevout.hash) then (coins h).map (entry full) else none)
    ∅ (by simp) (by
      intro done txin rest inputs split before
      obtain ⟨inputs', fetch⟩ := round txin (by simp [split]) inputs
      exact ⟨inputs', fetch, fetchInput_sound backed standing shows done txin before fetch⟩)
  have fetched : Fetched full coins tx inputs := by
    intro txin member
    rw [all, if_pos (by simpa using List.mem_map_of_mem member)]
  refine ⟨inputs, ?_⟩
  simp only [CTransaction.fetchInputs, spending, Bool.false_eq_true, if_false, bind_eq_ok,
    mapError_eq_ok, forM_eq_ok, pure_eq_ok]
  exact ⟨inputs, loop, ⟨⟩,
    fun txin member => (checkPrevoutRange_eq_ok fetched member).mpr (present txin member), rfl⟩

end

theorem form_values (tx : CTransaction) :
    (form P).values tx = tx.vout.map fun txout => txout.nValue.toInt := rfl

theorem getOutputFor_eq_ok (fetched : Fetched full coins tx inputs) {txin : CTxIn}
    (member : txin ∈ tx.vin) {c : Coin (form P) TxRef} {txout : CTxOut}
    (coin : coins txin.prevout.hash = some c)
    (found : c.tx.vout[txin.prevout.n.toNat]? = some txout) :
    CTransaction.getOutputFor txin inputs = .ok txout := by
  simp [CTransaction.getOutputFor, fetched txin member, coin, entry, found]

theorem value_outpoint {txin : CTxIn} {c : Coin (form P) TxRef} {txout : CTxOut}
    (coin : coins txin.prevout.hash = some c)
    (found : c.tx.vout[txin.prevout.n.toNat]? = some txout) :
    coins.value (outpoint txin) = txout.nValue.toInt := by
  simp [Coins.value, outpoint, coin, form_values, found]

variable (fetched : Fetched full coins tx inputs) (spending : tx.isCoinBase = false)
  (present : ∀ txin ∈ tx.vin, Present coins txin)
include fetched spending present

theorem getP2SHSigOpCount_eq : tx.getP2SHSigOpCount inputs = .ok (tx.vin.map (inputSigOps coins)).sum := by
  obtain ⟨n, loop, sum⟩ := foldlM_complete (CTransaction.addP2SHSigOps inputs) tx.vin
    (fun done n => n = (done.map (inputSigOps coins)).sum) 0 rfl (by
      rintro done txin rest _ split rfl
      have member : txin ∈ tx.vin := by simp [split]
      obtain ⟨c, txout, coin, found⟩ := present txin member
      refine ⟨_, by rw [CTransaction.addP2SHSigOps, getOutputFor_eq_ok fetched member coin found]; rfl, ?_⟩
      simp only [List.map_append, List.map_cons, List.map_nil, List.sum_append, List.sum_cons,
        List.sum_nil, inputSigOps, coin, Option.bind_some, found]
      split <;> omega)
  simp [CTransaction.getP2SHSigOpCount, spending, loop, sum]

theorem getValueIn_eq : tx.getValueIn inputs = .ok (Int64.ofInt (valueIn coins tx)) := by
  obtain ⟨v, loop, sum⟩ := foldlM_complete (CTransaction.addValueIn inputs) tx.vin
    (fun done v => v = Int64.ofInt ((done.map outpoint).map coins.value).sum) 0 rfl (by
      rintro done txin rest _ split rfl
      have member : txin ∈ tx.vin := by simp [split]
      obtain ⟨c, txout, coin, found⟩ := present txin member
      refine ⟨_, by rw [CTransaction.addValueIn, getOutputFor_eq_ok fetched member coin found]; rfl, ?_⟩
      simp only [List.map_append, List.map_cons, List.map_nil, List.sum_append, List.sum_cons,
        List.sum_nil, value_outpoint coin found, add_zero, Int64.ofInt_add, Int64.ofInt_toInt])
  simp [CTransaction.getValueIn, spending, loop, sum, valueIn, form_spends spending]

end RitCoin.Proof
