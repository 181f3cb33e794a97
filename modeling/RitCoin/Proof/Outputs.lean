import RitCoin.Proof.ConnectInputs

namespace RitCoin.Proof
open Lib Model

variable {tx : CTransaction}

def totalOut (tx : CTransaction) : Int := (tx.vout.map fun txout => txout.nValue.toInt).sum

theorem MAX_MONEY_toInt : MAX_MONEY.toInt = 10000000000000000 := by decide

structure OutputOk (tx : CTransaction) (nValueOut : Int64) (item : CTxOut × ℕ) (after : Int64) : Prop where
  nonzero : tx.isCoinBase = false → item.2 ≠ 0 → item.1.nValue ≠ 0
  high : item.1.nValue.toInt ≤ MAX_MONEY.toInt
  sum : after.toInt = nValueOut.toInt + item.1.nValue.toInt
  range : moneyRange after

theorem checkOutput_eq_ok {nValueOut after : Int64} {item : CTxOut × ℕ} (before : moneyRange nValueOut)
    (round : tx.checkOutput nValueOut item = .ok after) : OutputOk tx nValueOut item after := by
  simp only [CTransaction.checkOutput, seq_eq_ok, failIf_eq_ok, pure_eq_ok, not_not] at round
  obtain ⟨filled, nonzero, high, range, rfl⟩ := round
  rw [gt_iff_lt, Int64.lt_iff_toInt_lt, not_lt] at high
  refine ⟨fun user later zero => ?_, high, ?_, range⟩
  · have below : item.1.nValue < MIN_TXOUT_AMOUNT := by rw [zero]; decide
    cases empty : item.1.isEmpty with
    | true => exact filled ⟨empty, by simp [user]⟩
    | false => exact nonzero ⟨by simp [empty], below, zero, by simp [user], later⟩
  · -- a single output may be as low as an `int64_t` goes, the sum before it is not negative
    obtain ⟨low, _⟩ := moneyRange_iff.mp before
    have least := item.1.nValue.minValue_le_toInt
    have min : Int64.minValue.toInt = -9223372036854775808 := by decide
    rw [MAX_MONEY_toInt] at *
    rw [Int64.toInt_add, Int.bmod_eq_of_le] <;> omega

theorem checkTransaction_loop (accepted : tx.checkTransaction = .ok ()) :
    ∃ v, tx.vout.zipIdx.foldlM tx.checkOutput 0 = .ok v := by
  simp only [CTransaction.checkTransaction, bind_eq_ok] at accepted
  obtain ⟨_, _, _, _, _, _, v, loop, _⟩ := accepted
  exact ⟨v, loop⟩

theorem checkTransaction_outputs (accepted : tx.checkTransaction = .ok ()) :
    (0 ≤ totalOut tx ∧ totalOut tx ≤ MAX_MONEY.toInt) ∧
    (∀ txout ∈ tx.vout, txout.nValue.toInt ≤ MAX_MONEY.toInt) ∧
    (tx.isCoinBase = false → ∀ i txout, tx.vout[i]? = some txout → i ≠ 0 → txout.nValue ≠ 0) := by
  obtain ⟨v, loop⟩ := checkTransaction_loop accepted
  have outputs := foldlM_ok_rel (fun done (acc : Int64) =>
      acc.toInt = (done.map fun item : CTxOut × ℕ => item.1.nValue.toInt).sum ∧ moneyRange acc ∧
      ∀ item ∈ done, item.1.nValue.toInt ≤ MAX_MONEY.toInt ∧
        (tx.isCoinBase = false → item.2 ≠ 0 → item.1.nValue ≠ 0))
    ?_ tx.vout.zipIdx [] 0 v ⟨rfl, by decide, by simp⟩ loop
  · obtain ⟨sum, range, each⟩ := outputs
    have total : v.toInt = totalOut tx := by
      rw [sum, List.nil_append, totalOut]
      nth_rewrite 2 [← List.zipIdx_map_fst 0 tx.vout]
      rw [List.map_map]
      rfl
    rw [← total]
    refine ⟨moneyRange_iff.mp range, fun txout member => ?_, fun user i txout found later => ?_⟩
    · obtain ⟨i, found⟩ := List.getElem?_of_mem member
      exact (each (txout, i) (List.mk_mem_zipIdx_iff_getElem?.mpr found)).1
    · exact (each (txout, i) (List.mk_mem_zipIdx_iff_getElem?.mpr found)).2 user later
  · rintro done item acc acc' ⟨sum, range, each⟩ round
    have ok := checkOutput_eq_ok range round
    refine ⟨by simp [ok.sum, sum], ok.range, ?_⟩
    intro item' member
    rcases List.mem_append.mp member with old | new
    · exact each item' old
    · obtain rfl := List.mem_singleton.mp new
      exact ⟨ok.high, ok.nonzero⟩

theorem getValueOut_of_checkOutput (nonneg : ∀ txout ∈ tx.vout, 0 ≤ txout.nValue) {v : Int64}
    (loop : tx.vout.zipIdx.foldlM tx.checkOutput 0 = .ok v) : tx.getValueOut = .ok v := by
  have rounds : ∀ (outputs : List CTxOut) (i : ℕ) (acc : Int64), (∀ txout ∈ outputs, 0 ≤ txout.nValue) →
      moneyRange acc → (outputs.zipIdx i).foldlM tx.checkOutput acc = .ok v →
      outputs.foldlM CTransaction.addValueOut acc = .ok v := by
    intro outputs
    induction outputs with
    | nil => exact fun _ _ _ _ loop => loop
    | cons txout outputs ih =>
      intro i acc nonneg range loop
      rw [List.forall_mem_cons] at nonneg
      rw [List.zipIdx_cons, List.foldlM_cons, bind_eq_ok] at loop
      obtain ⟨after, round, loop⟩ := loop
      have ok := checkOutput_eq_ok range round
      have same : after = acc + txout.nValue := by
        simp only [CTransaction.checkOutput, seq_eq_ok, pure_eq_ok] at round
        exact round.2.2.2.2.symm
      have inRange : moneyRange txout.nValue := moneyRange_iff.mpr ⟨by simpa using Int64.le_iff_toInt_le.mp nonneg.1, ok.high⟩
      have round : CTransaction.addValueOut acc txout = .ok after := by
        rw [CTransaction.addValueOut, seq_eq_ok, failIf_eq_ok, ← same]
        exact ⟨by simp [inRange, ok.range], rfl⟩
      rw [List.foldlM_cons, round]
      exact ih (i + 1) after nonneg.2 ok.range loop
  exact rounds tx.vout 0 0 nonneg (by decide) loop

theorem checkTransaction_outputs_iff (accepted : tx.checkTransaction = .ok ()) :
    ((∀ txout ∈ tx.vout, moneyRange txout.nValue) ∧ (0 ≤ totalOut tx ∧ totalOut tx ≤ MAX_MONEY.toInt) ∧
      (∃ v, tx.getValueOut = .ok v ∧ v.toInt = totalOut tx) ∧
      (tx.isCoinBase = false → ∀ i txout, tx.vout[i]? = some txout → i ≠ 0 → MIN_TXOUT_AMOUNT ≤ txout.nValue)) ↔
    (∀ txout ∈ tx.vout, ¬ txout.nValue < 0) ∧
      (tx.isCoinBase = false → ∀ i txout, tx.vout[i]? = some txout → i ≠ 0 →
        ¬ (0 < txout.nValue ∧ txout.nValue < MIN_TXOUT_AMOUNT)) := by
  obtain ⟨total, high, nonzero⟩ := checkTransaction_outputs accepted
  constructor
  · rintro ⟨range, -, -, least⟩
    refine ⟨fun txout member => ?_, fun user i txout found later => ?_⟩
    · have := (moneyRange_iff.mp (range txout member)).1
      rw [Int64.lt_iff_toInt_lt]
      simpa using this
    · exact fun dust => absurd (least user i txout found later) (Int64.not_le.mpr dust.2)
  · rintro ⟨nonneg, noDust⟩
    have nonneg : ∀ txout ∈ tx.vout, 0 ≤ txout.nValue := fun txout member => Int64.not_lt.mp (nonneg txout member)
    obtain ⟨v, loop⟩ := checkTransaction_loop accepted
    have value := getValueOut_of_checkOutput nonneg loop
    refine ⟨fun txout member => ?_, total, ⟨v, value, (CTransaction.getValueOut_eq_ok value).1⟩, ?_⟩
    · exact moneyRange_iff.mpr ⟨by simpa using Int64.le_iff_toInt_le.mp (nonneg txout member), high txout member⟩
    · intro user i txout found later
      by_contra small
      have positive : 0 < txout.nValue :=
        Int64.lt_of_le_of_ne (nonneg txout (List.mem_of_getElem? found)) (nonzero user i txout found later).symm
      exact noDust user i txout found later ⟨positive, Int64.not_le.mp small⟩

def paying (values : List Int64) : CTransaction where
  nVersion := 1
  nTime := 0
  vin := [⟨⟨1, 0⟩, [], 0xffffffff⟩]
  vout := values.map fun nValue => ⟨nValue, [OP_1]⟩
  nLockTime := 0

theorem paying_outputs : (paying [0, MIN_TXOUT_AMOUNT]).checkTransaction = .ok () ∧
    (∀ txout ∈ (paying [0, MIN_TXOUT_AMOUNT]).vout, moneyRange txout.nValue) := by
  have accepted : (paying [0, MIN_TXOUT_AMOUNT]).checkTransaction = .ok () := by decide +kernel
  refine ⟨accepted, ((checkTransaction_outputs_iff accepted).mpr ⟨by decide, fun _ i txout found later => ?_⟩).1⟩
  match i, later with
  | 1, _ =>
    obtain rfl : _ = txout := Option.some.inj found
    decide
  | i + 2, _ => cases found

theorem negative_output_accepted :
    (paying [COIN, -1]).checkTransaction = .ok () ∧
      (paying [COIN, -1]).getValueOut = .error (.throw "CTransaction::GetValueOut() : value out of range") ∧
      (paying [0, 1]).checkTransaction = .ok () ∧ (1 : Int64) < MIN_TXOUT_AMOUNT := by
  decide +kernel

end RitCoin.Proof
