import RitCoin.Proof.Mempool
import RitCoin.Proof.Outputs

namespace RitCoin.Proof
open Lib Model Std
variable {txin : CTxIn} {item : CTxIn × ℕ} {pindexBlock tip : CBlockIndex} {posThisTx : DiskPos} {P : Primitives}
  {C : Crypto} {fTestNet : Bool} {node : Node} {tx : CTransaction} {inputs : MapPrevTx}

def Rejects (failure : Failure) : Prop := ∃ nDoS messages, failure = .reject nDoS messages

@[simp] theorem rejects_reject (nDoS : ℕ) (messages : List String) : Rejects (.reject nDoS messages) := ⟨_, _, rfl⟩

@[simp] theorem rejects_DoS (nDoS : ℕ) (message : String) : Rejects (DoS nDoS message) := ⟨_, _, rfl⟩

@[simp] theorem rejects_error (message : String) : Rejects (error message) := ⟨_, _, rfl⟩

theorem Rejects.caller {failure : Failure} (rejects : Rejects failure) (nDoS : ℕ → ℕ) (message : String) :
    Rejects (failure.caller nDoS message) := by
  obtain ⟨n, messages, rfl⟩ := rejects
  exact ⟨_, _, rfl⟩

theorem checkTransaction_rejects (tx : CTransaction) : FailsWith Rejects tx.checkTransaction := by
  refine .bind (.failIf (by simp)) fun _ _ => .bind (.failIf (by simp)) fun _ _ =>
    .bind (.failIf (by simp)) fun _ _ => .bind (.foldlM (fun _ _ => ?_) _ _) fun _ _ =>
    .bind (.failIf (by simp)) fun _ _ => ?_
  · exact .bind (.failIf (by simp)) fun _ _ => .bind (.failIf (by simp)) fun _ _ =>
      .bind (.failIf (by simp)) fun _ _ => .bind (.failIf (by simp)) fun _ _ => .ok _
  · split_ifs
    · exact .failIf (by simp)
    · exact .failIf (by simp)

theorem checkLoose_rejects (tx : CTransaction) : FailsWith Rejects (tx.checkLoose fTestNet) :=
  .bind (.mapError (checkTransaction_rejects tx) fun _ rejects => rejects.caller _ _) fun _ _ =>
    .bind (.failIf (by simp)) fun _ _ => .bind (.failIf (by simp)) fun _ _ => .failIf (by simp)

def Available (node : Node) (hash : Uint256) : Prop :=
  ∃ entry, CTransaction.fetchPrev node node.pdb.open ∅ false false hash = .ok entry

def Lacks (node : Node) (tx : CTransaction) : Prop := ∃ txin ∈ tx.vin, ¬ Available node txin.prevout.hash

theorem fetchPrev_rejects (hash : Uint256) :
    FailsWith Rejects (CTransaction.fetchPrev node node.pdb.open ∅ false false hash) := by
  refine .bind (.failIf (by simp)) fun _ _ => ?_
  split
  · split_ifs
    · split
      · exact .error (by simp)
      · exact .ok _
    · split
      · exact .error (by simp)
      · exact .ok _
  · split
    · exact .error (by simp)
    · exact .ok _

structure Gathered (node : Node) (vin : List CTxIn) (inputs : MapPrevTx) : Prop where
  all : ∀ txin ∈ vin, inputs.contains txin.prevout.hash = true
  available : ∀ hash, inputs.contains hash = true → Available node hash

theorem fetchLoop_meets (node : Node) (vin : List CTxIn) :
    Meets (fun failure => Rejects failure ∧ ∃ txin ∈ vin, ¬ Available node txin.prevout.hash) (Gathered node vin)
      (vin.foldlM (CTransaction.fetchInput node node.pdb.open ∅ false false) ∅) := by
  refine .foldlM (Gathered node) ⟨nofun, fun hash held => ?_⟩ fun done txin rest inputs split gathered => ?_
  · rw [ExtTreeMap.contains_empty] at held
    cases held
  rw [CTransaction.fetchInput]
  split_ifs with known
  · refine .pure ⟨fun txin' member => ?_, gathered.available⟩
    rcases List.mem_append.mp member with old | new
    · exact gathered.all txin' old
    · rw [List.mem_singleton.mp new]
      exact known
  · cases fetch : CTransaction.fetchPrev node node.pdb.open ∅ false false txin.prevout.hash with
    | error failure =>
      refine .error ⟨fetchPrev_rejects _ failure fetch, txin, by rw [split]; simp, ?_⟩
      rintro ⟨entry, found⟩
      rw [fetch] at found
      cases found
    | ok entry =>
      refine .pure ⟨fun txin' member => ?_, fun hash held => ?_⟩
      · rw [ExtTreeMap.contains_insert]
        rcases List.mem_append.mp member with old | new
        · rw [gathered.all txin' old, Bool.or_true]
        · rw [List.mem_singleton.mp new, beq_iff_eq.mpr (Std.compare_eq_iff_eq.mpr rfl), Bool.true_or]
      · rw [ExtTreeMap.contains_insert, Bool.or_eq_true, beq_iff_eq, Std.compare_eq_iff_eq] at held
        rcases held with rfl | held
        · exact ⟨entry, fetch⟩
        · exact gathered.available hash held

def InRange (tx : CTransaction) (inputs : MapPrevTx) : Prop :=
  ∀ txin ∈ tx.vin, ∃ entry, inputs[txin.prevout.hash]? = some entry ∧
    CTransaction.prevoutOutOfRange entry txin.prevout = false

theorem fetchInputs_meets (node : Node) (spending : tx.isCoinBase = false) :
    Meets (fun failed => Rejects failed.failure ∧ (failed.fInvalid = false ↔ Lacks node tx))
      (fun inputs => ¬ Lacks node tx ∧ InRange tx inputs)
      (tx.fetchInputs node node.pdb.open ∅ false false) := by
  rw [CTransaction.fetchInputs, if_neg (by rw [spending]; exact Bool.false_ne_true)]
  have loop := fetchLoop_meets node tx.vin
  cases fetch : tx.vin.foldlM (CTransaction.fetchInput node node.pdb.open ∅ false false) ∅ with
  | error failure =>
    obtain ⟨rejects, lacks⟩ := loop.fails failure fetch
    exact .error ⟨rejects, iff_of_true rfl lacks⟩
  | ok inputs =>
    obtain ⟨all, available⟩ := loop.ok inputs fetch
    have held : ∀ txin ∈ tx.vin, ∃ entry, inputs[txin.prevout.hash]? = some entry := fun txin member =>
      contains_eq_true.mp (all txin member)
    have present : ¬ Lacks node tx := by
      rintro ⟨txin, member, missing⟩
      exact missing (available _ (all txin member))
    change Meets _ _ (tx.vin.forM (CTransaction.checkPrevoutRange inputs) >>= fun _ => Pure.pure inputs)
    refine ⟨fun inputs' ended => ?_, .bind (.forM _ fun txin member => ?_) fun _ _ => .ok _⟩
    · obtain ⟨range, same⟩ := seq_eq_ok.mp ended
      cases same
      refine ⟨present, fun txin member => ?_⟩
      obtain ⟨entry, found⟩ := held txin member
      have round := forM_eq_ok.mp range txin member
      rw [CTransaction.checkPrevoutRange, found] at round
      exact ⟨entry, found, Bool.eq_false_iff.mpr (failIf_eq_ok.mp round)⟩
    · obtain ⟨entry, found⟩ := held txin member
      rw [CTransaction.checkPrevoutRange, found]
      exact .failIf ⟨by simp, iff_of_false (by simp) present⟩

theorem InRange.getOutputFor (range : InRange tx inputs) (member : txin ∈ tx.vin) :
    ∃ txout, CTransaction.getOutputFor txin inputs = .ok txout := by
  obtain ⟨entry, found, inside⟩ := range txin member
  rw [CTransaction.prevoutOutOfRange, Bool.or_eq_false_iff, decide_eq_false_iff_not, Nat.not_le] at inside
  rw [CTransaction.getOutputFor, found]
  dsimp only
  rw [List.getElem?_eq_getElem inside.1]
  exact ⟨_, rfl⟩

theorem InRange.getValueIn (range : InRange tx inputs) : ∃ nValueIn, tx.getValueIn inputs = .ok nValueIn := by
  rw [CTransaction.getValueIn]
  split_ifs
  · exact ⟨_, rfl⟩
  · obtain ⟨nValueIn, loop, -⟩ := foldlM_complete (CTransaction.addValueIn inputs) tx.vin (fun _ _ => True) 0 trivial
      fun done txin rest value split _ => by
        obtain ⟨txout, output⟩ := range.getOutputFor (show txin ∈ tx.vin by rw [split]; simp)
        exact ⟨value + txout.nValue, by rw [CTransaction.addValueIn, output]; rfl, trivial⟩
    exact ⟨nValueIn, loop⟩

theorem allM_returns {α : Type} {f : α → Check Bool} (items : List α) (round : ∀ a ∈ items, ∃ b, f a = .ok b) :
    ∃ b, items.allM f = .ok b := by
  induction items with
  | nil => exact ⟨true, rfl⟩
  | cons a items ih =>
    obtain ⟨⟨b, first⟩, rest⟩ := List.forall_mem_cons.mp round
    rw [List.allM, first, ok_bind]
    cases b with
    | true => exact ih rest
    | false => exact ⟨false, rfl⟩

theorem InRange.isInputStandard (range : InRange tx inputs) (member : item ∈ tx.vin.zipIdx) :
    ∃ standard, tx.isInputStandard C inputs item = .ok standard := by
  obtain ⟨prev, output⟩ := range.getOutputFor (List.fst_mem_of_mem_zipIdx member)
  obtain ⟨after, evaluated⟩ := callEvalScript_returns C (checkSig C tx item.2 0) limited_nil item.1.scriptSig
  rw [CTransaction.isInputStandard, output, ok_bind, evaluated]
  cases after with
  | none =>
    dsimp only
    split_ifs <;> exact ⟨_, rfl⟩
  | some stack =>
    dsimp only
    split_ifs
    · exact ⟨_, rfl⟩
    · split <;> exact ⟨_, rfl⟩
    · exact ⟨_, rfl⟩

theorem InRange.areInputsStandard (range : InRange tx inputs) :
    ∃ standard, tx.areInputsStandard C inputs = .ok standard := by
  rw [CTransaction.areInputsStandard]
  split_ifs
  · exact ⟨_, rfl⟩
  · exact allM_returns _ fun item member => range.isInputStandard member

theorem verifySignature_returns {nIn : ℕ} (input : tx.vin[nIn]? = some txin) (P : Primitives)
    (txFrom : CTransaction) (strict : Bool) (nHashType : Int32) :
    ∃ valid, CTransaction.verifySignature P txFrom tx nIn strict nHashType = .ok valid := by
  rw [CTransaction.verifySignature, input]
  dsimp only
  split
  · exact ⟨_, rfl⟩
  · exact ⟨_, rfl⟩

theorem checkInput_rejects (range : InRange tx inputs) (member : txin ∈ tx.vin) (nValueIn : Int64) :
    FailsWith Rejects (tx.checkInput node inputs pindexBlock nValueIn txin) := by
  obtain ⟨entry, found, -⟩ := range txin member
  rw [CTransaction.checkInput, found]
  exact .bind (.failIf (by simp)) fun _ _ => .bind (.failIf (by simp)) fun _ _ =>
    .bind (.failIf (by simp)) fun _ _ => .bind (.failIf (by simp)) fun _ _ => .ok _

def Holding (tx : CTransaction) (inputs : MapPrevTx) : Prop :=
  ∀ txin ∈ tx.vin, inputs.contains txin.prevout.hash = true

theorem Holding.insert (holding : Holding tx inputs) (hash : Uint256) (entry : CTxIndex × CTransaction) :
    Holding tx (inputs.insert hash entry) := by
  intro txin member
  rw [ExtTreeMap.contains_insert, holding txin member, Bool.or_true]

theorem spendInput_meets {state : MapPrevTx × TxIndexMap} (holding : Holding tx state.1)
    (member : item ∈ tx.vin.zipIdx) :
    Meets Rejects (fun state' => Holding tx state'.1)
      (tx.spendInput P node posThisTx false false true state item) := by
  obtain ⟨inputs, mapTestPool⟩ := state
  obtain ⟨txin, i⟩ := item
  have input : tx.vin[i]? = some txin := List.mk_mem_zipIdx_iff_getElem?.mp member
  obtain ⟨⟨txindex, txPrev⟩, found⟩ := contains_eq_true.mp (holding txin (List.mem_of_getElem? input))
  obtain ⟨valid, verified⟩ := verifySignature_returns input P txPrev true 0
  obtain ⟨lenient, verified'⟩ := verifySignature_returns input P txPrev false 0
  simp only [CTransaction.spendInput, found]
  refine (Meets.failIf (by simp)).bind fun _ _ => ?_
  rw [if_pos (by simp), verified]
  cases valid with
  | true => exact .pure (Holding.insert holding _ _)
  | false =>
    change Meets _ _ (CTransaction.verifySignature P txPrev tx i false 0 >>= _)
    rw [verified']
    cases lenient with
    | true => exact .error (by simp)
    | false => exact .error (by simp)

theorem connectInputs_rejects {nValueOut : Int64} (range : InRange tx inputs)
    (value : tx.getValueOut = .ok nValueOut) :
    FailsWith Rejects (tx.connectInputs P node inputs ∅ posThisTx pindexBlock false false true) := by
  rw [CTransaction.connectInputs]
  by_cases coinbase : tx.isCoinBase = true
  · rw [if_pos coinbase]
    exact .ok _
  have holding : Holding tx inputs := fun txin member => by
    obtain ⟨entry, found, -⟩ := range txin member
    exact contains_eq_true.mpr ⟨entry, found⟩
  have checks : Meets Rejects (fun _ => True) (tx.vin.foldlM (tx.checkInput node inputs pindexBlock) 0) :=
    .foldlM (fun _ _ => True) trivial fun done txin rest value split _ =>
      ⟨fun _ _ => trivial, checkInput_rejects range (by rw [split]; simp) value⟩
  have spends : Meets Rejects (fun state => Holding tx state.1)
      (tx.vin.zipIdx.foldlM (tx.spendInput P node posThisTx false false true) (inputs, ∅)) :=
    .foldlM (fun _ (state : MapPrevTx × TxIndexMap) => Holding tx state.1) holding
      fun done item rest state split holding => spendInput_meets holding (by rw [split]; simp)
  rw [if_neg coinbase]
  refine checks.fails.bind fun _ _ => spends.fails.bind fun _ _ => ?_
  rw [value]
  dsimp only
  rw [ok_bind]
  exact .bind (.failIf (by simp)) fun _ _ => .bind (.failIf (by simp)) fun _ _ => .bind (.failIf (by simp)) fun _ _ =>
    .bind (.failIf (by simp)) fun _ _ => .ok _

/-- How the pool can turn down a transaction: by returning false, and then it has looked for the inputs if it says
that some are missing, or by an exception on a negative output, when it has all inputs. -/
def TurnsDown (node : Node) (tx : CTransaction) (failed : AcceptFailure) : Prop :=
  Rejects failed.failure ∧ (failed.fMissingInputs = true → Lacks node tx) ∨
    ¬ Rejects failed.failure ∧ ¬ Lacks node tx ∧ ∃ txout ∈ tx.vout, txout.nValue < 0

theorem connectLoose_fails (best : node.mapBlockIndex.deref node.pindexBest = .ok tip)
    (checked : tx.checkTransaction = .ok ()) (range : InRange tx inputs) :
    FailsWith (fun failure => Rejects failure ∨ ∃ txout ∈ tx.vout, txout.nValue < 0)
      (tx.connectLoose P C fTestNet node inputs) := by
  by_cases negative : ∃ txout ∈ tx.vout, txout.nValue < 0
  · exact fun _ _ => .inr negative
  have nonneg : ∀ txout ∈ tx.vout, 0 ≤ txout.nValue := fun txout member => by
    by_contra below
    exact negative ⟨txout, member, Int64.not_le.mp below⟩
  obtain ⟨standard, evaluated⟩ := range.areInputsStandard (C := C)
  obtain ⟨nValueIn, valueIn⟩ := range.getValueIn
  obtain ⟨v, loop⟩ := checkTransaction_loop checked
  have valueOut := getValueOut_of_checkOutput nonneg loop
  rw [CTransaction.connectLoose, evaluated, valueIn, valueOut, best]
  simp only [ok_bind]
  refine .bind (.failIf (.inl (by simp))) fun _ _ => .bind (.failIf (.inl (by simp))) fun _ _ =>
    .bind (.mapError (connectInputs_rejects range valueOut) fun _ rejects => ?_) fun _ _ => .ok _
  exact .inl (rejects.caller _ _)

theorem accept_fails (best : node.mapBlockIndex.deref node.pindexBest = .ok tip) :
    FailsWith (TurnsDown node tx) (CTxMemPool.accept P C fTestNet node tx true) := by
  have early : TurnsDown node tx ⟨.reject 0 [], false⟩ := .inl ⟨by simp, by simp⟩
  rw [CTxMemPool.accept]
  refine .bind (.mapError (checkLoose_rejects tx) fun _ rejects => .inl ⟨rejects, by simp⟩) fun _ loose =>
    .bind (.failIf early) fun _ _ => .bind (.failIf early) fun _ _ => .bind (.failIf early) fun _ _ => ?_
  simp only [CTransaction.checkLoose, mapError_eq_ok, seq_eq_ok, failIf_eq_ok, Bool.not_eq_true] at loose
  obtain ⟨checked, spending, -⟩ := loose
  have fetches := fetchInputs_meets node spending
  cases fetch : tx.fetchInputs node node.pdb.open ∅ false false with
  | error failed =>
    obtain ⟨rejects, missing⟩ := fetches.fails failed fetch
    change FailsWith _ (Except.error (AcceptFailure.ofFetch failed))
    refine .error ?_
    cases invalid : failed.fInvalid with
    | true =>
      rw [AcceptFailure.ofFetch, if_pos invalid]
      exact .inl ⟨rejects.caller _ _, by simp⟩
    | false =>
      rw [AcceptFailure.ofFetch, if_neg (by rw [invalid]; exact Bool.false_ne_true)]
      exact .inl ⟨rejects.caller _ _, fun _ => missing.mp invalid⟩
  | ok inputs =>
    obtain ⟨present, range⟩ := fetches.ok inputs fetch
    change FailsWith _ ((tx.connectLoose P C fTestNet node inputs).mapError _ >>= _)
    refine .bind (.mapError (connectLoose_fails best checked range) fun failure fails => ?_) fun _ _ => .ok _
    by_cases rejects : Rejects failure
    · exact .inl ⟨rejects, by simp⟩
    · exact .inr ⟨rejects, present, fails.resolve_left rejects⟩

end RitCoin.Proof
