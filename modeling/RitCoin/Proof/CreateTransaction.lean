import RitCoin.Model.CreateTransaction
import RitCoin.Proof.Runs
import RitCoin.Proof.SelectCoins
import RitCoin.Proof.Signing

namespace RitCoin.Proof
open Lib Model
variable {nTargetValue : Int64} {selection : Selection} {tx txFrom : CTransaction} {P : Primitives} {C : Crypto}
  {keystore : CKeyStore} {deref : ℕ → CTransaction} {vCoins : List COutput}

/-- What `AvailableCoins` returns, from a wallet that knows each transaction once. -/
structure Spendable (P : Primitives) (deref : ℕ → CTransaction) (vCoins : List COutput) : Prop where
  same : ∀ output ∈ vCoins, (deref output.tx.address).vout = output.tx.vout
  distinct : (vCoins.map fun output => output.coin.second).Nodup
  positive : ∀ output ∈ vCoins, 0 ≤ output.coin.first.toInt
  bounded : coinTotal (vCoins.map COutput.coin) ≤ MAX_MONEY.toInt
  short : ∀ output ∈ vCoins, output.tx.vout.length < 2 ^ 32
  hashes : ∀ a ∈ vCoins, ∀ b ∈ vCoins, P.hashTx (deref a.tx.address) = P.hashTx (deref b.tx.address) →
    a.tx.address = b.tx.address

def spentBy (P : Primitives) (deref : ℕ → CTransaction) (ref : ℕ × ℕ) : COutPoint :=
  ⟨P.hashTx (deref ref.1), UInt32.ofNat ref.2⟩

namespace Spendable
variable (spendable : Spendable P deref vCoins) {output : COutput}
include spendable

theorem addable : Addable (vCoins.map COutput.coin) := by
  have most : MAX_MONEY.toInt = 10000000000000000 := by decide
  have bounded := spendable.bounded
  exact ⟨List.forall_mem_map.mpr spendable.positive, by omega, by rw [List.map_map]; exact spendable.distinct⟩

theorem selectCoins_pays {rand : ℕ → ℕ → ℕ → ℕ} (cent : (nTargetValue + CENT).toInt = nTargetValue.toInt + 1000000)
    (yes : (selectCoins rand nTargetValue vCoins).1 = true) :
    Pays nTargetValue (vCoins.map COutput.coin) (selectCoins rand nTargetValue vCoins).2 := by
  have attempt : ∀ {m t : Int} {rand : ℕ → ℕ → ℕ}, (selectCoinsMinConf rand nTargetValue m t vCoins).1 = true →
      Pays nTargetValue (vCoins.map COutput.coin) (selectCoinsMinConf rand nTargetValue m t vCoins).2 := by
    intro m t rand yes
    have part : (eligible m t vCoins).Subperm (vCoins.map COutput.coin) := (List.filter_sublist.map _).subperm
    rcases selectCoinsMinConf_ok (spendable.addable.subperm part) cent rand with ⟨-, chosen, sub, rest⟩ | ⟨no, -⟩
    · exact ⟨chosen, sub.trans part, rest⟩
    · exact absurd (no.symm.trans yes) Bool.false_ne_true
  rw [selectCoins] at yes ⊢
  split_ifs at yes ⊢ with first second
  · exact attempt first
  · exact attempt second
  · exact attempt yes

theorem ordered_perm {chosen : List WalletCoin} (part : chosen.Subperm (vCoins.map COutput.coin))
    (nodup : (chosen.map WalletCoin.second).Nodup)
    (set : selection.setCoinsRet = (chosen.map WalletCoin.second).toFinset) :
    (selection.ordered vCoins).Perm (chosen.map WalletCoin.second) := by
  refine (List.perm_insertionSort _ _).trans ((List.perm_ext_iff_of_nodup (spendable.distinct.filter _) nodup).mpr ?_)
  intro ref
  have known : ref ∈ chosen.map WalletCoin.second → ref ∈ vCoins.map fun output => output.coin.second := by
    intro member
    obtain ⟨coin, inside, rfl⟩ := List.mem_map.mp member
    obtain ⟨output, here, rfl⟩ := List.mem_map.mp (part.subset inside)
    exact List.mem_map_of_mem here
  rw [List.mem_filter, set, decide_eq_true_eq, List.mem_toFinset]
  exact ⟨And.right, fun member => ⟨known member, member⟩⟩

theorem toNat_index (member : output ∈ vCoins) :
    (UInt32.ofNat output.coin.second.2).toNat = output.i ∧ output.i + 1 < 2 ^ 32 := by
  have short := spendable.short output member
  have inside := output.inside
  exact ⟨UInt32.toNat_ofNat_of_lt' (show output.i < 2 ^ 32 by omega), by omega⟩

theorem spentBy_inj {other : COutput} (first : output ∈ vCoins) (second : other ∈ vCoins)
    (same : spentBy P deref output.coin.second = spentBy P deref other.coin.second) :
    output.coin.second = other.coin.second := by
  obtain ⟨hash, n⟩ := COutPoint.mk.inj same
  refine Prod.ext (spendable.hashes output first other second hash) ?_
  have index := congrArg UInt32.toNat n
  rwa [(spendable.toNat_index first).1, (spendable.toNat_index second).1] at index

theorem spentBy_not_null (member : output ∈ vCoins) : (spentBy P deref output.coin.second).isNull = false := by
  obtain ⟨index, small⟩ := spendable.toNat_index member
  have other : UInt32.ofNat output.coin.second.2 ≠ 0xffffffff := by
    intro same
    rw [same] at index
    have last : (0xffffffff : UInt32).toNat = 2 ^ 32 - 1 := by decide
    omega
  simp [COutPoint.isNull, spentBy, other]

end Spendable

theorem exists_output {ref : ℕ × ℕ} (member : ref ∈ selection.ordered vCoins) :
    ∃ output ∈ vCoins, output.coin.second = ref :=
  List.mem_map.mp (List.mem_filter.mp ((List.perm_insertionSort _ _).mem_iff.mp member)).1

/-- `VerifySignature` of an input, apart from the hash of the transaction it spends from. -/
def Signed (C : Crypto) (txFrom tx : CTransaction) (i : ℕ) : Prop :=
  ∃ txin txout, tx.vin[i]? = some txin ∧ txFrom.vout[txin.prevout.n.toNat]? = some txout ∧
    (verifyScript C txin.scriptSig txout.scriptPubKey tx i true 0).result = .ok true

/-- The other signatures are blanked out before hashing, so an input stays signed when they come. -/
theorem checkSig_setScriptSig (tx : CTransaction) (j : ℕ) (scriptSig : CScript) (nIn : ℕ) (nHashType : Int32) :
    checkSig C (tx.setScriptSig j scriptSig) nIn nHashType = checkSig C tx nIn nHashType := by
  have blank : ∀ code : CScript, blankSignatures code
      (tx.vin.modify j fun txin => { txin with scriptSig := scriptSig }) nIn = blankSignatures code tx.vin nIn := by
    intro code
    refine List.ext_getElem? fun i => ?_
    rw [blankSignatures, blankSignatures, List.getElem?_mapIdx, List.getElem?_mapIdx, List.getElem?_modify]
    cases tx.vin[i]? with
    | none => rfl
    | some txin => split_ifs <;> rfl
  have copy : ∀ code nHashType, signatureTx code (tx.setScriptSig j scriptSig) nIn nHashType =
      signatureTx code tx nIn nHashType := by
    intro code nHashType
    simp [signatureTx, CTransaction.setScriptSig, blank]
  funext vchSig vchPubKey scriptCode
  simp [checkSig, signedHash, signatureHash, copy]

theorem Signed.setScriptSig {i j : ℕ} (signed : Signed C txFrom tx i) (apart : j ≠ i) (scriptSig : CScript) :
    Signed C txFrom (tx.setScriptSig j scriptSig) i := by
  obtain ⟨txin, txout, input, output, verified⟩ := signed
  refine ⟨txin, txout, ?_, output, ?_⟩
  · rw [CTransaction.setScriptSig, List.getElem?_modify, input]
    simp [apart]
  · rw [verifyScript, checkSig_setScriptSig]
    exact verified

theorem signSignatureFrom_eq_ok {tx' : CTransaction} {nIn : ℕ} {nHashType : Int32}
    (run : signSignatureFrom C keystore txFrom tx nIn nHashType = .ok (true, tx')) :
    ∃ scriptSig, tx' = tx.setScriptSig nIn scriptSig ∧ Signed C txFrom tx' nIn := by
  rw [signSignatureFrom] at run
  cases found : (tx.vin[nIn]?).bind fun txin => txFrom.vout[txin.prevout.n.toNat]? with
  | none => simp [found, throw, throwThe, MonadExceptOf.throw] at run
  | some txout =>
    obtain ⟨txin, input, output⟩ := Option.bind_eq_some_iff.mp found
    rw [found] at run
    simp only [signSignature, seq_eq_ok] at run
    obtain ⟨-, run⟩ := run
    generalize produceScriptSig C keystore txout.scriptPubKey tx nIn nHashType = produced at run
    obtain ⟨solved, scriptSig⟩ := produced
    dsimp only at run
    split_ifs at run
    · split at run
      · next verified =>
        obtain ⟨rfl, rfl⟩ := Prod.mk.inj (pure_eq_ok.mp run)
        refine ⟨scriptSig, rfl, { txin with scriptSig := scriptSig }, txout, ?_, output, verified⟩
        rw [CTransaction.setScriptSig, List.getElem?_modify, input]
        simp
      · cases run
    · cases run

theorem signInputs_eq_ok : ∀ {rest : List (ℕ × ℕ)} {nIn : ℕ} {tx tx' : CTransaction},
    signInputs C keystore deref nIn rest tx = .ok (some tx') →
    tx'.vout = tx.vout ∧ tx'.vin.map CTxIn.prevout = tx.vin.map CTxIn.prevout ∧
      (∀ i txFrom, i < nIn → Signed C txFrom tx i → Signed C txFrom tx' i) ∧
      ∀ k coin, rest[k]? = some coin → Signed C (deref coin.1) tx' (nIn + k) := by
  intro rest
  induction rest with
  | nil =>
    intro nIn tx tx' run
    obtain rfl : tx = tx' := Option.some.inj (pure_eq_ok.mp run)
    exact ⟨rfl, rfl, fun _ _ _ signed => signed, by simp⟩
  | cons coin rest ih =>
    intro nIn tx tx' run
    rw [signInputs, bind_eq_ok] at run
    obtain ⟨⟨signed, next⟩, first, run⟩ := run
    dsimp only at run
    cases signed with
    | false => simp [pure_eq_ok] at run
    | true =>
      obtain ⟨scriptSig, rfl, here⟩ := signSignatureFrom_eq_ok first
      obtain ⟨vout, vin, earlier, later⟩ := ih run
      refine ⟨vout, vin.trans ?_, fun i txFrom before signed => ?_, fun k other at_k => ?_⟩
      · refine List.ext_getElem? fun i => ?_
        rw [CTransaction.setScriptSig, List.getElem?_map, List.getElem?_map, List.getElem?_modify]
        cases tx.vin[i]? with
        | none => rfl
        | some txin => split_ifs <;> rfl
      · exact earlier i txFrom (by omega) (signed.setScriptSig (by omega) scriptSig)
      · cases k with
        | zero =>
          obtain rfl : coin = other := Option.some.inj at_k
          exact earlier nIn _ (by omega) here
        | succ k =>
          have signed := later k other at_k
          rwa [Nat.add_right_comm] at signed

theorem sumSend_eq_some : ∀ {vecSend : List (CScript × Int64)} {nValue result : Int64},
    (∀ s ∈ vecSend, 0 < s.2.toInt) → 0 ≤ nValue.toInt →
    nValue.toInt + (vecSend.map fun s => s.2.toInt).sum ≤ MAX_MONEY.toInt → sumSend nValue vecSend = some result →
    0 ≤ result.toInt ∧ result.toInt = nValue.toInt + (vecSend.map fun s => s.2.toInt).sum := by
  have most : MAX_MONEY.toInt = 10000000000000000 := by decide
  intro vecSend
  induction vecSend with
  | nil =>
    intro nValue result _ low _ run
    obtain rfl : nValue = result := Option.some.inj run
    simpa using low
  | cons s rest ih =>
    intro nValue result positive low limit run
    rw [List.forall_mem_cons] at positive
    rw [List.map_cons, List.sum_cons] at limit ⊢
    have others := List.sum_nonneg (List.forall_mem_map.mpr fun s inside => (positive.2 s inside).le)
    have exactly : (nValue + s.2).toInt = nValue.toInt + s.2.toInt := by
      rw [Int64.toInt_add, Int.bmod_eq_of_le] <;> omega
    rw [sumSend, if_neg (by rw [Int64.lt_iff_toInt_lt]; exact not_lt.mpr low)] at run
    have sum := ih positive.2 (by omega) (by omega) run
    omega

theorem splitChange_ok {nValueIn nValue nChange nFeeRet : Int64} (low : 0 ≤ nValue.toInt)
    (enough : nValue.toInt + TX_FEE.toInt ≤ nValueIn.toInt) (high : nValueIn.toInt ≤ MAX_MONEY.toInt)
    (split : splitChange nValueIn nValue TX_FEE = (nChange, nFeeRet)) :
    (nChange = 0 ∨ MIN_TXOUT_AMOUNT ≤ nChange) ∧ 0 ≤ nChange.toInt ∧
      nValueIn.toInt = nValue.toInt + nChange.toInt + nFeeRet.toInt ∧
      TX_FEE.toInt ≤ nFeeRet.toInt ∧ nFeeRet.toInt < 2 * TX_FEE.toInt := by
  have most : MAX_MONEY.toInt = 10000000000000000 := by decide
  have fee : TX_FEE.toInt = 1000000 := by decide
  have least : MIN_TXOUT_AMOUNT.toInt = 1000000 := by decide
  have paid : (nValueIn - nValue).toInt = nValueIn.toInt - nValue.toInt := by
    rw [Int64.toInt_sub, Int.bmod_eq_of_le] <;> omega
  have change : (nValueIn - nValue - TX_FEE).toInt = nValueIn.toInt - nValue.toInt - TX_FEE.toInt := by
    rw [Int64.toInt_sub, paid, Int.bmod_eq_of_le] <;> omega
  have same : ¬ TX_FEE < TX_FEE := by decide
  simp only [splitChange, same, false_and, if_false] at split
  split_ifs at split with small
  · obtain ⟨rfl, rfl⟩ := Prod.mk.inj split
    simp only [gt_iff_lt, Int64.lt_iff_toInt_lt, change, least, Int64.toInt_zero] at small
    have raised : (TX_FEE + (nValueIn - nValue - TX_FEE)).toInt = nValueIn.toInt - nValue.toInt := by
      rw [Int64.toInt_add, change, Int.bmod_eq_of_le] <;> omega
    rw [raised, Int64.toInt_zero]
    exact ⟨.inl rfl, by omega⟩
  · obtain ⟨rfl, rfl⟩ := Prod.mk.inj split
    simp only [gt_iff_lt, Int64.lt_iff_toInt_lt, change, least, Int64.toInt_zero] at small
    rw [← Int64.toInt_inj, Int64.le_iff_toInt_le, change, Int64.toInt_zero]
    omega

theorem checkOutputs_ok (filled : ∀ txout ∈ tx.vout, txout.isEmpty = false ∧ 0 ≤ txout.nValue.toInt)
    (later : ∀ txout ∈ tx.vout.tail, txout.nValue ≠ 0)
    (total : (tx.vout.map fun txout => txout.nValue.toInt).sum ≤ MAX_MONEY.toInt) :
    ∃ v, tx.vout.zipIdx.foldlM tx.checkOutput 0 = .ok v := by
  have most : MAX_MONEY.toInt = 10000000000000000 := by decide
  obtain ⟨v, run, -⟩ := foldlM_complete tx.checkOutput tx.vout.zipIdx
    (fun done acc => acc.toInt = (done.map fun item => item.1.nValue.toInt).sum) 0 rfl
    fun done item rest acc split sum => by
      have here : tx.vout[item.2]? = some item.1 := List.mem_zipIdx_iff_getElem?.mp (by simp [split])
      have all : tx.vout = done.map Prod.fst ++ item.1 :: rest.map Prod.fst := by
        conv_lhs => rw [← List.zipIdx_map_fst 0 tx.vout, split, List.map_append, List.map_cons]
      have nonneg : ∀ part : List CTxOut, part ⊆ tx.vout → 0 ≤ (part.map fun txout => txout.nValue.toInt).sum :=
        fun part inside => List.sum_nonneg (List.forall_mem_map.mpr fun txout there => (filled _ (inside there)).2)
      have before := nonneg (done.map Prod.fst) (by simp [all])
      have after := nonneg (rest.map Prod.fst) (by simp [all])
      rw [List.map_map] at before
      have before : 0 ≤ (done.map fun item => item.1.nValue.toInt).sum := before
      rw [all, List.map_append, List.map_cons, List.sum_append, List.sum_cons, List.map_map] at total
      have total : (done.map fun item => item.1.nValue.toInt).sum + _ ≤ MAX_MONEY.toInt := total
      obtain ⟨nonempty, low⟩ := filled _ (List.mem_of_getElem? here)
      have exactly : (acc + item.1.nValue).toInt = acc.toInt + item.1.nValue.toInt := by
        rw [Int64.toInt_add, Int.bmod_eq_of_le] <;> omega
      refine ⟨acc + item.1.nValue, ?_, by simp [exactly, sum]⟩
      have range : moneyRange (acc + item.1.nValue) := moneyRange_iff.mpr (by omega)
      have high : ¬ item.1.nValue > MAX_MONEY := by
        rw [gt_iff_lt, Int64.lt_iff_toInt_lt]
        omega
      have nonzero : ¬ (¬ item.1.isEmpty ∧ item.1.nValue < MIN_TXOUT_AMOUNT ∧ item.1.nValue = 0 ∧ ¬ tx.isCoinBase ∧
          item.2 ≠ 0) := by
        rintro ⟨-, -, zero, -, first⟩
        refine later item.1 (List.mem_of_getElem? (i := item.2 - 1) ?_) zero
        rw [List.getElem?_tail, Nat.sub_add_cancel (Nat.pos_of_ne_zero first), here]
      rw [CTransaction.checkOutput]
      dsimp only
      rw [failIf_of_not (by simp [nonempty]), ok_bind, failIf_of_not nonzero, ok_bind, failIf_of_not high, ok_bind,
        failIf_of_not (not_not.mpr range)]
      rfl
  exact ⟨v, run⟩

theorem checkTransaction_ok (some : tx.vin ≠ []) (outputs : tx.vout ≠ [])
    (small : tx.getSerializeSize ≤ MAX_BLOCK_SIZE) {v : Int64}
    (loop : tx.vout.zipIdx.foldlM tx.checkOutput 0 = .ok v) (once : (tx.vin.map CTxIn.prevout).Nodup)
    (known : ∀ o ∈ tx.vin.map CTxIn.prevout, o.isNull = false) : tx.checkTransaction = .ok () := by
  rw [List.forall_mem_map] at known
  have user : tx.isCoinBase = false := by
    rw [CTransaction.isCoinBase]
    split
    · next txin only => rw [known txin (by rw [only]; exact List.mem_singleton_self _), Bool.false_and]
    · rfl
  have clean : ¬ (tx.vin.any fun txin => txin.prevout.isNull) = true := by
    rw [List.any_eq_true]
    rintro ⟨txin, member, null⟩
    rw [known txin member] at null
    cases null
  rw [CTransaction.checkTransaction, failIf_of_not some, ok_bind, failIf_of_not outputs, ok_bind,
    failIf_of_not (Nat.not_lt.mpr small), ok_bind, loop, ok_bind, failIf_of_not (not_not.mpr once), ok_bind, user,
    if_neg Bool.false_ne_true, failIf_of_not clean]

structure Created (P : Primitives) (C : Crypto) (deref : ℕ → CTransaction) (vCoins : List COutput)
    (vecSend : List (CScript × Int64)) (tx : CTransaction) (nFeeRet : Int64) : Prop where
  checked : tx.checkTransaction = .ok ()
  outputs : ∃ change, tx.vout = change :: (vecSend.map fun s => ⟨s.2, s.1⟩) ∧
    (change.nValue = 0 ∨ MIN_TXOUT_AMOUNT ≤ change.nValue)
  fee : TX_FEE.toInt ≤ nFeeRet.toInt ∧ nFeeRet.toInt < 2 * TX_FEE.toInt
  funded : ∃ chosen, chosen.Subperm (vCoins.map COutput.coin) ∧
    (tx.vin.map CTxIn.prevout).Perm (chosen.map fun coin => spentBy P deref coin.second) ∧
    coinTotal chosen = (tx.vout.map fun txout => txout.nValue.toInt).sum + nFeeRet.toInt
  signed : ∀ i txin, tx.vin[i]? = some txin → ∃ output ∈ vCoins, txin.prevout = spentBy P deref output.coin.second ∧
    (verifyScript C txin.scriptSig (output.tx.vout.get ⟨output.i, output.inside⟩).scriptPubKey tx i true 0).result =
      .ok true

section Create
variable {rand : ℕ → ℕ → ℕ → ℕ} {reserved : Check Valtype} {vecSend : List (CScript × Int64)}
  {wtxNew tx : CTransaction} {nFeeRet : Int64}

theorem createTransaction_eq_ok
    (create : createTransaction P C keystore deref vCoins rand reserved vecSend wtxNew = .ok (some (tx, nFeeRet))) :
    ∃ nValue nChange id, sumSend 0 vecSend = some nValue ∧ (selectCoins rand (nValue + TX_FEE) vCoins).1 = true ∧
      splitChange (selectCoins rand (nValue + TX_FEE) vCoins).2.nValueRet nValue TX_FEE = (nChange, nFeeRet) ∧
      signInputs C keystore deref 0 ((selectCoins rand (nValue + TX_FEE) vCoins).2.ordered vCoins) { wtxNew with
        vout := ⟨if nChange > 0 then nChange else 0, Wallet.setDestination (.keyID id)⟩ ::
          vecSend.map fun s => ⟨s.2, s.1⟩
        vin := ((selectCoins rand (nValue + TX_FEE) vCoins).2.ordered vCoins).map fun ref =>
          ⟨spentBy P deref ref, [], 0xffffffff⟩ } = .ok (some tx) ∧
      tx.getSerializeSize < MAX_BLOCK_SIZE_GEN / 5 := by
  rw [createTransaction] at create
  cases sum : sumSend 0 vecSend with
  | none => simp [sum, pure_eq_ok] at create
  | some nValue =>
    simp only [sum] at create
    by_cases bad : vecSend = [] ∨ nValue < 0
    · simp [if_pos bad, pure_eq_ok] at create
    · rw [if_neg bad] at create
      cases found : (selectCoins rand (nValue + TX_FEE) vCoins).1 with
      | false => simp [found, pure_eq_ok] at create
      | true =>
        simp only [found, not_true_eq_false, if_false, bind_eq_ok] at create
        obtain ⟨vchPubKey, -, -, -, signed, run, create⟩ := create
        cases signed with
        | none => simp [pure_eq_ok] at create
        | some wtxNew =>
          dsimp only at create
          split_ifs at create with large
          · simp [pure_eq_ok] at create
          · obtain ⟨rfl, rfl⟩ := Prod.mk.inj (Option.some.inj (pure_eq_ok.mp create))
            exact ⟨nValue, _, C.hash160 vchPubKey, rfl, found, rfl, run, not_le.mp large⟩

/-- The coins are worth the outputs and the fee, which is at least what `ConnectInputs` asks for. -/
theorem createTransaction_sound (spendable : Spendable P deref vCoins) (positive : ∀ s ∈ vecSend, 0 < s.2.toInt)
    (limit : (vecSend.map fun s => s.2.toInt).sum ≤ MAX_MONEY.toInt)
    (create : createTransaction P C keystore deref vCoins rand reserved vecSend wtxNew = .ok (some (tx, nFeeRet))) :
    Created P C deref vCoins vecSend tx nFeeRet := by
  have most : MAX_MONEY.toInt = 10000000000000000 := by decide
  have least : TX_FEE.toInt = 1000000 := by decide
  have one : CENT.toInt = 1000000 := by decide
  obtain ⟨nValue, nChange, id, sum, found, change, run, size⟩ := createTransaction_eq_ok create
  obtain ⟨low, value⟩ := sumSend_eq_some positive le_rfl (by simpa using limit) sum
  rw [Int64.toInt_zero, zero_add] at value
  have target : (nValue + TX_FEE).toInt = nValue.toInt + TX_FEE.toInt := by
    rw [Int64.toInt_add, Int.bmod_eq_of_le] <;> omega
  have cent : (nValue + TX_FEE + CENT).toInt = (nValue + TX_FEE).toInt + 1000000 := by
    rw [Int64.toInt_add, one, target, Int.bmod_eq_of_le] <;> omega
  obtain ⟨chosen, part, nodup, set, worth, enough⟩ := spendable.selectCoins_pays cent found
  generalize (selectCoins rand (nValue + TX_FEE) vCoins).2 = selection at change run set worth enough
  rw [Int64.le_iff_toInt_le, target] at enough
  have high := (coinTotal_subperm part spendable.addable.positive).trans spendable.bounded
  obtain ⟨dust, nonneg, total, fee⟩ := splitChange_ok low enough (worth.trans_le high) change
  have kept : (if nChange > 0 then nChange else 0) = nChange := by
    split_ifs with some
    · rfl
    · rw [gt_iff_lt, Int64.lt_iff_toInt_lt, Int64.toInt_zero] at some
      exact Int64.toInt_inj.mp (by rw [Int64.toInt_zero]; omega)
  rw [kept] at run
  obtain ⟨vout, vin, -, signed⟩ := signInputs_eq_ok run
  have perm := spendable.ordered_perm part nodup set
  have outputs : (tx.vout.map fun txout => txout.nValue.toInt).sum = nChange.toInt + nValue.toInt := by
    rw [vout, List.map_cons, List.sum_cons, List.map_map, value]
    rfl
  have prevouts : tx.vin.map CTxIn.prevout = (selection.ordered vCoins).map (spentBy P deref) := by
    rw [vin, List.map_map]
    rfl
  have nonzero : ∀ s ∈ vecSend, s.2 ≠ 0 := by
    intro s inside zero
    have paid := positive s inside
    rw [zero] at paid
    exact absurd paid (by decide)
  refine ⟨?_, ⟨_, vout, dust⟩, fee, ⟨chosen, part, ?_, by omega⟩, fun i txin input => ?_⟩
  · have filled : ∀ txout ∈ tx.vout, txout.isEmpty = false ∧ 0 ≤ txout.nValue.toInt := by
      rw [vout]
      refine List.forall_mem_cons.mpr ⟨⟨by simp [CTxOut.isEmpty, Wallet.setDestination], nonneg⟩, ?_⟩
      exact List.forall_mem_map.mpr fun s inside =>
        ⟨by simp [CTxOut.isEmpty, nonzero s inside], (positive s inside).le⟩
    obtain ⟨v, loop⟩ := checkOutputs_ok filled (by rw [vout]; exact List.forall_mem_map.mpr nonzero) (by omega)
    have room : MAX_BLOCK_SIZE_GEN / 5 ≤ MAX_BLOCK_SIZE := by decide
    refine checkTransaction_ok ?_ (by simp [vout]) (by omega) loop ?_ ?_
    · intro none
      rw [none, List.map_nil, eq_comm, List.map_eq_nil_iff] at prevouts
      rw [prevouts, List.nil_perm, List.map_eq_nil_iff] at perm
      rw [worth, perm] at enough
      simp only [coinTotal, List.map_nil, List.sum_nil] at enough
      omega
    · rw [prevouts]
      refine (perm.nodup_iff.mpr nodup).map_on fun a first b second same => ?_
      obtain ⟨outputA, hereA, rfl⟩ := exists_output first
      obtain ⟨outputB, hereB, rfl⟩ := exists_output second
      exact spendable.spentBy_inj hereA hereB same
    · rw [prevouts]
      refine List.forall_mem_map.mpr fun ref place => ?_
      obtain ⟨output, here, rfl⟩ := exists_output place
      exact spendable.spentBy_not_null here
  · rw [prevouts]
    refine (perm.map _).trans ?_
    rw [List.map_map]
    rfl
  · have place := congrArg (·[i]?) prevouts
    simp only [List.getElem?_map, input, Option.map_some] at place
    obtain ⟨ref, at_i, same⟩ := Option.map_eq_some_iff.mp place.symm
    obtain ⟨output, here, rfl⟩ := exists_output (List.mem_of_getElem? at_i)
    obtain ⟨_, txout, input', spent, verified⟩ := signed i _ at_i
    rw [Nat.zero_add] at input' verified
    obtain rfl : txin = _ := Option.some.inj (input.symm.trans input')
    rw [← same, show (deref output.coin.second.1).vout = output.tx.vout from spendable.same output here, spentBy,
      (spendable.toNat_index here).1, List.getElem?_eq_getElem output.inside, Option.some.injEq] at spent
    refine ⟨output, here, same.symm, ?_⟩
    rw [show output.tx.vout.get ⟨output.i, output.inside⟩ = txout from spent]
    exact verified

end Create

def headCoin (address : ℕ) (nValue : Int64) : COutput := ⟨⟨address, [⟨nValue, headScript⟩], true⟩, 0, 10, Nat.one_pos⟩

def headCoins : List COutput := [headCoin 1 (9 * CENT), headCoin 2 (5 * CENT)]

def headDeref (address : ℕ) : CTransaction :=
  ⟨1, UInt32.ofNat address, [], [⟨if address = 1 then 9 * CENT else 5 * CENT, headScript⟩], 0⟩

def headCreated : Check (Option (CTransaction × Int64)) :=
  createTransaction toy headCrypto headKeystore headDeref headCoins (fun _ _ _ => 0) (.ok headKey.getPubKey)
    [(headScript, CENT)] (headDeref 3)

theorem headCoins_spent : ∃ tx nFeeRet, headCreated = .ok (some (tx, nFeeRet)) ∧
    Created toy headCrypto headDeref headCoins [(headScript, CENT)] tx nFeeRet := by
  have spendable : Spendable toy headDeref headCoins :=
    ⟨by decide +kernel, by decide, by decide, by decide, by decide, by decide +kernel⟩
  have some : headCreated.toOption.join.isSome = true := by decide +kernel
  cases create : headCreated with
  | error stop => simp [create, Except.toOption] at some
  | ok created =>
    cases created with
    | none => simp [create, Except.toOption] at some
    | some result => exact ⟨_, _, rfl, createTransaction_sound spendable (by decide) (by decide) create⟩

end RitCoin.Proof
