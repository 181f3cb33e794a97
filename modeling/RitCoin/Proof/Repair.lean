import RitCoin.Proof.Coins

namespace RitCoin.Proof
open Lib Model Model.Wallet Std
variable {i n : ℕ} {wtx wtx' pcoin : Wallet.CWalletTx} {txout : CTxOut} {hash : Uint256} {Point : Type}
  {env : Surroundings Point} {node : Node} {now : Int} {wallet wallet' : CWallet}

theorem setSpent_getD (wtx : Wallet.CWalletTx) (n : ℕ) (fSpent : Bool) (inside : i < wtx.vout.length) :
    (wtx.setSpent n fSpent).vfSpent.getD i false = if i = n then fSpent else wtx.vfSpent.getD i false := by
  have length : i < wtx.resizeSpent.length := by
    rw [CWalletTx.resizeSpent, List.length_append, List.length_take, List.length_replicate]
    omega
  rw [CWalletTx.setSpent]
  split_ifs with same here here
  · rw [here]
    exact same
  · exact resizeSpent_getD wtx inside
  · rw [here]
    change (wtx.resizeSpent.set n fSpent).getD n false = fSpent
    rw [List.getD_eq_getElem?_getD, List.getElem?_set_self (here ▸ length)]
    rfl
  · change (wtx.resizeSpent.set n fSpent).getD i false = _
    rw [List.getD_eq_getElem?_getD, List.getElem?_set_ne (Ne.symm here), ← List.getD_eq_getElem?_getD,
      resizeSpent_getD wtx inside]

def Reflagged (wtx wtx' : Wallet.CWalletTx) : Prop :=
  ∃ vfSpent nAvailableCreditCached,
    wtx' = { wtx with vfSpent := vfSpent, nAvailableCreditCached := nAvailableCreditCached }

theorem Reflagged.refl (wtx : Wallet.CWalletTx) : Reflagged wtx wtx := ⟨_, _, rfl⟩

theorem Reflagged.trans {wtx₁ wtx₂ wtx₃ : Wallet.CWalletTx} (first : Reflagged wtx₁ wtx₂)
    (second : Reflagged wtx₂ wtx₃) : Reflagged wtx₁ wtx₃ := by
  obtain ⟨_, _, rfl⟩ := first
  obtain ⟨_, _, rfl⟩ := second
  exact ⟨_, _, rfl⟩

theorem Reflagged.vout (reflagged : Reflagged wtx wtx') : wtx'.vout = wtx.vout := by
  obtain ⟨_, _, rfl⟩ := reflagged
  rfl

theorem reflagged_setSpent (wtx : Wallet.CWalletTx) (n : ℕ) (fSpent : Bool) :
    Reflagged wtx (wtx.setSpent n fSpent) := by
  rw [CWalletTx.setSpent]
  split_ifs
  · exact ⟨_, _, rfl⟩
  · exact ⟨_, _, rfl⟩

theorem fixOutput_reflagged (txindex : CTxIndex) (fCheckOnly : Bool) (found : Mismatches)
    (pcoin : Wallet.CWalletTx) (txout : CTxOut) (n : ℕ) :
    Reflagged pcoin (CWallet.fixOutput env wallet txindex fCheckOnly found pcoin txout n).2 := by
  simp only [CWallet.fixOutput]
  split_ifs <;> first | exact .refl pcoin | exact reflagged_setSpent pcoin n _

theorem fixOutputs_reflagged (txindex : CTxIndex) (fCheckOnly : Bool) (outputs : List (CTxOut × ℕ)) :
    ∀ (found : Mismatches) (pcoin : Wallet.CWalletTx),
      Reflagged pcoin (CWallet.fixOutputs env wallet txindex fCheckOnly found pcoin outputs).2 := by
  induction outputs with
  | nil => exact fun _ pcoin => .refl pcoin
  | cons output outputs ih =>
    intro found pcoin
    exact (fixOutput_reflagged txindex fCheckOnly found pcoin output.1 output.2).trans (ih _ _)

theorem fixOutput_getD (txindex : CTxIndex) (found : Mismatches) (pcoin : Wallet.CWalletTx) (txout : CTxOut)
    (n : ℕ) (inside : i < pcoin.vout.length) :
    (CWallet.fixOutput env wallet txindex false found pcoin txout n).2.vfSpent.getD i false =
      if n = i ∧ wallet.isMine env txout then CWallet.spentInIndex txindex i else pcoin.vfSpent.getD i false := by
  have flag : ∀ fSpent, (pcoin.setSpent n fSpent).vfSpent.getD i false =
      if n = i then fSpent else pcoin.vfSpent.getD i false := by
    intro fSpent
    rw [setSpent_getD pcoin n fSpent inside]
    simp only [eq_comm]
  simp only [CWallet.fixOutput]
  by_cases here : n = i
  · subst here
    cases mine : wallet.isMine env txout <;> cases spent : CWallet.spentInIndex txindex n <;>
      cases before : pcoin.vfSpent.getD n false <;>
      simp only [flag, before, Bool.false_eq_true, not_false_eq_true, not_true_eq_false, and_true, and_false,
        if_true, if_false]
  · simp only [here, false_and, if_false]
    split_ifs <;> first | rfl | simp only [flag, here, if_false]

theorem fixOutputs_getD (txindex : CTxIndex) (outputs : List (CTxOut × ℕ)) :
    ∀ (found : Mismatches) (pcoin : Wallet.CWalletTx), i < pcoin.vout.length →
      (CWallet.fixOutputs env wallet txindex false found pcoin outputs).2.vfSpent.getD i false =
        if ∃ output ∈ outputs, output.2 = i ∧ wallet.isMine env output.1 then CWallet.spentInIndex txindex i
        else pcoin.vfSpent.getD i false := by
  induction outputs with
  | nil =>
    intro found pcoin _
    rw [if_neg fun ⟨_, member, _⟩ => List.not_mem_nil member]
    rfl
  | cons output outputs ih =>
    intro found pcoin inside
    have same : (CWallet.fixOutput env wallet txindex false found pcoin output.1 output.2).2.vout =
        pcoin.vout :=
      (fixOutput_reflagged txindex false found pcoin output.1 output.2).vout
    rw [CWallet.fixOutputs, ih _ _ (same ▸ inside), fixOutput_getD txindex found pcoin output.1 output.2 inside]
    simp only [List.exists_mem_cons_iff]
    by_cases later : ∃ output ∈ outputs, output.2 = i ∧ wallet.isMine env output.1
    · rw [if_pos later, if_pos (.inr later)]
    · simp only [later, or_false, if_false]

theorem fixOutputs_own (txindex : CTxIndex) (found : Mismatches) (pcoin : Wallet.CWalletTx)
    (there : pcoin.vout[i]? = some txout) :
    (CWallet.fixOutputs env wallet txindex false found pcoin pcoin.vout.zipIdx).2.vfSpent.getD i false =
      if wallet.isMine env txout then CWallet.spentInIndex txindex i else pcoin.vfSpent.getD i false := by
  have inside := (List.getElem?_eq_some_iff.mp there).1
  have only : (∃ output ∈ pcoin.vout.zipIdx, output.2 = i ∧ wallet.isMine env output.1) ↔
      wallet.isMine env txout := by
    constructor
    · rintro ⟨⟨other, k⟩, member, rfl, mine⟩
      obtain rfl := Option.some.inj ((List.mem_zipIdx_iff_getElem?.mp member).symm.trans there)
      exact mine
    · exact fun mine => ⟨(txout, i), List.mem_zipIdx_iff_getElem?.mpr there, rfl, mine⟩
  rw [fixOutputs_getD txindex _ found pcoin inside]
  simp only [only]

def repaired (env : Surroundings Point) (node : Node) (wallet : CWallet) (pcoin : Wallet.CWalletTx) :
    Wallet.CWalletTx :=
  match node.pdb.open.readTxIndex (env.P.hashTx pcoin.toCTransaction) with
  | none => pcoin
  | some txindex => (CWallet.fixOutputs env wallet txindex false ⟨0, 0⟩ pcoin pcoin.vout.zipIdx).2

theorem repaired_reflagged (pcoin : Wallet.CWalletTx) : Reflagged pcoin (repaired env node wallet pcoin) := by
  rw [repaired]
  split
  · exact .refl pcoin
  · exact fixOutputs_reflagged _ _ _ _ _

theorem isMine_of_keystore (keys : wallet'.keystore = wallet.keystore) (txout : CTxOut) :
    wallet'.isMine env txout = wallet.isMine env txout := by
  rw [CWallet.isMine, CWallet.isMine, keys]

theorem fixOutputs_record (keys : wallet'.keystore = wallet.keystore) (txindex : CTxIndex) (fCheckOnly : Bool)
    (outputs : List (CTxOut × ℕ)) : ∀ (found found' : Mismatches) (pcoin : Wallet.CWalletTx),
      (CWallet.fixOutputs env wallet' txindex fCheckOnly found' pcoin outputs).2 =
        (CWallet.fixOutputs env wallet txindex fCheckOnly found pcoin outputs).2 := by
  induction outputs with
  | nil => exact fun _ _ _ => rfl
  | cons output outputs ih =>
    intro found found' pcoin
    have round : (CWallet.fixOutput env wallet' txindex fCheckOnly found' pcoin output.1 output.2).2 =
        (CWallet.fixOutput env wallet txindex fCheckOnly found pcoin output.1 output.2).2 := by
      simp only [CWallet.fixOutput, isMine_of_keystore keys]
      split_ifs <;> rfl
    simp only [CWallet.fixOutputs]
    rw [round]
    exact ih _ _ _

theorem fixCoin_keystore (found : Mismatches) (hash : Uint256) (pcoin : Wallet.CWalletTx) :
    (CWallet.fixCoin env false node found wallet hash pcoin).2.keystore = wallet.keystore := by
  rw [CWallet.fixCoin]
  split <;> rfl

theorem fixCoin_lookup (keys : wallet'.keystore = wallet.keystore) (found : Mismatches)
    (stored : wallet'.mapWallet[hash]? = some pcoin) (key : Uint256) :
    (CWallet.fixCoin env false node found wallet' hash pcoin).2.mapWallet[key]? =
      if hash = key then some (repaired env node wallet pcoin) else wallet'.mapWallet[key]? := by
  cases read : node.pdb.open.readTxIndex (env.P.hashTx pcoin.toCTransaction) with
  | none =>
    simp only [CWallet.fixCoin, repaired, read]
    split_ifs with here
    · rw [← here, stored]
    · rfl
  | some txindex =>
    simp only [CWallet.fixCoin, repaired, read, ExtTreeMap.getElem?_insert, Std.compare_eq_iff_eq]
    rw [fixOutputs_record keys txindex false _ ⟨0, 0⟩ found pcoin]

theorem fixSpentCoins_records (env : Surroundings Point) (node : Node) (wallet : CWallet) :
    (wallet.fixSpentCoins env false node).2.keystore = wallet.keystore ∧
    ∀ hash : Uint256, (wallet.fixSpentCoins env false node).2.mapWallet[hash]? =
      (wallet.mapWallet[hash]?).map (repaired env node wallet) := by
  let records := wallet.mapWallet.toList
  -- the records of the list so far are repaired, and the others are as they were
  have loop := foldl_rel (fun state record =>
      CWallet.fixCoin env false node state.1 state.2 record.1 record.2) records
    (fun done (state : Mismatches × CWallet) => state.2.keystore = wallet.keystore ∧
      ∀ hash, state.2.mapWallet[hash]? = if hash ∈ done.map Prod.fst then
        (wallet.mapWallet[hash]?).map (repaired env node wallet) else wallet.mapWallet[hash]?)
    (⟨0, 0⟩, wallet) ⟨rfl, fun _ => rfl⟩ ?_
  · refine ⟨loop.1, fun hash => ?_⟩
    refine (loop.2 hash).trans ?_
    split_ifs with listed
    · rfl
    · cases known : wallet.mapWallet[hash]? with
      | none => rfl
      | some pcoin =>
        have member := ExtTreeMap.mem_toList_iff_getElem?_eq_some.mpr known
        exact absurd (List.mem_map_of_mem member) listed
  · rintro done ⟨hash, pcoin⟩ rest ⟨found, current⟩ split ⟨keys, state⟩
    have member : (hash, pcoin) ∈ records := by simp [split]
    have known := ExtTreeMap.mem_toList_iff_getElem?_eq_some.mp member
    have fresh : hash ∉ done.map Prod.fst := by
      have distinct : records.Pairwise fun a b => ¬ compare a.1 b.1 = .eq := ExtTreeMap.distinct_keys_toList
      rw [split, List.pairwise_append] at distinct
      intro listed
      obtain ⟨other, before, same⟩ := List.mem_map.mp listed
      exact distinct.2.2 other before _ List.mem_cons_self (Std.compare_eq_iff_eq.mpr same)
    have stored : current.mapWallet[hash]? = some pcoin := by
      rw [state, if_neg fresh, known]
    refine ⟨(fixCoin_keystore found hash pcoin).trans keys, fun key => ?_⟩
    refine (fixCoin_lookup keys found stored key).trans ?_
    simp only [List.map_append, List.map_cons, List.map_nil, List.mem_append, List.mem_singleton]
    by_cases here : hash = key
    · rw [if_pos here, if_pos (.inr here.symm), ← here, known]
      rfl
    · simp only [here, Ne.symm here, or_false, if_false]
      exact state key

section Whole
variable (keys : wallet'.keystore = wallet.keystore)
  (records : ∀ hash : Uint256, Option.Rel Reflagged wallet.mapWallet[hash]? wallet'.mapWallet[hash]?)
include keys records

theorem prevOut_reflagged (txin : CTxIn) : wallet'.prevOut env txin = wallet.prevOut env txin := by
  have record := records txin.prevout.hash
  simp only [CWallet.prevOut]
  generalize wallet.mapWallet[txin.prevout.hash]? = before at record
  generalize wallet'.mapWallet[txin.prevout.hash]? = after at record
  cases record with
  | none => rfl
  | some reflagged =>
    simp only [Option.bind_eq_bind, Option.bind_some, reflagged.vout, isMine_of_keystore keys]

theorem getDebit_reflagged (tx : CTransaction) : wallet'.getDebit env tx = wallet.getDebit env tx := by
  refine sumInRange_congr fun txin _ => ?_
  rw [CWallet.debitOf, CWallet.debitOf, prevOut_reflagged keys records]

theorem confirmedRounds_reflagged (mapPrev : ExtTreeMap Uint256 CMerkleTx) (vWorkQueue : List CMerkleTx) :
    confirmedRounds env node now wallet' mapPrev vWorkQueue =
      confirmedRounds env node now wallet mapPrev vWorkQueue := by
  induction vWorkQueue with
  | nil => rfl
  | cons ptx rest ih =>
    simp only [confirmedRounds, confirmedRound, ih, getDebit_reflagged keys records]

theorem confirmedQueue_reflagged (mapPrev : ExtTreeMap Uint256 CMerkleTx) (fuel : ℕ) :
    ∀ vWorkQueue, confirmedQueue env node now wallet' mapPrev fuel vWorkQueue =
      confirmedQueue env node now wallet mapPrev fuel vWorkQueue := by
  induction fuel with
  | zero => exact fun _ => rfl
  | succ fuel ih =>
    intro vWorkQueue
    simp only [confirmedQueue, confirmedRounds_reflagged keys records, ih]

theorem isConfirmed_reflagged (reflagged : Reflagged wtx wtx') :
    wtx'.isConfirmed env node now wallet' = wtx.isConfirmed env node now wallet := by
  obtain ⟨_, _, rfl⟩ := reflagged
  simp only [CWalletTx.isConfirmed, CWalletTx.getDepthInMainChain, CWalletTx.getDebit,
    getDebit_reflagged keys records, confirmedQueue_reflagged keys records]
  -- neither the depth nor the debit reads the flags
  cases wtx.toCMerkleTx.getDepthInMainChain env.P node with
  | error failure => rfl
  | ok looked =>
    cases wtx.nDebitCached with
    | some nDebit =>
      simp only [ok_bind, pure_bind]
      split_ifs <;> rfl
    | none =>
      simp only [ok_bind, pure_bind]
      cases wallet.getDebit env looked.1.toCTransaction <;> split_ifs <;> rfl

omit keys records in
theorem getBlocksToMaturity_reflagged (reflagged : Reflagged wtx wtx') :
    Prod.snd <$> wtx'.getBlocksToMaturity env node = Prod.snd <$> wtx.getBlocksToMaturity env node := by
  obtain ⟨_, _, rfl⟩ := reflagged
  simp only [CWalletTx.getBlocksToMaturity, CWalletTx.getDepthInMainChain]
  cases wtx.toCMerkleTx.getDepthInMainChain env.P node <;> split_ifs <;> rfl

theorem offersOutputs_reflagged (reflagged : Reflagged wtx wtx') (fOnlyConfirmed : Bool) :
    wallet'.offersOutputs env node now fOnlyConfirmed wtx' =
      wallet.offersOutputs env node now fOnlyConfirmed wtx := by
  have mature : ∀ wtx : Wallet.CWalletTx,
      (wtx.getBlocksToMaturity env node >>= fun maturity => pure (decide (¬ maturity.2 > 0)) : Check Bool) =
      (fun nBlocks : Int => decide (¬ nBlocks > 0)) <$> Prod.snd <$> wtx.getBlocksToMaturity env node := by
    intro wtx
    cases wtx.getBlocksToMaturity env node <;> rfl
  have final : wtx'.toCTransaction = wtx.toCTransaction := by
    obtain ⟨_, _, rfl⟩ := reflagged
    rfl
  simp only [CWallet.offersOutputs, isConfirmed_reflagged keys records reflagged, mature,
    getBlocksToMaturity_reflagged reflagged, final]

end Whole

/-- An unconfirmed transaction of the wallet that waits in the memory pool spends the output. -/
def WaitingSpender (env : Surroundings Point) (node : Node) (wallet : CWallet) (hash : Uint256) (n : ℕ) : Prop :=
  ∃ (key : Uint256) (spender looked : Wallet.CWalletTx) (nDepth : Int),
    wallet.mapWallet[key]? = some spender ∧ env.P.hashTx spender.toCTransaction ∈ node.mempool.mapTx ∧
    spender.getDepthInMainChain env node = .ok (looked, nDepth) ∧ nDepth < 1 ∧
    ∃ txin ∈ spender.vin, txin.prevout.hash = hash ∧ txin.prevout.n.toNat = n

/-- Only its flag keeps the output from being offered, and the transaction index has it as unspent. -/
structure LostCoin (env : Surroundings Point) (node : Node) (now : Int) (wallet : CWallet) (hash : Uint256) (n : ℕ)
    (pcoin : Wallet.CWalletTx) (txout : CTxOut) (txindex : CTxIndex) : Prop where
  record : wallet.mapWallet[hash]? = some pcoin
  output : pcoin.vout[n]? = some txout
  mine : wallet.isMine env txout = true
  positive : txout.nValue > 0
  spent : pcoin.vfSpent.getD n false = true
  indexed : node.pdb.open.readTxIndex (env.P.hashTx pcoin.toCTransaction) = some txindex
  unspent : CWallet.spentInIndex txindex n = false
  final : isFinalNow node now pcoin.toCTransaction = true
  mature : ∃ looked nBlocks, pcoin.getBlocksToMaturity env node = .ok (looked, nBlocks) ∧ nBlocks ≤ 0

theorem offersOutputs_true_of {fOnlyConfirmed : Bool}
    (offers : wallet.offersOutputs env node now fOnlyConfirmed pcoin = .ok true) :
    isFinalNow node now pcoin.toCTransaction = true ∧
      ∃ looked nBlocks, pcoin.getBlocksToMaturity env node = .ok (looked, nBlocks) ∧ nBlocks ≤ 0 := by
  by_cases final : isFinalNow node now pcoin.toCTransaction = true
  · refine ⟨final, ?_⟩
    have later : ∃ isConfirmed, (if ¬ isConfirmed = true then pure false else
        pcoin.getBlocksToMaturity env node >>= fun maturity => pure (decide (¬ maturity.2 > 0)) : Check Bool) =
          .ok true := by
      simp only [CWallet.offersOutputs, final, not_true_eq_false, if_false] at offers
      cases fOnlyConfirmed with
      | false => exact ⟨true, offers⟩
      | true =>
        obtain ⟨isConfirmed, -, offers⟩ := bind_eq_ok.mp offers
        exact ⟨isConfirmed, offers⟩
    obtain ⟨isConfirmed, later⟩ := later
    split_ifs at later
    · obtain ⟨⟨looked, nBlocks⟩, maturity, mature⟩ := bind_eq_ok.mp later
      exact ⟨looked, nBlocks, maturity, by simpa using pure_eq_ok.mp mature⟩
    · exact absurd (pure_eq_ok.mp later) Bool.false_ne_true
  · simp only [CWallet.offersOutputs, final] at offers
    exact absurd (pure_eq_ok.mp offers) Bool.false_ne_true

theorem offersOutputs_unconfirmed {looked : Wallet.CWalletTx} {nBlocks : Int}
    (maturity : pcoin.getBlocksToMaturity env node = .ok (looked, nBlocks)) :
    wallet.offersOutputs env node now false pcoin =
      .ok (isFinalNow node now pcoin.toCTransaction && decide (nBlocks ≤ 0)) := by
  simp only [CWallet.offersOutputs, maturity]
  cases isFinalNow node now pcoin.toCTransaction with
  | false => rfl
  | true => simp [pure, Except.pure, bind, Except.bind]

theorem repaired_getD (there : pcoin.vout[n]? = some txout) (mine : wallet.isMine env txout = true) :
    (repaired env node wallet pcoin).vfSpent.getD n false =
      match node.pdb.open.readTxIndex (env.P.hashTx pcoin.toCTransaction) with
      | none => pcoin.vfSpent.getD n false
      | some txindex => CWallet.spentInIndex txindex n := by
  rw [repaired]
  split
  · rfl
  · rw [fixOutputs_own _ _ pcoin there, if_pos mine]

theorem fixSpentCoins_rel (env : Surroundings Point) (node : Node) (wallet : CWallet) (hash : Uint256) :
    Option.Rel Reflagged wallet.mapWallet[hash]? (wallet.fixSpentCoins env false node).2.mapWallet[hash]? := by
  rw [(fixSpentCoins_records env node wallet).2 hash]
  cases wallet.mapWallet[hash]? with
  | none => exact .none
  | some pcoin => exact .some (repaired_reflagged pcoin)

theorem offersOutput_iff {nSpendTime : UInt32} :
    wallet.offersOutput env nSpendTime pcoin txout n = true ↔ ¬ pcoin.nTime > nSpendTime ∧
      pcoin.vfSpent.getD n false = false ∧ wallet.isMine env txout = true ∧ txout.nValue > 0 := by
  simp only [CWallet.offersOutput, Bool.and_eq_true, Bool.not_eq_true', decide_eq_false_iff_not, decide_eq_true_eq,
    and_assoc]

theorem lostCoin_of_selectable (hasBest : HasBest node) {nSpendTime : UInt32} {fOnlyConfirmed : Bool}
    (after : Selectable env node now (wallet.fixSpentCoins env false node).2 nSpendTime fOnlyConfirmed hash n)
    (before : ¬ Selectable env node now wallet nSpendTime fOnlyConfirmed hash n) :
    ∃ pcoin txout txindex, LostCoin env node now wallet hash n pcoin txout txindex := by
  obtain ⟨keys, lookup⟩ := fixSpentCoins_records env node wallet
  have records := fixSpentCoins_rel env node wallet
  obtain ⟨whole, pcoin', txout, known, offers, inside, passes⟩ := (selectable_iff hasBest).mp after
  rw [lookup, Option.map_eq_some_iff] at known
  obtain ⟨pcoin, known, rfl⟩ := known
  have reflagged : Reflagged pcoin (repaired env node wallet pcoin) := repaired_reflagged pcoin
  rw [offersOutputs_reflagged keys records reflagged] at offers
  rw [reflagged.vout] at inside
  obtain ⟨time, flag, mine, positive⟩ := offersOutput_iff.mp passes
  rw [isMine_of_keystore keys] at mine
  rw [repaired_getD inside mine] at flag
  have spent : pcoin.vfSpent.getD n false = true := by
    -- otherwise the output was offered before
    by_contra unspent
    refine before ((selectable_iff hasBest).mpr ⟨?_, pcoin, txout, known, offers, inside, ?_⟩)
    · intro other record stored
      obtain ⟨offers, offered⟩ := whole other (repaired env node wallet record) (by rw [lookup, stored]; rfl)
      rw [offersOutputs_reflagged keys records (repaired_reflagged record)] at offered
      exact ⟨offers, offered⟩
    · have sameTime : (repaired env node wallet pcoin).nTime = pcoin.nTime := by
        obtain ⟨_, _, is⟩ := reflagged
        rw [is]
      exact offersOutput_iff.mpr ⟨sameTime ▸ time, Bool.eq_false_of_not_eq_true unspent, mine, positive⟩
  cases indexed : node.pdb.open.readTxIndex (env.P.hashTx pcoin.toCTransaction) with
  | none =>
    simp only [indexed] at flag
    exact absurd (spent.symm.trans flag) nofun
  | some txindex =>
    simp only [indexed] at flag
    obtain ⟨final, mature⟩ := offersOutputs_true_of offers
    exact ⟨pcoin, txout, txindex, known, inside, mine, positive, spent, indexed, flag, final, mature⟩

theorem LostCoin.selectable (hasBest : HasBest node) {hash : Uint256} {n : ℕ} {pcoin : Wallet.CWalletTx}
    {txout : CTxOut} {txindex : CTxIndex} (lost : LostCoin env node now wallet hash n pcoin txout txindex) :
    ¬ Selectable env node now wallet pcoin.nTime false hash n ∧
      Selectable env node now (wallet.fixSpentCoins env false node).2 pcoin.nTime false hash n := by
  obtain ⟨keys, lookup⟩ := fixSpentCoins_records env node wallet
  have records := fixSpentCoins_rel env node wallet
  have reflagged : Reflagged pcoin (repaired env node wallet pcoin) := repaired_reflagged pcoin
  have offers : wallet.offersOutputs env node now false pcoin = .ok true := by
    obtain ⟨looked, nBlocks, maturity, mature⟩ := lost.mature
    rw [offersOutputs_unconfirmed maturity, lost.final, decide_eq_true mature]
    rfl
  constructor
  · intro selectable
    obtain ⟨-, pcoin', txout', known, -, inside, passes⟩ := (selectable_iff hasBest).mp selectable
    obtain rfl := Option.some.inj (lost.record.symm.trans known)
    exact absurd (lost.spent.symm.trans (offersOutput_iff.mp passes).2.1) nofun
  · have whole : ∀ (hash : Uint256) (record : Wallet.CWalletTx),
        (wallet.fixSpentCoins env false node).2.mapWallet[hash]? = some record → ∃ offers,
          (wallet.fixSpentCoins env false node).2.offersOutputs env node now false record = .ok offers := by
      intro _ record _
      obtain ⟨_, _, maturity⟩ := hasBest.getBlocksToMaturity env record
      exact ⟨_, offersOutputs_unconfirmed maturity⟩
    refine (selectable_iff hasBest).mpr ⟨whole, ?_⟩
    refine ⟨repaired env node wallet pcoin, txout, ?_, ?_, ?_, offersOutput_iff.mpr ⟨?_, ?_, ?_, lost.positive⟩⟩
    · rw [lookup, lost.record]
      rfl
    · rw [offersOutputs_reflagged keys records reflagged, offers]
    · rw [reflagged.vout, lost.output]
    · obtain ⟨_, _, is⟩ := reflagged
      rw [is]
      exact UInt32.lt_irrefl _
    · rw [repaired_getD lost.output lost.mine, lost.indexed]
      exact lost.unspent
    · rw [isMine_of_keystore keys, lost.mine]

/-- A repair offers no output that a waiting transaction spends, exactly if no such output is lost. -/
theorem fixSpentCoins_safe_iff (env : Surroundings Point) (events : List Event) (pdb : LevelDB)
    (mempool : CTxMemPool) (wallet : CWallet) (now : Int) :
    let node := { run env.P events with pdb := pdb, mempool := mempool }
    (∀ nSpendTime fOnlyConfirmed hash n,
      Selectable env node now (wallet.fixSpentCoins env false node).2 nSpendTime fOnlyConfirmed hash n →
      ¬ Selectable env node now wallet nSpendTime fOnlyConfirmed hash n →
      ¬ WaitingSpender env node wallet hash n) ↔
    ∀ hash n pcoin txout txindex, LostCoin env node now wallet hash n pcoin txout txindex →
      ¬ WaitingSpender env node wallet hash n := by
  intro node
  have hasBest : HasBest node := (hasBest_run env.P events).withStores pdb mempool
  constructor
  · intro safe hash n pcoin txout txindex lost
    obtain ⟨before, after⟩ := lost.selectable hasBest
    exact safe pcoin.nTime false hash n after before
  · intro noneLost nSpendTime fOnlyConfirmed hash n after before
    obtain ⟨pcoin, txout, txindex, lost⟩ := lostCoin_of_selectable hasBest after before
    exact noneLost hash n pcoin txout txindex lost

def pendingWallet : CWallet := { bareWallet with
  mapWallet := (∅ : ExtTreeMap Uint256 Wallet.CWalletTx).insert 7 spentCopy
    |>.insert 8 (.init (.init (paysOne 8 ⟨7, 0⟩))) }

def pendingNode : Node := { run toy [] with
  pdb := (∅ : LevelDB).insert (.tx 7) (.txIndex (.new ⟨1, 0, 0⟩ 1))
  mempool := ⟨(∅ : ExtTreeMap Uint256 CTransaction).insert 8 (paysOne 8 ⟨7, 0⟩), ∅⟩ }

theorem pendingWallet_offersSpent :
    WaitingSpender toyEnv pendingNode pendingWallet 7 0 ∧
    ¬ Selectable toyEnv pendingNode 0 pendingWallet 7 false 7 0 ∧
    Selectable toyEnv pendingNode 0 (pendingWallet.fixSpentCoins toyEnv false pendingNode).2 7 false 7 0 := by
  have lost : LostCoin toyEnv pendingNode 0 pendingWallet 7 0 spentCopy ⟨5, setDestination (.keyID idOfOne)⟩
      (.new ⟨1, 0, 0⟩ 1) := {
    record := rfl
    output := by decide +kernel
    mine := by decide +kernel
    positive := by decide +kernel
    spent := by decide +kernel
    indexed := by decide +kernel
    unspent := by decide +kernel
    final := by decide +kernel
    mature := ⟨spentCopy, 0, rfl, le_rfl⟩ }
  refine ⟨?_, lost.selectable ((hasBest_run toy []).withStores _ _)⟩
  refine ⟨8, .init (.init (paysOne 8 ⟨7, 0⟩)), .init (.init (paysOne 8 ⟨7, 0⟩)), 0, ?_, ?_, rfl, by decide, ?_⟩
  · rfl
  · decide +kernel
  · decide +kernel

end RitCoin.Proof
