import RitCoin.Proof.Authenticity

namespace RitCoin.Proof
open Lib Model Spec Std
variable {failure : Failure} {α : Type} {x : Check α} {map : BlockMap} {e : CBlockIndex}

def NotNull (failure : Failure) : Prop := failure ≠ .stop .nullPointer

@[simp] theorem notNull_reject (nDoS : ℕ) (messages : List String) : NotNull (.reject nDoS messages) := nofun

@[simp] theorem notNull_throw (what : String) : NotNull (.throw what) := nofun

@[simp] theorem notNull_assertion : NotNull (.stop .assertion) := nofun

@[simp] theorem notNull_outOfRange : NotNull (.stop .outOfRange) := nofun

@[simp] theorem notNull_DoS (nDoS : ℕ) (message : String) : NotNull (DoS nDoS message) := nofun

@[simp] theorem notNull_error (message : String) : NotNull (error message) := nofun

theorem NotNull.caller (h : NotNull failure) (nDoS : ℕ → ℕ) (message : String) :
    NotNull (failure.caller nDoS message) := by
  cases failure with
  | reject => exact notNull_reject _ _
  | throw => exact notNull_throw _
  | stop fault => exact h

theorem NotNull.silent (h : NotNull failure) : NotNull failure.silent := by
  cases failure with
  | reject => exact notNull_reject _ _
  | throw => exact notNull_throw _
  | stop fault => exact h

theorem fails_caller (h : FailsWith NotNull x) (nDoS : ℕ → ℕ) (message : String) :
    FailsWith NotNull (x.mapError (Failure.caller nDoS message)) :=
  h.mapError fun _ notNull => notNull.caller nDoS message

theorem fails_silent (h : FailsWith NotNull x) : FailsWith NotNull (x.mapError Failure.silent) :=
  h.mapError fun _ notNull => notNull.silent

section Connect
open FailsWith
variable {P : Primitives} {node : Node} {txdb : TxDB} {tx : CTransaction} {tip parent pindexNew : CBlockIndex}
  {hashPrev : Uint256}

theorem getValueOut_notNull (tx : CTransaction) : FailsWith NotNull tx.getValueOut :=
  foldlM (fun _ _ => bind (failIf (by simp)) fun _ _ => ok _) _ _

theorem checkTransaction_notNull (tx : CTransaction) : FailsWith NotNull tx.checkTransaction := by
  refine bind (failIf (by simp)) fun _ _ => bind (failIf (by simp)) fun _ _ =>
    bind (failIf (by simp)) fun _ _ => bind (foldlM (fun _ _ => ?_) _ _) fun _ _ =>
    bind (failIf (by simp)) fun _ _ => ?_
  · exact bind (failIf (by simp)) fun _ _ => bind (failIf (by simp)) fun _ _ =>
      bind (failIf (by simp)) fun _ _ => bind (failIf (by simp)) fun _ _ => ok _
  · split_ifs
    · exact failIf (by simp)
    · exact failIf (by simp)

theorem checkBlock_notNull (now : Int) (block : CBlock) : FailsWith NotNull (block.checkBlock P now) := by
  refine bind (failIf (by simp)) fun _ _ => bind (failIf (by simp)) fun _ _ =>
    bind (failIf (by simp)) fun _ _ => bind (fails_caller (failIf (by simp)) _ _) fun _ _ =>
    bind (failIf (by simp)) fun _ _ => bind (failIf (by simp)) fun _ _ =>
    bind (failIf (by simp)) fun _ _ => bind (failIf (by simp)) fun _ _ =>
    bind (forM _ fun tx _ => fails_caller (checkTransaction_notNull tx) _ _) fun _ _ =>
    bind (failIf (by simp)) fun _ _ => bind (failIf (by simp)) fun _ _ => failIf (by simp)

theorem fetchInputs_notNull (mapTestPool : TxIndexMap) (fBlock fMiner : Bool) :
    FailsWith (fun failed => NotNull failed.failure)
      (tx.fetchInputs node txdb mapTestPool fBlock fMiner) := by
  rw [CTransaction.fetchInputs]
  split_ifs
  · exact ok _
  · refine bind (mapError (foldlM (fun inputs txin => ?_) _ _) fun _ h => h) fun _ _ =>
      bind (forM _ fun txin _ => ?_) fun _ _ => ok _
    · rw [CTransaction.fetchInput]
      split_ifs
      · exact ok _
      · refine bind (bind (failIf ?_) fun _ _ => ?_) fun _ _ => ok _
        · split_ifs <;> simp
        · split
          · split_ifs
            · split
              · exact error (by simp)
              · exact ok _
            · split
              · exact error (by simp)
              · exact ok _
          · split
            · exact error (by simp)
            · exact ok _
    · rw [CTransaction.checkPrevoutRange]
      split
      · exact error (by simp)
      · exact failIf (by simp)

theorem getOutputFor_notNull (txin : CTxIn) (inputs : MapPrevTx) :
    FailsWith NotNull (CTransaction.getOutputFor txin inputs) := by
  rw [CTransaction.getOutputFor]
  split
  · exact error (by simp)
  · split
    · exact error (by simp)
    · exact ok _

theorem getP2SHSigOpCount_notNull (inputs : MapPrevTx) :
    FailsWith NotNull (tx.getP2SHSigOpCount inputs) := by
  rw [CTransaction.getP2SHSigOpCount]
  split_ifs
  · exact ok _
  · exact foldlM (fun _ txin => bind (getOutputFor_notNull txin inputs) fun _ _ => ok _) _ _

theorem getValueIn_notNull (inputs : MapPrevTx) : FailsWith NotNull (tx.getValueIn inputs) := by
  rw [CTransaction.getValueIn]
  split_ifs
  · exact ok _
  · exact foldlM (fun _ txin => bind (getOutputFor_notNull txin inputs) fun _ _ => ok _) _ _

theorem checkInput_notNull (inputs : MapPrevTx) (pindexBlock : CBlockIndex) (nValueIn : Int64)
    (txin : CTxIn) : FailsWith NotNull (tx.checkInput node inputs pindexBlock nValueIn txin) := by
  rw [CTransaction.checkInput]
  split
  · exact error (by simp)
  · exact bind (failIf (by simp)) fun _ _ => bind (failIf (by simp)) fun _ _ =>
      bind (failIf (by simp)) fun _ _ => bind (failIf (by simp)) fun _ _ => ok _

theorem verifySignature_notNull (txFrom txTo : CTransaction) (nIn : ℕ) (strict : Bool) (nHashType : Int32) :
    FailsWith NotNull (CTransaction.verifySignature P txFrom txTo nIn strict nHashType) := by
  rw [CTransaction.verifySignature]
  split
  · exact error (by simp)
  · split
    · exact ok _
    · exact ok _

theorem spendInput_notNull (posThisTx : DiskPos) (fBlock fMiner strict : Bool)
    (state : MapPrevTx × TxIndexMap) (item : CTxIn × ℕ) :
    FailsWith NotNull (tx.spendInput P node posThisTx fBlock fMiner strict state item) := by
  simp only [CTransaction.spendInput]
  split
  · exact error (by simp)
  · refine bind (failIf ?_) fun _ _ => ?_
    · cases fMiner <;> simp
    · by_cases skip : fBlock = true ∧ node.nBestHeight < CTransaction.getTotalBlocksEstimate
      · rw [if_neg (not_not.mpr skip)]
        exact ok _
      · rw [if_pos skip]
        refine bind (verifySignature_notNull _ _ _ _ _) fun valid _ => ?_
        cases valid with
        | true => exact ok _
        | false =>
          cases strict with
          | false => exact bind (error (by simp)) fun _ _ => ok _
          | true =>
            exact bind (verifySignature_notNull _ _ _ _ _) fun _ _ => bind (failIf (by simp)) fun _ _ =>
              bind (error (by simp)) fun _ _ => ok _

theorem connectInputs_notNull (inputs : MapPrevTx) (mapTestPool : TxIndexMap) (posThisTx : DiskPos)
    (pindexBlock : CBlockIndex) (fBlock fMiner strict : Bool) :
    FailsWith NotNull
      (tx.connectInputs P node inputs mapTestPool posThisTx pindexBlock fBlock fMiner strict) := by
  rw [CTransaction.connectInputs]
  by_cases coinbase : tx.isCoinBase
  · rw [if_pos coinbase]
    exact ok _
  · rw [if_neg coinbase]
    refine bind (foldlM (checkInput_notNull inputs pindexBlock) _ _) fun _ _ =>
      bind (foldlM (spendInput_notNull posThisTx fBlock fMiner strict) _ _) fun _ _ =>
      bind (getValueOut_notNull tx) fun _ _ => bind (failIf (by simp)) fun _ _ =>
      bind (failIf (by simp)) fun _ _ => bind (failIf ?_) fun _ _ => bind (failIf (by simp)) fun _ _ => ok _
    cases fBlock <;> simp

theorem connectTx_notNull (pindex : CBlockIndex) (state : ConnectState) (tx : CTransaction) :
    FailsWith NotNull (connectTx P node txdb pindex state tx) := by
  refine bind (failIf (by simp)) fun _ _ => bind (failIf (by simp)) fun _ _ => bind ?_ fun _ _ => ok _
  rw [connectValues]
  split_ifs
  · exact bind (getValueOut_notNull tx) fun _ _ => ok _
  · exact bind (mapError (fetchInputs_notNull _ _ _) fun _ h => NotNull.silent h) fun _ _ =>
      bind (getP2SHSigOpCount_notNull _) fun _ _ => bind (failIf (by simp)) fun _ _ =>
      bind (getValueIn_notNull _) fun _ _ => bind (getValueOut_notNull tx) fun _ _ =>
      bind (fails_silent (connectInputs_notNull _ _ _ _ _ _ _)) fun _ _ => ok _

theorem connectBlock_notNull (best : node.mapBlockIndex.deref node.pindexBest = .ok tip) (now : Int)
    (block : CBlock) (pindex : CBlockIndex) : FailsWith NotNull (connectBlock P now node txdb block pindex) := by
  refine bind (checkBlock_notNull now block) fun _ _ =>
    bind (foldlM (connectTx_notNull pindex) _ _) fun _ _ => bind ?_ fun _ _ => bind ?_ fun _ _ =>
    bind (failIf (by simp)) fun _ _ => ok _
  · rw [CBlock.coinbaseValue]
    split
    · exact getValueOut_notNull _
    · exact error (by simp)
  · rw [best]
    exact ok _

theorem deref_insert {pindex : Option Uint256} {hash : Uint256} (fresh : map[hash]? = none)
    (deref : map.deref pindex = .ok e) : BlockMap.deref (map.insert hash pindexNew) pindex = .ok e := by
  cases pindex with
  | none => cases deref
  | some h =>
    rw [BlockMap.deref] at deref ⊢
    have ne : hash ≠ h := by
      rintro rfl
      rw [fresh] at deref
      cases deref
    rw [ExtTreeMap.getElem?_insert, if_neg (by rwa [Std.compare_eq_iff_eq])]
    exact deref

variable (genesis : node.pindexGenesisBlock.isSome) (best : node.mapBlockIndex.deref node.pindexBest = .ok tip)
  (now : Int)
include genesis best now

theorem addWritten_notNull {block : CBlock} (attachable : Attachable P node block parent) :
    FailsWith NotNull (addWritten P now node block).1 := by
  have added := addWritten_addedBlock now genesis attachable
  generalize addWritten P now node block = step at added
  cases added with
  | side => exact ok _
  | apart => exact error (by simp)
  | failed _ _ connect =>
    exact error ((connectBlock_notNull (deref_insert attachable.fresh best) now block _ _ connect).caller _ _)
  | connected => exact ok _

theorem acceptBlock_notNull (block : CBlock) : FailsWith NotNull (acceptBlock P now node block).1 := by
  rw [acceptBlock]
  split_ifs with old
  · exact error (by simp)
  · rw [Bool.not_eq_true, contains_eq_false] at old
    cases known : node.mapBlockIndex[block.hashPrevBlock]? with
    | none => exact error (by simp)
    | some pindexPrev =>
      simp only
      cases accept : checkAccept now node block pindexPrev with
      | error reason =>
        have accepts : FailsWith NotNull (checkAccept now node block pindexPrev) :=
          bind (failIf (by simp)) fun _ _ => bind (failIf (by simp)) fun _ _ => failIf (by simp)
        exact error (accepts _ accept)
      | ok _ =>
        have add := addWritten_notNull genesis best now (Attachable.mk old known)
        rw [addWritten] at add
        simp only
        generalize addToBlockIndex P now _ block _ _ = step at add ⊢
        obtain ⟨outcome, after⟩ := step
        cases outcome with
        | error reason => exact error ((add _ rfl).caller _ _)
        | ok _ => exact ok _

end Connect

theorem Rooted.deref_pprev {P : Primitives} (tree : Rooted P map) {h : Uint256} (found : map[h]? = some e) :
    e.nHeight = 0 ∧ map.deref e.pprev = .error (.stop .nullPointer) ∨
      ∃ (x : Uint256) (parent : CBlockIndex), map[x]? = some parent ∧
        map.deref e.pprev = .ok parent ∧ e.nHeight = parent.nHeight + 1 := by
  by_cases genesis : h = hashGenesisBlock P
  · obtain ⟨root, atRoot, none, height, _⟩ := tree.root
    rw [genesis, atRoot] at found
    cases found
    exact .inl ⟨height, by rw [none, BlockMap.deref]⟩
  · obtain ⟨x, parent, pprev, known, height, _⟩ := tree.parent h e found genesis
    exact .inr ⟨x, parent, known, by rw [pprev, BlockMap.deref, known], height⟩

variable {P : Primitives} {now : Int} {node : Node} {block : CBlock} {chain : List Placed}
  {events : List Event}

theorem Inv.checkWork_null (inv : Inv P events node chain) (new : P.getHash block ≠ hashGenesisBlock P) :
    checkWork P node block = .error (.stop .nullPointer) ↔
      block.hashPrevBlock ≠ hashGenesisBlock P ∧ 3 ≤ node.nBestHeight ∧
        ∃ pindexPrev, node.mapBlockIndex[block.hashPrevBlock]? = some pindexPrev ∧ pindexPrev.nHeight = 1 := by
  obtain ⟨tip, _, best, height⟩ := inv.best
  rw [checkWork, if_neg new]
  by_cases first : block.hashPrevBlock = hashGenesisBlock P
  · rw [if_pos first]
    exact iff_of_false nofun fun h => h.1 first
  rw [if_neg first, best, height]
  change (if tip.nHeight < 3 then (.ok () : Check Unit) else _) = _ ↔ _
  by_cases low : tip.nHeight < 3
  · rw [if_pos low]
    exact iff_of_false nofun fun h => absurd h.2.1 (Int.not_le.mpr low)
  rw [if_neg low]
  cases known : node.mapBlockIndex[block.hashPrevBlock]? with
  | none => exact iff_of_false nofun nofun
  | some pindexPrev =>
    obtain ⟨x, pprev, parent, knownParent, above, _⟩ := inv.rooted.parent _ _ known first
    have follow : node.mapBlockIndex.deref pindexPrev.pprev = .ok pprev := by
      rw [parent, BlockMap.deref, knownParent]
    simp only [follow]
    rcases inv.rooted.deref_pprev knownParent with ⟨zero, null⟩ | ⟨y, pprev2, knownThird, third, above'⟩
    · change (node.mapBlockIndex.deref pprev.pprev >>= _) = _ ↔ _
      rw [null]
      exact iff_of_true rfl ⟨first, Int.not_lt.mp low, pindexPrev, rfl, by omega⟩
    · change (node.mapBlockIndex.deref pprev.pprev >>= _) = _ ↔ _
      rw [third]
      have compare : FailsWith NotNull (failIf (block.nBits ≠ nextTarget pprev pprev2)
          (DoS 100 "AcceptBlock() : incorrect proof-of-work")) := .failIf (by simp)
      refine iff_of_false (fun null => compare _ null rfl) ?_
      rintro ⟨_, _, e, same, one⟩
      cases same
      have := inv.rooted.nonneg _ _ knownThird
      omega

theorem Inv.checkMinWork_null (inv : Inv P events node chain) :
    checkMinWork node block = .error (.stop .nullPointer) ↔
      block.hashPrevBlock ≠ node.hashBestChain ∧ node.nBestHeight = 0 := by
  obtain ⟨tip, atTip, best, height⟩ := inv.best
  rw [checkMinWork, height]
  by_cases extending : block.hashPrevBlock = node.hashBestChain
  · rw [if_pos extending]
    exact iff_of_false nofun fun h => h.1 extending
  · rw [if_neg extending, best]
    change (node.mapBlockIndex.deref tip.pprev >>= _) = _ ↔ _
    rcases inv.rooted.deref_pprev atTip with ⟨zero, null⟩ | ⟨x, pprev, known, follow, above⟩
    · rw [null]
      exact iff_of_true rfl ⟨extending, zero⟩
    · rw [follow]
      have compare : FailsWith NotNull (failIf (setCompact block.nBits >
          setCompact (computeMinWork pprev.nBits block.getBlockTime))
          (DoS 100 "ProcessBlock() : block with too little proof-of-work")) := .failIf (by simp)
      refine iff_of_false (fun null => compare _ null rfl) ?_
      have := inv.rooted.nonneg _ _ known
      omega

theorem caller_eq_stop {x : Check Unit} {nDoS : ℕ → ℕ} {message : String} {fault : Fault} :
    x.mapError (Failure.caller nDoS message) = .error (.stop fault) ↔ x = .error (.stop fault) := by
  cases x with
  | ok => exact iff_of_false nofun nofun
  | error failure => cases failure <;> simp [Except.mapError, Failure.caller]

theorem Inv.genesis_of_height (inv : Inv P events node chain) (low : node.nBestHeight = 0) :
    node.hashBestChain = hashGenesisBlock P := by
  obtain ⟨tip, atTip, _, height⟩ := inv.best
  by_contra above
  obtain ⟨x, parent, _, known, higher, _⟩ := inv.rooted.parent _ _ atTip above
  have := inv.rooted.nonneg _ _ known
  omega

theorem Inv.checkWork_of_low (inv : Inv P events node chain) (low : node.nBestHeight < 3) :
    checkWork P node block = .ok () := by
  obtain ⟨tip, _, best, height⟩ := inv.best
  rw [checkWork]
  split_ifs
  · rfl
  · rfl
  · rw [best]
    exact if_pos (height ▸ low)

theorem preliminaryChecks_eq (fresh : node.mapBlockIndex[P.getHash block]? = none)
    (authentic : P.getHash block = hashGenesisBlock P ∨ block.hashPrevBlock = hashGenesisBlock P ∨
      block.checkAuthenticity P = .ok ()) :
    preliminaryChecks P now node block = (do
      (block.checkBlock P now).mapError (Failure.caller id "ProcessBlock() : CheckBlock FAILED")
      (checkWork P node block).mapError (Failure.caller id "ProcessBlock() : CheckWork FAILED")
      checkMinWork node block) := by
  rw [preliminaryChecks, failIf_of_not (by rw [contains_eq_false.mpr fresh]; exact Bool.false_ne_true)]
  by_cases examined : P.getHash block ≠ hashGenesisBlock P ∧ block.hashPrevBlock ≠ hashGenesisBlock P
  · obtain ok : block.checkAuthenticity P = .ok () :=
      (authentic.resolve_left examined.1).resolve_left examined.2
    rw [if_pos examined, ok]
    rfl
  · rw [if_neg examined]
    rfl

theorem Inv.preliminaryChecks_null (inv : Inv P events node chain)
    (fresh : node.mapBlockIndex[P.getHash block]? = none)
    (authentic : P.getHash block = hashGenesisBlock P ∨ block.hashPrevBlock = hashGenesisBlock P ∨
      block.checkAuthenticity P = .ok ()) :
    preliminaryChecks P now node block = .error (.stop .nullPointer) ↔
      block.checkBlock P now = .ok () ∧ block.hashPrevBlock ≠ hashGenesisBlock P ∧
        (node.nBestHeight = 0 ∨ 3 ≤ node.nBestHeight ∧
          ∃ pindexPrev, node.mapBlockIndex[block.hashPrevBlock]? = some pindexPrev ∧
            pindexPrev.nHeight = 1) := by
  have new : P.getHash block ≠ hashGenesisBlock P := by
    intro same
    obtain ⟨e, root, _⟩ := inv.rooted.root
    rw [same, root] at fresh
    cases fresh
  have checks : block.checkBlock P now ≠ .error (.stop .nullPointer) := fun null =>
    checkBlock_notNull now block _ null rfl
  rw [preliminaryChecks_eq fresh authentic, bind_eq_error, caller_eq_stop, or_iff_right checks]
  simp only [mapError_eq_ok, bind_eq_error, caller_eq_stop, inv.checkWork_null new,
    inv.checkMinWork_null]
  constructor
  · rintro ⟨⟨⟩, checked, ⟨prev, high, parent⟩ | ⟨_, _, apart, low⟩⟩
    · exact ⟨checked, prev, .inr ⟨high, parent⟩⟩
    · rw [inv.genesis_of_height low] at apart
      exact ⟨checked, apart, .inl low⟩
  · rintro ⟨checked, prev, low | ⟨high, parent⟩⟩
    · refine ⟨(), checked, .inr ⟨(), inv.checkWork_of_low (by omega), ?_, low⟩⟩
      rw [inv.genesis_of_height low]
      exact prev
    · exact ⟨(), checked, .inl ⟨prev, high, parent⟩⟩

/-- `ProcessBlock` follows a null pointer for a block that does not come right after genesis, while
the tip is genesis, or when its parent is right above genesis and the tip at height 3 or more. -/
theorem processBlock_nullPointer_iff (P : Primitives) (events : List Event) (now : Int) (block : CBlock)
    (authentic : P.getHash block = hashGenesisBlock P ∨ block.hashPrevBlock = hashGenesisBlock P ∨
      block.checkAuthenticity P = .ok ()) :
    (processBlock P now (run P events) block).1 = .error (.stop .nullPointer) ↔
      (run P events).mapBlockIndex[P.getHash block]? = none ∧ block.checkBlock P now = .ok () ∧
        block.hashPrevBlock ≠ hashGenesisBlock P ∧
        ((run P events).nBestHeight = 0 ∨ 3 ≤ (run P events).nBestHeight ∧
          ∃ pindexPrev, (run P events).mapBlockIndex[block.hashPrevBlock]? = some pindexPrev ∧
            pindexPrev.nHeight = 1) := by
  obtain ⟨chain, inv⟩ := exists_inv P events
  generalize run P events = node at inv ⊢
  cases fresh : node.mapBlockIndex[P.getHash block]? with
  | some e =>
    refine iff_of_false ?_ fun h => by cases h.1
    have known := contains_eq_true.mpr ⟨e, fresh⟩
    simp [processBlock, preliminaryChecks, failIf, known, bind, Except.bind, Model.error]
  | none =>
    rw [← inv.preliminaryChecks_null fresh authentic]
    have genesis : node.pindexGenesisBlock.isSome := Option.isSome_of_eq_some inv.tip.genesis
    have accepts := acceptBlock_notNull (P := P) genesis inv.best.choose_spec.2.1 now block
    simp only [true_and, processBlock]
    cases checks : preliminaryChecks P now node block with
    | error failure => rfl
    | ok _ =>
      refine iff_of_false (fun null => ?_) (by simp)
      dsimp only at null
      split_ifs at null
      generalize acceptBlock P now node block = step at accepts null
      obtain ⟨outcome, after⟩ := step
      cases outcome with
      | ok _ => cases null
      | error failure => exact (accepts _ rfl).caller _ _ (Except.error.inj null)

theorem outOfOrder_nullPointer :
    secondBlock.checkAuthenticity toy = .ok () ∧
    (processBlock toy toyNow (run toy []) secondBlock).1 = .error (.stop .nullPointer) ∧
    let thirdBlock := toyBlock (toy.getHash secondBlock) 90 0 1
    let cousin := toyBlock (toy.getHash unsignedSibling) 60 1 1
    let events := [firstBlock, secondBlock, thirdBlock, unsignedSibling].map (Event.block toyNow)
    cousin.checkAuthenticity toy = .ok () ∧
    (processBlock toy toyNow (run toy events) cousin).1 = .error (.stop .nullPointer) := by
  decide +kernel

theorem processBlock_nullPointer_iff_second :
    (processBlock toy toyNow (run toy [.block toyNow firstBlock]) secondBlock).1 ≠
      .error (.stop .nullPointer) := by
  rw [Ne, processBlock_nullPointer_iff toy _ toyNow secondBlock (.inr (.inr (by decide +kernel)))]
  rintro ⟨_, _, _, low | ⟨high, _⟩⟩
  · exact absurd low (by decide +kernel)
  · exact absurd high (by decide +kernel)

end RitCoin.Proof
