import RitCoin.Proof.Authenticity

namespace RitCoin.Proof
open Lib Model Spec Std

variable {P : Primitives} {now : Int} {node after : Node} {block : CBlock} {failure : Failure}

theorem invalidChainFound_same (node : Node) (pindexNew : CBlockIndex) :
    SameBestChain node (node.invalidChainFound pindexNew) := by
  rw [Node.invalidChainFound]
  split_ifs with high
  · exact { SameBestChain.refl node with
      txindex := fun hash => ExtTreeMap.getElem?_insert.trans (if_neg (by simp))
      record := ExtTreeMap.getElem?_insert.trans (if_neg (by simp)) }
  · exact .refl node

theorem stored_same (fresh : node.mapBlockIndex[P.getHash block]? = none) :
    SameBestChain node (stored P node block) :=
  { SameBestChain.refl node with
    txindex := fun hash => ExtTreeMap.getElem?_insert.trans (if_neg (by simp))
    record := ExtTreeMap.getElem?_insert.trans (if_neg (by simp))
    pnext := fun h => by
      rw [stored, ExtTreeMap.getElem?_insert]
      split_ifs with same
      · rw [← Std.compare_eq_iff_eq.mp same, fresh]
        rfl
      · rfl }

theorem AddedBlock.same {pindexPrev : CBlockIndex} (fresh : node.mapBlockIndex[P.getHash block]? = none)
    (added : AddedBlock P now node block pindexPrev (.error failure, after)) : SameBestChain node after := by
  have written := stored_same fresh
  cases added with
  | apart => exact written
  | @failed reason =>
    cases reason with
    | reject => exact written.trans (invalidChainFound_same _ _)
    | throw => exact written
    | stop => exact written

theorem acceptBlock_same (genesis : node.pindexGenesisBlock.isSome)
    (step : acceptBlock P now node block = (.error failure, after)) : SameBestChain node after := by
  rw [acceptBlock] at step
  split_ifs at step with known
  · exact (Prod.mk.inj step).2 ▸ .refl node
  · rw [Bool.not_eq_true, contains_eq_false] at known
    cases parent : node.mapBlockIndex[block.hashPrevBlock]? with
    | none =>
      simp only [parent, Prod.mk.injEq] at step
      exact step.2 ▸ .refl node
    | some pindexPrev =>
      cases accept : checkAccept now node block pindexPrev with
      | error reason =>
        simp only [parent, accept, Prod.mk.injEq] at step
        exact step.2 ▸ .refl node
      | ok _ =>
        have added := addWritten_addedBlock now genesis (Attachable.mk known parent)
        rw [addWritten] at added
        simp only [parent, accept] at step
        generalize addToBlockIndex P now _ block _ _ = add at added step
        obtain ⟨outcome, final⟩ := add
        cases outcome with
        | error reason =>
          obtain ⟨_, rfl⟩ := Prod.mk.inj step
          exact added.same known
        | ok _ => cases step

/-- A block that `AcceptBlock` turns down, in a node that has been running for any time, leaves the
best chain and all that hangs on it as they were. -/
theorem acceptBlock_error_same (P : Primitives) (events : List Event) (now : Int) (block : CBlock)
    (failure : Failure) (after : Node)
    (step : acceptBlock P now (run P events) block = (.error failure, after)) :
    SameBestChain (run P events) after := by
  obtain ⟨chain, inv⟩ := exists_inv P events
  exact acceptBlock_same (Option.isSome_of_eq_some inv.tip.genesis) step

def minting (block : CBlock) (nValue : Int64) : CBlock :=
  { block with vtx := block.vtx.map fun tx => { tx with vout := [⟨nValue, []⟩] } }

def minted : List Event := [.block toyNow (minting firstBlock MAX_MONEY)]

def overminted : Failure :=
  .reject 50 ["CheckBlock() : coinbase reward exceeded", "SetBestChain() : SetBestChainInner failed",
    "AcceptBlock() : AddToBlockIndex failed"]

theorem acceptBlock_error_same_minted :
    let step := acceptBlock toy toyNow (run toy minted) (minting secondBlock COIN)
    (run toy minted).nBestHeight = 1 ∧ step.1 = .error overminted ∧
      step.2.mapBlockIndex.contains (toy.getHash (minting secondBlock COIN)) ∧
      SameBestChain (run toy minted) step.2 := by
  intro step
  have outcome : step.1 = .error overminted := by decide +kernel
  have eq : acceptBlock toy toyNow (run toy minted) (minting secondBlock COIN) =
      (.error overminted, step.2) := Prod.mk.eta.symm.trans (congrArg (·, step.2) outcome)
  exact ⟨by decide +kernel, outcome, by decide +kernel, acceptBlock_error_same _ _ _ _ _ _ eq⟩

end RitCoin.Proof
