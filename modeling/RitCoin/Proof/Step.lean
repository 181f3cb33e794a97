import RitCoin.Proof.Checks
import RitCoin.Proof.Database

namespace RitCoin.Proof
open Lib Model Std

structure Admission (P : Primitives) (now : Int) (node : Node) (block : CBlock)
    (pindexPrev : CBlockIndex) : Prop where
  fresh : node.mapBlockIndex[P.getHash block]? = none
  authentic : P.getHash block ≠ hashGenesisBlock P → block.hashPrevBlock ≠ hashGenesisBlock P →
    block.checkAuthenticity P = .ok ()
  checked : block.Checked P now
  work : checkWork P node block = .ok ()
  minWork : checkMinWork node block = .ok ()
  parent : node.mapBlockIndex[block.hashPrevBlock]? = some pindexPrev
  accept : checkAccept now node block pindexPrev = .ok ()

structure Attachable (P : Primitives) (node : Node) (block : CBlock) (pindexPrev : CBlockIndex) :
    Prop where
  fresh : node.mapBlockIndex[P.getHash block]? = none
  parent : node.mapBlockIndex[block.hashPrevBlock]? = some pindexPrev

theorem Admission.attachable {P : Primitives} {now : Int} {node : Node} {block : CBlock}
    {pindexPrev : CBlockIndex} (admission : Admission P now node block pindexPrev) :
    Attachable P node block pindexPrev :=
  ⟨admission.fresh, admission.parent⟩

def newIndex (node : Node) (block : CBlock) : CBlockIndex :=
  newBlockIndex node.mapBlockIndex block (node.files.writeToDisk block).2.1
    (node.files.writeToDisk block).2.2

def stored (P : Primitives) (node : Node) (block : CBlock) : Node :=
  { node with
    files := (node.files.writeToDisk block).1
    mapBlockIndex := node.mapBlockIndex.insert (P.getHash block) (newIndex node block)
    pdb := node.pdb.insert
      (.blockindex (P.hashHeader (CDiskBlockIndex.ofIndex (newIndex node block)).header))
      (.blockIndex (.ofIndex (newIndex node block))) }

def batch (pdb : LevelDB) : TxDB := ⟨pdb, some []⟩

@[simp] theorem view_batch (pdb : LevelDB) : (batch pdb).view = pdb := rfl

@[simp] theorem view_open (pdb : LevelDB) : pdb.open.view = pdb := rfl

def afterFailure (node : Node) (pindexNew : CBlockIndex) : Failure → Node
  | .reject _ _ => node.invalidChainFound pindexNew
  | _ => node

def connected (P : Primitives) (node : Node) (block : CBlock) (pindexNew parent : CBlockIndex)
    (txdb : TxDB) : Node :=
  { node.attach P block (P.getHash block) pindexNew block.hashPrevBlock parent with
    pdb := (txdb.writeHashBestChain (P.getHash block)).view }.setBest (P.getHash block) pindexNew

inductive Effect (P : Primitives) (now : Int) (node : Node) (block : CBlock) : Step → Prop
  | rejected (failure : Failure) : (∀ pindexPrev, ¬ Admission P now node block pindexPrev) →
      Effect P now node block (.error failure, node)
  | orphan : node.mapBlockIndex[block.hashPrevBlock]? = none → Effect P now node block (.ok (), node)
  /-- A block with no more trust than the tip. -/
  | side {pindexPrev : CBlockIndex} : Admission P now node block pindexPrev →
      (newIndex node block).bnChainTrust ≤ node.bnBestChainTrust →
      Effect P now node block (.ok (), stored P node block)
  /-- A block with more trust than the tip on another branch. -/
  | apart {pindexPrev : CBlockIndex} (failure : Failure) : Admission P now node block pindexPrev →
      node.bnBestChainTrust < (newIndex node block).bnChainTrust →
      block.hashPrevBlock ≠ node.hashBestChain →
      Effect P now node block (.error failure, stored P node block)
  | failed {pindexPrev : CBlockIndex} (failure reason : Failure) :
      Admission P now node block pindexPrev →
      node.bnBestChainTrust < (newIndex node block).bnChainTrust →
      block.hashPrevBlock = node.hashBestChain →
      connectBlock P now (stored P node block) (batch (stored P node block).pdb) block
        (newIndex node block) = .error reason →
      Effect P now node block
        (.error failure, afterFailure (stored P node block) (newIndex node block) reason)
  | connected {pindexPrev pindexNew : CBlockIndex} {txdb : TxDB} :
      Admission P now node block pindexPrev →
      node.bnBestChainTrust < (newIndex node block).bnChainTrust →
      block.hashPrevBlock = node.hashBestChain →
      connectBlock P now (stored P node block) (batch (stored P node block).pdb) block
        (newIndex node block) = .ok (txdb, pindexNew) →
      Effect P now node block
        (.ok (), connected P (stored P node block) block pindexNew pindexPrev txdb)

theorem connectBlock_shape {P : Primitives} {now : Int} {node : Node} {txdb txdb' : TxDB}
    {block : CBlock} {pindex pindex' : CBlockIndex}
    (connect : connectBlock P now node txdb block pindex = .ok (txdb', pindex')) :
    ∃ state, pindex' = pindex.trackSupply (pindex.pprev.bind (node.mapBlockIndex[·]?)) state ∧
      txdb' = writeConnected P txdb block pindex' (pindex.pprev.bind (node.mapBlockIndex[·]?))
        state.mapQueuedChanges := by
  simp only [connectBlock, bind_eq_ok, failIf_eq_ok, pure_eq_ok, Prod.mk.injEq] at connect
  obtain ⟨_, _, state, _, _, _, _, _, _, _, rfl, rfl⟩ := connect
  exact ⟨state, rfl, rfl⟩

variable {P : Primitives} {now : Int} {node : Node} {block : CBlock} {pindexPrev : CBlockIndex}

section
variable (attachable : Attachable P node block pindexPrev)
include attachable

theorem Attachable.pprev : (newIndex node block).pprev = some block.hashPrevBlock := by
  simp [newIndex, newBlockIndex, attachable.parent]

theorem Attachable.ne : P.getHash block ≠ block.hashPrevBlock := by
  intro same
  have fresh := attachable.fresh
  rw [same, attachable.parent] at fresh
  cases fresh

theorem Attachable.stored_parent :
    (stored P node block).mapBlockIndex[block.hashPrevBlock]? = some pindexPrev := by
  simp [stored, ExtTreeMap.getElem?_insert, attachable.ne, attachable.parent]

end

theorem Effect.caller {failure : Failure} {after : Node}
    (effect : Effect P now node block (.error failure, after)) (failure' : Failure) :
    Effect P now node block (.error failure', after) := by
  cases effect with
  | rejected _ refused => exact .rejected failure' refused
  | apart _ admission high ne => exact .apart failure' admission high ne
  | failed _ reason admission high tip connect => exact .failed failure' reason admission high tip connect

/-- `AddToBlockIndex`, as it is called for a block that was written to the disk. -/
abbrev addWritten (P : Primitives) (now : Int) (node : Node) (block : CBlock) : Step :=
  addToBlockIndex P now { node with files := (node.files.writeToDisk block).1 } block
    (node.files.writeToDisk block).2.1 (node.files.writeToDisk block).2.2

theorem addWritten_eq (fresh : node.mapBlockIndex[P.getHash block]? = none) :
    addWritten P now node block =
      if node.bnBestChainTrust < (newIndex node block).bnChainTrust then
        setBestChain P now (stored P node block) block (newIndex node block)
      else (.ok (), stored P node block) := by
  have insert : Node.insertBlockIndex P { node with files := (node.files.writeToDisk block).1 } block
      (newIndex node block) = .ok (stored P node block) := rfl
  have name : newBlockIndex node.mapBlockIndex block (node.files.writeToDisk block).2.1
      (node.files.writeToDisk block).2.2 = newIndex node block := rfl
  rw [addWritten, addToBlockIndex]
  simp only [contains_eq_false.mpr fresh, Bool.false_eq_true, if_false, name, insert, gt_iff_lt]
  rfl

inductive AddedBlock (P : Primitives) (now : Int) (node : Node) (block : CBlock) (pindexPrev : CBlockIndex) :
    Step → Prop
  | side : (newIndex node block).bnChainTrust ≤ node.bnBestChainTrust →
      AddedBlock P now node block pindexPrev (.ok (), stored P node block)
  | apart (message : String) : node.bnBestChainTrust < (newIndex node block).bnChainTrust →
      block.hashPrevBlock ≠ node.hashBestChain →
      AddedBlock P now node block pindexPrev (.error (error message), stored P node block)
  | failed {reason : Failure} : node.bnBestChainTrust < (newIndex node block).bnChainTrust →
      block.hashPrevBlock = node.hashBestChain →
      connectBlock P now (stored P node block) (batch (stored P node block).pdb) block
        (newIndex node block) = .error reason →
      AddedBlock P now node block pindexPrev (.error (reason.caller id "SetBestChain() : SetBestChainInner failed"),
        afterFailure (stored P node block) (newIndex node block) reason)
  | connected {txdb : TxDB} {pindexNew : CBlockIndex} :
      node.bnBestChainTrust < (newIndex node block).bnChainTrust →
      block.hashPrevBlock = node.hashBestChain →
      connectBlock P now (stored P node block) (batch (stored P node block).pdb) block
        (newIndex node block) = .ok (txdb, pindexNew) →
      AddedBlock P now node block pindexPrev
        (.ok (), connected P (stored P node block) block pindexNew pindexPrev txdb)

theorem setBestChain_addedBlock (now : Int) (genesis : node.pindexGenesisBlock.isSome)
    (attachable : Attachable P node block pindexPrev)
    (high : node.bnBestChainTrust < (newIndex node block).bnChainTrust) :
    AddedBlock P now node block pindexPrev
      (setBestChain P now (stored P node block) block (newIndex node block)) := by
  have notGenesis : ¬ ((stored P node block).pindexGenesisBlock = none ∧ P.getHash block = hashGenesisBlock P) :=
    fun first => Option.isSome_iff_ne_none.mp genesis first.1
  have begin : (stored P node block).pdb.open.txnBegin = .ok (batch (stored P node block).pdb) := rfl
  rw [setBestChain]
  simp only [begin, if_neg notGenesis]
  by_cases tip : block.hashPrevBlock = node.hashBestChain
  · rw [if_pos (by exact tip)]
    unfold setBestChainInner
    cases connect : connectBlock P now (stored P node block) (batch (stored P node block).pdb) block
        (newIndex node block) with
    | error reason =>
      have failed : AddedBlock P now node block pindexPrev _ := .failed high tip connect
      cases reason with
      | reject nDoS messages => exact failed
      | throw what => exact failed
      | stop fault => exact failed
    | ok result =>
      obtain ⟨txdb, pindexNew⟩ := result
      have added : AddedBlock P now node block pindexPrev _ := .connected high tip connect
      obtain ⟨state, rfl, shape⟩ := connectBlock_shape connect
      have isOpen : (txdb.writeHashBestChain (P.getHash block)).activeBatch.isSome := by
        rw [CTxDB.writeHashBestChain, CTxDB.activeBatch_write_isSome, shape, writeConnected_isSome]
        rfl
      have pprev : ((newIndex node block).trackSupply ((newIndex node block).pprev.bind
          ((stored P node block).mapBlockIndex[·]?)) state).pprev = some block.hashPrevBlock :=
        attachable.pprev
      simp only [CTxDB.txnCommit_of_open isOpen, pprev, attachable.stored_parent]
      exact added
  · rw [if_neg (by exact tip)]
    exact .apart _ high tip

theorem addWritten_addedBlock (now : Int) (genesis : node.pindexGenesisBlock.isSome)
    (attachable : Attachable P node block pindexPrev) :
    AddedBlock P now node block pindexPrev (addWritten P now node block) := by
  rw [addWritten_eq attachable.fresh]
  split_ifs with high
  · exact setBestChain_addedBlock now genesis attachable high
  · exact .side (Int.not_lt.mp high)

theorem AddedBlock.effect {step : Step} (added : AddedBlock P now node block pindexPrev step)
    (admission : Admission P now node block pindexPrev) : Effect P now node block step := by
  cases added with
  | side low => exact .side admission low
  | apart message high ne => exact .apart _ admission high ne
  | failed high tip connect => exact .failed _ _ admission high tip connect
  | connected high tip connect => exact .connected admission high tip connect

theorem preliminaryChecks_eq_ok :
    preliminaryChecks P now node block = .ok () ↔
      node.mapBlockIndex.contains (P.getHash block) = false ∧
      (P.getHash block ≠ hashGenesisBlock P → block.hashPrevBlock ≠ hashGenesisBlock P →
        block.checkAuthenticity P = .ok ()) ∧
      block.Checked P now ∧ checkWork P node block = .ok () ∧ checkMinWork node block = .ok () := by
  rw [preliminaryChecks, seq_eq_ok, failIf_eq_ok, Bool.not_eq_true]
  have rest : (((block.checkBlock P now).mapError
        (Failure.caller id "ProcessBlock() : CheckBlock FAILED") >>= fun _ =>
      (checkWork P node block).mapError
        (Failure.caller id "ProcessBlock() : CheckWork FAILED") >>= fun _ =>
      checkMinWork node block) = .ok ()) ↔
      block.Checked P now ∧ checkWork P node block = .ok () ∧ checkMinWork node block = .ok () := by
    rw [seq_eq_ok, mapError_eq_ok, CBlock.checkBlock_eq_ok, seq_eq_ok, mapError_eq_ok]
  by_cases exempt : P.getHash block ≠ hashGenesisBlock P ∧ block.hashPrevBlock ≠ hashGenesisBlock P
  · rw [if_pos exempt, seq_eq_ok, rest]
    exact and_congr_right fun _ => and_congr_left fun _ =>
      ⟨fun h _ _ => h, fun h => h exempt.1 exempt.2⟩
  · rw [if_neg exempt]
    exact and_congr_right fun _ => rest.trans
      ⟨fun h => ⟨fun h₁ h₂ => absurd ⟨h₁, h₂⟩ exempt, h⟩, And.right⟩

theorem processBlock_effect (genesis : node.pindexGenesisBlock.isSome) (now : Int) (block : CBlock) :
    Effect P now node block (processBlock P now node block) := by
  rw [processBlock]
  cases checks : preliminaryChecks P now node block with
  | error failure =>
    refine .rejected failure fun pindexPrev admission => ?_
    rw [preliminaryChecks_eq_ok.mpr ⟨contains_eq_false.mpr admission.fresh, admission.authentic,
      admission.checked, admission.work, admission.minWork⟩] at checks
    cases checks
  | ok _ =>
    obtain ⟨fresh, authentic, checked, work, minWork⟩ := preliminaryChecks_eq_ok.mp checks
    simp only
    cases parent : node.mapBlockIndex[block.hashPrevBlock]? with
    | none =>
      simp only [contains_eq_false.mpr parent, Bool.false_eq_true, not_false_eq_true, if_true]
      exact .orphan parent
    | some pindexPrev =>
      simp only [contains_eq_true.mpr ⟨_, parent⟩, not_true_eq_false, if_false, acceptBlock, fresh, Bool.false_eq_true, parent]
      cases accept : checkAccept now node block pindexPrev with
      | error failure =>
        refine .rejected _ fun other admission => ?_
        have known := admission.parent
        rw [parent] at known
        cases known
        rw [admission.accept] at accept
        cases accept
      | ok _ =>
        have admission : Admission P now node block pindexPrev :=
          ⟨contains_eq_false.mp fresh, authentic, checked, work, minWork, parent, accept⟩
        have effect := (addWritten_addedBlock now genesis admission.attachable).effect admission
        rw [addWritten] at effect
        simp only
        generalize addToBlockIndex P now _ block _ _ = step at effect ⊢
        obtain ⟨outcome, after⟩ := step
        cases outcome with
        | error failure => exact effect.caller _
        | ok _ => exact effect

end RitCoin.Proof
