import RitCoin.Proof.Compact
import RitCoin.Proof.NullPointer

namespace RitCoin.Proof
open Lib Model Std

variable {P : Primitives} {now : Int} {node : Node} {block : CBlock} {pindexPrev : CBlockIndex} {events : List Event}

structure Timed (P : Primitives) (map : BlockMap) : Prop where
  work : ∀ (h : Uint256) (e : CBlockIndex), map[h]? = some e → checkProofOfWork e.nBits = .ok ()
  spacing : ∀ (h : Uint256) (e : CBlockIndex), map[h]? = some e → ∀ (p : Uint256) (pe : CBlockIndex), e.pprev = some p →
    map[p]? = some pe → pe.getBlockTime + MIN_BLOCK_SPACING ≤ e.getBlockTime
  late : ∀ (h : Uint256) (e : CBlockIndex), map[h]? = some e → (genesisBlock P).getBlockTime ≤ e.getBlockTime

theorem core_nBits {e e' : CBlockIndex} (same : core e' = core e) :
    e'.nBits = e.nBits ∧ e'.getBlockTime = e.getBlockTime := by
  have header := (core_eq same).2.2.2.2.2.2
  exact ⟨congrArg CBlockHeader.nBits header, congrArg CBlockHeader.getBlockTime header⟩

theorem Timed.congr {map map' : BlockMap} (timed : Timed P map) (same : SameCore map map') : Timed P map' where
  work h e' found' := by
    obtain ⟨e, found, eq⟩ := same.symm.exists_some found'
    rw [← (core_nBits eq).1]
    exact timed.work h e found
  spacing h e' found' p pe' pprev parent' := by
    obtain ⟨e, found, eq⟩ := same.symm.exists_some found'
    obtain ⟨pe, parent, eq'⟩ := same.symm.exists_some parent'
    rw [← (core_nBits eq).2, ← (core_nBits eq').2]
    exact timed.spacing h e found p pe ((core_eq eq).1.trans pprev) parent
  late h e' found' := by
    obtain ⟨e, found, eq⟩ := same.symm.exists_some found'
    rw [← (core_nBits eq).2]
    exact timed.late h e found

theorem Timed.store (timed : Timed P node.mapBlockIndex) (rooted : Rooted P node.mapBlockIndex)
    (admission : Admission P now node block pindexPrev) : Timed P (stored P node block).mapBlockIndex := by
  have accept := admission.accept
  simp only [checkAccept, seq_eq_ok, failIf_eq_ok, Int.not_lt] at accept
  have parent := admission.attachable.stored_parent
  refine ⟨fun h e found => ?_, fun h e found p pe pprev above => ?_, fun h e found => ?_⟩
  all_goals rw [stored_getElem?] at found
  all_goals split at found
  · cases found
    exact admission.checked.work
  · exact timed.work h e found
  · cases found
    rw [admission.attachable.pprev] at pprev
    cases pprev
    rw [parent] at above
    cases above
    exact accept.2.1
  · have old : node.mapBlockIndex[p]? = some pe := by
      rw [stored_getElem?] at above
      split at above
      · next same =>
          rw [← same] at pprev
          exact absurd pprev (rooted.pprev_ne admission.fresh found)
      · exact above
    exact timed.spacing h e found p pe pprev old
  · cases found
    have before := timed.late _ _ admission.parent
    exact before.trans ((Int.le_add_of_nonneg_right (by decide)).trans accept.2.1)
  · exact timed.late h e found

theorem Effect.sameCore {result : Step} (effect : Effect P now node block result) :
    SameCore node.mapBlockIndex result.2.mapBlockIndex ∨ ∃ pindexPrev, Admission P now node block pindexPrev ∧
      SameCore (stored P node block).mapBlockIndex result.2.mapBlockIndex := by
  cases effect with
  | rejected => exact .inl fun _ => rfl
  | orphan => exact .inl fun _ => rfl
  | side admission => exact .inr ⟨_, admission, fun _ => rfl⟩
  | apart _ admission => exact .inr ⟨_, admission, fun _ => rfl⟩
  | failed _ reason admission =>
    refine .inr ⟨_, admission, fun h => ?_⟩
    have map : (afterFailure (stored P node block) (newIndex node block) reason).mapBlockIndex =
        (stored P node block).mapBlockIndex := by
      unfold afterFailure Node.invalidChainFound
      split
      · split <;> rfl
      · rfl
    rw [map]
  | connected admission high tip connect =>
    refine .inr ⟨_, admission, admission.attachable.sameCore ?_ _⟩
    obtain ⟨state, rfl, -⟩ := connectBlock_shape connect
    rfl

theorem Timed.genesis : Timed P (genesisNode P).mapBlockIndex where
  work h e found := by
    obtain ⟨-, rfl⟩ := genesisNode_only found
    exact genesis_work (P := P)
  spacing h e found p pe pprev := by
    obtain ⟨-, rfl⟩ := genesisNode_only found
    cases pprev
  late h e found := by
    obtain ⟨-, rfl⟩ := genesisNode_only found
    exact le_rfl

theorem Timed.run (P : Primitives) (events : List Event) : Timed P (run P events).mapBlockIndex := by
  induction events using List.reverseRecOn with
  | nil => exact .genesis
  | append_singleton events event ih =>
    rw [run_append]
    cases event with
    | mempool mempool => exact ih
    | block now block =>
      obtain ⟨chain, inv⟩ := exists_inv P events
      rcases (inv.effect now block).sameCore with same | ⟨pindexPrev, admission, same⟩
      · exact ih.congr same
      · exact (ih.store inv.rooted admission).congr same

theorem checkProofOfWork_eq_ok {nBits : UInt32} :
    checkProofOfWork nBits = .ok () ↔ 0 < setCompact nBits ∧ setCompact nBits ≤ bnProofOfWorkLimit := by
  rw [checkProofOfWork, failIf_eq_ok, not_or, Int.not_le, Int.not_lt]

theorem setCompact_getCompact_of_le {x : ℤ} (positive : 0 < x) (limit : x ≤ bnProofOfWorkLimit) :
    ∃ n : ℕ, x = n ∧ setCompact (getCompact x) = roundDown n := by
  obtain ⟨n, rfl⟩ := Int.eq_ofNat_of_zero_le positive.le
  have small : n < 2 ^ 251 := by
    have : (n : ℤ) < ((2 ^ 251 : ℕ) : ℤ) := limit.trans_lt (by decide)
    exact Int.ofNat_lt.mp this
  exact ⟨n, rfl, setCompact_getCompact (Int.natCast_pos.mp positive) (Nat.lt_of_le_of_lt (byteSize_le small) (by decide))⟩

theorem setCompact_le_of_le {nBits : UInt32} {x : ℤ} (positive : 0 < setCompact nBits)
    (le : setCompact nBits ≤ x) (limit : x ≤ bnProofOfWorkLimit) :
    setCompact nBits ≤ setCompact (getCompact x) ∧ setCompact (getCompact x) ≤ x := by
  obtain ⟨n, rfl, rounded⟩ := setCompact_getCompact_of_le (positive.trans_le le) limit
  obtain ⟨t, target, short⟩ := short_setCompact positive
  rw [target] at le ⊢
  rw [rounded]
  exact ⟨Int.ofNat_le.mpr (le_roundDown short (Int.ofNat_le.mp le)), Int.ofNat_le.mpr (roundDown_le n)⟩

theorem le_nextTarget {pprev pprev2 : CBlockIndex} (work : checkProofOfWork pprev.nBits = .ok ())
    (spacing : pprev2.getBlockTime + MIN_BLOCK_SPACING ≤ pprev.getBlockTime) :
    setCompact pprev.nBits ≤ setCompact (nextTarget pprev pprev2) ∧
      setCompact (nextTarget pprev pprev2) ≤ bnProofOfWorkLimit := by
  obtain ⟨positive, limit⟩ := checkProofOfWork_eq_ok.mp work
  unfold nextTarget
  dsimp only
  generalize scaled : (setCompact pprev.nBits * ((60 * 60 * 24 - 1) * (MIN_BLOCK_SPACING / 4) +
    (pprev.getBlockTime - pprev2.getBlockTime) + (pprev.getBlockTime - pprev2.getBlockTime))).tdiv
      ((60 * 60 * 24 + 1) * (MIN_BLOCK_SPACING / 4)) = bnNew
  have le : setCompact pprev.nBits ≤ bnNew := by
    rw [MIN_BLOCK_SPACING] at spacing scaled
    have factor : (60 * 60 * 24 + 1) * (30 / 4) ≤ (60 * 60 * 24 - 1) * (30 / 4) +
        (pprev.getBlockTime - pprev2.getBlockTime) + (pprev.getBlockTime - pprev2.getBlockTime) := by omega
    have grown := Int.mul_le_mul_of_nonneg_left factor positive.le
    rw [← scaled, Int.tdiv_eq_ediv_of_nonneg ((Int.mul_nonneg positive.le (by decide)).trans grown)]
    exact Int.le_ediv_of_mul_le (by decide) grown
  split_ifs with above
  · exact setCompact_le_of_le positive limit le_rfl
  · obtain ⟨kept, rounded⟩ := setCompact_le_of_le positive le (Int.not_lt.mp above)
    exact ⟨kept, rounded.trans (Int.not_lt.mp above)⟩

structure Retargets (P : Primitives) (node : Node) (block : CBlock) (pprev pprev2 : CBlockIndex) : Prop where
  new : P.getHash block ≠ hashGenesisBlock P
  later : block.hashPrevBlock ≠ hashGenesisBlock P
  grown : ∃ tip, node.mapBlockIndex.deref node.pindexBest = .ok tip ∧ 3 ≤ tip.nHeight
  ancestors : ∃ pindexPrev, node.mapBlockIndex[block.hashPrevBlock]? = some pindexPrev ∧
    node.mapBlockIndex.deref pindexPrev.pprev = .ok pprev ∧ node.mapBlockIndex.deref pprev.pprev = .ok pprev2

theorem Retargets.checkWork_iff {pprev pprev2 : CBlockIndex} (retargets : Retargets P node block pprev pprev2) :
    checkWork P node block = .ok () ↔ block.nBits = nextTarget pprev pprev2 := by
  obtain ⟨new, later, ⟨tip, best, high⟩, pindexPrev, parent, follow, follow'⟩ := retargets
  rw [checkWork, if_neg new, if_neg later, best, ok_bind, if_neg (Int.not_lt.mpr high), parent]
  dsimp only
  rw [follow, ok_bind, follow', ok_bind, failIf_eq_ok, not_not]

theorem deref_eq_ok {map : BlockMap} {pindex : Option Uint256} {e : CBlockIndex} (follow : map.deref pindex = .ok e) :
    ∃ h, pindex = some h ∧ map[h]? = some e := by
  cases pindex with
  | none => cases follow
  | some h =>
    rw [BlockMap.deref] at follow
    cases found : map[h]? with
    | none =>
      rw [found] at follow
      cases follow
    | some e' =>
      rw [found] at follow
      cases follow
      exact ⟨h, rfl, found⟩

theorem Inv.exists_retargets {chain : List Placed} (inv : Inv P events node chain) (block : CBlock)
    (new : P.getHash block ≠ hashGenesisBlock P) (later : block.hashPrevBlock ≠ hashGenesisBlock P)
    (grown : 3 ≤ node.nBestHeight) (parent : node.mapBlockIndex[block.hashPrevBlock]? = some pindexPrev)
    (high : 2 ≤ pindexPrev.nHeight) : ∃ pprev pprev2, Retargets P node block pprev pprev2 := by
  obtain ⟨tip, -, best, height⟩ := inv.best
  rcases inv.rooted.deref_pprev parent with ⟨zero, -⟩ | ⟨x, pprev, known, follow, above⟩
  · omega
  rcases inv.rooted.deref_pprev known with ⟨zero, -⟩ | ⟨y, pprev2, -, follow', -⟩
  · omega
  · exact ⟨pprev, pprev2, new, later, ⟨tip, best, height ▸ grown⟩, pindexPrev, parent, follow, follow'⟩

/-- The target that a block needs is in range and not below the one of its grandparent. -/
theorem required_target (P : Primitives) (events : List Event) (block : CBlock) (pprev pprev2 : CBlockIndex)
    (retargets : Retargets P (run P events) block pprev pprev2) :
    (checkWork P (run P events) block = .ok () ↔ block.nBits = nextTarget pprev pprev2) ∧
      0 < setCompact (nextTarget pprev pprev2) ∧ setCompact (nextTarget pprev pprev2) ≤ bnProofOfWorkLimit ∧
      checkProofOfWork (nextTarget pprev pprev2) = .ok () ∧
      setCompact pprev.nBits ≤ setCompact (nextTarget pprev pprev2) := by
  have timed := Timed.run P events
  obtain ⟨pindexPrev, parent, follow, follow'⟩ := retargets.ancestors
  obtain ⟨h, -, found⟩ := deref_eq_ok follow
  obtain ⟨h', pprev', found'⟩ := deref_eq_ok follow'
  have work := timed.work h pprev found
  obtain ⟨le, limit⟩ := le_nextTarget work (timed.spacing h pprev found h' pprev2 pprev' found')
  have positive := (checkProofOfWork_eq_ok.mp work).1.trans_le le
  exact ⟨retargets.checkWork_iff, positive, limit, checkProofOfWork_eq_ok.mpr ⟨positive, limit⟩, le⟩

def thirdOfThree : CBlock := toyBlock (toy.getHash secondBlock) 90 0 1

def threeBlocks : List Event := [firstBlock, secondBlock, thirdOfThree].map (.block toyNow)

theorem threeBlocks_target : ∃ pprev pprev2,
    Retargets toy (run toy threeBlocks) (toyBlock (toy.getHash thirdOfThree) 120 0 1) pprev pprev2 ∧
      setCompact pprev.nBits ≤ setCompact (nextTarget pprev pprev2) := by
  obtain ⟨chain, inv⟩ := exists_inv toy threeBlocks
  obtain ⟨tip, atTip, -, height⟩ := inv.best
  have best : (run toy threeBlocks).nBestHeight = 3 ∧
      (run toy threeBlocks).hashBestChain = toy.getHash thirdOfThree := by decide +kernel
  rw [best.2] at atTip
  rw [best.1] at height
  obtain ⟨pprev, pprev2, retargets⟩ := inv.exists_retargets
    (toyBlock (toy.getHash thirdOfThree) 120 0 1) (by decide) (by decide) best.1.ge atTip (by omega)
  exact ⟨pprev, pprev2, retargets, (required_target toy threeBlocks _ pprev pprev2 retargets).2.2.2.2⟩

end RitCoin.Proof
