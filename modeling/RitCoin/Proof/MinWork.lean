import RitCoin.Proof.Work

/-!
# Blocks apart from the tip

`ProcessBlock` asks a block that does not extend the tip for the work that could be required some time after the
tip's parent. The time it passes on is that of the block, not the time between the two.
-/

namespace RitCoin.Proof
open Lib Model

variable {P : Primitives} {now : Int} {node : Node} {block : CBlock} {pprev : CBlockIndex} {events : List Event}

def startedDays (nTime : ℤ) : ℕ := ((nTime + (24 * 60 * 60 - 1)) / (24 * 60 * 60)).toNat

theorem startedDays_of_nonpos {nTime : ℤ} (le : nTime ≤ 0) : startedDays nTime = 0 := by
  unfold startedDays
  omega

theorem startedDays_of_pos {nTime : ℤ} (positive : 0 < nTime) :
    startedDays nTime = startedDays (nTime - 24 * 60 * 60) + 1 := by
  unfold startedDays
  omega

theorem relaxWork_capped {fuel : ℕ} {bnResult nTime : ℤ} (positive : 0 < bnResult)
    (enough : startedDays nTime ≤ fuel) :
    min bnProofOfWorkLimit (relaxWork fuel bnResult nTime) =
      min bnProofOfWorkLimit (bnResult * 2 ^ startedDays nTime) := by
  induction fuel generalizing bnResult nTime with
  | zero => rw [Nat.le_zero.mp enough, pow_zero, mul_one, relaxWork]
  | succ fuel ih =>
    rw [relaxWork]
    rcases Int.lt_or_le 0 nTime with later | past
    · rcases Int.lt_or_le bnResult bnProofOfWorkLimit with below | reached
      · have day := startedDays_of_pos later
        rw [if_pos ⟨later, below⟩, ih (by omega) (by omega), day, pow_succ', mul_assoc]
      · -- the loop stops early, where doubling on would change nothing
        have grown : bnResult ≤ bnResult * 2 ^ startedDays nTime :=
          le_mul_of_one_le_right positive.le (one_le_pow₀ (by decide))
        rw [if_neg (fun both => Int.not_lt.mpr reached both.2), min_eq_left reached,
          min_eq_left (reached.trans grown)]
    · rw [if_neg (fun both => Int.not_lt.mpr past both.1), startedDays_of_nonpos past, pow_zero, mul_one]

theorem computeMinWork_eq {nBase : UInt32} (positive : 0 < setCompact nBase) (nTime : ℤ) :
    computeMinWork nBase nTime =
      getCompact (min bnProofOfWorkLimit (setCompact nBase * 2 * 2 ^ startedDays nTime)) := by
  have enough : startedDays nTime ≤ nTime.toNat / (24 * 60 * 60) + 1 := by
    unfold startedDays
    omega
  rw [← relaxWork_capped (by omega) enough, computeMinWork]
  congr 1
  split_ifs with above
  · exact (min_eq_left above.le).symm
  · exact (min_eq_right (Int.not_lt.mp above)).symm

/-- Rounding to the compact form does not matter where a compact target is compared. -/
theorem computeMinWork_lt_iff {nBase nBits : UInt32} (base : 0 < setCompact nBase)
    (work : checkProofOfWork nBits = .ok ()) (nTime : ℤ) :
    setCompact (computeMinWork nBase nTime) < setCompact nBits ↔
      setCompact nBase * 2 * 2 ^ startedDays nTime < setCompact nBits := by
  obtain ⟨positive, limit⟩ := checkProofOfWork_eq_ok.mp work
  rw [computeMinWork_eq base]
  constructor
  · intro below
    by_contra above
    have kept := (setCompact_le_of_le positive (le_min limit (Int.not_lt.mp above)) (min_le_left ..)).1
    exact Int.not_lt.mpr kept below
  · intro below
    obtain ⟨n, capped, target⟩ := setCompact_getCompact_of_le
      (x := min bnProofOfWorkLimit (setCompact nBase * 2 * 2 ^ startedDays nTime))
      (lt_min (by decide) (by positivity)) (min_le_left ..)
    have rounded : (roundDown n : ℤ) ≤ n := Int.ofNat_le.mpr (roundDown_le n)
    have least := min_le_right bnProofOfWorkLimit (setCompact nBase * 2 * 2 ^ startedDays nTime)
    omega

theorem target_le_of_genesis {nBase nBits : UInt32} (base : 0 < setCompact nBase)
    (work : checkProofOfWork nBits = .ok ()) {nTime : ℤ} (late : (genesisBlock P).getBlockTime ≤ nTime) :
    setCompact nBits ≤ setCompact nBase * 2 * 2 ^ startedDays nTime := by
  have days : 255 ≤ startedDays nTime := by
    have genesis : (1459892820 : ℤ) ≤ nTime := late
    unfold startedDays
    omega
  calc setCompact nBits ≤ bnProofOfWorkLimit := (checkProofOfWork_eq_ok.mp work).2
    _ ≤ 2 ^ 255 := by decide
    _ ≤ 2 ^ startedDays nTime := pow_le_pow_right₀ (by decide) days
    _ ≤ setCompact nBase * 2 * 2 ^ startedDays nTime := le_mul_of_one_le_left (by positivity) (by omega)

def tipParent (node : Node) : Check CBlockIndex := do
  let tip ← node.mapBlockIndex.deref node.pindexBest
  node.mapBlockIndex.deref tip.pprev

theorem checkMinWork_eq (parent : tipParent node = .ok pprev) (apart : block.hashPrevBlock ≠ node.hashBestChain) :
    checkMinWork node block =
      failIf (setCompact block.nBits > setCompact (computeMinWork pprev.nBits block.getBlockTime))
        (DoS 100 "ProcessBlock() : block with too little proof-of-work") := by
  obtain ⟨tip, best, follow⟩ := bind_eq_ok.mp parent
  rw [checkMinWork, if_neg apart, best, ok_bind, follow, ok_bind]

theorem Inv.exists_tipParent {chain : List Placed} (inv : Inv P events node chain) (grown : 1 ≤ node.nBestHeight) :
    ∃ (h : Uint256) (pprev : CBlockIndex), node.mapBlockIndex[h]? = some pprev ∧ tipParent node = .ok pprev := by
  obtain ⟨tip, atTip, best, height⟩ := inv.best
  rcases inv.rooted.deref_pprev atTip with ⟨zero, -⟩ | ⟨h, pprev, known, follow, -⟩
  · omega
  · exact ⟨h, pprev, known, by rw [tipParent, best, ok_bind, follow]⟩

def elapsedTarget (pprev : CBlockIndex) (block : CBlock) : ℤ :=
  setCompact (computeMinWork pprev.nBits (block.getBlockTime - pprev.getBlockTime))

/-- What `ProcessBlock` asks of a block besides the work that could be required some time after the tip's
parent. -/
structure PassesOthers (P : Primitives) (now : Int) (node : Node) (block : CBlock) : Prop where
  fresh : node.mapBlockIndex.contains (P.getHash block) = false
  authentic : P.getHash block ≠ hashGenesisBlock P → block.hashPrevBlock ≠ hashGenesisBlock P →
    block.checkAuthenticity P = .ok ()
  checked : block.checkBlock P now = .ok ()
  work : checkWork P node block = .ok ()
  stored : node.mapBlockIndex.contains block.hashPrevBlock = true → (acceptBlock P now node block).1 = .ok ()

theorem processBlock_eq_ok : (processBlock P now node block).1 = .ok () ↔
    PassesOthers P now node block ∧ checkMinWork node block = .ok () := by
  have checks : preliminaryChecks P now node block = .ok () ↔ _ := preliminaryChecks_eq_ok
  rw [← CBlock.checkBlock_eq_ok] at checks
  rw [processBlock]
  cases outcome : preliminaryChecks P now node block with
  | error failure =>
    rw [outcome] at checks
    refine iff_of_false (by simp) ?_
    rintro ⟨passes, minWork⟩
    cases checks.mpr ⟨passes.fresh, passes.authentic, passes.checked, passes.work, minWork⟩
  | ok _ =>
    obtain ⟨fresh, authentic, checked, work, minWork⟩ := checks.mp outcome
    have accepted : (node.mapBlockIndex.contains block.hashPrevBlock = true →
        (acceptBlock P now node block).1 = .ok ()) ↔ PassesOthers P now node block :=
      ⟨fun stored => ⟨fresh, authentic, checked, work, stored⟩, PassesOthers.stored⟩
    rw [← accepted, and_iff_left minWork]
    cases node.mapBlockIndex.contains block.hashPrevBlock with
    | false => simp
    | true => rcases acceptBlock P now node block with ⟨_ | _, _⟩ <;> simp

/-- A block that is too easy for the elapsed time is turned away exactly where another check fails or its own
timestamp, in days since 1970, is too small; from the time of genesis on that is never so. -/
theorem minWork_enforced_iff (P : Primitives) (events : List Event) (now : Int) (block : CBlock)
    (grown : 1 ≤ (run P events).nBestHeight) (apart : block.hashPrevBlock ≠ (run P events).hashBestChain) :
    ∃ pprev, tipParent (run P events) = .ok pprev ∧
      ((elapsedTarget pprev block < setCompact block.nBits →
          (processBlock P now (run P events) block).1 ≠ .ok ()) ↔
        ¬ PassesOthers P now (run P events) block ∨ setCompact block.nBits ≤ elapsedTarget pprev block ∨
          setCompact pprev.nBits * 2 * 2 ^ startedDays block.getBlockTime < setCompact block.nBits) ∧
      ((genesisBlock P).getBlockTime ≤ block.getBlockTime → PassesOthers P now (run P events) block →
        (processBlock P now (run P events) block).1 = .ok ()) := by
  obtain ⟨chain, inv⟩ := exists_inv P events
  obtain ⟨h, pprev, known, parent⟩ := inv.exists_tipParent grown
  have base := (checkProofOfWork_eq_ok.mp ((Timed.run P events).work h pprev known)).1
  have accepted : (processBlock P now (run P events) block).1 = .ok () ↔
      PassesOthers P now (run P events) block ∧
        ¬ setCompact pprev.nBits * 2 * 2 ^ startedDays block.getBlockTime < setCompact block.nBits := by
    rw [processBlock_eq_ok, checkMinWork_eq parent apart, failIf_eq_ok, gt_iff_lt]
    refine and_congr_right fun passes => not_congr ?_
    exact computeMinWork_lt_iff base (CBlock.checkBlock_eq_ok.mp passes.checked).work _
  refine ⟨pprev, parent, ?_, fun late passes => accepted.mpr ⟨passes, ?_⟩⟩
  · rw [ne_eq, accepted, ← Int.not_lt]
    tauto
  · exact Int.not_lt.mpr (target_le_of_genesis base (CBlock.checkBlock_eq_ok.mp passes.checked).work late)

def hardFirst : CBlock := { toyBlock (hashGenesisBlock toy) 30 0 0 with nBits := 0x1d00ffff }

def hardSecond : CBlock := { toyBlock (toy.getHash hardFirst) 60 0 1 with nBits := 0x1d00ffff }

def hardBlocks : List Event := [.block toyNow hardFirst, .block toyNow hardSecond]

def easyBlock : CBlock := toyBlock (hashGenesisBlock toy) 90 0 0

def basisOf (node : Node) : Option (UInt32 × ℤ) :=
  (tipParent node).toOption.map fun pprev => (pprev.nBits, pprev.getBlockTime)

theorem hardBlocks_facts : 1 ≤ (run toy hardBlocks).nBestHeight ∧
    easyBlock.hashPrevBlock ≠ (run toy hardBlocks).hashBestChain ∧
    basisOf (run toy hardBlocks) = some (0x1d00ffff, 1459892850) := by decide +kernel

/-- An orphan that claims to be from the first day of 1970. -/
def staleBlock : CBlock := { toyBlock 7 0 0 1 with nTime := 1 }

theorem staleBlock_refused : (processBlock toy toyNow (run toy hardBlocks) staleBlock).1 ≠ .ok () := by
  obtain ⟨grown, -, basis⟩ := hardBlocks_facts
  obtain ⟨pprev, parent, enforced, -⟩ :=
    minWork_enforced_iff toy hardBlocks toyNow staleBlock grown (by decide +kernel)
  rw [basisOf, parent] at basis
  obtain ⟨nBits, time⟩ := Prod.mk.inj (Option.some.inj basis)
  refine enforced.mpr (.inr (.inr ?_)) ?_
  · rw [nBits]
    decide +kernel
  · rw [elapsedTarget, nBits, time]
    decide +kernel

theorem easyBlock_accepted : ∃ pprev, tipParent (run toy hardBlocks) = .ok pprev ∧
    1 ≤ (run toy hardBlocks).nBestHeight ∧ easyBlock.hashPrevBlock ≠ (run toy hardBlocks).hashBestChain ∧
    elapsedTarget pprev easyBlock < setCompact easyBlock.nBits ∧
    (processBlock toy toyNow (run toy hardBlocks) easyBlock).1 = .ok () := by
  obtain ⟨grown, apart, basis⟩ := hardBlocks_facts
  cases parent : tipParent (run toy hardBlocks) with
  | error failure =>
    rw [basisOf, parent] at basis
    cases basis
  | ok pprev =>
    rw [basisOf, parent] at basis
    obtain ⟨nBits, time⟩ := Prod.mk.inj (Option.some.inj basis)
    refine ⟨pprev, rfl, grown, apart, ?_, by decide +kernel⟩
    rw [elapsedTarget, nBits, time]
    decide +kernel

end RitCoin.Proof
