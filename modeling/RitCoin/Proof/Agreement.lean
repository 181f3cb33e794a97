import RitCoin.Proof.BestChain

namespace RitCoin.Proof
open Lib Model Spec Std
variable {i : ℕ} {p q : Placed} {e e' pindexPrev : CBlockIndex} {map map' : BlockMap} {now' now : Int}
  {P : Primitives} {node X Y : Node} {block : CBlock} {chain chainX chainY : List Placed}
  {events eventsX eventsY : List Event}

/-- Entries of one block at one height agree in what the checks of its children read. -/
structure Agrees (e e' : CBlockIndex) : Prop where
  nHeight : e.nHeight = e'.nHeight
  nTime : e.nTime = e'.nTime
  nBits : e.nBits = e'.nBits
  pprev : e.pprev = e'.pprev

theorem Matches.agrees (is : Matches i p e) (is' : Matches i q e') (same : p.block = q.block) : Agrees e e' := by
  have header := is.header
  rw [same, ← is'.header] at header
  simp only [CDiskBlockIndex.header, CDiskBlockIndex.ofIndex, CBlockHeader.mk.injEq] at header
  exact ⟨is.height.trans is'.height.symm, header.2.2.2.1, header.2.2.2.2.1,
    by rw [is.pprev, is'.pprev, same]⟩

section
variable (path : Path P map chainX) (path' : Path P map' chainY)
  (same : chainX.map Placed.block = chainY.map Placed.block)
include path path' same

theorem Path.agrees (found : chainX[i]? = some p) :
    ∃ e e', map[P.getHash p.block]? = some e ∧ map'[P.getHash p.block]? = some e' ∧
      Agrees e e' ∧ Matches i p e := by
  have found' := congrArg (fun blocks => blocks[i]?) same
  simp only [List.getElem?_map, found, Option.map_some] at found'
  obtain ⟨q, atQ, equal⟩ := Option.map_eq_some_iff.mp found'.symm
  obtain ⟨e, lookup, is⟩ := path.entry i p found
  obtain ⟨e', lookup', is'⟩ := path'.entry i q atQ
  rw [equal] at lookup'
  exact ⟨e, e', lookup, lookup', is.agrees is' equal.symm, is⟩

theorem Path.parent_agrees (found : chainX[i + 1]? = some q) (is : Matches (i + 1) q e) (agrees : Agrees e e') :
    ∃ p a a', chainX[i]? = some p ∧ map.deref e.pprev = .ok a ∧ map'.deref e'.pprev = .ok a' ∧
      Agrees a a' ∧ Matches i p a := by
  obtain ⟨p, below⟩ := exists_below found
  obtain ⟨a, a', lookup, lookup', agree, is'⟩ := path.agrees path' same below
  have pprev : e.pprev = some (P.getHash p.block) := by
    rw [is.pprev, if_neg (Nat.succ_ne_zero i), path.link i p q below found]
  refine ⟨p, a, a', below, ?_, ?_, agree, is'⟩
  · rw [pprev, BlockMap.deref, lookup]
  · rw [← agrees.pprev, pprev, BlockMap.deref, lookup']

end

theorem Inv.tip_agrees (invX : Inv P eventsX X chainX) (invY : Inv P eventsY Y chainY)
    (same : chainX.map Placed.block = chainY.map Placed.block) :
    X.hashBestChain = Y.hashBestChain ∧ X.nBestHeight = Y.nBestHeight ∧
    ∃ e e', X.mapBlockIndex[X.hashBestChain]? = some e ∧ Y.mapBlockIndex[X.hashBestChain]? = some e' ∧
      Agrees e e' ∧ ∃ i last, chainX[i]? = some last ∧ Matches i last e := by
  obtain ⟨last, e, top, hash, lookup, height, _⟩ := invX.tip.best
  obtain ⟨last', e', top', hash', lookup', height', _⟩ := invY.tip.best
  have blocks := congrArg List.getLast? same
  simp only [List.getLast?_map, top, top', Option.map_some, Option.some.injEq] at blocks
  have tips : X.hashBestChain = Y.hashBestChain := by rw [hash, hash', blocks]
  have atEnd := (getLast?_eq_some_iff.mp top).2
  obtain ⟨a, a', found, found', agrees, is⟩ := invX.path.agrees invY.path same atEnd
  rw [← hash] at found found'
  rw [lookup] at found
  rw [tips, lookup'] at found'
  cases found
  cases found'
  exact ⟨tips, by rw [height, height', agrees.nHeight], e, e', lookup, tips ▸ lookup', agrees, _, last,
    atEnd, is⟩

theorem nextTarget_congr {a a' b b' : CBlockIndex} (agrees : Agrees a a') (agrees' : Agrees b b') :
    nextTarget a b = nextTarget a' b' := by
  have time : a.getBlockTime = a'.getBlockTime := by simp [CBlockIndex.getBlockTime, agrees.nTime]
  have time' : b.getBlockTime = b'.getBlockTime := by simp [CBlockIndex.getBlockTime, agrees'.nTime]
  rw [nextTarget, nextTarget, time, time', agrees.nBits]

section
variable (invX : Inv P eventsX X chainX) (invY : Inv P eventsY Y chainY)
  (same : chainX.map Placed.block = chainY.map Placed.block)
include invX invY same

theorem checkWork_congr (tip : block.hashPrevBlock = X.hashBestChain) : checkWork P X block = checkWork P Y block := by
  obtain ⟨tips, _, e, e', lookup, lookup', agrees, i, last, atEnd, is⟩ := invX.tip_agrees invY same
  have best : X.mapBlockIndex.deref X.pindexBest = .ok e := by
    rw [invX.tip.pindexBest, BlockMap.deref, lookup]
  have best' : Y.mapBlockIndex.deref Y.pindexBest = .ok e' := by
    rw [invY.tip.pindexBest, ← tips, BlockMap.deref, lookup']
  rw [← tip] at lookup lookup'
  simp only [checkWork, best, best', lookup, lookup', bind, Except.bind, agrees.nHeight]
  by_cases low : e'.nHeight < 3
  · simp only [if_pos low]
  · have height := is.height
    obtain ⟨k, rfl⟩ : ∃ k, i = k + 2 := ⟨i - 2, by have := agrees.nHeight; omega⟩
    obtain ⟨p, a, a', found, deref, deref', agree, isA⟩ :=
      invX.path.parent_agrees invY.path same atEnd is agrees
    obtain ⟨_, b, b', _, derefB, derefB', agreeB, _⟩ :=
      invX.path.parent_agrees invY.path same found isA agree
    simp only [deref, deref', derefB, derefB', nextTarget_congr agree agreeB]

theorem Admission.transfer (tip : block.hashPrevBlock = Y.hashBestChain)
    (admission : Admission P now Y block pindexPrev) (fresh : X.mapBlockIndex[P.getHash block]? = none) :
    ∃ pindexPrev, Admission P now X block pindexPrev := by
  obtain ⟨tips, heights, e, e', lookup, lookup', agrees, _⟩ := invX.tip_agrees invY same
  have parent := admission.parent
  rw [tip, ← tips, lookup'] at parent
  cases parent
  have accept := admission.accept
  refine ⟨e, fresh, admission.authentic, admission.checked, ?_, ?_, ?_, ?_⟩
  · rw [checkWork_congr invX invY same (tip.trans tips.symm)]
    exact admission.work
  · rw [checkMinWork, if_pos (tip.trans tips.symm)]
    rfl
  · rw [tip, ← tips, lookup]
  · simp only [checkAccept, CBlockIndex.getBlockTime, ← agrees.nTime, ← agrees.nHeight, ← heights]
      at accept ⊢
    exact accept

end

theorem checkAccept_later (accept : checkAccept now node block pindexPrev = .ok ()) :
    checkAccept now' node block pindexPrev = .ok () := by
  simp only [checkAccept, seq_eq_ok, failIf_eq_ok, not_not] at accept ⊢
  obtain ⟨order, spacing, final⟩ := accept
  refine ⟨order, spacing, ?_⟩
  have time : block.getBlockTime ≠ 0 := by
    simp only [CBlockIndex.getBlockTime] at order
    omega
  simpa only [CTransaction.isFinal, if_neg time] using final

theorem Admission.later (admission : Admission P now node block pindexPrev) (le : now ≤ now') :
    Admission P now' node block pindexPrev :=
  { admission with
    checked := admission.checked.later le
    accept := checkAccept_later admission.accept }

theorem Extends.later (fits : Extends P now chain block) (le : now ≤ now') : Extends P now' chain block := by
  obtain ⟨⟨events, node, pindexPrev, inv, admission, tip⟩, accepts⟩ := fits
  exact ⟨⟨events, node, pindexPrev, inv, admission.later le, tip⟩,
    { accepts with checked := accepts.checked.later le }⟩

theorem Inv.trust_lt (inv : Inv P events node chain)
    (attachable : Attachable P node block pindexPrev) (checked : block.Checked P now)
    (tip : block.hashPrevBlock = node.hashBestChain) :
    node.bnBestChainTrust < (newIndex node block).bnChainTrust := by
  obtain ⟨_, e, _, _, found, _, trust⟩ := inv.tip.best
  have parent := attachable.parent
  rw [tip, found] at parent
  cases parent
  rw [attachable.trust, newIndex_getBlockTrust checked node, trust]
  exact Int.lt_succ _

variable (fits : Extends P now chainY block) (inv : Inv P eventsX X chainX)
  (same : chainX.map Placed.block = chainY.map Placed.block)
include fits inv same

theorem Extends.on :
    block.hashPrevBlock = X.hashBestChain ∧
      Accepts now (ledgerOf P (blocksOf chainX)) chainX.length block := by
  obtain ⟨⟨_, _, _, inv', _, tip⟩, accepts⟩ := fits
  obtain ⟨tips, _⟩ := inv.tip_agrees inv' same
  have length : chainX.length = chainY.length := by simpa using congrArg List.length same
  have blocks : blocksOf chainX = blocksOf chainY := by
    rw [blocksOf, blocksOf, List.map_tail, List.map_tail, same]
  rw [length, blocks]
  exact ⟨tip.trans tips.symm, accepts⟩

theorem Extends.connects (fresh : X.mapBlockIndex[P.getHash block]? = none) :
    ∃ pindexPrev pindexNew txdb, Admission P now X block pindexPrev ∧
      block.hashPrevBlock = X.hashBestChain ∧
      connectBlock P now (stored P X block) (batch (stored P X block).pdb) block (newIndex X block) =
        .ok (txdb, pindexNew) ∧
      processBlock P now X block =
        (.ok (), connected P (stored P X block) block pindexNew pindexPrev txdb) := by
  obtain ⟨tip, accepts⟩ := fits.on inv same
  obtain ⟨⟨_, _, _, inv', admission', tip'⟩, _⟩ := fits
  obtain ⟨pindexPrev, admission⟩ := admission'.transfer inv inv' same tip' fresh
  obtain ⟨result, complete⟩ := connectBlock_complete (inv.ready admission.attachable tip) accepts
  have effect := inv.effect now block
  generalize processBlock P now X block = step at effect ⊢
  cases effect with
  | rejected _ refused => exact absurd admission (refused _)
  | orphan orphan =>
    rw [admission.parent] at orphan
    cases orphan
  | side _ low => exact absurd (inv.trust_lt admission.attachable admission.checked tip) (Int.not_lt.mpr low)
  | apart _ _ _ ne => exact absurd tip ne
  | failed _ reason _ _ _ connect =>
    rw [connect] at complete
    cases complete
  | connected admission _ _ connect => exact ⟨_, _, _, admission, tip, connect, rfl⟩

end RitCoin.Proof
