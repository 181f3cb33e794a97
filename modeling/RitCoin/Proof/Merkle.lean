import RitCoin.Lib.Merkle
import RitCoin.Model.MerkleTx
import RitCoin.Proof.Maturity
import RitCoin.Proof.Peers

namespace RitCoin.Proof
open Lib Model Spec Std
variable {i : ℕ} {p : Placed} {e : CBlockIndex} {P : Primitives} {node : Node} {block : CBlock}
  {chain : List Placed} {events : List Event}

theorem merkleLevel_eq (level : List Uint256) : merkleLevel P level = levelUp P.hashPair level := by
  rw [levelUp]
  induction level using merkleLevel.induct with
  | case1 => rfl
  | case2 a => rfl
  | case3 a b rest ih => rw [merkleLevel, ih, pairUp, List.map_cons]

theorem vMerkleTree_eq : ∀ (fuel : ℕ) (level : List Uint256),
    vMerkleTree P fuel level = (levels P.hashPair fuel level).flatten := by
  intro fuel
  induction fuel with
  | zero => exact fun level => (List.append_nil level).symm
  | succ fuel ih =>
    intro level
    rw [vMerkleTree, levels]
    split_ifs
    · exact (List.append_nil level).symm
    · rw [ih, merkleLevel_eq, List.flatten_cons]

theorem buildMerkleTree_eq (block : CBlock) : block.buildMerkleTree P =
    (root? P.hashPair block.vtx.length (block.vtx.map P.hashTx)).getD 0 := by
  rw [CBlock.buildMerkleTree, vMerkleTree_eq, root?]

def hashedPairs (P : Primitives) (block : CBlock) : List (Uint256 × Uint256) :=
  hashed P.hashPair block.vtx.length (block.vtx.map P.hashTx)

/-- No pair that is hashed for one of the blocks has the hash of another such pair, or of one of the
blocks' transactions. -/
structure CollisionFree (P : Primitives) (block block' : CBlock) : Prop where
  pairs : Set.InjOn (fun p : Uint256 × Uint256 => P.hashPair p.1 p.2)
    {p | p ∈ hashedPairs P block ++ hashedPairs P block'}
  leaves : ∀ p ∈ hashedPairs P block ++ hashedPairs P block', ∀ tx ∈ block.vtx ++ block'.vtx,
    P.hashPair p.1 p.2 ≠ P.hashTx tx

theorem exists_root (nonempty : block.vtx ≠ []) :
    root? P.hashPair block.vtx.length (block.vtx.map P.hashTx) = some (block.buildMerkleTree P) := by
  obtain ⟨tx, rest, vtx⟩ := List.exists_cons_of_ne_nil nonempty
  have first : (block.vtx.map P.hashTx)[0]? = some (P.hashTx tx) := by simp [vtx]
  rw [buildMerkleTree_eq, climb_siblings (by simp) first]
  rfl

theorem CollisionFree.hashes_eq {block' : CBlock} (free : CollisionFree P block block')
    (nonempty : block.vtx ≠ []) (nonempty' : block'.vtx ≠ [])
    (nodup : (block.vtx.map P.hashTx).Nodup) (nodup' : (block'.vtx.map P.hashTx).Nodup)
    (same : block.buildMerkleTree P = block'.buildMerkleTree P) :
    block.vtx.map P.hashTx = block'.vtx.map P.hashTx := by
  have notLeaf : ∀ p ∈ hashedPairs P block ++ hashedPairs P block', ∀ vtx ⊆ block.vtx ++ block'.vtx,
      P.hashPair p.1 p.2 ∉ vtx.map P.hashTx := by
    intro p hp vtx sub member
    obtain ⟨tx, inVtx, eq⟩ := List.mem_map.mp member
    exact free.leaves p hp tx (sub inVtx) eq.symm
  have roots : root? P.hashPair block.vtx.length (block.vtx.map P.hashTx) =
      root? P.hashPair block'.vtx.length (block'.vtx.map P.hashTx) := by
    rw [exists_root nonempty, exists_root nonempty', same]
  refine eq_of_root?_eq free.pairs ?_ ?_ ?_ ?_ nodup nodup' ?_ ?_ ?_ ?_ roots
  · simpa using nonempty
  · simpa using nonempty'
  · simp
  · simp
  · exact fun p hp => List.mem_append_left _ hp
  · exact fun p hp => List.mem_append_right _ hp
  · exact fun p hp => notLeaf p hp _ (List.subset_append_left _ _)
  · exact fun p hp => notLeaf p hp _ (List.subset_append_right _ _)

/-- `BuildMerkleTree` is injective on lists without duplicates, so the header of a block that passes
`CheckBlock` fixes the transaction hashes. -/
theorem vtx_hashes_unique (P : Primitives) (block block' : CBlock) (free : CollisionFree P block block') :
    (block.vtx ≠ [] → block'.vtx ≠ [] → (block.vtx.map P.hashTx).Nodup →
      (block'.vtx.map P.hashTx).Nodup → block.buildMerkleTree P = block'.buildMerkleTree P →
      block.vtx.map P.hashTx = block'.vtx.map P.hashTx) ∧
    (block.toCBlockHeader = block'.toCBlockHeader → ∀ now now' : Int,
      block.checkBlock P now = .ok () → block'.checkBlock P now' = .ok () →
      block.vtx.map P.hashTx = block'.vtx.map P.hashTx) := by
  refine ⟨free.hashes_eq, ?_⟩
  intro header now now' ok ok'
  have checked := CBlock.checkBlock_eq_ok.mp ok
  have checked' := CBlock.checkBlock_eq_ok.mp ok'
  apply free.hashes_eq checked.nonempty checked'.nonempty checked.nodup checked'.nodup
  calc block.buildMerkleTree P = block.hashMerkleRoot := checked.merkle.symm
    _ = block'.hashMerkleRoot := congrArg CBlockHeader.hashMerkleRoot header
    _ = block'.buildMerkleTree P := checked'.merkle

def toyPairs : Primitives :=
  { toy with hashPair := fun a b => BitVec.ofNat 256 (2 ^ 200 + a.toNat + b.toNat * 2 ^ 64) }

def toySpend (nTime : UInt32) (scriptSig : CScript) : CTransaction where
  nVersion := 1
  nTime := nTime
  vin := [⟨⟨1, 0⟩, scriptSig, 0xffffffff⟩]
  vout := [⟨MIN_TXOUT_AMOUNT, []⟩]
  nLockTime := 0

def threeTxs (scriptSig : CScript) : CBlock :=
  let block : CBlock := { toyBlock 0 30 0 0 with
    vtx := [toyCoinbase 1459892850, toySpend 1459892849 scriptSig, toySpend 1459892848 []] }
  { block with hashMerkleRoot := block.buildMerkleTree toyPairs }

theorem threeTxs_hashes_unique :
    threeTxs [1] ≠ threeTxs [2] ∧
      (threeTxs [1]).vtx.map toyPairs.hashTx = (threeTxs [2]).vtx.map toyPairs.hashTx := by
  let pairs := hashedPairs toyPairs (threeTxs [1]) ++ hashedPairs toyPairs (threeTxs [2])
  have distinct : (pairs.all fun p => pairs.all fun q =>
      decide (toyPairs.hashPair p.1 p.2 = toyPairs.hashPair q.1 q.2 → p = q)) = true := by decide +kernel
  have leaves : (pairs.all fun p => ((threeTxs [1]).vtx ++ (threeTxs [2]).vtx).all fun tx =>
      decide (toyPairs.hashPair p.1 p.2 ≠ toyPairs.hashTx tx)) = true := by decide +kernel
  simp only [List.all_eq_true, decide_eq_true_eq] at distinct leaves
  have free : CollisionFree toyPairs (threeTxs [1]) (threeTxs [2]) :=
    ⟨fun p hp q hq => distinct p hp q hq, leaves⟩
  refine ⟨by decide +kernel, ?_⟩
  exact (vtx_hashes_unique toyPairs (threeTxs [1]) (threeTxs [2]) free).2 (by decide +kernel) toyNow
    toyNow (by decide +kernel) (by decide +kernel)

theorem merkleBranch_eq : ∀ (fuel : ℕ) (level below : List Uint256) (i : ℕ),
    level.length ≤ fuel + 1 → i < level.length →
    merkleBranch (below ++ (levels P.hashPair fuel level).flatten) fuel level.length below.length i =
      .ok (siblings (levels P.hashPair fuel level) i) := by
  intro fuel
  induction fuel with
  | zero =>
    intro level below i bound _
    rw [merkleBranch, levels_short bound, siblings, if_neg (Nat.not_lt.mpr bound)]
    rfl
  | succ fuel ih =>
    intro level below i bound inside
    rw [merkleBranch]
    by_cases long : 1 < level.length
    · obtain ⟨sibling, isSibling⟩ := exists_sibling inside
      have lookup : (below ++ (levels P.hashPair (fuel + 1) level).flatten)[below.length +
          min (i ^^^ 1) (level.length - 1)]? = some sibling := by
        rw [List.getElem?_append_right (Nat.le_add_right _ _), Nat.add_sub_cancel_left,
          levels_long long, List.flatten_cons, List.getElem?_append_left (by omega)]
        exact isSibling
      -- the next level starts where this one ends
      have next := ih (levelUp P.hashPair level) (below ++ level) (i / 2)
        (by rw [length_levelUp]; omega) (by rw [length_levelUp]; omega)
      rw [length_levelUp, List.length_append, List.append_assoc, ← List.flatten_cons,
        ← levels_long long] at next
      rw [if_pos long, lookup]
      simp only [Nat.shiftRight_one, next]
      rw [levels_long long, siblings, if_pos long, isSibling]
      rfl
    · rw [if_neg long, levels_short (Nat.not_lt.mp long), siblings, if_neg long]
      rfl

theorem foldl_eq_climb : ∀ (branch : List Uint256) (hash : Uint256) (i : ℕ),
    (branch.foldl (fun (state : Uint256 × Int) otherside =>
      (if state.2 % 2 = 1 then P.hashPair otherside state.1 else P.hashPair state.1 otherside,
        state.2 / 2)) (hash, (i : Int))).1 = climb P.hashPair hash branch i := by
  intro branch
  induction branch with
  | nil => exact fun _ _ => rfl
  | cons otherside rest ih =>
    intro hash i
    have parity : ((i : Int) % 2 = 1) = (i % 2 = 1) := by
      rw [eq_iff_iff]
      omega
    rw [List.foldl_cons, climb, ← ih]
    simp only [parity, Int.natCast_ediv, Nat.cast_ofNat]

theorem checkMerkleBranch_eq (branch : List Uint256) (hash : Uint256) (i : ℕ) :
    checkMerkleBranch P hash branch i = climb P.hashPair hash branch i := by
  rw [checkMerkleBranch, if_neg (by omega)]
  exact foldl_eq_climb branch hash i

theorem getMerkleBranch_verifies (tree : block.MerkleTree P) {tx : CTransaction}
    (found : block.vtx[i]? = some tx) :
    ∃ branch, block.getMerkleBranch P tree i = .ok branch ∧
      checkMerkleBranch P (P.hashTx tx) branch i = block.buildMerkleTree P := by
  obtain ⟨inside, -⟩ := List.getElem?_eq_some_iff.mp found
  have nodes : (if tree.nodes = [] then vMerkleTree P block.vtx.length (block.vtx.map P.hashTx)
      else tree.nodes) = vMerkleTree P block.vtx.length (block.vtx.map P.hashTx) := by
    rcases tree.built with empty | built
    · rw [if_pos empty]
    · rw [built, ite_id]
  have branch := merkleBranch_eq (P := P) block.vtx.length (block.vtx.map P.hashTx) [] i (by simp)
    (by simpa using inside)
  rw [List.nil_append, List.length_map, List.length_nil] at branch
  refine ⟨siblings (levels P.hashPair block.vtx.length (block.vtx.map P.hashTx)) i, ?_, ?_⟩
  · rw [CBlock.getMerkleBranch, ← branch, ← vMerkleTree_eq]
    exact congrArg (fun nodes => merkleBranch nodes _ _ 0 i) nodes
  · have leaf : (block.vtx.map P.hashTx)[i]? = some (P.hashTx tx) := by simp [found]
    rw [checkMerkleBranch_eq, buildMerkleTree_eq, climb_siblings (by simp) leaf]
    rfl

theorem Inv.findInMainChain (inv : Inv P events node chain) (found : chain[i]? = some p)
    (lookup : node.mapBlockIndex[P.getHash p.block]? = some e) :
    node.findInMainChain (P.getHash p.block) = some e := by
  rw [Node.findInMainChain, lookup]
  refine Option.filter_eq_some_iff.mpr ⟨rfl, ?_⟩
  rw [inv.pnext_eq found lookup, inv.tip.pindexBest]
  cases above : chain[i + 1]? with
  | some q => simp
  | none =>
    obtain ⟨last, _, atEnd, tip⟩ := inv.tip_at
    obtain ⟨inside, -⟩ := List.getElem?_eq_some_iff.mp found
    have length := List.getElem?_eq_none_iff.mp above
    rw [show chain.length - 1 = i by omega, found] at atEnd
    cases atEnd
    simp [tip]

theorem Inv.depthOf (inv : Inv P events node chain) (is : Matches i p e) :
    node.depthOf e = .ok (node.nBestHeight - i + 1) := by
  obtain ⟨best, _, deref, height⟩ := inv.best
  rw [Node.depthOf, deref, height, ← is.height]
  rfl

theorem Inv.merkle (inv : Inv P events node chain) (found : chain[i]? = some p) :
    p.block.hashMerkleRoot = p.block.buildMerkleTree P := by
  cases i with
  | zero =>
    obtain rfl := Option.some.inj (found.symm.trans inv.path.genesis)
    rfl
  | succ i =>
    obtain ⟨now, _, checked⟩ := (inv.entered i p found).received
    exact checked.merkle

theorem Matches.hashMerkleRoot (is : Matches i p e) : e.hashMerkleRoot = p.block.hashMerkleRoot :=
  congrArg CBlockHeader.hashMerkleRoot is.header

theorem CMerkleTx.locate_eq {tx : CMerkleTx} (tree : block.MerkleTree P)
    (member : tx.toCTransaction ∈ block.vtx) : ∃ (i : ℕ) (branch : List Uint256),
      checkMerkleBranch P (P.hashTx tx.toCTransaction) branch i = block.buildMerkleTree P ∧
      tx.locate P block tree = .ok ({ tx with
        hashBlock := P.getHash block, nIndex := i, vMerkleBranch := branch }, true) := by
  obtain ⟨i, index⟩ := Option.isSome_iff_exists.mp (List.isSome_idxOf?.mpr member)
  obtain ⟨inside, here, -⟩ := List.idxOf?_eq_some_iff.mp index
  have found : block.vtx[i]? = some tx.toCTransaction := List.getElem?_eq_some_iff.mpr ⟨inside, here⟩
  obtain ⟨branch, get, verifies⟩ := getMerkleBranch_verifies tree found
  refine ⟨i, branch, verifies, ?_⟩
  rw [CMerkleTx.locate]
  simp only [index, get]
  rfl

/-- Every branch leads to the root, so a transaction of the best chain has the depth of its block. -/
theorem merkleBranch_depth (P : Primitives) :
    (∀ (block : CBlock) (tree : block.MerkleTree P) (i : ℕ) (tx : CTransaction),
      block.vtx[i]? = some tx → ∃ branch, block.getMerkleBranch P tree i = .ok branch ∧
        checkMerkleBranch P (P.hashTx tx) branch i = block.buildMerkleTree P) ∧
    (∀ (events : List Event) (height : ℕ) (block : CBlock) (tree : block.MerkleTree P) (wtx : CMerkleTx),
      (bestBlocks (run P events))[height]? = some block → P.getHash block ≠ 0 →
      wtx.toCTransaction ∈ block.vtx →
      ∃ after verified : CMerkleTx,
        wtx.setMerkleBranch P (run P events) (some ⟨block, tree⟩) =
          .ok (after, (run P events).nBestHeight - height + 1) ∧
        after.getDepthInMainChain P (run P events) =
          .ok (verified, (run P events).nBestHeight - height + 1)) := by
  refine ⟨fun block tree i tx => getMerkleBranch_verifies tree, ?_⟩
  intro events height block tree wtx found nonzero member
  obtain ⟨chain, inv⟩ := exists_inv P events
  rw [inv.bestBlocks, List.getElem?_map, Option.map_eq_some_iff] at found
  obtain ⟨placed, found, rfl⟩ := found
  obtain ⟨e, lookup, is⟩ := inv.path.entry height placed found
  obtain ⟨i, branch, verifies, located⟩ := CMerkleTx.locate_eq tree member
  have main := inv.findInMainChain found lookup
  have depth := inv.depthOf is
  have root : checkMerkleBranch P (P.hashTx wtx.toCTransaction) branch i = e.hashMerkleRoot := by
    rw [verifies, ← inv.merkle found, is.hashMerkleRoot]
  let after : CMerkleTx :=
    { wtx with hashBlock := P.getHash placed.block, nIndex := i, vMerkleBranch := branch }
  refine ⟨after, { after with fMerkleVerified := true }, ?_, ?_⟩
  · rw [CMerkleTx.setMerkleBranch]
    simp only [fClient, Bool.false_eq_true, if_false, Option.some_or, located]
    change after.mainChainDepth (run P events) = _
    rw [CMerkleTx.mainChainDepth, main]
    simp only [depth]
    rfl
  · have known : ¬ (after.hashBlock = 0 ∨ after.nIndex = -1) := by
      rintro (zero | minus)
      · exact nonzero zero
      · exact absurd minus (by simp [after])
    rw [CMerkleTx.getDepthInMainChain, if_neg known, main]
    simp only
    rw [if_neg fun h => h.2 root, depth]
    rfl

theorem merkleBranch_depth_busy :
    let node := run toy busyEvents
    ∃ after verified : CMerkleTx,
      (CMerkleTx.init followUp).setMerkleBranch toy node (some ⟨busyBlock, [], .inl rfl⟩) =
        .ok (after, node.nBestHeight - (6 : ℕ) + 1) ∧
      after.getDepthInMainChain toy node = .ok (verified, node.nBestHeight - (6 : ℕ) + 1) := by
  have found : (bestBlocks (run toy busyEvents))[6]? = some busyBlock := by decide +kernel
  have nonzero : toy.getHash busyBlock ≠ 0 := by decide +kernel
  have member : (CMerkleTx.init followUp).toCTransaction ∈ busyBlock.vtx := by decide +kernel
  exact (merkleBranch_depth toy).2 _ 6 busyBlock ⟨[], .inl rfl⟩ _ found nonzero member

end RitCoin.Proof
