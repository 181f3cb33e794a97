import RitCoin.Proof.Runs
import RitCoin.Spec.BestChain

namespace RitCoin.Proof
open Lib Model Spec Std

variable {P : Primitives} {node : Node} {chain : List Placed} {events : List Event}

def hashesOf (P : Primitives) (chain : List Placed) : List Uint256 :=
  chain.map fun placed => P.getHash placed.block

theorem hashesOf_getElem? (chain : List Placed) (i : ℕ) :
    (hashesOf P chain)[i]? = chain[i]?.map fun placed => P.getHash placed.block := by
  simp [hashesOf]

theorem Path.pprevs_succ {map : BlockMap} (path : Path P map chain) {i : ℕ} {p below : Placed}
    {e : CBlockIndex} (found : chain[i + 1]? = some p) (foundBelow : chain[i]? = some below)
    (lookup : map[P.getHash p.block]? = some e) (is : Matches (i + 1) p e) :
    map.pprevs (i + 2) (some (P.getHash p.block)) =
      (P.getHash p.block, e) :: map.pprevs (i + 1) (some (P.getHash below.block)) ∧
    e.pprev = some (P.getHash below.block) := by
  have pprev : e.pprev = some (P.getHash below.block) := by
    rw [is.pprev, if_neg (Nat.succ_ne_zero i), path.link i below p foundBelow found]
  exact ⟨by rw [← pprev, BlockMap.pprevs, lookup], pprev⟩

theorem Path.pprevs {map : BlockMap} (path : Path P map chain) :
    ∀ (i : ℕ) (placed : Placed), chain[i]? = some placed →
      ((map.pprevs (i + 1) (some (P.getHash placed.block))).map Prod.fst).reverse =
        (hashesOf P chain).take (i + 1) := by
  intro i
  induction i with
  | zero =>
    intro placed found
    obtain ⟨e, lookup, is⟩ := path.entry 0 placed found
    have pprev : e.pprev = none := by simpa using is.pprev
    have first : (hashesOf P chain)[0]? = some (P.getHash placed.block) := by
      rw [hashesOf_getElem?, found]
      rfl
    simp [BlockMap.pprevs, lookup, List.take_add_one, first]
  | succ i ih =>
    intro placed found
    obtain ⟨e, lookup, is⟩ := path.entry (i + 1) placed found
    obtain ⟨below, foundBelow⟩ := exists_below found
    have here : (hashesOf P chain)[i + 1]? = some (P.getHash placed.block) := by
      rw [hashesOf_getElem?, found]
      rfl
    rw [(path.pprevs_succ found foundBelow lookup is).1, List.take_add_one, here,
      ← ih below foundBelow]
    simp

theorem Inv.ancestors (inv : Inv P events node chain) :
    ∃ i last, chain[i]? = some last ∧ i + 1 = chain.length ∧
      node.hashBestChain = P.getHash last.block ∧
      node.mapBlockIndex.ancestors node.pindexBest =
        node.mapBlockIndex.pprevs (i + 1) (some (P.getHash last.block)) := by
  obtain ⟨last, pos, atEnd, hash⟩ := inv.tip_at
  obtain ⟨e, lookup, _⟩ := inv.best
  refine ⟨chain.length - 1, last, atEnd, Nat.sub_add_cancel pos, hash, ?_⟩
  rw [inv.tip.pindexBest, BlockMap.ancestors, lookup, ← hash]
  simp only [inv.tip_height lookup, Int.toNat_natCast]

theorem Inv.bestPath (inv : Inv P events node chain) : bestPath node = hashesOf P chain := by
  obtain ⟨i, last, atEnd, length, _, walk⟩ := inv.ancestors
  have all : (hashesOf P chain).length = i + 1 := by simp [hashesOf, length]
  rw [Spec.bestPath, walk, inv.path.pprevs i last atEnd, ← all, List.take_length]

theorem Inv.bestBlocks (inv : Inv P events node chain) : bestBlocks node = chain.map Placed.block := by
  have read : ∀ placed ∈ chain, ((node.mapBlockIndex[P.getHash placed.block]?).bind fun pindex =>
      readBlockAt node.files.writes pindex.nFile pindex.nBlockPos) = some placed.block := by
    intro placed member
    obtain ⟨i, found⟩ := List.getElem?_of_mem member
    obtain ⟨e, lookup, is⟩ := inv.path.entry i placed found
    rw [lookup, Option.bind_some, is.nFile, is.nBlockPos]
    exact (inv.disk placed member).readBlockAt
  rw [Spec.bestBlocks, inv.bestPath, hashesOf, List.filterMap_map, ← List.filterMap_eq_map]
  exact List.filterMap_congr fun placed member => read placed member

theorem Rooted.descends {map : BlockMap} (tree : Rooted P map) :
    ∀ (n : ℕ) (h : Uint256) (e : CBlockIndex), map[h]? = some e → e.nHeight.toNat = n →
      Relation.ReflTransGen (IsParent map) (hashGenesisBlock P) h := by
  intro n
  induction n with
  | zero =>
    intro h e found zero
    by_cases root : h = hashGenesisBlock P
    · rw [root]
    · obtain ⟨p, pe, _, parent, height, _⟩ := tree.parent h e found root
      have := tree.nonneg p pe parent
      omega
  | succ n ih =>
    intro h e found height
    by_cases root : h = hashGenesisBlock P
    · rw [root]
    · obtain ⟨p, pe, pprev, parent, step, _⟩ := tree.parent h e found root
      exact (ih p pe parent (by omega)).tail ⟨e, found, pprev⟩

theorem Rooted.blockTree {map : BlockMap} (tree : Rooted P map) : BlockTree P map :=
  ⟨tree.root, tree.parent, fun h e found => tree.descends _ h e found rfl⟩

theorem adjacent_iff {h h' : Uint256} : Adjacent P chain h h' ↔
    ∃ i, (hashesOf P chain)[i]? = some h ∧ (hashesOf P chain)[i + 1]? = some h' := by
  simp only [Adjacent, hashesOf_getElem?, Option.map_eq_some_iff]
  constructor
  · rintro ⟨i, p, q, hp, hq, rfl, rfl⟩
    exact ⟨i, ⟨p, hp, rfl⟩, q, hq, rfl⟩
  · rintro ⟨i, ⟨p, hp, rfl⟩, q, hq, rfl⟩
    exact ⟨i, p, q, hp, hq, rfl, rfl⟩

theorem mem_dropLast_iff {l : List Uint256} {h : Uint256} :
    h ∈ l.dropLast ↔ ∃ i h', l[i]? = some h ∧ l[i + 1]? = some h' := by
  constructor
  · intro member
    obtain ⟨i, found⟩ := List.getElem?_of_mem member
    have bound := (List.getElem?_eq_some_iff.mp found).1
    rw [List.length_dropLast] at bound
    rw [List.getElem?_dropLast, if_pos bound] at found
    exact ⟨i, _, found, List.getElem?_eq_getElem (by omega)⟩
  · rintro ⟨i, h', found, next⟩
    have bound := (List.getElem?_eq_some_iff.mp next).1
    apply List.mem_of_getElem? (i := i)
    rw [List.getElem?_dropLast, if_pos (by omega), found]

theorem Inv.threaded (inv : Inv P events node chain) : Threaded node where
  isSome h e found := by
    rw [inv.bestPath, mem_dropLast_iff, Option.isSome_iff_exists, exists_comm]
    exact exists_congr fun h' => (inv.pnext h e found h').trans adjacent_iff
  next i h h' e here above found := by
    rw [inv.bestPath] at here above
    exact (inv.pnext h e found h').mpr (adjacent_iff.mpr ⟨i, here, above⟩)

theorem Inv.bestBlock (inv : Inv P events node chain) : BestBlock P node := by
  obtain ⟨last, e, top, hash, lookup, height, trust⟩ := inv.tip.best
  have positive := inv.path.length_pos
  refine ⟨?_, ?_, ?_, inv.tip.pindexBest, ⟨e, lookup, height, trust⟩, ?_⟩
  · rw [inv.bestPath, List.head?_eq_getElem?, hashesOf_getElem?, inv.path.genesis]
    rfl
  · rw [inv.bestPath, hashesOf, List.getLast?_map, top, hash]
    rfl
  · rw [inv.bestPath, hashesOf, List.length_map, inv.nBestHeight]
    omega
  · rw [CTxDB.readHashBestChain, CTxDB.read_eq_view, view_open, inv.tip.record]
    rfl

/-- Whatever blocks arrive, the index is a tree with the best chain marked in it, every record of
the tip names the same block, and the next block extends the chain by itself or not at all. -/
theorem bestChain_consistent (P : Primitives) (events : List Event) :
    BlockTree P (run P events).mapBlockIndex ∧ Threaded (run P events) ∧
    BestBlock P (run P events) ∧
    ∀ (now : Int) (block : CBlock),
      bestPath (processBlock P now (run P events) block).2 = bestPath (run P events) ∨
      bestPath (processBlock P now (run P events) block).2 =
        bestPath (run P events) ++ [P.getHash block] := by
  obtain ⟨chain, inv⟩ := exists_inv P events
  refine ⟨inv.rooted.blockTree, inv.threaded, inv.bestBlock, fun now block => ?_⟩
  rcases inv.receive (.block now block) with same | ⟨_, _, equal, _, grown⟩
  · left
    exact same.bestPath.trans inv.bestPath.symm
  · right
    cases equal
    rw [inv.bestPath]
    exact grown.bestPath.trans (by simp [hashesOf, placedAt])

end RitCoin.Proof
