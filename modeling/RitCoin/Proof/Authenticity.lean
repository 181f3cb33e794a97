import RitCoin.Proof.BestChain

namespace RitCoin.Proof
open Lib Model Spec Std

variable {P : Primitives} {node : Node} {block : CBlock} {chain : List Placed} {events : List Event}

structure Authentic (P : Primitives) (block : CBlock) : Prop where
  size : 512 ≤ block.authenticity.length
  recovered : P.rsaPublicDecrypt block.authenticity.length (block.authenticity.take 512) =
    some block.integrity
  digest : block.integrity = P.sha512 (hexString (P.getHash block) ++
    hexString block.hashPrevBlock ++ hexString block.hashMerkleRoot)

theorem authentic_of_checkAuthenticity (ok : block.checkAuthenticity P = .ok ()) :
    Authentic P block := by
  rw [CBlock.checkAuthenticity, seq_eq_ok, failIf_eq_ok, Nat.not_lt] at ok
  obtain ⟨size, ok⟩ := ok
  cases recovered : P.rsaPublicDecrypt block.authenticity.length (block.authenticity.take 512) with
  | none =>
    rw [recovered] at ok
    cases ok
  | some hash =>
    simp only [recovered, seq_eq_ok, failIf_eq_ok, ne_eq, not_not] at ok
    obtain ⟨rfl, digest⟩ := ok
    exact ⟨size, recovered, digest.symm⟩

/-- Every block of the best chain from height 2 on was received with a signature that verifies. -/
theorem bestBlocks_authentic (P : Primitives) (events : List Event) (i : ℕ) (block : CBlock)
    (high : 2 ≤ i) (found : (bestBlocks (run P events))[i]? = some block) :
    (∃ now, Event.block now block ∈ events) ∧ Authentic P block := by
  obtain ⟨chain, inv⟩ := exists_inv P events
  rw [inv.bestBlocks, List.getElem?_map, Option.map_eq_some_iff] at found
  obtain ⟨placed, found, rfl⟩ := found
  obtain ⟨k, rfl⟩ : ∃ k, i = k + 1 := ⟨i - 1, by omega⟩
  obtain ⟨⟨now, received, _⟩, authentic⟩ := inv.entered k placed found
  obtain ⟨parent, foundParent⟩ := exists_below found
  -- neither the block nor its parent is genesis, so it was not exempt
  have self : P.getHash placed.block ≠ hashGenesisBlock P := fun same =>
    absurd (inv.path.hashGenesis found same) (by omega)
  have prev : placed.block.hashPrevBlock ≠ hashGenesisBlock P := fun same =>
    absurd (inv.path.hashGenesis foundParent (inv.path.link k _ _ foundParent found ▸ same)) (by omega)
  exact ⟨⟨now, received⟩, authentic_of_checkAuthenticity (authentic self prev)⟩

def firstBlock : CBlock := toyBlock (hashGenesisBlock toy) 30 0 0

def secondBlock : CBlock := toyBlock (toy.getHash firstBlock) 60 0 1

def thirdBlock : CBlock := toyBlock (toy.getHash secondBlock) 90 0 1

theorem bestBlocks_authentic_second :
    (bestBlocks (run toy [.block toyNow firstBlock, .block toyNow secondBlock]))[2]? =
        some secondBlock ∧
      Authentic toy secondBlock := by
  have found : (bestBlocks (run toy [.block toyNow firstBlock, .block toyNow secondBlock]))[2]? =
      some secondBlock := by decide +kernel
  exact ⟨found, (bestBlocks_authentic toy _ 2 secondBlock le_rfl found).2⟩

/-- A block without a good signature changes nothing, unless its parent is genesis. -/
theorem unauthentic_ignored (P : Primitives) (events : List Event) (now : Int) (block : CBlock)
    (unsigned : ¬ Authentic P block) (prev : block.hashPrevBlock ≠ hashGenesisBlock P) :
    (processBlock P now (run P events) block).2 = run P events := by
  obtain ⟨chain, inv⟩ := exists_inv P events
  have effect := inv.effect now block
  have refused : ∀ pindexPrev, ¬ Admission P now (run P events) block pindexPrev := by
    intro pindexPrev admission
    refine unsigned (authentic_of_checkAuthenticity (admission.authentic ?_ prev))
    intro same
    obtain ⟨e, root, _⟩ := inv.rooted.root
    have fresh := admission.fresh
    rw [same, root] at fresh
    cases fresh
  generalize processBlock P now (run P events) block = step at effect
  cases effect with
  | rejected => rfl
  | orphan => rfl
  | side admission => exact absurd admission (refused _)
  | apart _ admission => exact absurd admission (refused _)
  | failed _ _ admission => exact absurd admission (refused _)
  | connected admission => exact absurd admission (refused _)

def unsignedChild : CBlock := toyBlock (toy.getHash firstBlock) 60 0 0

theorem unauthentic_ignored_child :
    1 ≤ (run toy [.block toyNow firstBlock]).nBestHeight ∧
      (processBlock toy toyNow (run toy [.block toyNow firstBlock]) unsignedChild).2 =
        run toy [.block toyNow firstBlock] := by
  refine ⟨by decide +kernel, ?_⟩
  apply unauthentic_ignored
  · intro authentic
    exact absurd authentic.recovered (by decide +kernel)
  · decide +kernel

def unsignedSibling : CBlock := toyBlock (hashGenesisBlock toy) 30 1 0

theorem unsignedSibling_stored :
    let node := run toy [.block toyNow firstBlock]
    let after := (processBlock toy toyNow node unsignedSibling).2
    let hash := toy.getHash unsignedSibling
    1 ≤ node.nBestHeight ∧ ¬ Authentic toy unsignedSibling ∧
    node.mapBlockIndex[hash]? = none ∧ after.mapBlockIndex[hash]?.isSome ∧
    node.pdb[DbKey.blockindex hash]? = none ∧ after.pdb[DbKey.blockindex hash]?.isSome ∧
    after.files.writes = (1, unsignedSibling) :: node.files.writes := by
  refine ⟨by decide +kernel, ?_, by decide +kernel⟩
  intro authentic
  exact absurd authentic.recovered (by decide +kernel)

end RitCoin.Proof
