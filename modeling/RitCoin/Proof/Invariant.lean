import RitCoin.Proof.ConnectBlock
import RitCoin.Proof.Tree

namespace RitCoin.Proof
open Lib Model Spec Std
variable {i : ℕ} {map : BlockMap} {p q last : Placed} {P : Primitives} {now : Int} {node : Node} {block : CBlock}
  {pindexPrev : CBlockIndex} {chain : List Placed} {events : List Event}

def blocksOf (chain : List Placed) : List CBlock := chain.tail.map Placed.block

structure Tip (P : Primitives) (node : Node) (chain : List Placed) : Prop where
  best : ∃ last e, chain.getLast? = some last ∧ node.hashBestChain = P.getHash last.block ∧
    node.mapBlockIndex[node.hashBestChain]? = some e ∧ node.nBestHeight = e.nHeight ∧
    node.bnBestChainTrust = e.bnChainTrust
  pindexBest : node.pindexBest = some node.hashBestChain
  genesis : node.pindexGenesisBlock = some (hashGenesisBlock P)
  record : node.pdb[DbKey.hashBestChain]? = some (.uint256 node.hashBestChain)

def Adjacent (P : Primitives) (chain : List Placed) (h h' : Uint256) : Prop :=
  ∃ i p q, chain[i]? = some p ∧ chain[i + 1]? = some q ∧ P.getHash p.block = h ∧
    P.getHash q.block = h'

structure Entered (P : Primitives) (events : List Event) (block : CBlock) : Prop where
  received : ∃ now, Event.block now block ∈ events ∧ block.Checked P now
  authentic : P.getHash block ≠ hashGenesisBlock P → block.hashPrevBlock ≠ hashGenesisBlock P →
    block.checkAuthenticity P = .ok ()

structure Inv (P : Primitives) (events : List Event) (node : Node) (chain : List Placed) : Prop where
  rooted : Rooted P node.mapBlockIndex
  path : Path P node.mapBlockIndex chain
  pnext : ∀ (h : Uint256) (e : CBlockIndex), node.mapBlockIndex[h]? = some e → ∀ h',
    (e.pnext = some h' ↔ Adjacent P chain h h')
  tip : Tip P node chain
  blockindex : ∀ h, node.pdb[DbKey.blockindex h]? =
    (node.mapBlockIndex[h]?).map fun e => .blockIndex (.ofIndex e)
  txindex : ∀ id, node.pdb[DbKey.tx id]? =
    (ledgerOf P (blocksOf chain) id).map fun c => .txIndex (indexed chain c)
  disk : ∀ placed ∈ chain, Holds node.files.writes placed.nFile placed.nBlockPos placed.block
  filed : ∀ (h : Uint256) (e : CBlockIndex), node.mapBlockIndex[h]? = some e →
    ∃ block, Holds node.files.writes e.nFile e.nBlockPos block ∧
      block.toCBlockHeader = (CDiskBlockIndex.ofIndex e).header
  valid : ValidChain P (blocksOf chain)
  supply : ∀ e, node.mapBlockIndex[node.hashBestChain]? = some e →
    e.nMoneySupply.toInt = (ledgerOf P (blocksOf chain)).total
  entered : ∀ i placed, chain[i + 1]? = some placed → Entered P events placed.block

theorem Path.length_pos (path : Path P node.mapBlockIndex chain) : 0 < chain.length :=
  (List.getElem?_eq_some_iff.mp path.genesis).1

theorem length_blocksOf (path : Path P node.mapBlockIndex chain) :
    chain.length = (blocksOf chain).length + 1 := by
  have := path.length_pos
  simp only [blocksOf, List.length_map, List.length_tail]
  omega

theorem blocksOf_getElem? (chain : List Placed) (k : ℕ) :
    (blocksOf chain)[k]? = chain[k + 1]?.map Placed.block := by
  simp [blocksOf, List.getElem?_tail]

theorem blocksOf_append (path : Path P node.mapBlockIndex chain) (placed : Placed) :
    blocksOf (chain ++ [placed]) = blocksOf chain ++ [placed.block] := by
  cases chain with
  | nil => exact absurd path.length_pos (by simp)
  | cons p chain => simp [blocksOf]

theorem Path.index_unique (path : Path P map chain) {j : ℕ} (hi : chain[i]? = some p) (hj : chain[j]? = some q)
    (same : P.getHash p.block = P.getHash q.block) : i = j := by
  obtain ⟨e, found, is⟩ := path.entry i p hi
  obtain ⟨e', found', is'⟩ := path.entry j q hj
  rw [same, found'] at found
  cases found
  have := is.height
  rw [is'.height] at this
  exact_mod_cast this.symm

theorem Path.hashGenesis (path : Path P map chain) (hi : chain[i]? = some p)
    (same : P.getHash p.block = hashGenesisBlock P) : i = 0 :=
  path.index_unique hi path.genesis same

theorem exists_below (found : chain[i + 1]? = some q) : ∃ p, chain[i]? = some p := by
  have := (List.getElem?_eq_some_iff.mp found).1
  exact ⟨_, List.getElem?_eq_getElem (by omega)⟩

theorem getLast?_eq_some_iff :
    chain.getLast? = some last ↔ 0 < chain.length ∧ chain[chain.length - 1]? = some last := by
  rw [List.getLast?_eq_getElem?]
  constructor
  · intro h
    have := (List.getElem?_eq_some_iff.mp h).1
    exact ⟨by omega, h⟩
  · exact And.right

section
variable (inv : Inv P events node chain)
include inv

theorem Inv.tip_at :
    ∃ last, 0 < chain.length ∧ chain[chain.length - 1]? = some last ∧
      node.hashBestChain = P.getHash last.block := by
  obtain ⟨last, _, top, hash, _⟩ := inv.tip.best
  obtain ⟨positive, atEnd⟩ := getLast?_eq_some_iff.mp top
  exact ⟨last, positive, atEnd, hash⟩

theorem Inv.best :
    ∃ tip, node.mapBlockIndex[node.hashBestChain]? = some tip ∧
      node.mapBlockIndex.deref node.pindexBest = .ok tip ∧ node.nBestHeight = tip.nHeight := by
  obtain ⟨_, tip, _, _, lookup, height, _⟩ := inv.tip.best
  exact ⟨tip, lookup, by rw [inv.tip.pindexBest, BlockMap.deref, lookup], height⟩

theorem Inv.tip_height {e : CBlockIndex} (lookup : node.mapBlockIndex[node.hashBestChain]? = some e) :
    e.nHeight = (chain.length - 1 : ℕ) := by
  obtain ⟨last, _, atEnd, hash⟩ := inv.tip_at
  obtain ⟨e', lookup', is⟩ := inv.path.entry _ last atEnd
  rw [← hash, lookup] at lookup'
  cases lookup'
  exact is.height

theorem Inv.nBestHeight : node.nBestHeight = (chain.length - 1 : ℕ) := by
  obtain ⟨tip, lookup, _, height⟩ := inv.best
  rw [height, inv.tip_height lookup]

end

theorem adjacent_append (top : chain.getLast? = some last) (placed : Placed) {h h' : Uint256} :
    Adjacent P (chain ++ [placed]) h h' ↔
      Adjacent P chain h h' ∨ (P.getHash last.block = h ∧ P.getHash placed.block = h') := by
  obtain ⟨pos, atEnd⟩ := getLast?_eq_some_iff.mp top
  constructor
  · rintro ⟨i, p, q, hp, hq, rfl, rfl⟩
    have bound := (List.getElem?_eq_some_iff.mp hq).1
    simp only [List.length_append, List.length_singleton] at bound
    rw [List.getElem?_append_left (by omega)] at hp
    rcases Nat.lt_or_ge (i + 1) chain.length with low | high
    · rw [List.getElem?_append_left low] at hq
      exact .inl ⟨i, p, q, hp, hq, rfl, rfl⟩
    · obtain rfl : i = chain.length - 1 := by omega
      rw [List.getElem?_append_right high] at hq
      have zero : chain.length - 1 + 1 - chain.length = 0 := by omega
      rw [zero, List.getElem?_cons_zero] at hq
      rw [atEnd] at hp
      cases hp
      cases hq
      exact .inr ⟨rfl, rfl⟩
  · rintro (⟨i, p, q, hp, hq, rfl, rfl⟩ | ⟨rfl, rfl⟩)
    · have := (List.getElem?_eq_some_iff.mp hq).1
      exact ⟨i, p, q, by rw [List.getElem?_append_left (by omega)]; exact hp,
        by rw [List.getElem?_append_left this]; exact hq, rfl, rfl⟩
    · refine ⟨chain.length - 1, last, placed, ?_, ?_, rfl, rfl⟩
      · rw [List.getElem?_append_left (by omega)]
        exact atEnd
      · rw [Nat.sub_add_cancel pos]
        simp

theorem standing_ledgerOf (valid : ValidChain P (blocksOf chain)) : Standing chain (ledgerOf P (blocksOf chain)) := by
  intro id c found
  have records := valid.applied.records id c found
  obtain ⟨k, block, height, atK, inVtx⟩ := mem_historyOf.mp records.created
  rw [blocksOf_getElem?, Option.map_eq_some_iff] at atK
  obtain ⟨placed, atK, rfl⟩ := atK
  exact ⟨records.id_eq, placed, by rw [height]; exact atK, inVtx⟩

theorem Standing.append {coins : Ledger P} (standing : Standing chain coins) (placed : Placed) :
    Standing (chain ++ [placed]) coins := by
  intro id c found
  obtain ⟨hash, p, top, inVtx⟩ := standing id c found
  have bound := (List.getElem?_eq_some_iff.mp top).1
  exact ⟨hash, p, by rw [List.getElem?_append_left bound]; exact top, inVtx⟩

theorem indexed_append (path : Path P node.mapBlockIndex chain)
    (valid : ValidChain P (blocksOf chain)) (placed : Placed) {id : Uint256}
    {c : Coin (form P) TxRef} (found : ledgerOf P (blocksOf chain) id = some c) :
    indexed (chain ++ [placed]) c = indexed chain c := by
  have length := length_blocksOf path
  have bound : ∀ e ∈ historyOf (blocksOf chain), e.1.height < chain.length := by
    intro e member
    obtain ⟨k, block, height, atK, _⟩ := mem_historyOf.mp member
    have := (List.getElem?_eq_some_iff.mp atK).1
    omega
  have records := valid.applied.records id c found
  have place := diskPos_append (bound _ records.created) placed
  have marks : ∀ s ∈ c.spent, Option.map (diskPos (chain ++ [placed])) s =
      Option.map (diskPos chain) s := by
    intro s member
    cases s with
    | none => rfl
    | some q =>
      obtain ⟨n, atN⟩ := List.getElem?_of_mem member
      obtain ⟨tx, spender, _⟩ := records.spender n q atN
      simp [diskPos_append (bound _ spender) placed]
  simp only [indexed, place, List.map_congr_left marks]

end RitCoin.Proof
