import RitCoin.Proof.BestChain
import RitCoin.Spec.TxIndex

namespace RitCoin.Proof
open Lib Model Spec Std
variable {entry : Uint256 × CTxIndex} {id : Uint256} {q p : TxRef} {tx : CTransaction} {i : ℕ} {P : Primitives}
  {node : Node} {chain : List Placed} {events : List Event}

theorem txRecord?_eq_some {record : DbKey × DbValue} :
    txRecord? record = some entry ↔ record = (.tx entry.1, .txIndex entry.2) := by
  obtain ⟨key, value⟩ := record
  cases key <;> cases value <;> simp [txRecord?, Prod.ext_iff]

theorem mem_txIndexEntries {pdb : LevelDB} :
    entry ∈ txIndexEntries pdb ↔ pdb[DbKey.tx entry.1]? = some (.txIndex entry.2) := by
  simp only [txIndexEntries, List.mem_filterMap, txRecord?_eq_some, exists_eq_right,
    ExtTreeMap.mem_toList_iff_getElem?_eq_some]

theorem nodup_txIndexEntries (pdb : LevelDB) : ((txIndexEntries pdb).map Prod.fst).Nodup := by
  rw [List.Nodup, List.pairwise_map, txIndexEntries, List.pairwise_filterMap]
  refine (ExtTreeMap.distinct_keys_toList).imp ?_
  rintro record record' ne entry is entry' is' same
  rw [txRecord?_eq_some.mp is, txRecord?_eq_some.mp is', same] at ne
  exact ne (Std.compare_eq_iff_eq.mpr rfl)

section
variable (inv : Inv P events node chain)
include inv

theorem Inv.mem_txIndexEntries :
    entry ∈ txIndexEntries node.pdb ↔
      ∃ c, ledgerOf P (blocksOf chain) entry.1 = some c ∧ indexed chain c = entry.2 := by
  rw [Proof.mem_txIndexEntries, inv.txindex, Option.map_eq_some_iff]
  simp

theorem Inv.readTxIndex (hash : Uint256) :
    node.pdb.open.readTxIndex hash = (ledgerOf P (blocksOf chain) hash).map (indexed chain) := by
  rw [readTxIndex_eq_view, view_open, inv.txindex]
  cases ledgerOf P (blocksOf chain) hash <;> rfl

theorem Inv.readTx {c : Coin (form P) TxRef} (found : ledgerOf P (blocksOf chain) id = some c) :
    P.hashTx c.tx = id ∧ node.files.readTx (indexed chain c).pos = some c.tx := by
  obtain ⟨hash, placed, top, inVtx⟩ := standing_ledgerOf inv.valid id c found
  refine ⟨hash, ?_⟩
  simp only [indexed, diskPos_of_getElem? top]
  exact (inv.disk placed (List.mem_of_getElem? top)).readTx inVtx

theorem Inv.unspentValue {c : Coin (form P) TxRef} (found : ledgerOf P (blocksOf chain) id = some c) :
    unspentValue node.files (indexed chain c) = c.unspent := by
  rw [Spec.unspentValue, (inv.readTx found).2]
  simp only [indexed, Coin.unspent, form, List.zip_map_left, List.zip_map_right, List.map_map]
  congr 1
  apply List.map_congr_left
  rintro ⟨spent, txout⟩ _
  cases spent <;> rfl

theorem Inv.unspentTotal : unspentTotal node = (ledgerOf P (blocksOf chain)).total := by
  apply finsum_eq_sum_entries (nodup_txIndexEntries node.pdb)
  · intro entry member
    obtain ⟨c, found, same⟩ := inv.mem_txIndexEntries.mp member
    rw [← same, inv.unspentValue found, Coins.worth, found]
    rfl
  · intro id worth
    cases found : ledgerOf P (blocksOf chain) id with
    | none => exact absurd (by rw [Coins.worth, found]; rfl) worth
    | some c =>
      exact List.mem_map.mpr ⟨(id, indexed chain c), inv.mem_txIndexEntries.mpr ⟨c, found, rfl⟩, rfl⟩

end

/-- The supply entered for the tip is the value of the outputs the index has as unspent. -/
theorem nMoneySupply_eq_unspentTotal (P : Primitives) (events : List Event) :
    (∀ entry ∈ txIndexEntries (run P events).pdb, ∃ tx,
      (run P events).files.readTx entry.2.pos = some tx ∧ P.hashTx tx = entry.1 ∧
      entry.2.vSpent.length = tx.vout.length) ∧
    ∃ tip, (run P events).mapBlockIndex.deref (run P events).pindexBest = .ok tip ∧
      tip.nMoneySupply.toInt = unspentTotal (run P events) ∧
      0 ≤ tip.nMoneySupply ∧ tip.nMoneySupply ≤ MAX_MONEY := by
  obtain ⟨chain, inv⟩ := exists_inv P events
  constructor
  · intro entry member
    obtain ⟨c, found, same⟩ := inv.mem_txIndexEntries.mp member
    obtain ⟨hash, read⟩ := inv.readTx found
    rw [← same]
    exact ⟨c.tx, read, hash, indexed_length chain c⟩
  · obtain ⟨last, tip, _, _, lookup, _, _⟩ := inv.tip.best
    have supply := inv.supply tip lookup
    refine ⟨tip, by rw [inv.tip.pindexBest, BlockMap.deref, lookup],
      by rw [inv.unspentTotal, supply], ?_, ?_⟩
    · rw [Int64.le_iff_toInt_le, supply]
      exact inv.valid.total_nonneg
    · rw [Int64.le_iff_toInt_le, supply]
      exact inv.valid.total_le.2

theorem height_mono (le : p ≤ q) : p.height ≤ q.height := by
  by_contra lt
  exact le.not_gt (place_lt_place.mpr (.inl (Nat.not_le.mp lt)))

theorem le_of_height_zero (zero : p.height = 0) (pos : 0 < q.height) : p ≤ q := by
  have lower : p.height < q.height := zero ▸ pos
  exact (place_lt_place.mpr (.inl lower)).le

theorem mem_historyOf_blocksOf {e : TxRef × CTransaction} :
    e ∈ historyOf (blocksOf chain) ↔
      0 < e.1.height ∧ txAt (chain.map Placed.block) e.1 = some e.2 := by
  simp only [mem_historyOf, blocksOf_getElem?, txAt, List.getElem?_map, Option.bind_eq_some_iff]
  constructor
  · rintro ⟨k, block, height, found, inVtx⟩
    exact ⟨by omega, block, by rw [height]; exact found, inVtx⟩
  · rintro ⟨pos, block, found, inVtx⟩
    exact ⟨e.1.height - 1, block, by omega, by rw [Nat.sub_add_cancel pos]; exact found, inVtx⟩

theorem isCoinBase_of_height_zero {map : BlockMap} (path : Path P map chain) {ref : TxRef}
    (found : txAt (chain.map Placed.block) ref = some tx) (zero : ref.height = 0) : tx.isCoinBase = true := by
  rw [txAt, zero, List.getElem?_map, path.genesis] at found
  have inVtx : (genesisBlock P).vtx[ref.index]? = some tx := found
  obtain rfl : tx = genesisTx := List.mem_singleton.mp (List.mem_of_getElem? inVtx)
  rfl

theorem spendsAt_iff {map : BlockMap} (path : Path P map chain) {ref : TxRef} {o : Uint256 × ℕ} :
    SpendsAt (chain.map Placed.block) ref i o ↔
      ∃ tx, (ref, tx) ∈ historyOf (blocksOf chain) ∧ ((form P).spends tx)[i]? = some o := by
  constructor
  · rintro ⟨tx, txin, found, spending, input, rfl⟩
    have pos : 0 < ref.height := by
      by_contra zero
      rw [isCoinBase_of_height_zero path found (by omega)] at spending
      cases spending
    exact ⟨tx, mem_historyOf_blocksOf.mpr ⟨pos, found⟩, by simp [form_spends spending, input]⟩
  · rintro ⟨tx, member, spends⟩
    cases kind : tx.isCoinBase with
    | true => simp [form_spends_coinbase kind] at spends
    | false =>
      rw [form_spends kind, List.getElem?_map, Option.map_eq_some_iff] at spends
      obtain ⟨txin, input, same⟩ := spends
      exact ⟨tx, txin, (mem_historyOf_blocksOf.mp member).2, kind, input, same⟩

section
variable (inv : Inv P events node chain)
include inv

theorem Inv.exists_consumed {o : Uint256 × ℕ} (spends : SpendsAt (chain.map Placed.block) q i o) :
    ∃ p tx, ConsumedBy P (chain.map Placed.block) p tx o.2 q i ∧ P.hashTx tx = o.1 ∧
      0 < p.height := by
  obtain ⟨txq, member, at_i⟩ := (spendsAt_iff inv.path).mp spends
  obtain ⟨⟨p, tx⟩, consumes, bound⟩ :=
    inv.valid.applied.exists_consumes _ member o (List.mem_of_getElem? at_i)
  obtain ⟨pos, created⟩ := mem_historyOf_blocksOf.mp consumes.creator
  have id_eq : P.hashTx tx = o.1 := consumes.id_eq
  refine ⟨p, tx, ⟨created, by simpa [form] using bound, by rw [id_eq]; exact spends, consumes.before,
    ?_⟩, id_eq, pos⟩
  rintro p' ⟨tx', found, hash⟩ before
  rcases Nat.eq_zero_or_pos p'.height with zero | above
  · exact le_of_height_zero zero pos
  · exact consumes.last (p', tx') (mem_historyOf_blocksOf.mpr ⟨above, found⟩)
      (hash.trans id_eq) before

theorem Inv.consumes {n : ℕ} (consumed : ConsumedBy P (chain.map Placed.block) p tx n q i) :
    ∃ txq, ((form P).spends txq)[i]? = some (P.hashTx tx, n) ∧
      Coins.Consumes (form P) (historyOf (blocksOf chain)) (p, tx) (q, txq) (P.hashTx tx, n) := by
  obtain ⟨txq, member, at_i⟩ := (spendsAt_iff inv.path).mp consumed.spends
  obtain ⟨p', tx', other, hash, pos⟩ := inv.exists_consumed consumed.spends
  have above : 0 < p.height :=
    pos.trans_le (height_mono (consumed.last p' ⟨tx', other.created, hash⟩ other.before))
  refine ⟨txq, at_i, mem_historyOf_blocksOf.mpr ⟨above, consumed.created⟩, member, consumed.before,
    rfl, List.mem_of_getElem? at_i, ?_⟩
  intro e inHistory hash before
  exact consumed.last e.1 ⟨e.2, (mem_historyOf_blocksOf.mp inHistory).2, hash⟩ before

theorem Inv.consumed_unique {q' : TxRef} {n i' : ℕ} (first : ConsumedBy P (chain.map Placed.block) p tx n q i)
    (second : ConsumedBy P (chain.map Placed.block) p tx n q' i') : q = q' ∧ i = i' := by
  obtain ⟨txq, at_i, consumes⟩ := inv.consumes first
  obtain ⟨txq', at_i', consumes'⟩ := inv.consumes second
  cases inv.valid.applied.consumes_unique _ _ _ _ consumes consumes'
  refine ⟨rfl, ?_⟩
  have nodup := inv.valid.applied.nodup_spends _ consumes.spender
  exact (List.getElem?_inj (List.getElem?_eq_some_iff.mp at_i).1 nodup).mp (at_i.trans at_i'.symm)

theorem Inv.describes {c : Coin (form P) TxRef} (found : ledgerOf P (blocksOf chain) id = some c) :
    Describes P (chain.map Placed.block) id (indexed chain c) c.loc c.tx := by
  have records := inv.valid.applied.records id c found
  obtain ⟨pos, created⟩ := mem_historyOf_blocksOf.mp records.created
  refine ⟨created, records.id_eq, ?_, indexed_length chain c, ?_⟩
  · rintro p ⟨tx, foundTx, hash⟩
    rcases Nat.eq_zero_or_pos p.height with zero | above
    · exact le_of_height_zero zero pos
    · exact records.latest (p, tx) (mem_historyOf_blocksOf.mpr ⟨above, foundTx⟩) hash
  · intro n mark atN
    rw [indexed_getElem?, Option.map_eq_some_iff] at atN
    obtain ⟨spent, atN, rfl⟩ := atN
    constructor
    · intro marked
      cases spent with
      | none => exact absurd rfl marked
      | some q =>
        obtain ⟨tx, member, later, spends⟩ := records.spender n q atN
        obtain ⟨i, at_i⟩ := List.getElem?_of_mem spends
        exact ⟨q, i, later, (spendsAt_iff inv.path).mpr ⟨tx, member, at_i⟩⟩
    · rintro ⟨q, i, later, spends⟩
      obtain ⟨tx, member, at_i⟩ := (spendsAt_iff inv.path).mp spends
      rw [records.marked (q, tx) member n later (List.mem_of_getElem? at_i)] at atN
      cases atN
      simp

end

/-- On every best chain an output is consumed at most once, every input finds its output earlier in
the chain, and the index tells exactly which outputs are spent. -/
theorem bestBlocks_spending (P : Primitives) (events : List Event) :
    (∀ p tx n q i q' i', ConsumedBy P (bestBlocks (run P events)) p tx n q i →
      ConsumedBy P (bestBlocks (run P events)) p tx n q' i' → q = q' ∧ i = i') ∧
    (∀ q i o, SpendsAt (bestBlocks (run P events)) q i o →
      ∃ p tx, ConsumedBy P (bestBlocks (run P events)) p tx o.2 q i ∧ P.hashTx tx = o.1) ∧
    (∀ hash txindex, (run P events).pdb.open.readTxIndex hash = some txindex →
      ∃ p tx, Describes P (bestBlocks (run P events)) hash txindex p tx) ∧
    ∀ p tx, txAt (bestBlocks (run P events)) p = some tx → 1 ≤ p.height →
      ((run P events).pdb.open.readTxIndex (P.hashTx tx)).isSome := by
  obtain ⟨chain, inv⟩ := exists_inv P events
  rw [inv.bestBlocks]
  refine ⟨fun p tx n q i q' i' => inv.consumed_unique, ?_, ?_, ?_⟩
  · intro q i o spends
    obtain ⟨p, tx, consumed, hash, _⟩ := inv.exists_consumed spends
    exact ⟨p, tx, consumed, hash⟩
  · intro hash txindex found
    rw [inv.readTxIndex, Option.map_eq_some_iff] at found
    obtain ⟨c, found, rfl⟩ := found
    exact ⟨c.loc, c.tx, inv.describes found⟩
  · intro p tx found above
    rw [inv.readTxIndex, Option.isSome_map]
    exact inv.valid.applied.isSome (p, tx) (mem_historyOf_blocksOf.mpr ⟨above, found⟩)

end RitCoin.Proof
