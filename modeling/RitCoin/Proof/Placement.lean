import RitCoin.Proof.Disk
import RitCoin.Spec.ValidChain

namespace RitCoin.Proof
open Lib Model Spec
variable {full : List Placed} {height : ℕ} {txdb : TxDB}

structure Placed where
  nFile : ℕ
  nBlockPos : ℕ
  block : CBlock

def diskPos (full : List Placed) (ref : TxRef) : DiskPos :=
  match full[ref.height]? with
  | none => ⟨0, 0, 0⟩
  | some placed =>
    ⟨placed.nFile, placed.nBlockPos, placed.nBlockPos + placed.block.txOffset ref.index⟩

variable {P : Primitives}

def indexed (full : List Placed) (c : Coin (form P) TxRef) : CTxIndex :=
  ⟨some (diskPos full c.loc), c.spent.map (Option.map (diskPos full))⟩

theorem indexed_length (full : List Placed) (c : Coin (form P) TxRef) :
    (indexed full c).vSpent.length = c.tx.vout.length := by
  simpa [indexed, form] using c.sized

theorem indexed_getElem? (full : List Placed) (c : Coin (form P) TxRef) (n : ℕ) :
    (indexed full c).vSpent[n]? = c.spent[n]?.map (Option.map (diskPos full)) := by
  simp [indexed]

theorem indexed_new (full : List Placed) (loc : TxRef) (tx : CTransaction) :
    indexed full (Coin.new (form P) loc tx) = .new (diskPos full loc) tx.vout.length := by
  simp [indexed, Coin.new, CTxIndex.new, form]

theorem indexed_mark (full : List Placed) (c : Coin (form P) TxRef) (n : ℕ) (loc : TxRef) :
    indexed full (c.mark n loc) =
      { indexed full c with
        vSpent := (indexed full c).vSpent.set n (some (diskPos full loc)) } := by
  simp [indexed, List.map_set]

theorem indexed_fullySpent (full : List Placed) (c : Coin (form P) TxRef) :
    (indexed full c).vSpent.any Option.isNone = false ↔ c.FullySpent := by
  simp only [indexed, List.any_map, List.any_eq_false, Coin.FullySpent, Function.comp_apply,
    Option.isNone_map, Option.isNone_iff_eq_none]
  constructor
  · intro h member
    exact h none member rfl
  · rintro h s member rfl
    exact h member

theorem diskPos_of_getElem? {ref : TxRef} {placed : Placed} (found : full[ref.height]? = some placed) :
    diskPos full ref =
      ⟨placed.nFile, placed.nBlockPos, placed.nBlockPos + placed.block.txOffset ref.index⟩ := by
  simp [diskPos, found]

theorem diskPos_append {ref : TxRef} (bound : ref.height < full.length) (placed : Placed) :
    diskPos (full ++ [placed]) ref = diskPos full ref := by
  simp [diskPos, List.getElem?_append_left bound]

structure Stands (full : List Placed) (id : Uint256) (c : Coin (form P) TxRef) : Prop where
  hash : P.hashTx c.tx = id
  found : ∃ placed, full[c.loc.height]? = some placed ∧
    placed.block.vtx[c.loc.index]? = some c.tx

def Standing (full : List Placed) (coins : Ledger P) : Prop :=
  ∀ id c, coins id = some c → Stands full id c

theorem Standing.spendAll {coins : Ledger P} (standing : Standing full coins) (loc : TxRef)
    (outputs : List (Uint256 × ℕ)) : Standing full (coins.spendAll loc outputs) := by
  intro id c' h
  cases found : coins id with
  | none => rw [Coins.spendAll_none loc outputs coins id found] at h; cases h
  | some c =>
    obtain ⟨d, lookup, tx, place, _⟩ := Coins.spendAll_some loc outputs coins id c found
    rw [lookup] at h
    cases h
    have stands := standing id c found
    exact ⟨tx ▸ stands.hash, by rw [place, tx]; exact stands.found⟩

theorem Standing.apply {coins : Ledger P} (standing : Standing full coins) {i : ℕ} {tx : CTransaction}
    {placed : Placed} (top : full[height]? = some placed) (found : placed.block.vtx[i]? = some tx) :
    Standing full (coins.apply (place height i) tx) := by
  intro id c h
  by_cases same : id = P.hashTx tx
  · subst same
    have created := Coins.apply_self coins (place height i) tx
    change coins.apply (place height i) tx (P.hashTx tx) = _ at created
    rw [created] at h
    cases h
    exact ⟨rfl, placed, top, found⟩
  · rw [Coins.apply_of_ne coins (place height i) tx same] at h
    exact standing.spendAll _ _ id c h

/-- What `ConnectBlock` finds when it connects the last block of `full`, at `height`: the database
holds the ledger `start`, the files hold the blocks, and the entry of the block leads back along
the chain. -/
structure Backed (node : Node) (txdb : TxDB) (pindex : CBlockIndex) (full : List Placed)
    (height : ℕ) (start : Ledger P) : Prop where
  length : full.length = height + 1
  best : 0 ≤ node.nBestHeight
  lookup : ∀ id, txdb.readTxIndex id = (start id).map (indexed full)
  disk : ∀ placed ∈ full, Holds node.files.writes placed.nFile placed.nBlockPos placed.block
  immature : ∀ ref : TxRef, ref.height ≤ height →
    (CTransaction.coinbaseIsImmature node.mapBlockIndex pindex (some (diskPos full ref)) = true ↔
      (height : Int) < ref.height + nCoinbaseMaturity)

def Shows (txdb : TxDB) (full : List Placed) (queue : TxIndexMap) (coins : Ledger P) : Prop :=
  ∀ id, (if queue.contains id then queue[id]? else txdb.readTxIndex id) =
    (coins id).map (indexed full)

theorem Shows.start {node : Node} {pindex : CBlockIndex} {start : Ledger P}
    (backed : Backed node txdb pindex full height start) : Shows txdb full ∅ start := by
  intro id
  simp [backed.lookup id]

theorem Shows.insert {queue : TxIndexMap} {coins : Ledger P} (shows : Shows txdb full queue coins) (id : Uint256)
    (c : Coin (form P) TxRef) :
    Shows txdb full (queue.insert id (indexed full c)) (Function.update coins id (some c)) := by
  intro id'
  by_cases same : id' = id
  · subst same; simp
  · have other := shows id'
    have apart : id ≠ id' := fun h => same h.symm
    simpa [same, apart, Std.ExtTreeMap.getElem?_insert, Std.ExtTreeMap.contains_insert] using other

theorem Backed.readTx {node : Node} {pindex : CBlockIndex} {start : Ledger P}
    (backed : Backed node txdb pindex full height start) {id : Uint256} {c : Coin (form P) TxRef}
    (stands : Stands full id c) :
    node.files.readTx (some (diskPos full c.loc)) = some c.tx ∧
      (indexed full c).pos ≠ some ⟨1, 1, 1⟩ ∧ c.loc.height ≤ height := by
  obtain ⟨placed, top, found⟩ := stands.found
  have holds := backed.disk placed (List.mem_of_getElem? top)
  have bound := (List.getElem?_eq_some_iff.mp top).1
  have length := backed.length
  refine ⟨?_, ?_, by omega⟩
  · rw [diskPos_of_getElem? top]
    exact holds.readTx found
  · obtain ⟨_, _, _, pos⟩ := holds
    simp only [indexed, diskPos_of_getElem? top, ne_eq, Option.some.injEq, DiskPos.mk.injEq]
    omega

end RitCoin.Proof
