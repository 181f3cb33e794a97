import RitCoin.Model.Chain

namespace RitCoin.Proof
open Lib Model Std

theorem readTxIndex_eq_view (db : TxDB) (hash : Uint256) :
    db.readTxIndex hash = (db.view[DbKey.tx hash]?).bind DbValue.txIndex? := by
  rw [CTxDB.readTxIndex, CTxDB.read_eq_view]

@[simp] theorem view_writeBlockIndex (P : Primitives) (db : TxDB) (d : CDiskBlockIndex) :
    (db.writeBlockIndex P d).view =
      db.view.insert (.blockindex (P.hashHeader d.header)) (.blockIndex d) :=
  CTxDB.view_write db _ _

@[simp] theorem view_updateTxIndex (db : TxDB) (hash : Uint256) (txindex : CTxIndex) :
    (db.updateTxIndex hash txindex).view = db.view.insert (.tx hash) (.txIndex txindex) :=
  CTxDB.view_write db _ _

@[simp] theorem view_writeHashBestChain (db : TxDB) (hash : Uint256) :
    (db.writeHashBestChain hash).view = db.view.insert .hashBestChain (.uint256 hash) :=
  CTxDB.view_write db _ _

theorem writeQueuedChanges_eq (txdb : TxDB) (queue : TxIndexMap) :
    writeQueuedChanges txdb queue =
      queue.toList.foldl (fun txdb item => txdb.updateTxIndex item.1 item.2) txdb :=
  ExtTreeMap.foldl_eq_foldl_toList

theorem view_updates_of_ne (items : List (Uint256 × CTxIndex)) :
    ∀ (txdb : TxDB) (key : DbKey), (∀ item ∈ items, key ≠ .tx item.1) →
      (items.foldl (fun txdb item => txdb.updateTxIndex item.1 item.2) txdb).view[key]? =
        txdb.view[key]? := by
  induction items with
  | nil => intro txdb key _; rfl
  | cons item items ih =>
    intro txdb key ne
    rw [List.foldl_cons, ih _ _ (fun item member => ne item (.tail _ member)), view_updateTxIndex,
      ExtTreeMap.getElem?_insert, if_neg]
    simpa using (ne item (.head _)).symm

theorem view_updates_of_mem (items : List (Uint256 × CTxIndex)) :
    ∀ (txdb : TxDB) (item : Uint256 × CTxIndex), (items.map Prod.fst).Nodup → item ∈ items →
      (items.foldl (fun txdb item => txdb.updateTxIndex item.1 item.2) txdb).view[DbKey.tx item.1]? =
        some (.txIndex item.2) := by
  induction items with
  | nil => intro txdb item _ member; cases member
  | cons first items ih =>
    intro txdb item nodup member
    obtain ⟨fresh, nodup⟩ := List.nodup_cons.mp nodup
    rcases List.mem_cons.mp member with rfl | member
    · rw [List.foldl_cons, view_updates_of_ne, view_updateTxIndex, ExtTreeMap.getElem?_insert_self]
      intro other member' eq
      exact fresh (DbKey.tx.inj eq ▸ List.mem_map_of_mem member')
    · exact ih _ item nodup member

theorem view_writeQueuedChanges (txdb : TxDB) (queue : TxIndexMap) (key : DbKey) :
    (writeQueuedChanges txdb queue).view[key]? =
      match key with
      | .tx hash => if queue.contains hash then queue[hash]?.map DbValue.txIndex else txdb.view[key]?
      | _ => txdb.view[key]? := by
  rw [writeQueuedChanges_eq]
  cases key with
  | tx hash =>
    cases found : queue[hash]? with
    | none =>
      have absent : queue.contains hash = false := by
        simp [ExtTreeMap.contains_eq_isSome_getElem?, found]
      rw [view_updates_of_ne]
      · simp [absent]
      · rintro item member eq
        cases eq
        rw [ExtTreeMap.mem_toList_iff_getElem?_eq_some] at member
        rw [found] at member
        cases member
    | some txindex =>
      have present : queue.contains hash = true := by
        simp [ExtTreeMap.contains_eq_isSome_getElem?, found]
      have nodup : (queue.toList.map Prod.fst).Nodup := by
        have := ExtTreeMap.nodup_keys (t := queue)
        rwa [← ExtTreeMap.map_fst_toList_eq_keys] at this
      have := view_updates_of_mem queue.toList txdb (hash, txindex) nodup
        (ExtTreeMap.mem_toList_iff_getElem?_eq_some.mpr found)
      rw [this]
      simp [present, found]
  | _ => exact view_updates_of_ne _ _ _ (by intro item _ eq; cases eq)

theorem updateTxIndex_isSome (items : List (Uint256 × CTxIndex)) :
    ∀ txdb : TxDB, (items.foldl (fun txdb item => txdb.updateTxIndex item.1 item.2) txdb).activeBatch.isSome =
      txdb.activeBatch.isSome := by
  induction items with
  | nil => intro txdb; rfl
  | cons item items ih => intro txdb; rw [List.foldl_cons, ih]; exact CTxDB.activeBatch_write_isSome _ _ _

theorem writeConnected_isSome (P : Primitives) (txdb : TxDB) (block : CBlock) (pindex : CBlockIndex)
    (parent : Option CBlockIndex) (queue : TxIndexMap) :
    (writeConnected P txdb block pindex parent queue).activeBatch.isSome =
      txdb.activeBatch.isSome := by
  have inner : (writeQueuedChanges (txdb.writeBlockIndex P (.ofIndex pindex)) queue).activeBatch.isSome =
      txdb.activeBatch.isSome := by
    rw [writeQueuedChanges_eq, updateTxIndex_isSome]
    exact CTxDB.activeBatch_write_isSome _ _ _
  cases parent with
  | none => exact inner
  | some parent =>
    rw [← inner]
    exact CTxDB.activeBatch_write_isSome _ _ _

end RitCoin.Proof
