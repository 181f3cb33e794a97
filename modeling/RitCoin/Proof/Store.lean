import RitCoin.Spec.Store

namespace RitCoin.Proof
open Lib Model Spec Std

section Refinement
variable {K V : Type} [Ord K] [TransOrd K]

def storeOf (db : CTxDB K V) : Store K V where
  map key := db.view[key]?
  saved := db.activeBatch.map fun _ key => db.pdb[key]?

theorem committed_storeOf (db : CTxDB K V) (key : K) : (storeOf db).committed key = db.pdb[key]? := by
  cases batch : db.activeBatch with
  | none => simp [storeOf, Store.committed, batch, CTxDB.view]
  | some ops => simp [storeOf, Store.committed, batch]

theorem perform_eq_error {db : CTxDB K V} {op : CTxDB.Op K V} {failure : Failure}
    (failed : db.perform op = .error failure) : failure = .stop .assertion := by
  cases op with
  | write | erase | txnAbort => cases failed
  | txnBegin =>
    rw [CTxDB.perform, CTxDB.txnBegin] at failed
    split at failed
    · cases failed
    · exact (Except.error.inj failed).symm
  | txnCommit =>
    rw [CTxDB.perform, CTxDB.txnCommit] at failed
    split at failed
    · exact (Except.error.inj failed).symm
    · cases failed

variable [LawfulEqOrd K] [DecidableEq K]

theorem storeOf_write (db : CTxDB K V) (key : K) (value : V) :
    storeOf (db.write key value) =
      { storeOf db with map := Function.update (storeOf db).map key (some value) } := by
  rw [storeOf, CTxDB.view_write, storeOf]
  congr 1
  · funext other
    rw [Function.update_apply, ExtTreeMap.getElem?_insert]
    exact if_congr (Std.compare_eq_iff_eq.trans eq_comm) rfl rfl
  · cases batch : db.activeBatch <;> simp [CTxDB.write, batch]

theorem storeOf_erase (db : CTxDB K V) (key : K) :
    storeOf (db.erase key) =
      { storeOf db with map := Function.update (storeOf db).map key none } := by
  rw [storeOf, CTxDB.view_erase, storeOf]
  congr 1
  · funext other
    rw [Function.update_apply, ExtTreeMap.getElem?_erase]
    exact if_congr (Std.compare_eq_iff_eq.trans eq_comm) rfl rfl
  · cases batch : db.activeBatch <;> simp [CTxDB.erase, batch]

theorem storeOf_perform (db : CTxDB K V) (op : CTxDB.Op K V) :
    (db.perform op).toOption.map storeOf = (storeOf db).perform op := by
  cases op with
  | write key value => exact congrArg some (storeOf_write db key value)
  | erase key => exact congrArg some (storeOf_erase db key)
  | txnBegin =>
    cases batch : db.activeBatch with
    | none =>
      simp [CTxDB.perform, CTxDB.txnBegin, Store.perform, storeOf, batch, Except.toOption, CTxDB.view]
    | some ops => simp [CTxDB.perform, CTxDB.txnBegin, Store.perform, storeOf, batch, Except.toOption]
  | txnCommit =>
    cases batch : db.activeBatch with
    | none => simp [CTxDB.perform, CTxDB.txnCommit, Store.perform, storeOf, batch, Except.toOption]
    | some ops =>
      simp [CTxDB.perform, CTxDB.txnCommit, Store.perform, storeOf, batch, Except.toOption, CTxDB.view]
  | txnAbort =>
    refine congrArg some ?_
    rw [storeOf, funext (committed_storeOf db)]
    rfl

theorem storeOf_foldlM (ops : List (CTxDB.Op K V)) : ∀ db : CTxDB K V,
    (ops.foldlM CTxDB.perform db).toOption.map storeOf = ops.foldlM Store.perform (storeOf db) := by
  induction ops with
  | nil => exact fun db => rfl
  | cons op ops ih =>
    intro db
    rw [List.foldlM_cons, List.foldlM_cons, ← storeOf_perform]
    cases step : db.perform op with
    | error failure => rfl
    | ok next => exact ih next

/-- Each read of a `CTxDB` object gives what the map holds, and what is in the database is what the
map will be rolled back to. The object fails an assertion where the map has no such operation. -/
theorem read_eq_map (store : ExtTreeMap K V) (ops : List (CTxDB.Op K V)) :
    (∀ s, ops.foldlM Store.perform ⟨(store[·]?), none⟩ = some s →
      ∃ db : CTxDB K V, ops.foldlM CTxDB.perform ⟨store, none⟩ = .ok db ∧
        (∀ key, db.read key = s.map key) ∧ ∀ key, db.pdb[key]? = s.committed key) ∧
    (ops.foldlM Store.perform ⟨(store[·]?), none⟩ = none →
      ops.foldlM CTxDB.perform (⟨store, none⟩ : CTxDB K V) = .error (.stop .assertion)) := by
  have simulates := storeOf_foldlM ops ⟨store, none⟩
  have start : storeOf ⟨store, none⟩ = ⟨(store[·]?), none⟩ := rfl
  rw [start] at simulates
  rw [← simulates]
  cases run : ops.foldlM CTxDB.perform ⟨store, none⟩ with
  | ok db =>
    refine ⟨?_, nofun⟩
    rintro _ ⟨⟩
    exact ⟨db, rfl, db.read_eq_view, fun key => (committed_storeOf db key).symm⟩
  | error failure =>
    refine ⟨nofun, fun _ => ?_⟩
    have fails : FailsWith (· = .stop .assertion) (ops.foldlM CTxDB.perform ⟨store, none⟩) :=
      .foldlM (fun _ _ _ => perform_eq_error) ops _
    rw [fails failure run]

end Refinement

theorem read_eq_map_rolledBack :
    let store : ExtTreeMap ℕ ℕ := (∅ : ExtTreeMap ℕ ℕ).insert 1 10
    let ops : List (CTxDB.Op ℕ ℕ) := [.txnBegin, .write 1 11, .erase 1, .write 2 20, .txnAbort, .erase 2]
    ∃ db : CTxDB ℕ ℕ, ops.foldlM CTxDB.perform ⟨store, none⟩ = .ok db ∧ db.read 1 = some 10 := by
  intro store ops
  obtain ⟨db, ran, reads, _⟩ := (read_eq_map store ops).1 _ rfl
  exact ⟨db, ran, reads 1⟩

section Exists
variable {K V : Type} [Ord K] [TransOrd K] [DecidableEq K]

def ErasesStored (db : CTxDB K V) (key : K) : Prop :=
  db.activeBatch.bind (CTxDB.scanBatch · key) = some none ∧ db.pdb.contains key = true

theorem keyExists_eq_scan (db : CTxDB K V) (key : K) :
    db.keyExists key =
      match db.activeBatch.bind (CTxDB.scanBatch · key) with
      | some (some _) => true
      | _ => db.pdb.contains key := by
  unfold CTxDB.keyExists
  cases db.activeBatch <;> rfl

theorem read_isSome_eq_scan (db : CTxDB K V) (key : K) :
    (db.read key).isSome =
      match db.activeBatch.bind (CTxDB.scanBatch · key) with
      | some value => value.isSome
      | none => db.pdb.contains key := by
  unfold CTxDB.read
  cases db.activeBatch with
  | none => exact ExtTreeMap.contains_eq_isSome_getElem?.symm
  | some batch =>
    simp only [Option.bind_some]
    cases scanned : CTxDB.scanBatch batch key with
    | none => exact ExtTreeMap.contains_eq_isSome_getElem?.symm
    | some value => rfl

theorem keyExists_eq_read_iff (db : CTxDB K V) (key : K) :
    db.keyExists key = (db.read key).isSome ↔ ¬ ErasesStored db key := by
  rw [keyExists_eq_scan, read_isSome_eq_scan, ErasesStored]
  cases db.activeBatch.bind (CTxDB.scanBatch · key) with
  | none => simp
  | some value => cases value <;> cases db.pdb.contains key <;> simp

end Exists

/-- `Exists` misses exactly the deletes in the open batch of keys that the store has. -/
theorem exists_eq_view_iff {K V : Type} [Ord K] [TransOrd K] [LawfulEqOrd K] [DecidableEq K]
    (db : CTxDB K V) (key : K) (txdb : TxDB) (hash : Uint256)
    (typed : ∀ value, txdb.read (.tx hash) = some value → value.txIndex?.isSome) :
    (db.keyExists key = db.view.contains key ↔ ¬ ErasesStored db key) ∧
    (txdb.containsTx hash = (txdb.readTxIndex hash).isSome ↔ ¬ ErasesStored txdb (.tx hash)) := by
  constructor
  · rw [ExtTreeMap.contains_eq_isSome_getElem?, ← db.read_eq_view]
    exact keyExists_eq_read_iff db key
  · have found : (txdb.readTxIndex hash).isSome = (txdb.read (.tx hash)).isSome := by
      unfold CTxDB.readTxIndex
      cases entry : txdb.read (.tx hash) with
      | none => rfl
      | some value => exact typed value entry
    rw [found]
    exact keyExists_eq_read_iff txdb (.tx hash)

def oneErased : TxDB :=
  ⟨(∅ : LevelDB).insert (.tx 7) (.txIndex ⟨none, []⟩),
    some [.delete (.tx 7), .put (.tx 8) (.txIndex ⟨none, []⟩)]⟩

theorem oneErased_written :
    oneErased.keyExists (.tx 8) = oneErased.view.contains (.tx 8) ∧
    oneErased.containsTx 8 = (oneErased.readTxIndex 8).isSome := by
  have kept : ¬ ErasesStored oneErased (.tx 8) := by
    rintro ⟨erased, _⟩
    exact absurd erased (by decide +kernel)
  have read : oneErased.read (.tx 8) = some (.txIndex ⟨none, []⟩) := by decide +kernel
  obtain ⟨exact_, contains⟩ := exists_eq_view_iff oneErased (.tx 8) oneErased 8 (by
    intro value found
    rw [read] at found
    cases found
    rfl)
  exact ⟨exact_.mpr kept, contains.mpr kept⟩

theorem oneErased_exists :
    oneErased.keyExists (.tx 7) = true ∧ oneErased.view.contains (.tx 7) = false ∧
    oneErased.containsTx 7 = true ∧ oneErased.readTxIndex 7 = none := by
  decide +kernel

end RitCoin.Proof
