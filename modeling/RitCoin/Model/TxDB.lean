import RitCoin.Lib.Batch
import RitCoin.Model.Types

/-!
# The transaction database

`CTxDB` of `txdb-leveldb.h` over an ordered map, and the typed records of `txdb-leveldb.cpp`.
A `CTxDB` object is the store and the batch that is open on it.
-/

namespace RitCoin.Model
open Lib Std

structure CTxDB (K V : Type) [Ord K] [TransOrd K] where
  pdb : ExtTreeMap K V
  activeBatch : Option (List (BatchOp K V))

namespace CTxDB
variable {K V : Type} [Ord K] [TransOrd K]

def scanBatch [DecidableEq K] (batch : List (BatchOp K V)) (key : K) : Option (Option V) :=
  scanOps key batch

def read [DecidableEq K] (db : CTxDB K V) (key : K) : Option V :=
  match db.activeBatch with
  | none => db.pdb[key]?
  | some batch =>
    match scanBatch batch key with
    | some value => value
    | none => db.pdb[key]?

/-- `Exists`: a key that the batch deletes is looked up in the store all the same. -/
def keyExists [DecidableEq K] (db : CTxDB K V) (key : K) : Bool :=
  match db.activeBatch with
  | none => db.pdb.contains key
  | some batch =>
    match scanBatch batch key with
    | some (some _) => true
    | _ => db.pdb.contains key

def write (db : CTxDB K V) (key : K) (value : V) : CTxDB K V :=
  match db.activeBatch with
  | none => { db with pdb := db.pdb.insert key value }
  | some batch => { db with activeBatch := some (batch ++ [.put key value]) }

def erase (db : CTxDB K V) (key : K) : CTxDB K V :=
  match db.activeBatch with
  | none => { db with pdb := db.pdb.erase key }
  | some batch => { db with activeBatch := some (batch ++ [.delete key]) }

def txnBegin (db : CTxDB K V) : Check (CTxDB K V) :=
  match db.activeBatch with
  | none => .ok { db with activeBatch := some [] }
  | some _ => .error (.stop .assertion)

def txnCommit (db : CTxDB K V) : Check (CTxDB K V) :=
  match db.activeBatch with
  | none => .error (.stop .assertion)
  | some batch => .ok ⟨replayBatch db.pdb batch, none⟩

def txnAbort (db : CTxDB K V) : CTxDB K V := { db with activeBatch := none }

inductive Op (K V : Type) where
  | write (key : K) (value : V)
  | erase (key : K)
  | txnBegin
  | txnCommit
  | txnAbort

def perform (db : CTxDB K V) : Op K V → Check (CTxDB K V)
  | .write key value => pure (db.write key value)
  | .erase key => pure (db.erase key)
  | .txnBegin => db.txnBegin
  | .txnCommit => db.txnCommit
  | .txnAbort => pure db.txnAbort

def view (db : CTxDB K V) : ExtTreeMap K V := replayBatch db.pdb (db.activeBatch.getD [])

theorem read_eq_view [LawfulEqOrd K] [DecidableEq K] (db : CTxDB K V) (key : K) :
    db.read key = db.view[key]? := by
  unfold read view
  cases batch : db.activeBatch with
  | none => rfl
  | some ops =>
    simp only [Option.getD_some, getElem?_replayBatch, scanBatch]
    cases scanOps key ops <;> rfl

@[simp] theorem view_write (db : CTxDB K V) (key : K) (value : V) :
    (db.write key value).view = db.view.insert key value := by
  unfold write view
  cases batch : db.activeBatch with
  | none => rfl
  | some ops => simp [replayBatch, BatchOp.replay]

@[simp] theorem view_erase (db : CTxDB K V) (key : K) : (db.erase key).view = db.view.erase key := by
  unfold erase view
  cases batch : db.activeBatch with
  | none => rfl
  | some ops => simp [replayBatch, BatchOp.replay]

@[simp] theorem activeBatch_write_isSome (db : CTxDB K V) (key : K) (value : V) :
    (db.write key value).activeBatch.isSome = db.activeBatch.isSome := by
  unfold write
  cases db.activeBatch <;> rfl

theorem txnCommit_of_open {db : CTxDB K V} (batch : db.activeBatch.isSome) :
    db.txnCommit = .ok ⟨db.view, none⟩ := by
  obtain ⟨ops, h⟩ := Option.isSome_iff_exists.mp batch
  simp [txnCommit, view, h]

end CTxDB

inductive DbKey
  | tx (hash : Uint256)
  | blockindex (hash : Uint256)
  | hashBestChain
  | bnBestInvalidTrust
deriving DecidableEq, Repr

namespace DbKey

/-- The first byte of a key is the length of its name, which tells the kinds apart. -/
def nameLength : DbKey → Nat
  | tx _ => 2
  | blockindex _ => 10
  | hashBestChain => 13
  | bnBestInvalidTrust => 18

def hashPart : DbKey → Uint256
  | tx hash | blockindex hash => hash
  | _ => 0

instance : Ord DbKey := ⟨compareLex (compareOn nameLength) (compareOn hashPart)⟩

instance : TransOrd DbKey :=
  inferInstanceAs (TransCmp (compareLex (compareOn nameLength) (compareOn hashPart)))

theorem eq_of_parts {a b : DbKey} (name : a.nameLength = b.nameLength)
    (hash : a.hashPart = b.hashPart) : a = b := by
  cases a <;> cases b <;> simp_all [nameLength, hashPart]

instance : LawfulEqOrd DbKey where
  eq_of_compare {a b} h := by
    change compareLex (compareOn nameLength) (compareOn hashPart) a b = .eq at h
    rw [compareLex_eq_eq] at h
    exact eq_of_parts (Std.compare_eq_iff_eq.mp h.1) (Std.compare_eq_iff_eq.mp h.2)

end DbKey

inductive DbValue
  | txIndex (txindex : CTxIndex)
  | blockIndex (diskindex : CDiskBlockIndex)
  | uint256 (hash : Uint256)
  | bigNum (bn : Int)
deriving DecidableEq, Repr

abbrev LevelDB := ExtTreeMap DbKey DbValue

abbrev TxDB := CTxDB DbKey DbValue

def LevelDB.open (pdb : LevelDB) : TxDB := ⟨pdb, none⟩

def DbValue.txIndex? : DbValue → Option CTxIndex
  | .txIndex txindex => some txindex
  | _ => none

def DbValue.uint256? : DbValue → Option Uint256
  | .uint256 hash => some hash
  | _ => none

namespace CTxDB

def readTxIndex (db : TxDB) (hash : Uint256) : Option CTxIndex :=
  (db.read (.tx hash)).bind DbValue.txIndex?

def containsTx (db : TxDB) (hash : Uint256) : Bool := db.keyExists (.tx hash)

def updateTxIndex (db : TxDB) (hash : Uint256) (txindex : CTxIndex) : TxDB :=
  db.write (.tx hash) (.txIndex txindex)

def writeBlockIndex (P : Primitives) (db : TxDB) (diskindex : CDiskBlockIndex) : TxDB :=
  db.write (.blockindex (P.hashHeader diskindex.header)) (.blockIndex diskindex)

def readHashBestChain (db : TxDB) : Option Uint256 :=
  (db.read .hashBestChain).bind DbValue.uint256?

def writeHashBestChain (db : TxDB) (hash : Uint256) : TxDB :=
  db.write .hashBestChain (.uint256 hash)

def writeBestInvalidTrust (db : TxDB) (bn : Int) : TxDB :=
  db.write .bnBestInvalidTrust (.bigNum bn)

end CTxDB

end RitCoin.Model
