import RitCoin.Model.WalletTx

/-!
# Wallet transactions in the wallet file

The templates of `serialize.h` for strings, pairs and maps, and the records of wallet transactions.
-/

namespace RitCoin.Model
open Lib

def CMerkleTx.serialize (tx : CMerkleTx) : List UInt8 :=
  tx.toCTransaction.serialize ++ (leBytes 32 tx.hashBlock.toNat ++
    (serializeVector (fun hash => leBytes 32 hash.toNat) tx.vMerkleBranch ++
      leBytes 4 (Int32.ofInt tx.nIndex).toUInt32.toNat))

def CMerkleTx.getSerializeSize32 (tx : CMerkleTx) : UInt32 :=
  tx.toCTransaction.getSerializeSize32 + 32 + vectorSize32 (fun _ => 32) tx.vMerkleBranch + 4

structure WalletLayout extends Layout where
  uint256 : ElementSize
  merkleTx : ElementSize
  stringPair : ElementSize

namespace Wallet
open Std

def serializePair (item : CString × CString) : List UInt8 := serializeBytes item.1 ++ serializeBytes item.2

def pairSize32 (item : CString × CString) : UInt32 := bytesSize32 item.1 + bytesSize32 item.2

def serializeMap (m : ExtTreeMap CString CString) : List UInt8 :=
  writeCompactSize m.size ++ m.toList.flatMap serializePair

def mapSize32 (m : ExtTreeMap CString CString) : UInt32 :=
  m.toList.foldl (fun nSize item => nSize + pairSize32 item) (UInt32.ofNat (getSizeOfCompactSize m.size))

end Wallet

section Reading
open Wallet Std
variable {σ : Type} (read : Nat → StateT σ Check (List UInt8))

/-- A string is read at once, not in parts as a vector of bytes is. -/
def unserializeString : StateT σ Check CString := do
  let nSize ← readCompactSize read
  if nSize ≠ 0 then read nSize else pure []

def unserializePair : StateT σ Check (CString × CString) := do
  let first ← unserializeString read
  let second ← unserializeString read
  pure (first, second)

/-- `insert` of a map does not replace an entry. -/
def unserializeMap : StateT σ Check (ExtTreeMap CString CString) := do
  let nSize ← readCompactSize read
  let items ← many (unserializePair read) nSize
  pure (items.foldl (fun m item => m.insertIfNew item.1 item.2) ∅)

variable (layout : WalletLayout)

/-- `fMerkleVerified` is not in the file, so the object that is read into keeps its own. -/
def CMerkleTx.unserialize (fMerkleVerified : Bool) : StateT σ Check CMerkleTx := do
  let tx ← CTransaction.unserialize read layout.toLayout
  let hashBlock ← readNumber read 32
  let vMerkleBranch ← unserializeVector read (do
    let hash ← readNumber read 32
    pure (BitVec.ofNat 256 hash)) layout.uint256
  let nIndex ← readNumber read 4
  pure ⟨tx, BitVec.ofNat 256 hashBlock, vMerkleBranch, (UInt32.ofNat nIndex).toInt32.toInt, fMerkleVerified⟩

end Reading

namespace Wallet
open Std

namespace CWalletTx

def putReserved (wtx : CWalletTx) : CWalletTx :=
  { wtx with
    mapValue := (wtx.mapValue.insert (ascii "fromaccount") wtx.strFromAccount).insert (ascii "spent")
      (wtx.vfSpent.map fun f => if f then 0x31 else 0x30) }

def eraseReserved (wtx : CWalletTx) : CWalletTx :=
  { wtx with
    mapValue := ((wtx.mapValue.erase (ascii "fromaccount")).erase (ascii "version")).erase (ascii "spent") }

/-- The statements of `IMPLEMENT_SERIALIZE` where nothing is read: `action` takes the members one after
the other, and the object is left as the second part says. -/
def serReadWrite {α : Type} (action : CWalletTx → UInt8 → α) (wtx : CWalletTx) : α × CWalletTx :=
  let fSpent : UInt8 := if wtx.vfSpent.any id then 1 else 0
  let wtx := wtx.putReserved
  (action wtx fSpent, wtx.eraseReserved)

def serialize (wtx : CWalletTx) : List UInt8 × CWalletTx :=
  wtx.serReadWrite fun wtx fSpent =>
    wtx.toCMerkleTx.serialize ++ (serializeVector CMerkleTx.serialize wtx.vtxPrev ++
      (serializeMap wtx.mapValue ++ (serializeVector serializePair wtx.vOrderForm ++
        (leBytes 4 wtx.fTimeReceivedIsTxTime.toNat ++ (leBytes 4 wtx.nTimeReceived.toNat ++
          (leBytes 1 wtx.fFromMe.toNat ++ leBytes 1 fSpent.toNat))))))

def getSerializeSize32 (wtx : CWalletTx) : UInt32 × CWalletTx :=
  wtx.serReadWrite fun wtx _ =>
    wtx.toCMerkleTx.getSerializeSize32 + vectorSize32 CMerkleTx.getSerializeSize32 wtx.vtxPrev
      + mapSize32 wtx.mapValue + vectorSize32 pairSize32 wtx.vOrderForm + 4 + 4 + 1 + 1

/-- What follows the last `READWRITE`. Without an entry for the flags there is one flag for all of them. -/
def takeReserved (wtx : CWalletTx) (fSpent : UInt8) : CWalletTx :=
  eraseReserved { wtx with
    strFromAccount := wtx.mapValue.getD (ascii "fromaccount") []
    vfSpent :=
      match wtx.mapValue[ascii "spent"]? with
      | some str => str.map fun c => c ≠ 0x30
      | none => List.replicate wtx.vout.length (fSpent ≠ 0) }

def unserialize {σ : Type} (read : Nat → StateT σ Check (List UInt8)) (layout : WalletLayout)
    (fMerkleVerified : Bool) : StateT σ Check CWalletTx := do
  let tx ← CMerkleTx.unserialize read layout fMerkleVerified
  let vtxPrev ← unserializeVector read (CMerkleTx.unserialize read layout false) layout.merkleTx
  let mapValue ← unserializeMap read
  let vOrderForm ← unserializeVector read (unserializePair read) layout.stringPair
  let fTimeReceivedIsTxTime ← readNumber read 4
  let nTimeReceived ← readNumber read 4
  let fFromMe ← readNumber read 1
  let fSpent ← readNumber read 1
  pure (takeReserved { init tx with
    vtxPrev := vtxPrev
    mapValue := mapValue
    vOrderForm := vOrderForm
    fTimeReceivedIsTxTime := UInt32.ofNat fTimeReceivedIsTxTime
    nTimeReceived := UInt32.ofNat nTimeReceived
    fFromMe := UInt8.ofNat fFromMe } (UInt8.ofNat fSpent))

end CWalletTx

end Wallet

end RitCoin.Model
