import RitCoin.Model.DataStream
import RitCoin.Model.WalletSerialize

/-!
# Alerts

`CUnsignedAlert` and `CAlert` of `alerts.h` with `ProcessAlert`, which keeps the alerts in effect in
`mapAlerts`. One reading of the clock serves a whole call.
-/

namespace RitCoin.Model
open Lib Std Wallet

/-- The sets are kept as the lists they are read from: they are only asked for members. -/
structure CUnsignedAlert where
  nVersion : Int32
  nRelayUntil : Int64
  nExpiration : Int64
  nID : Int32
  nCancel : Int32
  setCancel : List Int32
  nMinVer : Int32
  nMaxVer : Int32
  setSubVer : List CString
  nPriority : Int32
  strComment : CString
  strStatusBar : CString
  strReserved : CString
deriving DecidableEq, Repr

structure CAlert extends CUnsignedAlert where
  vchMsg : List UInt8
  vchSig : List UInt8
deriving DecidableEq, Repr

section Reading
variable {σ : Type} (read : Nat → StateT σ Check (List UInt8))

def unserializeInt : StateT σ Check Int32 := do
  let n ← readNumber read 4
  pure (UInt32.ofNat n).toInt32

def unserializeInt64 : StateT σ Check Int64 := do
  let n ← readNumber read 8
  pure (UInt64.ofNat n).toInt64

def unserializeSet {α : Type} (elem : StateT σ Check α) : StateT σ Check (List α) := do
  let nSize ← readCompactSize read
  many elem nSize

def CUnsignedAlert.unserialize : StateT σ Check CUnsignedAlert := do
  let nVersion ← unserializeInt read
  let nRelayUntil ← unserializeInt64 read
  let nExpiration ← unserializeInt64 read
  let nID ← unserializeInt read
  let nCancel ← unserializeInt read
  let setCancel ← unserializeSet read (unserializeInt read)
  let nMinVer ← unserializeInt read
  let nMaxVer ← unserializeInt read
  let setSubVer ← unserializeSet read (unserializeString read)
  let nPriority ← unserializeInt read
  let strComment ← unserializeString read
  let strStatusBar ← unserializeString read
  let strReserved ← unserializeString read
  pure ⟨nVersion, nRelayUntil, nExpiration, nID, nCancel, setCancel, nMinVer, nMaxVer, setSubVer, nPriority,
    strComment, strStatusBar, strReserved⟩

end Reading

abbrev AlertMap := ExtTreeMap Uint256 CAlert

def alertKey : List UInt8 :=
  0x04 :: ((leBytes 32 0xa0a849dd49b113d3179a332dd77715c43be4d0076e2f19e66de23dd707e56630).reverse ++
    (leBytes 32 0xf792f298dfd209bf042bb3561f4af6983f3d81e439737ab0bf7f898fecd21aab).reverse)

namespace CAlert

def serialize (alert : CAlert) : List UInt8 := serializeBytes alert.vchMsg ++ serializeBytes alert.vchSig

def getHash (C : Crypto) (alert : CAlert) : Uint256 := BitVec.ofNat 256 (ofLe (C.hash alert.serialize).toList)

def isInEffect (now : Int64) (alert : CAlert) : Bool := now < alert.nExpiration

def cancels (now : Int64) (this alert : CAlert) : Bool :=
  if !this.isInEffect now then false
  else alert.nID ≤ this.nCancel || this.setCancel.contains alert.nID

def checkSignature (C : Crypto) (this : CAlert) : Check (Option CAlert) :=
  if !C.verify alertKey (BitVec.ofNat 256 (ofLe (C.hash this.vchMsg).toList)) this.vchSig then pure none
  else do
    let (fields, _) ← CUnsignedAlert.unserialize CDataStream.read (CDataStream.ofBytes this.vchMsg)
    pure (some { this with toCUnsignedAlert := fields })

def cancelPrevious (now : Int64) (this : CAlert) (mapAlerts : AlertMap) : AlertMap :=
  mapAlerts.filter fun _ alert => !this.cancels now alert && alert.isInEffect now

def processAlert (C : Crypto) (now : Int64) (this : CAlert) (mapAlerts : AlertMap) : Check (Bool × AlertMap) := do
  match ← this.checkSignature C with
  | none => pure (false, mapAlerts)
  | some this =>
    if !this.isInEffect now then pure (false, mapAlerts)
    else
      let mapAlerts := this.cancelPrevious now mapAlerts
      if mapAlerts.toList.any fun item => item.2.cancels now this then pure (false, mapAlerts)
      else pure (true, mapAlerts.insertIfNew (this.getHash C) this)

end CAlert

def alertCall (C : Crypto) (mapAlerts : AlertMap) (call : Int64 × CAlert) : AlertMap :=
  match call.2.processAlert C call.1 mapAlerts with
  | .ok (_, mapAlerts) => mapAlerts
  | .error _ => mapAlerts

def alertRun (C : Crypto) (calls : List (Int64 × CAlert)) : AlertMap := calls.foldl (alertCall C) ∅

end RitCoin.Model
