import RitCoin.Model.DataStream
import RitCoin.Model.Messages
import RitCoin.Model.Serialize

/-!
# Serving data

`CInv` of `protocol.cpp` with any type a peer may send, and the handler of `getdata` in `messages.cpp`.
-/

namespace RitCoin.Model
open Lib Std

structure CInv where
  type : Int32
  hash : Uint256
deriving DecidableEq, Repr

def MSG_TX : Int32 := 1
def MSG_BLOCK : Int32 := 2

def ppszTypeName : List String := ["ERROR", "tx", "block"]

namespace CInv

instance : Ord CInv := ⟨compareLex (compareOn CInv.type) (compareOn CInv.hash)⟩

instance : TransOrd CInv := inferInstanceAs (TransCmp (compareLex (compareOn CInv.type) (compareOn CInv.hash)))

instance : LawfulEqOrd CInv where
  eq_of_compare {a b} h := by
    change compareLex (compareOn CInv.type) (compareOn CInv.hash) a b = .eq at h
    rw [compareLex_eq_eq] at h
    cases a
    cases b
    simp_all [compareOn]

def isKnownType (inv : CInv) : Bool := decide (inv.type ≥ 1) && decide (inv.type < Int32.ofNat ppszTypeName.length)

def getCommand (inv : CInv) : Check String :=
  if ¬ inv.isKnownType then throw (.throw "CInv::GetCommand() : type=%d unknown type")
  else
    match ppszTypeName[inv.type.toInt.toNat]? with
    | some name => pure name
    | none => throw (.stop .outOfRange)

def toString (inv : CInv) : Check String := do
  let command ← inv.getCommand
  pure (command ++ " " ++ String.ofList (((hexString inv.hash).take 20).map fun c => Char.ofNat c.toNat))

def serialize (inv : CInv) : List UInt8 := leBytes 4 inv.type.toUInt32.toNat ++ leBytes 32 inv.hash.toNat

def unserialize {σ : Type} (read : Nat → StateT σ Check (List UInt8)) : StateT σ Check CInv := do
  let type ← readNumber read 4
  let hash ← readNumber read 32
  pure ⟨(UInt32.ofNat type).toInt32, BitVec.ofNat 256 hash⟩

end CInv

inductive Reply
  | block (block : CBlock)
  | inv (vInv : List CInv)
  | relay (command : String) (stream : List UInt8)
deriving DecidableEq

/-- What the handler works on besides the node. `mapRequestCount` is the wallet's. -/
structure Service where
  mapRelay : ExtTreeMap CInv (List UInt8)
  mapRequestCount : ExtTreeMap Uint256 Int32
  hashContinue : Uint256
  vSend : List Reply

namespace Service

def pushMessage (service : Service) (reply : Reply) : Service :=
  { service with vSend := service.vSend ++ [reply] }

def inventory (service : Service) (hash : Uint256) : Service :=
  match service.mapRequestCount[hash]? with
  | some nCount => { service with mapRequestCount := service.mapRequestCount.insert hash (nCount + 1) }
  | none => service

def sendBlock (node : Node) (service : Service) (hash : Uint256) : Check Service :=
  match node.mapBlockIndex[hash]? with
  | none => pure service
  | some pindex => do
      let service := service.pushMessage (.block (node.blockAt pindex))
      if hash = service.hashContinue then
        match node.pindexBest with
        | none => throw (.stop .nullPointer)
        | some pindexBest =>
          pure { service.pushMessage (.inv [⟨MSG_BLOCK, pindexBest⟩]) with hashContinue := 0 }
      else pure service

def sendRelay (service : Service) (inv : CInv) : Check Service :=
  match service.mapRelay[inv]? with
  | none => pure service
  | some stream => do
      let command ← inv.getCommand
      pure (service.pushMessage (.relay command stream))

def reply (node : Node) (service : Service) (inv : CInv) : Check Service :=
  if inv.type = MSG_BLOCK then service.sendBlock node inv.hash
  else if inv.isKnownType then service.sendRelay inv
  else pure service

def entry (node : Node) (service : Service) (inv : CInv) : Check Service := do
  let _ ← inv.toString
  let service ← service.reply node inv
  pure (service.inventory inv.hash)

/-- `fShutdown` has a reading for each round, by the number of entries behind it. An entry that throws ends
the loop. What was sent before stays sent. -/
def entries (node : Node) (fShutdown : Nat → Bool) : Service → List CInv → Check Unit × Service
  | service, [] => (.ok (), service)
  | service, inv :: rest =>
    if fShutdown rest.length then (.ok (), service)
    else match service.entry node inv with
    | .ok service => service.entries node fShutdown rest
    | .error failure => (.error failure, service)

def getdata (node : Node) (fShutdown : Nat → Bool) (sizeof : ElementSize) (service : Service)
    (vRecv : CDataStream) : Check Unit × Service :=
  match unserializeVector CDataStream.read (CInv.unserialize CDataStream.read) sizeof vRecv with
  | .error failure => (.error failure, service)
  | .ok (vInv, _) =>
    if vInv.length > 50000 then (.error (DoS 20 "message getdata size() = %d"), service)
    else service.entries node fShutdown vInv

end Service

end RitCoin.Model
