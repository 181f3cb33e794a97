import RitCoin.Model.NetAddr

/-!
# The address manager

`CAddrMan` of `addrman.h` and `addrman.cpp`: the addresses of other nodes, in 64 buckets of addresses
that were tried and 256 buckets of new ones. Identifiers are natural numbers: `Create` stops where the
`int` that counts them would overflow. The numbers `GetRandInt` draws and the times `GetAdjustedTime`
returns during a call are arguments. Reading an entry with `mapInfo[n]` fails here when there is none,
where the code would make an empty one.
-/

namespace RitCoin.Model
open Lib Std

abbrev ADDRMAN_TRIED_BUCKET_COUNT : Nat := 64
def ADDRMAN_TRIED_BUCKET_SIZE : Nat := 64
abbrev ADDRMAN_NEW_BUCKET_COUNT : Nat := 256
def ADDRMAN_NEW_BUCKET_SIZE : Nat := 64
def ADDRMAN_TRIED_BUCKETS_PER_GROUP : UInt64 := 4
def ADDRMAN_NEW_BUCKETS_PER_SOURCE_GROUP : UInt64 := 32
def ADDRMAN_NEW_BUCKETS_PER_ADDRESS : Int := 4
def ADDRMAN_TRIED_ENTRIES_INSPECT_ON_EVICT : Nat := 4
def ADDRMAN_HORIZON_DAYS : Int64 := 30
def ADDRMAN_RETRIES : Int32 := 3
def ADDRMAN_MAX_FAILURES : Int32 := 10
def ADDRMAN_MIN_FAIL_DAYS : Int64 := 7
def ADDRMAN_GETADDR_MAX_PCT : Nat := 23
def ADDRMAN_GETADDR_MAX : Nat := 2500

abbrev TriedBucket := Fin ADDRMAN_TRIED_BUCKET_COUNT

abbrev NewBucket := Fin ADDRMAN_NEW_BUCKET_COUNT

def getRandInt (nRand nMax : Nat) : Nat := if nMax = 0 then 0 else nRand % nMax

def assert (condition : Prop) [Decidable condition] : Check PUnit :=
  failIf (¬ condition) (.stop .assertion)

def seconds (nTime : UInt32) : Int64 := nTime.toUInt64.toInt64

def truncated (nTime : Int64) : UInt32 := nTime.toUInt64.toUInt32

structure CAddrInfo extends CAddress where
  source : CNetAddr
  nLastSuccess : Int64
  nAttempts : Int32
  nRefCount : Int
  fInTried : Bool
  nRandomPos : Int
deriving DecidableEq, Repr

namespace CAddrInfo

/-- `CAddrInfo(addrIn, addrSource)`. `Init` is the entry's own, which also resets `nLastTry`. -/
def new (addrIn : CAddress) (addrSource : CNetAddr) : CAddrInfo :=
  { addrIn with
    nLastTry := 0
    source := addrSource
    nLastSuccess := 0
    nAttempts := 0
    nRefCount := 0
    fInTried := false
    nRandomPos := -1 }

def get64 (hash : Uint256) : UInt64 := UInt64.ofNat hash.toNat

section Buckets
variable (hash : List UInt8 → Uint256) (nKey : List UInt8) (info : CAddrInfo)

def getTriedBucket : TriedBucket :=
  let hash1 := get64 (hash (serializeBytes nKey ++ serializeBytes info.getKey))
  let hash2 := get64 (hash (serializeBytes nKey ++ (serializeBytes info.addr.getGroup ++
    leBytes 8 (hash1 % ADDRMAN_TRIED_BUCKETS_PER_GROUP).toNat)))
  Fin.ofNat ADDRMAN_TRIED_BUCKET_COUNT hash2.toNat

def getNewBucket (src : CNetAddr) : NewBucket :=
  let hash1 := get64 (hash (serializeBytes nKey ++
    (serializeBytes info.addr.getGroup ++ serializeBytes src.getGroup)))
  let hash2 := get64 (hash (serializeBytes nKey ++ (serializeBytes src.getGroup ++
    leBytes 8 (hash1 % ADDRMAN_NEW_BUCKETS_PER_SOURCE_GROUP).toNat)))
  Fin.ofNat ADDRMAN_NEW_BUCKET_COUNT hash2.toNat

end Buckets

def isTerrible (info : CAddrInfo) (nNow : Int64) : Bool :=
  if info.nLastTry ≠ 0 ∧ info.nLastTry ≥ nNow - 60 then false
  else if seconds info.nTime > nNow + 10 * 60 then true
  else if info.nTime = 0 ∨ nNow - seconds info.nTime > ADDRMAN_HORIZON_DAYS * 86400 then true
  else if info.nLastSuccess = 0 ∧ info.nAttempts ≥ ADDRMAN_RETRIES then true
  else decide (nNow - info.nLastSuccess > ADDRMAN_MIN_FAIL_DAYS * 86400 ∧ info.nAttempts ≥ ADDRMAN_MAX_FAILURES)

end CAddrInfo

structure CAddrMan where
  nKey : List UInt8
  nIdCount : Nat
  mapInfo : ExtTreeMap Nat CAddrInfo
  mapAddr : ExtTreeMap CNetAddr Nat
  vRandom : List Nat
  nTried : Int
  vvTried : TriedBucket → List Nat
  nNew : Int
  vvNew : NewBucket → ExtTreeSet Nat

namespace CAddrMan

def new (nKey : Vector UInt8 32) : CAddrMan where
  nKey := nKey.toList
  nIdCount := 0
  mapInfo := ∅
  mapAddr := ∅
  vRandom := []
  nTried := 0
  vvTried := fun _ => []
  nNew := 0
  vvNew := fun _ => ∅

def find (am : CAddrMan) (addr : CNetAddr) : Option (Nat × CAddrInfo) := do
  let nId ← am.mapAddr[addr]?
  let info ← am.mapInfo[nId]?
  pure (nId, info)

def info (am : CAddrMan) (nId : Nat) : Check CAddrInfo :=
  match am.mapInfo[nId]? with
  | some info => .ok info
  | none => .error (.stop .assertion)

def element (v : List Nat) (nPos : Int) : Check Nat :=
  if nPos < 0 then .error (.stop .outOfRange)
  else
    match v[nPos.toNat]? with
    | some nId => .ok nId
    | none => .error (.stop .outOfRange)

def modify (am : CAddrMan) (nId : Nat) (f : CAddrInfo → CAddrInfo) : CAddrMan :=
  { am with mapInfo := am.mapInfo.modify nId f }

def insertNew (am : CAddrMan) (nUBucket : NewBucket) (nId : Nat) : CAddrMan :=
  { am with vvNew := Function.update am.vvNew nUBucket ((am.vvNew nUBucket).insert nId) }

def eraseNew (am : CAddrMan) (nUBucket : NewBucket) (nId : Nat) : CAddrMan :=
  { am with vvNew := Function.update am.vvNew nUBucket ((am.vvNew nUBucket).erase nId) }

def setTried (am : CAddrMan) (nKBucket : TriedBucket) (vTried : List Nat) : CAddrMan :=
  { am with vvTried := Function.update am.vvTried nKBucket vTried }

def create (am : CAddrMan) (addr : CAddress) (addrSource : CNetAddr) : Check (CAddrMan × Nat) := do
  let nId := am.nIdCount
  failIf (nId ≥ 2 ^ 31 - 1) (.stop .outOfRange)
  pure ({ am with
      nIdCount := am.nIdCount + 1
      mapInfo := am.mapInfo.insert nId { CAddrInfo.new addr addrSource with nRandomPos := am.vRandom.length }
      mapAddr := am.mapAddr.insert addr.addr nId
      vRandom := am.vRandom ++ [nId] }, nId)

def swapRandom (am : CAddrMan) (nRndPos1 nRndPos2 : Int) : Check CAddrMan :=
  if nRndPos1 = nRndPos2 then .ok am
  else do
    assert (nRndPos1 ≥ 0 ∧ nRndPos2 ≥ 0)
    assert (nRndPos1 < am.vRandom.length ∧ nRndPos2 < am.vRandom.length)
    let nId1 ← element am.vRandom nRndPos1
    let nId2 ← element am.vRandom nRndPos2
    assert (nId1 ∈ am.mapInfo)
    assert (nId2 ∈ am.mapInfo)
    let am := am.modify nId1 fun info => { info with nRandomPos := nRndPos2 }
    let am := am.modify nId2 fun info => { info with nRandomPos := nRndPos1 }
    pure { am with vRandom := (am.vRandom.set nRndPos1.toNat nId2).set nRndPos2.toNat nId1 }

structure Choice where
  vTried : List Nat
  nOldest : Option Nat
  nOldestPos : Int

def selectTriedRound (am : CAddrMan) (rand : Nat → Nat) (choice : Choice) (i : Nat) : Check Choice := do
  let nPos := getRandInt (rand i) (choice.vTried.length - i) + i
  let nTemp ← element choice.vTried nPos
  let other ← element choice.vTried i
  let vTried := (choice.vTried.set nPos other).set i nTemp
  assert (choice.nOldest = none ∨ nTemp ∈ am.mapInfo)
  match choice.nOldest with
  | none => pure ⟨vTried, some nTemp, nPos⟩
  | some nOldest => do
      let temp ← am.info nTemp
      let oldest ← am.info nOldest
      if temp.nLastSuccess < oldest.nLastSuccess then pure ⟨vTried, some nTemp, nPos⟩
      else pure { choice with vTried := vTried }

def selectTried (am : CAddrMan) (nKBucket : TriedBucket) (rand : Nat → Nat) : Check (CAddrMan × Int) := do
  let vTried := am.vvTried nKBucket
  let choice ← (List.range (min ADDRMAN_TRIED_ENTRIES_INSPECT_ON_EVICT vTried.length)).foldlM
    (am.selectTriedRound rand) ⟨vTried, none, -1⟩
  pure (am.setTried nKBucket choice.vTried, choice.nOldestPos)

def release (am : CAddrMan) (nUBucket : NewBucket) (nId : Nat) : Check CAddrMan := do
  let am := am.modify nId fun info => { info with nRefCount := info.nRefCount - 1 }
  let info ← am.info nId
  if info.nRefCount = 0 then do
    let am ← am.swapRandom info.nRandomPos (am.vRandom.length - 1)
    pure ({ am with
      vRandom := am.vRandom.dropLast
      mapAddr := am.mapAddr.erase info.addr
      mapInfo := am.mapInfo.erase nId
      nNew := am.nNew - 1 }.eraseNew nUBucket nId)
  else pure (am.eraseNew nUBucket nId)

def findTerrible (am : CAddrMan) (now : Nat → Int64) : List Nat → Check (Option Nat)
  | [] => pure none
  | nId :: rest => do
      let info ← am.info nId
      if info.isTerrible (now rest.length) then pure (some nId) else am.findTerrible now rest

def oldestRound (am : CAddrMan) (n : List Nat) (nOldest : Option Nat) (entry : Nat × Nat) : Check (Option Nat) :=
  let (nId, nI) := entry
  if nI ∈ n then do
    assert (nOldest = none ∨ nId ∈ am.mapInfo)
    match nOldest with
    | none => pure (some nId)
    | some oldest => do
        let candidate ← am.info nId
        let oldestInfo ← am.info oldest
        if candidate.nTime < oldestInfo.nTime then pure (some nId) else pure nOldest
  else pure nOldest

def shrinkNew (am : CAddrMan) (nUBucket : NewBucket) (rand : Nat → Nat) (now : Nat → Int64) :
    Check (CAddrMan × Int) := do
  let vNew := am.vvNew nUBucket
  match ← am.findTerrible now vNew.toList with
  | some nId => do
      let am ← am.release nUBucket nId
      pure (am, 0)
  | none => do
      let n := (List.range 4).map fun i => getRandInt (rand i) vNew.size
      let nOldest ← vNew.toList.zipIdx.foldlM (am.oldestRound n) none
      match nOldest with
      | none => .error (.stop .assertion)
      | some nOldest => do
          assert (nOldest ∈ am.mapInfo)
          let am ← am.release nUBucket nOldest
          pure (am, 1)

def removeNew (nId : Nat) (am : CAddrMan) (nUBucket : NewBucket) : CAddrMan :=
  if nId ∈ am.vvNew nUBucket then
    (am.eraseNew nUBucket nId).modify nId fun info => { info with nRefCount := info.nRefCount - 1 }
  else am

section Hash
variable (hash : List UInt8 → Uint256)

def makeTried (am : CAddrMan) (nId : Nat) (nOrigin : NewBucket) (rand : Nat → Nat) : Check CAddrMan := do
  assert (nId ∈ am.vvNew nOrigin)
  let am := (List.finRange ADDRMAN_NEW_BUCKET_COUNT).foldl (removeNew nId) am
  let am := { am with nNew := am.nNew - 1 }
  let info ← am.info nId
  assert (info.nRefCount = 0)
  let nKBucket := info.getTriedBucket hash am.nKey
  if (am.vvTried nKBucket).length < ADDRMAN_TRIED_BUCKET_SIZE then
    let am := am.setTried nKBucket (am.vvTried nKBucket ++ [nId])
    pure ({ am with nTried := am.nTried + 1 }.modify nId fun info => { info with fInTried := true })
  else do
    let (am, nPos) ← am.selectTried nKBucket rand
    let old ← element (am.vvTried nKBucket) nPos
    assert (old ∈ am.mapInfo)
    let infoOld ← am.info old
    let nUBucket := infoOld.getNewBucket hash am.nKey infoOld.source
    let am := am.modify old fun info => { info with fInTried := false, nRefCount := 1 }
    let am :=
      if (am.vvNew nUBucket).size < ADDRMAN_NEW_BUCKET_SIZE then am.insertNew nUBucket old
      else am.insertNew nOrigin old
    let am := { am with nNew := am.nNew + 1 }
    let am := am.setTried nKBucket ((am.vvTried nKBucket).set nPos.toNat nId)
    pure (am.modify nId fun info => { info with fInTried := true })

def good_ (am : CAddrMan) (addr : CService) (nTime : Int64) (rand : Nat → Nat) : Check CAddrMan :=
  match am.find addr.addr with
  | none => .ok am
  | some (nId, info) =>
    if info.toCService ≠ addr then .ok am
    else
      let am := am.modify nId fun info =>
        { info with nLastSuccess := nTime, nLastTry := nTime, nTime := truncated nTime, nAttempts := 0 }
      if info.fInTried then .ok am
      else
        let nRnd := getRandInt (rand 0) ADDRMAN_NEW_BUCKET_COUNT
        let buckets := (List.range ADDRMAN_NEW_BUCKET_COUNT).map fun n =>
          Fin.ofNat ADDRMAN_NEW_BUCKET_COUNT (n + nRnd)
        match buckets.find? fun nB => nId ∈ am.vvNew nB with
        | none => .ok am
        | some nUBucket => am.makeTried hash nId nUBucket fun i => rand (i + 1)

def refer (am : CAddrMan) (nId : Nat) (source : CNetAddr) (rand : Nat → Nat) (now : Nat → Int64) :
    Check CAddrMan := do
  let info ← am.info nId
  let nUBucket := info.getNewBucket hash am.nKey source
  if nId ∈ am.vvNew nUBucket then pure am
  else do
    let am := am.modify nId fun info => { info with nRefCount := info.nRefCount + 1 }
    let am ←
      if (am.vvNew nUBucket).size = ADDRMAN_NEW_BUCKET_SIZE then do
        let (am, _) ← am.shrinkNew nUBucket rand now
        pure am
      else pure am
    pure (am.insertNew nUBucket nId)

def refresh (addr : CAddress) (nTimePenalty nNow : Int64) (info : CAddrInfo) : CAddrInfo :=
  let fCurrentlyOnline : Bool := nNow - seconds addr.nTime < 24 * 60 * 60
  let nUpdateInterval : Int64 := if fCurrentlyOnline then 60 * 60 else 24 * 60 * 60
  let nTime :=
    if addr.nTime ≠ 0 ∧
        (info.nTime = 0 ∨ seconds info.nTime < seconds addr.nTime - nUpdateInterval - nTimePenalty) then
      truncated (max 0 (seconds addr.nTime - nTimePenalty))
    else info.nTime
  { info with nTime := nTime, nServices := info.nServices ||| addr.nServices }

def add_ (am : CAddrMan) (addr : CAddress) (source : CNetAddr) (nTimePenalty : Int64) (rand : Nat → Nat)
    (now : Nat → Int64) : Check (CAddrMan × Bool) :=
  if !addr.addr.isRoutable then .ok (am, false)
  else
    match am.find addr.addr with
    | some (nId, found) => do
        let info := refresh addr nTimePenalty (now 0) found
        let am := am.modify nId (refresh addr nTimePenalty (now 0))
        if addr.nTime = 0 ∨ (info.nTime ≠ 0 ∧ addr.nTime ≤ info.nTime) then pure (am, false)
        else if info.fInTried then pure (am, false)
        else if info.nRefCount = ADDRMAN_NEW_BUCKETS_PER_ADDRESS then pure (am, false)
        else
          let nFactor := 2 ^ info.nRefCount.toNat
          if nFactor > 1 ∧ getRandInt (rand 0) nFactor ≠ 0 then pure (am, false)
          else do
            let am ← am.refer hash nId source (fun i => rand (i + 1)) fun i => now (i + 1)
            pure (am, false)
    | none => do
        let (am, nId) ← am.create addr source
        let am := am.modify nId fun info =>
          { info with nTime := truncated (max 0 (seconds info.nTime - nTimePenalty)) }
        let am := { am with nNew := am.nNew + 1 }
        let am ← am.refer hash nId source (fun i => rand (i + 1)) fun i => now (i + 1)
        pure (am, true)

end Hash

def attempt_ (am : CAddrMan) (addr : CService) (nTime : Int64) : CAddrMan :=
  match am.find addr.addr with
  | none => am
  | some (nId, info) =>
    if info.toCService ≠ addr then am
    else am.modify nId fun info => { info with nLastTry := nTime, nAttempts := info.nAttempts + 1 }

def connected_ (am : CAddrMan) (addr : CService) (nTime : Int64) : CAddrMan :=
  match am.find addr.addr with
  | none => am
  | some (nId, info) =>
    if info.toCService ≠ addr then am
    else if nTime - seconds info.nTime > 20 * 60 then
      am.modify nId fun info => { info with nTime := truncated nTime }
    else am

def getAddrRound (rand : Nat → Nat) (state : CAddrMan × List CAddress) (n : Nat) :
    Check (CAddrMan × List CAddress) := do
  let (am, vAddr) := state
  let nRndPos := getRandInt (rand n) (am.vRandom.length - n) + n
  let am ← am.swapRandom n nRndPos
  let nId ← element am.vRandom n
  assert (nId ∈ am.mapInfo)
  let info ← am.info nId
  pure (am, vAddr ++ [info.toCAddress])

def getAddr_ (am : CAddrMan) (rand : Nat → Nat) : Check (CAddrMan × List CAddress) :=
  let nNodes := min (ADDRMAN_GETADDR_MAX_PCT * am.vRandom.length / 100) ADDRMAN_GETADDR_MAX
  (List.range nNodes).foldlM (getAddrRound rand) (am, [])

structure Collected where
  setTried : ExtTreeSet Nat
  mapNew : ExtTreeMap Nat Int

def checkInfo (am : CAddrMan) (collected : Collected) (entry : Nat × CAddrInfo) : Except Int Collected := do
  let (n, info) := entry
  let collected ←
    if info.fInTried then do
      failIf (info.nLastSuccess = 0) (-1)
      failIf (info.nRefCount ≠ 0) (-2)
      pure { collected with setTried := collected.setTried.insert n }
    else do
      failIf (info.nRefCount < 0 ∨ info.nRefCount > ADDRMAN_NEW_BUCKETS_PER_ADDRESS) (-3)
      failIf (info.nRefCount = 0) (-4)
      pure { collected with mapNew := collected.mapNew.insert n info.nRefCount }
  failIf (am.mapAddr.getD info.addr 0 ≠ n) (-5)
  failIf (info.nRandomPos < 0 ∨ info.nRandomPos ≥ am.vRandom.length ∨
    am.vRandom[info.nRandomPos.toNat]? ≠ some n) (-14)
  failIf (info.nLastTry < 0) (-6)
  failIf (info.nLastSuccess < 0) (-8)
  pure collected

def checkTried (setTried : ExtTreeSet Nat) (nId : Nat) : Except Int (ExtTreeSet Nat) := do
  failIf (nId ∉ setTried) (-11)
  pure (setTried.erase nId)

def checkNew (mapNew : ExtTreeMap Nat Int) (nId : Nat) : Except Int (ExtTreeMap Nat Int) :=
  match mapNew[nId]? with
  | none => .error (-12)
  | some count => if count - 1 = 0 then .ok (mapNew.erase nId) else .ok (mapNew.insert nId (count - 1))

def checks (am : CAddrMan) : Except Int PUnit := do
  failIf ((am.vRandom.length : Int) ≠ am.nTried + am.nNew) (-7)
  let collected ← am.mapInfo.toList.foldlM am.checkInfo ⟨∅, ∅⟩
  failIf ((collected.setTried.size : Int) ≠ am.nTried) (-9)
  failIf ((collected.mapNew.size : Int) ≠ am.nNew) (-10)
  let setTried ← ((List.finRange ADDRMAN_TRIED_BUCKET_COUNT).flatMap am.vvTried).foldlM checkTried
    collected.setTried
  let mapNew ← ((List.finRange ADDRMAN_NEW_BUCKET_COUNT).flatMap fun n => (am.vvNew n).toList).foldlM checkNew
    collected.mapNew
  failIf (setTried.size ≠ 0) (-13)
  failIf (mapNew.size ≠ 0) (-15)

/-- `Check_()`. The entry that `mapAddr[info]` makes where there is none is left out. -/
def check_ (am : CAddrMan) : Int :=
  match am.checks with
  | .ok _ => 0
  | .error code => code

inductive Call
  | add (addr : CAddress) (source : CNetAddr) (nTimePenalty : Int64) (rand : Nat → Nat) (now : Nat → Int64)
  | addAll (vAddr : List CAddress) (source : CNetAddr) (nTimePenalty : Int64) (rand : Nat → Nat → Nat)
      (now : Nat → Nat → Int64)
  | good (addr : CService) (nTime : Int64) (rand : Nat → Nat)
  | attempt (addr : CService) (nTime : Int64)
  | connected (addr : CService) (nTime : Int64)
  | getAddr (rand : Nat → Nat)

section Hash
variable (hash : List UInt8 → Uint256)

def call (am : CAddrMan) : Call → Check CAddrMan
  | .add addr source nTimePenalty rand now => do
      let (am, _) ← am.add_ hash addr source nTimePenalty rand now
      pure am
  | .addAll vAddr source nTimePenalty rand now =>
    vAddr.zipIdx.foldlM (fun am entry => do
      let (am, _) ← am.add_ hash entry.1 source nTimePenalty (rand entry.2) (now entry.2)
      pure am) am
  | .good addr nTime rand => am.good_ hash addr nTime rand
  | .attempt addr nTime => .ok (am.attempt_ addr nTime)
  | .connected addr nTime => .ok (am.connected_ addr nTime)
  | .getAddr rand => do
      let (am, _) ← am.getAddr_ rand
      pure am

def calls (am : CAddrMan) (run : List Call) : Check CAddrMan := run.foldlM (call hash) am

end Hash

end CAddrMan

end RitCoin.Model
