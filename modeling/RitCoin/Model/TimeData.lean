import RitCoin.Model.NetAddr

/-!
# Adjusted time

`CMedianFilter` of `util.h` and `AddTimeData` of `util.cpp`, with the function-local statics as a state.
-/

namespace RitCoin.Model
open Lib Std

structure CMedianFilter (α : Type) where
  vValues : List α
  vSorted : List α
  nSize : Nat

namespace CMedianFilter
variable {α : Type}

def new (size : Nat) (initialValue : α) : CMedianFilter α := ⟨[initialValue], [initialValue], size⟩

def input [LE α] [DecidableLE α] (filter : CMedianFilter α) (value : α) : CMedianFilter α :=
  let vValues := (if filter.vValues.length = filter.nSize then filter.vValues.drop 1 else filter.vValues) ++ [value]
  { filter with vValues := vValues, vSorted := vValues.insertionSort (· ≤ ·) }

def median [Add α] [Div α] [OfNat α 2] (filter : CMedianFilter α) : Check α :=
  let size := filter.vSorted.length
  if size % 2 = 1 then
    match filter.vSorted[size / 2]? with
    | some value => pure value
    | none => throw (.stop .assertion)
  else
    match filter.vSorted[size / 2 - 1]?, filter.vSorted[size / 2]? with
    | some low, some high => pure ((low + high) / 2)
    | _, _ => throw (.stop .assertion)

def size (filter : CMedianFilter α) : Nat := filter.vValues.length

end CMedianFilter

def abs64 (n : Int64) : Int64 := if n ≥ 0 then n else -n

structure TimeData where
  setKnown : ExtTreeSet CNetAddr
  vTimeOffsets : CMedianFilter Int64
  nTimeOffset : Int64
  fDone : Bool
  strMiscWarning : String

def TimeData.new : TimeData := ⟨∅, .new 200 0, 0, false, ""⟩

def getAdjustedTime (data : TimeData) (now : Int64) : Int64 := now + data.nTimeOffset

namespace TimeData

def update (data : TimeData) : Check TimeData := do
  let nMedian ← data.vTimeOffsets.median
  let vSorted := data.vTimeOffsets.vSorted
  if abs64 nMedian < 70 * 60 then pure { data with nTimeOffset := nMedian }
  else
    let fMatch := vSorted.any fun nOffset => decide (nOffset ≠ 0 ∧ abs64 nOffset < 5 * 60)
    if ¬ data.fDone ∧ ¬ fMatch then
      pure { data with
        nTimeOffset := 0
        fDone := true
        strMiscWarning := "Warning: Please check that your computer's date and time are correct.  " ++
          "If your clock is wrong rit will not work properly." }
    else pure { data with nTimeOffset := 0 }

def addTimeData (data : TimeData) (ip : CNetAddr) (nTime now : Int64) : Check TimeData :=
  let nOffsetSample := nTime - now
  if ip ∈ data.setKnown then pure data
  else
    let data := { data with
      setKnown := data.setKnown.insert ip
      vTimeOffsets := data.vTimeOffsets.input nOffsetSample }
    if data.vTimeOffsets.size ≥ 5 ∧ data.vTimeOffsets.size % 2 = 1 then data.update else pure data

structure Call where
  ip : CNetAddr
  nTime : Int64
  now : Int64

def run (calls : List Call) : Check TimeData :=
  calls.foldlM (fun data call => data.addTimeData call.ip call.nTime call.now) .new

end TimeData

end RitCoin.Model
