import Mathlib.Data.List.Sort
import Mathlib.Data.Finset.Insert
import RitCoin.Model.Types

/-!
# Coin selection

`SelectCoinsMinConf` of `wallet.cpp`. Every outcome of `rand()` is covered: `rand nRep i` is what it returns
for coin `i` in round `nRep`.
-/

namespace RitCoin.Model
open Lib

/-- What is read of a `CWalletTx`. `address` stands for the pointer. -/
structure CWalletTx where
  address : Nat
  vout : List CTxOut
  fFromMe : Bool

structure COutput where
  tx : CWalletTx
  i : Nat
  nDepth : Int
  inside : i < tx.vout.length

structure WalletCoin where
  first : Int64
  second : Nat × Nat
deriving DecidableEq, Repr

def COutput.coin (output : COutput) : WalletCoin where
  first := (output.tx.vout.get ⟨output.i, output.inside⟩).nValue
  second := (output.tx.address, output.i)

def WalletCoin.after (a b : WalletCoin) : Prop :=
  b.first < a.first ∨ b.first = a.first ∧
    (b.second.1 < a.second.1 ∨ b.second.1 = a.second.1 ∧ b.second.2 ≤ a.second.2)

instance : DecidableRel WalletCoin.after := fun a b => by
  unfold WalletCoin.after
  infer_instance

/-- `coinLowestLarger` has no pointer as long as no coin is larger. -/
structure Split where
  coinLowestLarger : Int64 × Option (Nat × Nat)
  vValue : List WalletCoin
  nTotalLower : Int64

def Split.start : Split := ⟨(Int64.maxValue, none), [], 0⟩

def Split.put (nTargetValue : Int64) (split : Split) (coin : WalletCoin) : Split :=
  if coin.first < nTargetValue + CENT then
    { split with vValue := split.vValue ++ [coin], nTotalLower := split.nTotalLower + coin.first }
  else if coin.first < split.coinLowestLarger.1 then
    { split with coinLowestLarger := (coin.first, some coin.second) }
  else split

def COutput.confirmed (nConfMine nConfTheirs : Int) (output : COutput) : Bool :=
  ¬ output.nDepth < (if output.tx.fFromMe then nConfMine else nConfTheirs)

def scan (nTargetValue : Int64) (nConfMine nConfTheirs : Int) : Split → List COutput → WalletCoin ⊕ Split
  | split, [] => .inr split
  | split, output :: rest =>
    if output.confirmed nConfMine nConfTheirs then
      if output.coin.first = nTargetValue then .inl output.coin
      else scan nTargetValue nConfMine nConfTheirs (split.put nTargetValue output.coin) rest
    else scan nTargetValue nConfMine nConfTheirs split rest

structure Search (n : Nat) where
  nTotal : Int64
  vfIncluded : Vector Bool n
  fReachedTarget : Bool
  nBest : Int64
  vfBest : Vector Bool n

namespace Search
variable {n : Nat} (value : Fin n → Int64) (nTargetValue : Int64)

def pick (s : Search n) (i : Fin n) : Search n :=
  let nTotal := s.nTotal + value i
  let vfIncluded := s.vfIncluded.set i true
  if nTotal ≥ nTargetValue then
    { nTotal := nTotal - value i
      vfIncluded := vfIncluded.set i false
      fReachedTarget := true
      nBest := if nTotal < s.nBest then nTotal else s.nBest
      vfBest := if nTotal < s.nBest then vfIncluded else s.vfBest }
  else { s with nTotal := nTotal, vfIncluded := vfIncluded }

def firstPass (rand : Nat → Nat) (s : Search n) : Search n :=
  (List.finRange n).foldl (fun s (i : Fin n) => if rand i.val % 2 ≠ 0 then s.pick value nTargetValue i else s) s

def secondPass (s : Search n) : Search n :=
  (List.finRange n).foldl (fun s i => if s.vfIncluded[i] then s else s.pick value nTargetValue i) s

def round (rand : Nat → Nat) (s : Search n) : Search n :=
  let s := { s with vfIncluded := Vector.replicate n false, nTotal := 0, fReachedTarget := false }
  let s := s.firstPass value nTargetValue rand
  if s.fReachedTarget then s else s.secondPass value nTargetValue

def rounds (rand : Nat → Nat → Nat) (nTotalLower : Int64) : Search n :=
  (List.range 1000).foldl
    (fun s nRep => if s.nBest ≠ nTargetValue then s.round value nTargetValue (rand nRep) else s)
    ⟨0, Vector.replicate n false, false, nTotalLower, Vector.replicate n true⟩

end Search

structure Selection where
  setCoinsRet : Finset (Nat × Nat)
  nValueRet : Int64
deriving DecidableEq

namespace Selection

def empty : Selection := ⟨∅, 0⟩

def add (selection : Selection) (coin : WalletCoin) : Selection where
  setCoinsRet := insert coin.second selection.setCoinsRet
  nValueRet := selection.nValueRet + coin.first

end Selection

def bestSubset (rand : Nat → Nat → Nat) (nTargetValue nTotalLower : Int64) (vValue : List WalletCoin) :
    Int64 × Selection :=
  let search := Search.rounds (fun i => (vValue.get i).first) nTargetValue rand nTotalLower
  (search.nBest, (List.finRange vValue.length).foldl
    (fun selection i => if search.vfBest[i] then selection.add (vValue.get i) else selection) .empty)

def approximate (rand : Nat → Nat → Nat) (nTargetValue : Int64) (split : Split) : Selection :=
  let (nBest, subset) := bestSubset rand nTargetValue split.nTotalLower (split.vValue.insertionSort WalletCoin.after)
  match split.coinLowestLarger with
  | (nLarger, some second) =>
    -- the next larger is still closer
    if nLarger - nTargetValue ≤ nBest - nTargetValue then Selection.empty.add ⟨nLarger, second⟩ else subset
  | (_, none) => subset

def afterScan (rand : Nat → Nat → Nat) (nTargetValue : Int64) (split : Split) : Bool × Selection :=
  if split.nTotalLower = nTargetValue ∨ split.nTotalLower = nTargetValue + CENT then
    (true, split.vValue.foldl Selection.add .empty)
  else if split.nTotalLower < nTargetValue + (if split.coinLowestLarger.2.isSome then CENT else 0) then
    match split.coinLowestLarger with
    | (_, none) => (false, .empty)
    | (nLarger, some second) => (true, Selection.empty.add ⟨nLarger, second⟩)
  else if split.nTotalLower ≥ nTargetValue + CENT then (true, approximate rand (nTargetValue + CENT) split)
  else (true, approximate rand nTargetValue split)

def selectCoinsMinConf (rand : Nat → Nat → Nat) (nTargetValue : Int64) (nConfMine nConfTheirs : Int)
    (vCoins : List COutput) : Bool × Selection :=
  match scan nTargetValue nConfMine nConfTheirs .start vCoins with
  | .inl coin => (true, Selection.empty.add coin)
  | .inr split => afterScan rand nTargetValue split

end RitCoin.Model
