import RitCoin.Model.KeyStore
import RitCoin.Model.MerkleTx

/-!
# Wallet transactions

`CWalletTx` of `wallet.h`, with its spent flags and the balances it remembers.
-/

namespace RitCoin.Model.Wallet
open Lib Std

abbrev CString := List UInt8

def ascii (literal : String) : CString := literal.toList.map fun c => UInt8.ofNat c.toNat

structure CWalletTx extends CMerkleTx where
  vtxPrev : List CMerkleTx
  mapValue : ExtTreeMap CString CString
  vOrderForm : List (CString × CString)
  fTimeReceivedIsTxTime : UInt32
  nTimeReceived : UInt32
  fFromMe : UInt8
  strFromAccount : CString
  vfSpent : List Bool
  /-- The balances in memory; there is one where the flag `f...Cached` is set. -/
  nDebitCached : Option Int64
  nCreditCached : Option Int64
  nAvailableCreditCached : Option Int64
  nChangeCached : Option Int64

namespace CWalletTx

def init (tx : CMerkleTx) : CWalletTx where
  toCMerkleTx := tx
  vtxPrev := []
  mapValue := ∅
  vOrderForm := []
  fTimeReceivedIsTxTime := 0
  nTimeReceived := 0
  fFromMe := 0
  strFromAccount := []
  vfSpent := []
  nDebitCached := none
  nCreditCached := none
  nAvailableCreditCached := none
  nChangeCached := none

def mergeSpent : List Bool → List Bool → List Bool × Bool
  | [], _ => ([], false)
  | vfSpent, [] => (vfSpent, false)
  | fSpent :: vfSpent, fNewSpent :: vfNewSpent =>
    let (vfSpent, fReturn) := mergeSpent vfSpent vfNewSpent
    ((fSpent || fNewSpent) :: vfSpent, (fNewSpent && !fSpent) || fReturn)

def updateSpent (wtx : CWalletTx) (vfNewSpent : List Bool) : Bool × CWalletTx :=
  let (vfSpent, fReturn) := mergeSpent wtx.vfSpent vfNewSpent
  (fReturn, { wtx with
    vfSpent := vfSpent
    nAvailableCreditCached := if fReturn then none else wtx.nAvailableCreditCached })

def markDirty (wtx : CWalletTx) : CWalletTx :=
  { wtx with
    nCreditCached := none
    nAvailableCreditCached := none
    nDebitCached := none
    nChangeCached := none }

def resizeSpent (wtx : CWalletTx) : List Bool :=
  wtx.vfSpent.take wtx.vout.length ++ List.replicate (wtx.vout.length - wtx.vfSpent.length) false

def setSpent (wtx : CWalletTx) (nOut : Nat) (fSpent : Bool) : CWalletTx :=
  let vfSpent := wtx.resizeSpent
  if vfSpent.getD nOut false = fSpent then { wtx with vfSpent := vfSpent }
  else { wtx with vfSpent := vfSpent.set nOut fSpent, nAvailableCreditCached := none }

def markSpent (wtx : CWalletTx) (nOut : Nat) : Check CWalletTx := do
  failIf (nOut ≥ wtx.vout.length) (.throw "CWalletTx::MarkSpent() : nOut out of range")
  pure (wtx.setSpent nOut true)

def isSpent (wtx : CWalletTx) (nOut : Nat) : Check Bool := do
  failIf (nOut ≥ wtx.vout.length) (.throw "CWalletTx::IsSpent() : nOut out of range")
  pure (wtx.vfSpent.getD nOut false)

def merge (wtx wtxIn : CWalletTx) : CWalletTx × Bool :=
  let (wtx, fUpdated) :=
    if wtxIn.hashBlock ≠ 0 ∧ wtxIn.hashBlock ≠ wtx.hashBlock then
      ({ wtx with hashBlock := wtxIn.hashBlock }, true)
    else (wtx, false)
  let (wtx, fUpdated) :=
    if wtxIn.nIndex ≠ -1 ∧ (wtxIn.vMerkleBranch ≠ wtx.vMerkleBranch ∨ wtxIn.nIndex ≠ wtx.nIndex) then
      ({ wtx with vMerkleBranch := wtxIn.vMerkleBranch, nIndex := wtxIn.nIndex }, true)
    else (wtx, fUpdated)
  let (wtx, fUpdated) :=
    if wtxIn.fFromMe ≠ 0 ∧ wtxIn.fFromMe ≠ wtx.fFromMe then ({ wtx with fFromMe := wtxIn.fFromMe }, true)
    else (wtx, fUpdated)
  let (fReturn, wtx) := wtx.updateSpent wtxIn.vfSpent
  (wtx, fUpdated || fReturn)

end CWalletTx

end RitCoin.Model.Wallet
