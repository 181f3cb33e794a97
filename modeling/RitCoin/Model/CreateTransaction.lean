import RitCoin.Model.Multisig
import RitCoin.Model.SelectCoins
import RitCoin.Model.Wallet

/-!
# Creating transactions

`SelectCoins` and `CreateTransaction` of `wallet.cpp`. `vCoins` is what `AvailableCoins` finds, `deref` gives the
transaction at an address, and `reserved` is what `GetReservedKey` comes to.
-/

namespace RitCoin.Model
open Lib

def MAX_BLOCK_SIZE_GEN : Nat := MAX_BLOCK_SIZE / 2

/-- `rand` tells the three attempts apart. -/
def selectCoins (rand : Nat → Nat → Nat → Nat) (nTargetValue : Int64) (vCoins : List COutput) : Bool × Selection :=
  let first := selectCoinsMinConf (rand 0) nTargetValue 1 6 vCoins
  let second := selectCoinsMinConf (rand 1) nTargetValue 1 1 vCoins
  if first.1 then first
  else if second.1 then second
  else selectCoinsMinConf (rand 2) nTargetValue 0 1 vCoins

/-- The coins in the order of `set<pair<const CWalletTx*, unsigned int> >`. -/
def Selection.ordered (selection : Selection) (vCoins : List COutput) : List (Nat × Nat) :=
  ((vCoins.map fun output => output.coin.second).filter (· ∈ selection.setCoinsRet)).insertionSort
    fun a b => toLex a ≤ toLex b

def sumSend : Int64 → List (CScript × Int64) → Option Int64
  | nValue, [] => some nValue
  | nValue, s :: rest => if nValue < 0 then none else sumSend (nValue + s.2) rest

def splitChange (nValueIn nValue nFeeRet : Int64) : Int64 × Int64 :=
  let nChange := nValueIn - nValue - nFeeRet
  let (nChange, nFeeRet) :=
    if nFeeRet < TX_FEE ∧ nChange > 0 ∧ nChange < CENT then
      let nMoveToFee := min nChange (TX_FEE - nFeeRet)
      (nChange - nMoveToFee, nFeeRet + nMoveToFee)
    else (nChange, nFeeRet)
  if nChange > 0 ∧ nChange < MIN_TXOUT_AMOUNT then (0, nFeeRet + nChange) else (nChange, nFeeRet)

section Signing
variable (C : Crypto) (keystore : CKeyStore) (deref : Nat → CTransaction)

def signSignatureFrom (txFrom txTo : CTransaction) (nIn : Nat) (nHashType : Int32) : Check (Bool × CTransaction) :=
  match (txTo.vin[nIn]?).bind fun txin => txFrom.vout[txin.prevout.n.toNat]? with
  | none => throw (.stop .assertion)
  | some txout => signSignature C keystore txout.scriptPubKey txTo nIn nHashType

def signInputs : Nat → List (Nat × Nat) → CTransaction → Check (Option CTransaction)
  | _, [], wtxNew => pure (some wtxNew)
  | nIn, coin :: rest, wtxNew => do
    let (signed, wtxNew) ← signSignatureFrom C keystore (deref coin.1) wtxNew nIn SIGHASH_ALL.toInt32
    if signed then signInputs (nIn + 1) rest wtxNew else pure none

end Signing

def createTransaction (P : Primitives) (C : Crypto) (keystore : CKeyStore) (deref : Nat → CTransaction)
    (vCoins : List COutput) (rand : Nat → Nat → Nat → Nat) (reserved : Check Valtype)
    (vecSend : List (CScript × Int64)) (wtxNew : CTransaction) : Check (Option (CTransaction × Int64)) :=
  match sumSend 0 vecSend with
  | none => pure none
  | some nValue =>
    if vecSend = [] ∨ nValue < 0 then pure none
    else
      let (found, selection) := selectCoins rand (nValue + TX_FEE) vCoins
      if ¬ found then pure none
      else do
        let (nChange, nFeeRet) := splitChange selection.nValueRet nValue TX_FEE
        let vchPubKey ← reserved
        failIf (¬ isValidPubKey vchPubKey) (.stop .assertion)
        -- without change there is an output of nothing in its place
        let change : CTxOut :=
          ⟨if nChange > 0 then nChange else 0, Wallet.setDestination (.keyID (C.hash160 vchPubKey))⟩
        let setCoins := selection.ordered vCoins
        let signed ← signInputs C keystore deref 0 setCoins
          { wtxNew with
            vout := change :: vecSend.map fun s => ⟨s.2, s.1⟩
            vin := setCoins.map fun coin => ⟨⟨P.hashTx (deref coin.1), UInt32.ofNat coin.2⟩, [], 0xffffffff⟩ }
        match signed with
        | none => pure none
        | some wtxNew =>
          if wtxNew.getSerializeSize ≥ MAX_BLOCK_SIZE_GEN / 5 then pure none else pure (some (wtxNew, nFeeRet))

end RitCoin.Model
