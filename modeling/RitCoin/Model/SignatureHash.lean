import RitCoin.Model.Interpreter
import RitCoin.Model.Serialize

/-!
# Signatures of transactions

`SignatureHash`, `CheckSig` and `VerifyScript` of `script.cpp`.
-/

namespace RitCoin.Model
open Lib

def OP_CODESEPARATOR : UInt8 := 0xab

def SIGHASH_ALL : UInt32 := 1
def SIGHASH_NONE : UInt32 := 2
def SIGHASH_SINGLE : UInt32 := 3
def SIGHASH_ANYONECANPAY : UInt32 := 0x80

def baseType (nHashType : Int32) : UInt32 := nHashType.toUInt32 &&& 0x1f

def anyoneCanPay (nHashType : Int32) : Bool := nHashType.toUInt32 &&& SIGHASH_ANYONECANPAY != 0

def CTxOut.null : CTxOut := ⟨-1, []⟩

def blankSignatures (scriptCode : CScript) (vin : List CTxIn) (nIn : Nat) : List CTxIn :=
  vin.mapIdx fun i txin => { txin with scriptSig := if i = nIn then scriptCode else [] }

def freeSequences (vin : List CTxIn) (nIn : Nat) : List CTxIn :=
  vin.mapIdx fun i txin => if i ≠ nIn then { txin with nSequence := 0 } else txin

def signatureTx (scriptCode : CScript) (txTo : CTransaction) (nIn : Nat) (nHashType : Int32) :
    Option CTransaction :=
  if nIn ≥ txTo.vin.length then none
  else
    let scriptCode := (findAndDelete scriptCode [OP_CODESEPARATOR]).1
    let txTmp := { txTo with vin := blankSignatures scriptCode txTo.vin nIn }
    if baseType nHashType = SIGHASH_SINGLE ∧ nIn ≥ txTmp.vout.length then none
    else
      let txTmp :=
        if baseType nHashType = SIGHASH_NONE then
          { txTmp with vout := [], vin := freeSequences txTmp.vin nIn }
        else if baseType nHashType = SIGHASH_SINGLE then
          { txTmp with
            vout := (txTmp.vout.take (nIn + 1)).mapIdx fun i txout => if i < nIn then .null else txout
            vin := freeSequences txTmp.vin nIn }
        else txTmp
      some (if anyoneCanPay nHashType then { txTmp with vin := (txTmp.vin.drop nIn).take 1 } else txTmp)

def signatureBytes (txTmp : CTransaction) (nHashType : Int32) : List UInt8 :=
  txTmp.serialize ++ leBytes 4 nHashType.toUInt32.toNat

def Crypto.hash256 (C : Crypto) (bytes : List UInt8) : Uint256 :=
  BitVec.ofNat 256 (ofLe (C.hash bytes).toList)

def signatureHash (C : Crypto) (scriptCode : CScript) (txTo : CTransaction) (nIn : Nat)
    (nHashType : Int32) : Uint256 :=
  match signatureTx scriptCode txTo nIn nHashType with
  | none => 1
  | some txTmp => C.hash256 (signatureBytes txTmp nHashType)

def byteHashType (byte : UInt8) : Int32 := Int32.ofNat byte.toNat

section CheckSig
variable (C : Crypto) (txTo : CTransaction) (nIn : Nat) (nHashType : Int32)
  (vchSig vchPubKey : Valtype) (scriptCode : CScript)

/-- The signature without its hash type, and the hash it should sign; nothing if `CheckSig` returns
false without looking. -/
def signedHash : Option (Valtype × Uint256) :=
  match vchSig.getLast? with
  | none => none
  | some back =>
    if nHashType ≠ 0 ∧ nHashType ≠ byteHashType back then none
    else
      let nHashType := if nHashType = 0 then byteHashType back else nHashType
      some (vchSig.dropLast, signatureHash C scriptCode txTo nIn nHashType)

def checkSig : Bool :=
  match signedHash C txTo nIn nHashType vchSig scriptCode with
  | none => false
  | some (vchSig, sighash) => C.verify vchPubKey sighash vchSig

end CheckSig

section VerifyScript
variable (C : Crypto) (checkSig : SigChecker)

def callEvalScript (stack : Stack) (script : CScript) : Metered Halt (Option Stack) :=
  (evalScript C checkSig stack script).attempt Halt.caught

def verifyPubKey (scriptSig scriptPubKey : CScript) : Metered Halt (Option Stack) := do
  match ← callEvalScript C checkSig [] scriptSig with
  | none => pure none
  | some stackCopy =>
    match ← callEvalScript C checkSig stackCopy scriptPubKey with
    | none | some [] => pure none
    | some (back :: _) => pure (if castToBool back then some stackCopy else none)

/-- The part for scripts behind script hashes. `stackCopy.back()` has no check of its own. -/
def verifyRedeem : Stack → Metered Halt Bool
  | [] => liftM (Except.error Halt.undefined)
  | pubKeySerialized :: stackCopy => do
      match ← callEvalScript C checkSig stackCopy pubKeySerialized with
      | none | some [] => pure false
      | some (back :: _) => pure (castToBool back)

def verifyScriptWith (scriptSig scriptPubKey : CScript) (fValidatePayToScriptHash : Bool) :
    Metered Halt Bool := do
  match ← verifyPubKey C checkSig scriptSig scriptPubKey with
  | none => pure false
  | some stackCopy =>
    if fValidatePayToScriptHash && isPayToScriptHash scriptPubKey then
      if isPushOnly scriptSig then verifyRedeem C checkSig stackCopy else pure false
    else pure true

end VerifyScript

def verifyScript (C : Crypto) (scriptSig scriptPubKey : CScript) (txTo : CTransaction) (nIn : Nat)
    (fValidatePayToScriptHash : Bool) (nHashType : Int32) : Metered Halt Bool :=
  verifyScriptWith C (checkSig C txTo nIn nHashType) scriptSig scriptPubKey fValidatePayToScriptHash

def Primitives.interpreting (P : Primitives) (C : Crypto) : Primitives :=
  { P with
    verifyScript := fun scriptSig scriptPubKey txTo nIn fValidatePayToScriptHash nHashType =>
      decide ((Model.verifyScript C scriptSig scriptPubKey txTo nIn fValidatePayToScriptHash nHashType).result =
        .ok true) }

end RitCoin.Model
