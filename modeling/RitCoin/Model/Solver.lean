import RitCoin.Model.SignatureHash

/-!
# Standard scripts

`Solver` and `SignSignature` of `script.cpp`.
-/

namespace RitCoin.Model
open Lib

inductive TxnOutType
  | TX_NONSTANDARD | TX_PUBKEY | TX_PUBKEYHASH | TX_SCRIPTHASH | TX_MULTISIG | TX_NULL_DATA
deriving DecidableEq, Repr

open TxnOutType

def OP_RETURN : UInt8 := 0x6a
def OP_DUP : UInt8 := 0x76
def OP_EQUALVERIFY : UInt8 := 0x88
def OP_SMALLDATA : UInt8 := 0xf9
def OP_SMALLINTEGER : UInt8 := 0xfa
def OP_PUBKEYS : UInt8 := 0xfb
def OP_PUBKEYHASH : UInt8 := 0xfd
def OP_PUBKEY : UInt8 := 0xfe

def mTemplates : List (TxnOutType × CScript) :=
  [(TX_PUBKEY, [OP_PUBKEY, OP_CHECKSIG]),
    (TX_PUBKEYHASH, [OP_DUP, OP_HASH160, OP_PUBKEYHASH, OP_EQUALVERIFY, OP_CHECKSIG]),
    (TX_MULTISIG, [OP_SMALLINTEGER, OP_PUBKEYS, OP_SMALLINTEGER, OP_CHECKMULTISIG]),
    (TX_NULL_DATA, [OP_RETURN, OP_SMALLDATA]),
    (TX_NULL_DATA, [OP_RETURN])]

def isKeySized (vch : Valtype) : Bool := 33 ≤ vch.length && vch.length ≤ 120

/-- The loop for `OP_PUBKEYS`: the solutions with the keys, and the operation after them. Where there
is none, no later part of a template matches. -/
def takeKeys : Nat → UInt8 × Valtype × CScript → List Valtype → (UInt8 × Valtype × CScript) × List Valtype
  | 0, op, vSolutions => (op, vSolutions)
  | fuel + 1, (opcode1, vch1, pc1), vSolutions =>
    if isKeySized vch1 then
      match getOp2 pc1 with
      | none => ((OP_INVALIDOPCODE, [], []), vSolutions ++ [vch1])
      | some op => takeKeys fuel op (vSolutions ++ [vch1])
    else ((opcode1, vch1, pc1), vSolutions)

def matchOp (opcode1 : UInt8) (vch1 : Valtype) (opcode2 : UInt8) (vch2 : Valtype)
    (vSolutions : List Valtype) : Option (List Valtype) :=
  if opcode2 = OP_PUBKEY then
    if isKeySized vch1 then some (vSolutions ++ [vch1]) else none
  else if opcode2 = OP_PUBKEYHASH then
    if vch1.length = 20 then some (vSolutions ++ [vch1]) else none
  else if opcode2 = OP_SMALLINTEGER then
    if opcode1 = 0 ∨ OP_1 ≤ opcode1 ∧ opcode1 ≤ OP_16 then
      some (vSolutions ++ [[UInt8.ofNat (decodeOpN opcode1)]]) else none
  else if opcode2 = OP_SMALLDATA then
    if vch1.length > 80 then none else some vSolutions
  else if opcode1 ≠ opcode2 ∨ vch1 ≠ vch2 then none
  else some vSolutions

/-- The comparison of a script with a template; each round reads an operation of the template. -/
def matchTemplate : Nat → CScript → CScript → List Valtype → Option (List Valtype)
  | 0, _, _, _ => none
  | fuel + 1, pc1, pc2, vSolutions =>
    if pc1 = [] ∧ pc2 = [] then some vSolutions
    else do
      let (opcode1, vch1, pc1) ← getOp2 pc1
      let (opcode2, vch2, pc2) ← getOp2 pc2
      if opcode2 = OP_PUBKEYS then
        let ((opcode1, vch1, pc1), vSolutions) := takeKeys (pc1.length + 1) (opcode1, vch1, pc1) vSolutions
        let (opcode2, vch2, pc2) ← getOp2 pc2
        let vSolutions ← matchOp opcode1 vch1 opcode2 vch2 vSolutions
        matchTemplate fuel pc1 pc2 vSolutions
      else
        let vSolutions ← matchOp opcode1 vch1 opcode2 vch2 vSolutions
        matchTemplate fuel pc1 pc2 vSolutions

def solutionByte (solution : Option Valtype) : UInt8 := (solution.bind List.head?).getD 0

structure Solved where
  matched : Bool
  typeRet : TxnOutType
  vSolutionsRet : List Valtype
deriving DecidableEq, Repr

def multisigIsValid (vSolutions : List Valtype) : Bool :=
  let m := solutionByte vSolutions.head?
  let n := solutionByte vSolutions.getLast?
  !(m < 1 || n < 1 || m > n || vSolutions.length - 2 != n.toNat)

def scanTemplates (script : CScript) : List (TxnOutType × CScript) → Solved
  | [] => ⟨false, TX_NONSTANDARD, []⟩
  | (typeRet, template) :: rest =>
    match matchTemplate (template.length + 1) script template [] with
    | some vSolutions => ⟨typeRet != TX_MULTISIG || multisigIsValid vSolutions, typeRet, vSolutions⟩
    | none => scanTemplates script rest

def solver (scriptPubKey : CScript) : Solved :=
  if isPayToScriptHash scriptPubKey then ⟨true, TX_SCRIPTHASH, [(scriptPubKey.drop 2).take 20]⟩
  else scanTemplates scriptPubKey mTemplates

def scriptSigArgsExpected (t : TxnOutType) (vSolutions : List Valtype) : Int :=
  match t with
  | TX_NONSTANDARD | TX_NULL_DATA => -1
  | TX_PUBKEY => 1
  | TX_PUBKEYHASH => 2
  | TX_MULTISIG =>
    match vSolutions.head?.bind List.head? with
    | none => -1
    | some m => m.toNat + 1
  | TX_SCRIPTHASH => 1

def isStandardScript (scriptPubKey : CScript) : Bool × TxnOutType :=
  let solved := solver scriptPubKey
  if ¬ solved.matched then (false, solved.typeRet)
  else
    let m := solutionByte solved.vSolutionsRet.head?
    let n := solutionByte solved.vSolutionsRet.getLast?
    if solved.typeRet = TX_MULTISIG ∧ (n < 1 ∨ n > 3 ∨ m < 1 ∨ m > n) then (false, TX_MULTISIG)
    else (solved.typeRet != TX_NONSTANDARD, solved.typeRet)

abbrev CKeyID := Digest 20

structure CKey where
  getPubKey : Valtype
  sign : Uint256 → Option (List UInt8)

structure CKeyStore where
  getKey : CKeyID → Option CKey
  getPubKey : CKeyID → Option Valtype
  getCScript : CKeyID → Option CScript

def uint160OfVch (vch : Valtype) : Digest 20 :=
  if h : vch.length = 20 then ⟨vch, h⟩ else ⟨List.replicate 20 0, List.length_replicate⟩

section Signing
variable (C : Crypto) (keystore : CKeyStore) (hash : Uint256) (nHashType : Int32)

def sign1 (address : CKeyID) (scriptSig : CScript) : Bool × CScript :=
  match (keystore.getKey address).bind fun key => key.sign hash with
  | none => (false, scriptSig)
  | some vchSig => (true, scriptSig ++ pushData (vchSig ++ [nHashType.toUInt32.toUInt8]))

def signKeys (nRequired : Nat) : List Valtype → Nat → CScript → Nat × CScript
  | [], nSigned, scriptSig => (nSigned, scriptSig)
  | pubkey :: rest, nSigned, scriptSig =>
    match sign1 keystore hash nHashType (C.hash160 pubkey) scriptSig with
    | (false, scriptSig) => signKeys nRequired rest nSigned scriptSig
    | (true, scriptSig) =>
      if nSigned + 1 = nRequired then (nSigned + 1, scriptSig)
      else signKeys nRequired rest (nSigned + 1) scriptSig

def signN (multisigdata : List Valtype) (scriptSig : CScript) : Bool × CScript :=
  let nRequired := (solutionByte multisigdata.head?).toNat
  let (nSigned, scriptSig) :=
    signKeys C keystore hash nHashType nRequired multisigdata.tail.dropLast 0 scriptSig
  (nSigned == nRequired, scriptSig)

def solverSign (scriptPubKey : CScript) : Bool × CScript × TxnOutType :=
  let solved := solver scriptPubKey
  let first := (solved.vSolutionsRet.head?).getD []
  if ¬ solved.matched then (false, [], solved.typeRet)
  else
    match solved.typeRet with
    | TX_NONSTANDARD => (false, [], TX_NONSTANDARD)
    | TX_NULL_DATA => (false, [], TX_NULL_DATA)
    | TX_PUBKEY =>
      let (signed, scriptSig) := sign1 keystore hash nHashType (C.hash160 first) []
      (signed, scriptSig, TX_PUBKEY)
    | TX_PUBKEYHASH =>
      let keyID := uint160OfVch first
      match sign1 keystore hash nHashType keyID [] with
      | (false, scriptSig) => (false, scriptSig, TX_PUBKEYHASH)
      | (true, scriptSig) =>
        -- a key without a public key pushes an empty vector
        (true, scriptSig ++ pushData ((keystore.getPubKey keyID).getD []), TX_PUBKEYHASH)
    | TX_SCRIPTHASH =>
      match keystore.getCScript (uint160OfVch first) with
      | none => (false, [], TX_SCRIPTHASH)
      | some redeemScript => (true, redeemScript, TX_SCRIPTHASH)
    | TX_MULTISIG =>
      let (signed, scriptSig) := signN C keystore hash nHashType solved.vSolutionsRet [0]
      (signed, scriptSig, TX_MULTISIG)

end Signing

def CTransaction.setScriptSig (tx : CTransaction) (nIn : Nat) (scriptSig : CScript) : CTransaction :=
  { tx with vin := tx.vin.modify nIn fun txin => { txin with scriptSig := scriptSig } }

def produceScriptSig (C : Crypto) (keystore : CKeyStore) (fromPubKey : CScript) (txTo : CTransaction)
    (nIn : Nat) (nHashType : Int32) : Bool × CScript :=
  let hash := signatureHash C fromPubKey txTo nIn nHashType
  match solverSign C keystore hash nHashType fromPubKey with
  | (false, scriptSig, _) => (false, scriptSig)
  | (true, subscript, TX_SCRIPTHASH) =>
    let txTo := txTo.setScriptSig nIn subscript
    let hash2 := signatureHash C subscript txTo nIn nHashType
    let (signed, scriptSig, subType) := solverSign C keystore hash2 nHashType subscript
    (signed && subType != TX_SCRIPTHASH, scriptSig ++ pushData subscript)
  | (true, scriptSig, _) => (true, scriptSig)

def signSignature (C : Crypto) (keystore : CKeyStore) (fromPubKey : CScript) (txTo : CTransaction)
    (nIn : Nat) (nHashType : Int32) : Check (Bool × CTransaction) := do
  failIf (nIn ≥ txTo.vin.length) (.stop .assertion)
  let (solved, scriptSig) := produceScriptSig C keystore fromPubKey txTo nIn nHashType
  let txTo := txTo.setScriptSig nIn scriptSig
  if solved then
    match (verifyScript C scriptSig fromPubKey txTo nIn true 0).result with
    | .ok verified => pure (verified, txTo)
    | .error _ => throw (.stop .outOfRange)
  else pure (false, txTo)

end RitCoin.Model
