import RitCoin.Lib.Codec
import RitCoin.Model.Types

/-!
# Scripts as bytes

Reading, appending and deleting operations, from `CScript` in `script.h`, and the two `GetSigOpCount`
of `script.cpp`. The 32-bit counts are natural numbers: no vector of more than `MAX_SIZE` bytes is read, and
a byte adds at most 20.
-/

namespace RitCoin.Model
open Lib

def OP_PUSHDATA1 : UInt8 := 0x4c
def OP_PUSHDATA2 : UInt8 := 0x4d
def OP_PUSHDATA4 : UInt8 := 0x4e
def OP_1 : UInt8 := 0x51
def OP_16 : UInt8 := 0x60
def OP_EQUAL : UInt8 := 0x87
def OP_HASH160 : UInt8 := 0xa9
def OP_CHECKSIG : UInt8 := 0xac
def OP_CHECKSIGVERIFY : UInt8 := 0xad
def OP_CHECKMULTISIG : UInt8 := 0xae
def OP_CHECKMULTISIGVERIFY : UInt8 := 0xaf
def OP_INVALIDOPCODE : UInt8 := 0xff

def readLE (width : Nat) (script : CScript) : Option (Nat × CScript) :=
  if script.length < width then none
  else some ((script.take width).foldr (fun byte n => byte.toNat + 256 * n) 0, script.drop width)

def getOp2 : CScript → Option (UInt8 × List UInt8 × CScript)
  | [] => none
  | opcode :: rest =>
    if opcode ≤ OP_PUSHDATA4 then do
      let (nSize, rest) ←
        if opcode < OP_PUSHDATA1 then some (opcode.toNat, rest)
        else if opcode = OP_PUSHDATA1 then readLE 1 rest
        else if opcode = OP_PUSHDATA2 then readLE 2 rest
        else readLE 4 rest
      if rest.length < nSize then none
      else some (opcode, rest.take nSize, rest.drop nSize)
    else some (opcode, [], rest)

/-- The opcodes of a script up to the first that cannot be read, and whether all were read. Each
round consumes a byte, so the length of the script bounds the rounds. -/
def scanOpcodes : Nat → CScript → List (UInt8 × List UInt8) × Bool
  | 0, script => ([], script.isEmpty)
  | fuel + 1, script =>
    match script, getOp2 script with
    | [], _ => ([], true)
    | _, none => ([], false)
    | _, some (opcode, data, rest) =>
      let scanned := scanOpcodes fuel rest
      ((opcode, data) :: scanned.1, scanned.2)

def parseScript (script : CScript) : List (UInt8 × List UInt8) × Bool :=
  scanOpcodes script.length script

def decodeOpN (opcode : UInt8) : Nat := opcode.toNat - (OP_1.toNat - 1)

def countSigOps (fAccurate : Bool) : UInt8 → List UInt8 → Nat
  | _, [] => 0
  | lastOpcode, opcode :: rest =>
    (if opcode = OP_CHECKSIG ∨ opcode = OP_CHECKSIGVERIFY then 1
     else if opcode = OP_CHECKMULTISIG ∨ opcode = OP_CHECKMULTISIGVERIFY then
       if fAccurate ∧ OP_1 ≤ lastOpcode ∧ lastOpcode ≤ OP_16 then decodeOpN lastOpcode else 20
     else 0) + countSigOps fAccurate opcode rest

def getSigOpCount (fAccurate : Bool) (script : CScript) : Nat :=
  countSigOps fAccurate OP_INVALIDOPCODE ((parseScript script).1.map Prod.fst)

def isPayToScriptHash (script : CScript) : Bool :=
  script.length == 23 && script[0]? == some OP_HASH160 && script[1]? == some 0x14 &&
    script[22]? == some OP_EQUAL

def getSigOpCountFor (scriptPubKey scriptSig : CScript) : Nat :=
  if isPayToScriptHash scriptPubKey then
    let (ops, complete) := parseScript scriptSig
    if ¬ complete ∨ ops.any (fun op => decide (OP_16 < op.1)) then 0
    else getSigOpCount true ((ops.getLast?.map Prod.snd).getD [])
  else getSigOpCount true scriptPubKey

def isPushOnly (script : CScript) : Bool :=
  (parseScript script).2 && (parseScript script).1.all fun op => decide (op.1 ≤ OP_16)

def pushData (b : List UInt8) : CScript :=
  if b.length < OP_PUSHDATA1.toNat then leBytes 1 b.length ++ b
  else if b.length ≤ 0xff then OP_PUSHDATA1 :: (leBytes 1 b.length ++ b)
  else if b.length ≤ 0xffff then OP_PUSHDATA2 :: (leBytes 2 b.length ++ b)
  else OP_PUSHDATA4 :: (leBytes 4 b.length ++ b)

/-- `script << opcode`: what is appended. An `opcodetype` can have any value of an `int`. -/
def pushOpcode (opcode : Int) : Check CScript := do
  failIf (opcode < 0 ∨ 0xff < opcode) (.throw "CScript::operator<<() : invalid opcode")
  pure [UInt8.ofNat opcode.toNat]

inductive ScriptItem
  | data (b : List UInt8)
  | opcode (opcode : Int)

def appendAll (script : CScript) (items : List ScriptItem) : Check CScript :=
  items.foldlM (fun script item =>
    match item with
    | .data b => pure (script ++ pushData b)
    | .opcode opcode => do
        let byte ← pushOpcode opcode
        pure (script ++ byte)) script

/-- The loop of `FindAndDelete` from `pc` on: what it leaves from there on and how often it deletes.
Every round but the last deletes or skips a byte, so the length of the script bounds the rounds. -/
def deleteFrom (b : CScript) : Nat → CScript → CScript × Nat
  | 0, script => (script, 0)
  | fuel + 1, script =>
    if b.length ≤ script.length ∧ script.take b.length = b then
      let (left, nFound) := deleteFrom b fuel (script.drop b.length)
      (left, nFound + 1)
    else
      match getOp2 script with
      | none => (script, 0)
      | some (_, _, rest) =>
        let (left, nFound) := deleteFrom b fuel rest
        (script.take (script.length - rest.length) ++ left, nFound)

def findAndDelete (script b : CScript) : CScript × Nat :=
  if b.isEmpty then (script, 0) else deleteFrom b (script.length + 1) script

end RitCoin.Model
