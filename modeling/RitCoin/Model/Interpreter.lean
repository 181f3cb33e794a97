import RitCoin.Lib.Metered
import RitCoin.Model.BigNum
import RitCoin.Model.Script

/-!
# The script interpreter

`EvalScript` of `script.cpp`. A stack is a list with its top first, so `stacktop(-i)` is the element
at `i - 1`. Opcodes that the interpreter refuses before its `switch` have no case here.
-/

namespace RitCoin.Model
open Lib

abbrev Valtype := List UInt8

abbrev Stack := List Valtype

abbrev Digest (n : Nat) := List.Vector UInt8 n

/-- OpenSSL's functions, as scripts use them: `verify vchPubKey hash vchSig` is `SetPubKey` followed
by `Verify`. -/
structure Crypto where
  ripemd160 : List UInt8 → Digest 20
  sha1 : List UInt8 → Digest 20
  sha256 : List UInt8 → Digest 32
  verify : Valtype → Uint256 → Valtype → Bool

def Crypto.hash160 (C : Crypto) (bytes : List UInt8) : Digest 20 :=
  C.ripemd160 (C.sha256 bytes).toList

def Crypto.hash (C : Crypto) (bytes : List UInt8) : Digest 32 := C.sha256 (C.sha256 bytes).toList

/-- How an evaluation ends early: it returns false, one of the calls below throws, which is caught,
or it leaves the bounds of a vector. -/
inductive Halt
  | fail
  /-- `CastToBigNum` -/
  | overflow
  /-- `popstack` -/
  | stackEmpty
  /-- `at` -/
  | outOfRange
  | undefined
deriving DecidableEq, Repr

def Halt.caught : Halt → Bool
  | .undefined => false
  | _ => true

def need (n : Nat) (stack : Stack) : Except Halt Unit := failIf (stack.length < n) .fail

def stacktop (stack : Stack) : Nat → Except Halt Valtype
  | 0 => .error .outOfRange
  | i + 1 =>
    match stack[i]? with
    | some vch => .ok vch
    | none => .error .outOfRange

def popstack : Stack → Except Halt Stack
  | [] => .error .stackEmpty
  | _ :: rest => .ok rest

def popstacks : Nat → Stack → Except Halt Stack
  | 0, stack => .ok stack
  | n + 1, stack => do
      let stack ← popstack stack
      popstacks n stack

def swapTop (stack : Stack) (i j : Nat) : Except Halt Stack := do
  let vch1 ← stacktop stack i
  let vch2 ← stacktop stack j
  pure ((stack.set (i - 1) vch2).set (j - 1) vch1)

def eraseTop (stack : Stack) (first last : Nat) : Except Halt Stack :=
  if last ≤ first ∧ first ≤ stack.length then .ok (stack.take last ++ stack.drop first)
  else .error .undefined

def insertTop (stack : Stack) (i : Nat) (vch : Valtype) : Except Halt Stack :=
  if i ≤ stack.length then .ok (stack.take i ++ vch :: stack.drop i) else .error .undefined

def castToBool : Valtype → Bool
  | [] => false
  | byte :: rest =>
    -- the last byte can be negative zero
    if byte = 0 then castToBool rest else !(rest.isEmpty && byte == 0x80)

def nMaxNumSize : Nat := 4

def castToBigNum (vch : Valtype) : Except Halt Int :=
  if vch.length > nMaxNumSize then .error .overflow else .ok (setvch (getvch (setvch vch)))

def pushInt64 (n : Int64) : CScript :=
  if n = -1 ∨ 1 ≤ n ∧ n ≤ 16 then [(n + (OP_1.toUInt64.toInt64 - 1)).toUInt64.toUInt8]
  else pushData (getvch (setint64 n))

def vchBool (fValue : Bool) : Valtype := if fValue then [1] else []

def verifyTop (fVerify fSuccess : Bool) (stack : Stack) : Except Halt Stack :=
  if fVerify then if fSuccess then popstack stack else .error .fail else .ok stack

inductive UnaryOp
  | OP_1ADD | OP_1SUB | OP_NEGATE | OP_ABS | OP_NOT | OP_0NOTEQUAL
deriving DecidableEq, Repr

def UnaryOp.eval (bn : Int) : UnaryOp → Int
  | OP_1ADD => bn + 1
  | OP_1SUB => bn - 1
  | OP_NEGATE => -bn
  | OP_ABS => if bn < 0 then -bn else bn
  | OP_NOT => if bn = 0 then 1 else 0
  | OP_0NOTEQUAL => if bn ≠ 0 then 1 else 0

inductive BinaryOp
  | OP_ADD | OP_SUB | OP_BOOLAND | OP_BOOLOR | OP_NUMEQUAL | OP_NUMEQUALVERIFY | OP_NUMNOTEQUAL
  | OP_LESSTHAN | OP_GREATERTHAN | OP_LESSTHANOREQUAL | OP_GREATERTHANOREQUAL | OP_MIN | OP_MAX
deriving DecidableEq, Repr

def BinaryOp.eval (bn1 bn2 : Int) : BinaryOp → Int
  | OP_ADD => bn1 + bn2
  | OP_SUB => bn1 - bn2
  | OP_BOOLAND => if bn1 ≠ 0 ∧ bn2 ≠ 0 then 1 else 0
  | OP_BOOLOR => if bn1 ≠ 0 ∨ bn2 ≠ 0 then 1 else 0
  | OP_NUMEQUAL => if bn1 = bn2 then 1 else 0
  | OP_NUMEQUALVERIFY => if bn1 = bn2 then 1 else 0
  | OP_NUMNOTEQUAL => if bn1 ≠ bn2 then 1 else 0
  | OP_LESSTHAN => if bn1 < bn2 then 1 else 0
  | OP_GREATERTHAN => if bn1 > bn2 then 1 else 0
  | OP_LESSTHANOREQUAL => if bn1 ≤ bn2 then 1 else 0
  | OP_GREATERTHANOREQUAL => if bn1 ≥ bn2 then 1 else 0
  | OP_MIN => if bn1 < bn2 then bn1 else bn2
  | OP_MAX => if bn1 > bn2 then bn1 else bn2

inductive HashOp
  | OP_RIPEMD160 | OP_SHA1 | OP_SHA256 | OP_HASH160 | OP_HASH256
deriving DecidableEq, Repr

def HashOp.eval (C : Crypto) (vch : Valtype) : HashOp → Valtype
  | OP_RIPEMD160 => (C.ripemd160 vch).toList
  | OP_SHA1 => (C.sha1 vch).toList
  | OP_SHA256 => (C.sha256 vch).toList
  | OP_HASH160 => (C.hash160 vch).toList
  | OP_HASH256 => (C.hash vch).toList

inductive StackOp
  | OP_N (n : Int)
  | OP_VERIFY
  | OP_2DROP | OP_2DUP | OP_3DUP | OP_2OVER | OP_2ROT | OP_2SWAP | OP_IFDUP | OP_DEPTH | OP_DROP | OP_DUP
  | OP_NIP | OP_OVER
  | OP_PICK (fRoll : Bool)
  | OP_ROT | OP_SWAP | OP_TUCK
  | OP_SIZE
  | OP_EQUAL (fVerify : Bool)
  | unary (op : UnaryOp)
  | binary (op : BinaryOp)
  | OP_WITHIN
  | hash (op : HashOp)
deriving DecidableEq, Repr

def StackOp.run (C : Crypto) (stack : Stack) : StackOp → Except Halt Stack
  | OP_N n => pure (getvch n :: stack)
  | OP_VERIFY => do
      need 1 stack
      let vch ← stacktop stack 1
      if castToBool vch then popstack stack else throw .fail
  | OP_2DROP => do
      need 2 stack
      let stack ← popstack stack
      popstack stack
  | OP_2DUP => do
      need 2 stack
      let vch1 ← stacktop stack 2
      let vch2 ← stacktop stack 1
      pure (vch2 :: vch1 :: stack)
  | OP_3DUP => do
      need 3 stack
      let vch1 ← stacktop stack 3
      let vch2 ← stacktop stack 2
      let vch3 ← stacktop stack 1
      pure (vch3 :: vch2 :: vch1 :: stack)
  | OP_2OVER => do
      need 4 stack
      let vch1 ← stacktop stack 4
      let vch2 ← stacktop stack 3
      pure (vch2 :: vch1 :: stack)
  | OP_2ROT => do
      need 6 stack
      let vch1 ← stacktop stack 6
      let vch2 ← stacktop stack 5
      let stack ← eraseTop stack 6 4
      pure (vch2 :: vch1 :: stack)
  | OP_2SWAP => do
      need 4 stack
      let stack ← swapTop stack 4 2
      swapTop stack 3 1
  | OP_IFDUP => do
      need 1 stack
      let vch ← stacktop stack 1
      pure (if castToBool vch then vch :: stack else stack)
  | OP_DEPTH => pure (getvch stack.length :: stack)
  | OP_DROP => do
      need 1 stack
      popstack stack
  | OP_DUP => do
      need 1 stack
      let vch ← stacktop stack 1
      pure (vch :: stack)
  | OP_NIP => do
      need 2 stack
      eraseTop stack 2 1
  | OP_OVER => do
      need 2 stack
      let vch ← stacktop stack 2
      pure (vch :: stack)
  | OP_PICK fRoll => do
      need 2 stack
      let vch ← stacktop stack 1
      let bn ← castToBigNum vch
      let n := getint bn
      let stack ← popstack stack
      failIf (n < 0 ∨ n ≥ stack.length) .fail
      let vch ← stacktop stack (n.toNat + 1)
      let stack ← if fRoll then eraseTop stack (n.toNat + 1) n.toNat else pure stack
      pure (vch :: stack)
  | OP_ROT => do
      need 3 stack
      let stack ← swapTop stack 3 2
      swapTop stack 2 1
  | OP_SWAP => do
      need 2 stack
      swapTop stack 2 1
  | OP_TUCK => do
      need 2 stack
      let vch ← stacktop stack 1
      insertTop stack 2 vch
  | OP_SIZE => do
      need 1 stack
      let vch ← stacktop stack 1
      pure (getvch vch.length :: stack)
  | OP_EQUAL fVerify => do
      need 2 stack
      let vch1 ← stacktop stack 2
      let vch2 ← stacktop stack 1
      let fEqual := vch1 == vch2
      let stack ← popstacks 2 stack
      verifyTop fVerify fEqual (vchBool fEqual :: stack)
  | unary op => do
      need 1 stack
      let vch ← stacktop stack 1
      let bn ← castToBigNum vch
      let stack ← popstack stack
      pure (getvch (op.eval bn) :: stack)
  | binary op => do
      need 2 stack
      let vch1 ← stacktop stack 2
      let bn1 ← castToBigNum vch1
      let vch2 ← stacktop stack 1
      let bn2 ← castToBigNum vch2
      let bn := getvch (op.eval bn1 bn2)
      let stack ← popstacks 2 stack
      verifyTop (op == .OP_NUMEQUALVERIFY) (castToBool bn) (bn :: stack)
  | OP_WITHIN => do
      need 3 stack
      let vch1 ← stacktop stack 3
      let bn1 ← castToBigNum vch1
      let vch2 ← stacktop stack 2
      let bn2 ← castToBigNum vch2
      let vch3 ← stacktop stack 1
      let bn3 ← castToBigNum vch3
      let stack ← popstacks 3 stack
      pure (vchBool (decide (bn2 ≤ bn1 ∧ bn1 < bn3)) :: stack)
  | hash op => do
      need 1 stack
      let vch ← stacktop stack 1
      let stack ← popstack stack
      pure (op.eval C vch :: stack)

inductive Instruction
  | stack (op : StackOp)
  | OP_NOP
  | OP_IF (fNot : Bool)
  | OP_ELSE | OP_ENDIF | OP_RETURN | OP_TOALTSTACK | OP_FROMALTSTACK | OP_CODESEPARATOR
  | OP_CHECKSIG (fVerify : Bool)
  | OP_CHECKMULTISIG (fVerify : Bool)
deriving DecidableEq, Repr

def instruction (opcode : UInt8) : Option Instruction :=
  match opcode with
  | 0x61 => some .OP_NOP
  | 0x63 => some (.OP_IF false)
  | 0x64 => some (.OP_IF true)
  | 0x67 => some .OP_ELSE
  | 0x68 => some .OP_ENDIF
  | 0x69 => some (.stack .OP_VERIFY)
  | 0x6a => some .OP_RETURN
  | 0x6b => some .OP_TOALTSTACK
  | 0x6c => some .OP_FROMALTSTACK
  | 0x6d => some (.stack .OP_2DROP)
  | 0x6e => some (.stack .OP_2DUP)
  | 0x6f => some (.stack .OP_3DUP)
  | 0x70 => some (.stack .OP_2OVER)
  | 0x71 => some (.stack .OP_2ROT)
  | 0x72 => some (.stack .OP_2SWAP)
  | 0x73 => some (.stack .OP_IFDUP)
  | 0x74 => some (.stack .OP_DEPTH)
  | 0x75 => some (.stack .OP_DROP)
  | 0x76 => some (.stack .OP_DUP)
  | 0x77 => some (.stack .OP_NIP)
  | 0x78 => some (.stack .OP_OVER)
  | 0x79 => some (.stack (.OP_PICK false))
  | 0x7a => some (.stack (.OP_PICK true))
  | 0x7b => some (.stack .OP_ROT)
  | 0x7c => some (.stack .OP_SWAP)
  | 0x7d => some (.stack .OP_TUCK)
  | 0x82 => some (.stack .OP_SIZE)
  | 0x87 => some (.stack (.OP_EQUAL false))
  | 0x88 => some (.stack (.OP_EQUAL true))
  | 0x8b => some (.stack (.unary .OP_1ADD))
  | 0x8c => some (.stack (.unary .OP_1SUB))
  | 0x8f => some (.stack (.unary .OP_NEGATE))
  | 0x90 => some (.stack (.unary .OP_ABS))
  | 0x91 => some (.stack (.unary .OP_NOT))
  | 0x92 => some (.stack (.unary .OP_0NOTEQUAL))
  | 0x93 => some (.stack (.binary .OP_ADD))
  | 0x94 => some (.stack (.binary .OP_SUB))
  | 0x9a => some (.stack (.binary .OP_BOOLAND))
  | 0x9b => some (.stack (.binary .OP_BOOLOR))
  | 0x9c => some (.stack (.binary .OP_NUMEQUAL))
  | 0x9d => some (.stack (.binary .OP_NUMEQUALVERIFY))
  | 0x9e => some (.stack (.binary .OP_NUMNOTEQUAL))
  | 0x9f => some (.stack (.binary .OP_LESSTHAN))
  | 0xa0 => some (.stack (.binary .OP_GREATERTHAN))
  | 0xa1 => some (.stack (.binary .OP_LESSTHANOREQUAL))
  | 0xa2 => some (.stack (.binary .OP_GREATERTHANOREQUAL))
  | 0xa3 => some (.stack (.binary .OP_MIN))
  | 0xa4 => some (.stack (.binary .OP_MAX))
  | 0xa5 => some (.stack .OP_WITHIN)
  | 0xa6 => some (.stack (.hash .OP_RIPEMD160))
  | 0xa7 => some (.stack (.hash .OP_SHA1))
  | 0xa8 => some (.stack (.hash .OP_SHA256))
  | 0xa9 => some (.stack (.hash .OP_HASH160))
  | 0xaa => some (.stack (.hash .OP_HASH256))
  | 0xab => some .OP_CODESEPARATOR
  | 0xac => some (.OP_CHECKSIG false)
  | 0xad => some (.OP_CHECKSIG true)
  | 0xae => some (.OP_CHECKMULTISIG false)
  | 0xaf => some (.OP_CHECKMULTISIG true)
  | opcode =>
    -- OP_1NEGATE and OP_1 to OP_16, and OP_NOP1 to OP_NOP10
    if opcode = 0x4f ∨ OP_1 ≤ opcode ∧ opcode ≤ OP_16 then some (.stack (.OP_N (opcode.toNat - 0x50)))
    else if 0xb0 ≤ opcode ∧ opcode ≤ 0xb9 then some .OP_NOP
    else none

/-- The opcodes that make a script invalid wherever they stand: `OP_CAT` to `OP_RIGHT`, `OP_INVERT` to
`OP_XOR`, `OP_2MUL`, `OP_2DIV` and `OP_MUL` to `OP_RSHIFT`. -/
def isDisabled (opcode : UInt8) : Bool :=
  (0x7e ≤ opcode && opcode ≤ 0x81) || (0x83 ≤ opcode && opcode ≤ 0x86) || opcode == 0x8d || opcode == 0x8e
    || (0x95 ≤ opcode && opcode ≤ 0x99)

/-- The local variables of `EvalScript`. A position in the script is the script from there on; the
innermost condition comes first. -/
structure Machine where
  pc : CScript
  pbegincodehash : CScript
  stack : Stack
  altstack : Stack
  vfExec : List Bool
  nOpCount : Nat
deriving DecidableEq, Repr

def Machine.start (stack : Stack) (script : CScript) : Machine := ⟨script, script, stack, [], [], 0⟩

abbrev SigChecker := Valtype → Valtype → CScript → Bool

section Evaluation
variable (C : Crypto) (checkSig : SigChecker)

/-- `OP_CHECKSIG`. Calls of `checkSig` are what an evaluation pays for. -/
def Machine.opCheckSig (m : Machine) (fVerify : Bool) : Metered Halt Machine := do
  need 2 m.stack
  let vchSig ← stacktop m.stack 2
  let vchPubKey ← stacktop m.stack 1
  let scriptCode := (findAndDelete m.pbegincodehash (pushData vchSig)).1
  let fSuccess ← Metered.pay (checkSig vchSig vchPubKey scriptCode)
  let stack ← popstacks 2 m.stack
  let stack ← verifyTop fVerify fSuccess (vchBool fSuccess :: stack)
  pure { m with stack := stack }

def dropSigs (stack : Stack) : Nat → Nat → CScript → Except Halt CScript
  | 0, _, scriptCode => .ok scriptCode
  | k + 1, isig, scriptCode => do
      let vchSig ← stacktop stack isig
      dropSigs stack k (isig + 1) (findAndDelete scriptCode (pushData vchSig)).1

def matchSigs (stack : Stack) (scriptCode : CScript) (isig ikey : Nat) :
    (nSigsCount nKeysCount : Nat) → Metered Halt Bool
  | 0, _ => pure true
  | nSigsCount + 1, nKeysCount => do
      let vchSig ← stacktop stack isig
      let vchPubKey ← stacktop stack ikey
      let valid ← Metered.pay (checkSig vchSig vchPubKey scriptCode)
      let isig := if valid then isig + 1 else isig
      let nSigsCount := if valid then nSigsCount else nSigsCount + 1
      match nKeysCount with
      | 0 => pure false
      | nKeysCount + 1 =>
        if nSigsCount > nKeysCount then pure false
        else matchSigs stack scriptCode isig (ikey + 1) nSigsCount nKeysCount
termination_by structural _ nKeysCount => nKeysCount

def Machine.opCheckMultiSig (m : Machine) (fVerify : Bool) : Metered Halt Machine := do
  need 1 m.stack
  let vch ← stacktop m.stack 1
  let bn ← castToBigNum vch
  failIf (getint bn < 0 ∨ getint bn > 20) Halt.fail
  let nKeysCount := (getint bn).toNat
  let nOpCount := m.nOpCount + nKeysCount
  failIf (nOpCount > 201) Halt.fail
  let ikey := 2
  let i := ikey + nKeysCount
  need i m.stack
  let vch ← stacktop m.stack i
  let bn ← castToBigNum vch
  failIf (getint bn < 0 ∨ getint bn > nKeysCount) Halt.fail
  let nSigsCount := (getint bn).toNat
  let isig := i + 1
  let i := isig + nSigsCount
  need i m.stack
  let scriptCode ← dropSigs m.stack nSigsCount isig m.pbegincodehash
  let fSuccess ← matchSigs checkSig m.stack scriptCode isig ikey nSigsCount nKeysCount
  let stack ← popstacks i m.stack
  let stack ← verifyTop fVerify fSuccess (vchBool fSuccess :: stack)
  pure { m with stack := stack, nOpCount := nOpCount }

def Machine.execute (m : Machine) (fExec : Bool) : Instruction → Metered Halt Machine
  | .stack op => do
      let stack ← op.run C m.stack
      pure { m with stack := stack }
  | .OP_NOP => pure m
  | .OP_IF fNot =>
    if fExec then do
      need 1 m.stack
      let vch ← stacktop m.stack 1
      let stack ← popstack m.stack
      pure { m with stack := stack, vfExec := (castToBool vch != fNot) :: m.vfExec }
    else pure { m with vfExec := false :: m.vfExec }
  | .OP_ELSE =>
    match m.vfExec with
    | [] => liftM (Except.error Halt.fail)
    | fExec :: outer => pure { m with vfExec := (!fExec) :: outer }
  | .OP_ENDIF =>
    match m.vfExec with
    | [] => liftM (Except.error Halt.fail)
    | _ :: outer => pure { m with vfExec := outer }
  | .OP_RETURN => liftM (Except.error Halt.fail)
  | .OP_TOALTSTACK => do
      need 1 m.stack
      let vch ← stacktop m.stack 1
      let stack ← popstack m.stack
      pure { m with stack := stack, altstack := vch :: m.altstack }
  | .OP_FROMALTSTACK => do
      need 1 m.altstack
      let vch ← stacktop m.altstack 1
      let altstack ← popstack m.altstack
      pure { m with stack := vch :: m.stack, altstack := altstack }
  | .OP_CODESEPARATOR => pure { m with pbegincodehash := m.pc }
  | .OP_CHECKSIG fVerify => m.opCheckSig checkSig fVerify
  | .OP_CHECKMULTISIG fVerify => m.opCheckMultiSig checkSig fVerify

def Machine.fExec (m : Machine) : Bool := !m.vfExec.contains false

def Machine.dispatch (m : Machine) (opcode : UInt8) (vchPushValue : Valtype) : Metered Halt Machine :=
  if m.fExec && opcode ≤ OP_PUSHDATA4 then pure { m with stack := vchPushValue :: m.stack }
  else if m.fExec || (0x63 ≤ opcode && opcode ≤ 0x68) then
    match instruction opcode with
    | none => liftM (Except.error Halt.fail)
    | some instruction => m.execute C checkSig m.fExec instruction
  else pure m

def Machine.step (m : Machine) : Metered Halt Machine :=
  match getOp2 m.pc with
  | none => liftM (Except.error Halt.fail)
  | some (opcode, vchPushValue, pc) => do
      failIf (vchPushValue.length > 520) Halt.fail
      let nOpCount := if opcode > OP_16 then m.nOpCount + 1 else m.nOpCount
      failIf (opcode > OP_16 ∧ nOpCount > 201) Halt.fail
      failIf (isDisabled opcode) Halt.fail
      let m ← { m with pc := pc, nOpCount := nOpCount }.dispatch C checkSig opcode vchPushValue
      failIf (m.stack.length + m.altstack.length > 1000) Halt.fail
      pure m

/-- Each round consumes a byte, so the length of the script bounds the rounds. -/
def Machine.loop : Nat → Machine → Metered Halt Machine
  | 0, m => pure m
  | fuel + 1, m =>
    if m.pc = [] then pure m
    else do
      let m ← m.step C checkSig
      Machine.loop fuel m

def evalScript (stack : Stack) (script : CScript) : Metered Halt Stack := do
  failIf (script.length > 10000) Halt.fail
  let m ← (Machine.start stack script).loop C checkSig script.length
  failIf (m.vfExec ≠ []) Halt.fail
  pure m.stack

end Evaluation

end RitCoin.Model
