import RitCoin.Lib.Outcome

/-!
# Transactions, blocks and index records

The data types of `base/transaction.h`, `base/block.h` and `base/index.h`, the constants of
`statics.h`, and the functions the code takes from outside the repository.
-/

namespace RitCoin.Model
open Lib

abbrev Uint256 := BitVec 256

instance : Std.TransOrd Uint256 := BitVec.instTransOrd

abbrev CScript := List UInt8

structure COutPoint where
  hash : Uint256
  n : UInt32
deriving DecidableEq, Repr

def COutPoint.isNull (o : COutPoint) : Bool :=
  o.hash == 0 && o.n == 0xffffffff

structure CTxIn where
  prevout : COutPoint
  scriptSig : CScript
  nSequence : UInt32
deriving DecidableEq, Repr

def CTxIn.isFinal (txin : CTxIn) : Bool :=
  txin.nSequence == 0xffffffff

structure CTxOut where
  nValue : Int64
  scriptPubKey : CScript
deriving DecidableEq, Repr

def CTxOut.isEmpty (txout : CTxOut) : Bool :=
  txout.nValue == 0 && txout.scriptPubKey.isEmpty

structure CTransaction where
  nVersion : Int32
  nTime : UInt32
  vin : List CTxIn
  vout : List CTxOut
  nLockTime : UInt32
deriving DecidableEq, Repr

def CTransaction.isCoinBase (tx : CTransaction) : Bool :=
  match tx.vin with
  | [txin] => txin.prevout.isNull && decide (1 ≤ tx.vout.length)
  | _ => false

structure CBlockHeader where
  nVersion : Int32
  hashPrevBlock : Uint256
  hashMerkleRoot : Uint256
  nTime : UInt32
  nBits : UInt32
  nNonce : UInt32
deriving DecidableEq, Repr

structure CBlock extends CBlockHeader where
  integrity : List UInt8
  authenticity : List UInt8
  vtx : List CTransaction
deriving DecidableEq, Repr

/-- Seconds. Time stamps are 32 bits wide and the code computes with them in 64, so no sum of theirs
wraps. -/
def CBlockHeader.getBlockTime (header : CBlockHeader) : Int := header.nTime.toNat

/-- A place in the block files; `CDiskTxPos` is null when `nFile` is -1. -/
structure DiskPos where
  nFile : Nat
  nBlockPos : Nat
  nTxPos : Nat
deriving DecidableEq, Repr

abbrev CDiskTxPos := Option DiskPos

structure CTxIndex where
  pos : CDiskTxPos
  vSpent : List CDiskTxPos
deriving DecidableEq, Repr

def CTxIndex.new (pos : DiskPos) (nOutputs : Nat) : CTxIndex :=
  ⟨some pos, List.replicate nOutputs none⟩

/-- An entry of `mapBlockIndex`. A pointer to an entry is the entry's key. -/
structure CBlockIndex where
  pprev : Option Uint256
  pnext : Option Uint256
  nFile : Nat
  nBlockPos : Nat
  bnChainTrust : Int
  nHeight : Int
  nMint : Int64
  nMoneySupply : Int64
  nVersion : Int32
  hashMerkleRoot : Uint256
  nTime : UInt32
  nBits : UInt32
  nNonce : UInt32
deriving DecidableEq, Repr

def CBlockIndex.getBlockTime (pindex : CBlockIndex) : Int := pindex.nTime.toNat

structure CDiskBlockIndex where
  hashNext : Uint256
  nFile : Nat
  nBlockPos : Nat
  nHeight : Int
  nMint : Int64
  nMoneySupply : Int64
  nVersion : Int32
  hashPrev : Uint256
  hashMerkleRoot : Uint256
  nTime : UInt32
  nBits : UInt32
  nNonce : UInt32
deriving DecidableEq, Repr

def CDiskBlockIndex.header (d : CDiskBlockIndex) : CBlockHeader :=
  ⟨d.nVersion, d.hashPrev, d.hashMerkleRoot, d.nTime, d.nBits, d.nNonce⟩

def CDiskBlockIndex.ofIndex (pindex : CBlockIndex) : CDiskBlockIndex where
  hashNext := pindex.pnext.getD 0
  nFile := pindex.nFile
  nBlockPos := pindex.nBlockPos
  nHeight := pindex.nHeight
  nMint := pindex.nMint
  nMoneySupply := pindex.nMoneySupply
  nVersion := pindex.nVersion
  hashPrev := pindex.pprev.getD 0
  hashMerkleRoot := pindex.hashMerkleRoot
  nTime := pindex.nTime
  nBits := pindex.nBits
  nNonce := pindex.nNonce

def COIN : Int64 := 100000000
def CENT : Int64 := 1000000
def MAX_BLOCK_SIZE : Nat := 10000000
def MAX_BLOCK_SIGOPS : Nat := MAX_BLOCK_SIZE / 50
def MAX_SIZE : Nat := 0x02000000
def TX_FEE : Int64 := CENT
def MAX_MONEY : Int64 := 100000000 * COIN
def MIN_TXOUT_AMOUNT : Int64 := TX_FEE
def LOCKTIME_THRESHOLD : Int := 500000000
def MIN_BLOCK_SPACING : Int := 30
def nMaxClockDrift : Int := 3 * 60
def nCoinbaseMaturity : Int := 5
def bnProofOfWorkLimit : Int := 2 ^ 251 - 1

def moneyRange (nValue : Int64) : Bool :=
  decide (0 ≤ nValue) && decide (nValue ≤ MAX_MONEY)

/-- What ends the process where the code has undefined behaviour or a failed assertion. -/
inductive Fault
  | nullPointer
  | outOfRange
  | assertion
deriving DecidableEq, Repr

/-- How a function ends when it does not return true: it returns false after adding to `nDoS` and
printing its messages, of which the format strings are kept, it throws, or the process ends. -/
inductive Failure
  | reject (nDoS : Nat) (messages : List String)
  | throw (what : String)
  | stop (fault : Fault)
deriving DecidableEq, Repr

abbrev Check := Except Failure

def DoS (nDoS : Nat) (message : String) : Failure := .reject nDoS [message]

def error (message : String) : Failure := .reject 0 [message]

def Failure.caller (nDoS : Nat → Nat) (message : String) : Failure → Failure
  | .reject inner messages => .reject (nDoS inner) (messages ++ [message])
  | failure => failure

/-- `return false` in the caller, which keeps the `nDoS` of a transaction out of the block's. -/
def Failure.silent : Failure → Failure
  | .reject _ messages => .reject 0 messages
  | failure => failure

/-- OpenSSL's functions and the script interpreter, as the code calls them: `hashTx` is
`SerializeHash` of a transaction, `hashHeader` is `Hash` over a header, `hashPair` is `Hash` over
two tree nodes, and `rsaPublicDecrypt` gets the length and the 512 bytes it is called with. -/
structure Primitives where
  hashTx : CTransaction → Uint256
  hashHeader : CBlockHeader → Uint256
  hashPair : Uint256 → Uint256 → Uint256
  rsaPublicDecrypt : Nat → List UInt8 → Option (List UInt8)
  sha512 : List UInt8 → List UInt8
  verifyScript : CScript → CScript → CTransaction → Nat → Bool → Int32 → Bool

def Primitives.getHash (P : Primitives) (block : CBlock) : Uint256 :=
  P.hashHeader block.toCBlockHeader

end RitCoin.Model
