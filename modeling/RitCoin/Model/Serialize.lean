import RitCoin.Lib.Codec
import RitCoin.Model.Files

/-!
# Serialization

The templates of `serialize.h` as transactions and blocks use them.
-/

namespace RitCoin.Model
open Lib

def writeCompactSize (nSize : Nat) : List UInt8 :=
  if nSize < 253 then leBytes 1 nSize
  else if nSize ≤ 0xffff then leBytes 1 253 ++ leBytes 2 nSize
  else if nSize ≤ 0xffffffff then leBytes 1 254 ++ leBytes 4 nSize
  else leBytes 1 255 ++ leBytes 8 nSize

def serializeBytes (v : List UInt8) : List UInt8 := writeCompactSize v.length ++ v

def serializeVector {α : Type} (elem : α → List UInt8) (v : List α) : List UInt8 :=
  writeCompactSize v.length ++ v.flatMap elem

def COutPoint.serialize (o : COutPoint) : List UInt8 := leBytes 32 o.hash.toNat ++ leBytes 4 o.n.toNat

def CTxIn.serialize (txin : CTxIn) : List UInt8 :=
  txin.prevout.serialize ++ (serializeBytes txin.scriptSig ++ leBytes 4 txin.nSequence.toNat)

def CTxOut.serialize (txout : CTxOut) : List UInt8 :=
  leBytes 8 txout.nValue.toUInt64.toNat ++ serializeBytes txout.scriptPubKey

def CTransaction.serialize (tx : CTransaction) : List UInt8 :=
  leBytes 4 tx.nVersion.toUInt32.toNat ++ (leBytes 4 tx.nTime.toNat ++
    (serializeVector CTxIn.serialize tx.vin ++ (serializeVector CTxOut.serialize tx.vout ++
      leBytes 4 tx.nLockTime.toNat)))

def CBlock.serialize (block : CBlock) : List UInt8 :=
  leBytes 4 block.nVersion.toUInt32.toNat ++ (leBytes 32 block.hashPrevBlock.toNat ++
    (leBytes 32 block.hashMerkleRoot.toNat ++ (leBytes 4 block.nTime.toNat ++
      (leBytes 4 block.nBits.toNat ++ (leBytes 4 block.nNonce.toNat ++
        (serializeBytes block.integrity ++ (serializeBytes block.authenticity ++
          serializeVector CTransaction.serialize block.vtx)))))))

/-- `sizeof` of the elements of a vector, which depends on the platform. -/
structure ElementSize where
  bytes : Nat
  positive : 0 < bytes
  small : bytes ≤ 5000000

structure Layout where
  txIn : ElementSize
  txOut : ElementSize
  transaction : ElementSize

section Reading
variable {σ : Type} (read : Nat → StateT σ Check (List UInt8))

def readNumber (width : Nat) : StateT σ Check Nat := do
  let bytes ← read width
  pure (ofLe bytes)

def compactSizeAfter (chSize : Nat) : StateT σ Check Nat :=
  if chSize < 253 then pure chSize
  else if chSize = 253 then readNumber read 2
  else if chSize = 254 then readNumber read 4
  else readNumber read 8

def readCompactSize : StateT σ Check Nat := do
  let chSize ← readNumber read 1
  let nSizeRet ← compactSizeAfter read chSize
  if nSizeRet > MAX_SIZE then throw (.throw "ReadCompactSize() : size too large") else pure nSizeRet

/-- The loop for vectors of bytes. Every round reads something, so the number of bytes left bounds
the rounds. -/
def readChunks : Nat → Nat → StateT σ Check (List UInt8)
  | 0, _ => pure []
  | fuel + 1, left =>
    if left = 0 then pure []
    else do
      let chunk ← read (min left (1 + 4999999 / 1))
      let rest ← readChunks fuel (left - min left (1 + 4999999 / 1))
      pure (chunk ++ rest)

def unserializeBytes : StateT σ Check (List UInt8) := do
  let nSize ← readCompactSize read
  readChunks read nSize nSize

variable {α : Type} (elem : StateT σ Check α) (sizeof : ElementSize)

def readElements : Nat → Nat → Nat → StateT σ Check (List α)
  | 0, _, _ => pure []
  | fuel + 1, nMid, nSize =>
    if nMid < nSize then do
      let nMidNext := min (nMid + 5000000 / sizeof.bytes) nSize
      let part ← many elem (nMidNext - nMid)
      let rest ← readElements fuel nMidNext nSize
      pure (part ++ rest)
    else pure []

def unserializeVector : StateT σ Check (List α) := do
  let nSize ← readCompactSize read
  readElements elem sizeof nSize 0 nSize

def COutPoint.unserialize : StateT σ Check COutPoint := do
  let bytes ← read 36
  pure ⟨BitVec.ofNat 256 (ofLe (bytes.take 32)), UInt32.ofNat (ofLe (bytes.drop 32))⟩

def CTxIn.unserialize : StateT σ Check CTxIn := do
  let prevout ← COutPoint.unserialize read
  let scriptSig ← unserializeBytes read
  let nSequence ← readNumber read 4
  pure ⟨prevout, scriptSig, UInt32.ofNat nSequence⟩

def CTxOut.unserialize : StateT σ Check CTxOut := do
  let nValue ← readNumber read 8
  let scriptPubKey ← unserializeBytes read
  pure ⟨(UInt64.ofNat nValue).toInt64, scriptPubKey⟩

variable (layout : Layout)

def CTransaction.unserialize : StateT σ Check CTransaction := do
  let nVersion ← readNumber read 4
  let nTime ← readNumber read 4
  let vin ← unserializeVector read (CTxIn.unserialize read) layout.txIn
  let vout ← unserializeVector read (CTxOut.unserialize read) layout.txOut
  let nLockTime ← readNumber read 4
  pure ⟨(UInt32.ofNat nVersion).toInt32, UInt32.ofNat nTime, vin, vout, UInt32.ofNat nLockTime⟩

def CBlock.unserialize : StateT σ Check CBlock := do
  let nVersion ← readNumber read 4
  let hashPrevBlock ← readNumber read 32
  let hashMerkleRoot ← readNumber read 32
  let nTime ← readNumber read 4
  let nBits ← readNumber read 4
  let nNonce ← readNumber read 4
  let integrity ← unserializeBytes read
  let authenticity ← unserializeBytes read
  let vtx ← unserializeVector read (CTransaction.unserialize read layout) layout.transaction
  pure
    { nVersion := (UInt32.ofNat nVersion).toInt32
      hashPrevBlock := BitVec.ofNat 256 hashPrevBlock
      hashMerkleRoot := BitVec.ofNat 256 hashMerkleRoot
      nTime := UInt32.ofNat nTime
      nBits := UInt32.ofNat nBits
      nNonce := UInt32.ofNat nNonce
      integrity := integrity
      authenticity := authenticity
      vtx := vtx }

end Reading

def pchMessageStart : List UInt8 := [0xad, 0xac, 0xaa, 0xab]

def CAutoFile.read (nSize : Nat) : StateT (List UInt8) Check (List UInt8) := fun bytes =>
  if nSize ≤ bytes.length then .ok (bytes.take nSize, bytes.drop nSize)
  else .error (.throw "CAutoFile::read : end of file")

def fileBytes : List (Nat × CBlock) → Nat → List UInt8
  | [], _ => []
  | (nFile, block) :: older, n =>
    fileBytes older n ++
      if nFile = n then pchMessageStart ++ (leBytes 4 block.getSerializeSize ++ block.serialize) else []

def CTransaction.readFromDisk (layout : Layout) (file : List UInt8) (pos : DiskPos) : Check CTransaction :=
  match CTransaction.unserialize CAutoFile.read layout (file.drop pos.nTxPos) with
  | .ok (tx, _) => .ok tx
  | .error _ => .error (error "%s() : deserialize or I/O error")

def bytesSize32 (bytes : List UInt8) : UInt32 :=
  UInt32.ofNat (getSizeOfCompactSize bytes.length + bytes.length * 1)

def vectorSize32 {α : Type} (elem : α → UInt32) (v : List α) : UInt32 :=
  v.foldl (fun nSize a => nSize + elem a) (UInt32.ofNat (getSizeOfCompactSize v.length))

def CTxIn.getSerializeSize32 (txin : CTxIn) : UInt32 := 36 + bytesSize32 txin.scriptSig + 4

def CTxOut.getSerializeSize32 (txout : CTxOut) : UInt32 := 8 + bytesSize32 txout.scriptPubKey

def CTransaction.getSerializeSize32 (tx : CTransaction) : UInt32 :=
  4 + 4 + vectorSize32 CTxIn.getSerializeSize32 tx.vin + vectorSize32 CTxOut.getSerializeSize32 tx.vout + 4

def CBlock.getSerializeSize32 (block : CBlock) : UInt32 :=
  4 + 32 + 32 + 4 + 4 + 4 + bytesSize32 block.integrity + bytesSize32 block.authenticity
    + vectorSize32 CTransaction.getSerializeSize32 block.vtx

end RitCoin.Model
