import RitCoin.Model.Types

/-!
# Serialized sizes and the block files

The sizes of `serialize.h` and the block files of `base/files.cpp`. Opening, seeking and writing succeed.
-/

namespace RitCoin.Model

def getSizeOfCompactSize (nSize : Nat) : Nat :=
  if nSize < 253 then 1
  else if nSize ≤ 0xffff then 3
  else if nSize ≤ 0xffffffff then 5
  else 9

def bytesSize (bytes : List UInt8) : Nat :=
  getSizeOfCompactSize bytes.length + bytes.length

def CTxIn.getSerializeSize (txin : CTxIn) : Nat := 36 + bytesSize txin.scriptSig + 4

def CTxOut.getSerializeSize (txout : CTxOut) : Nat := 8 + bytesSize txout.scriptPubKey

def CTransaction.getSerializeSize (tx : CTransaction) : Nat :=
  4 + 4
    + (getSizeOfCompactSize tx.vin.length + (tx.vin.map CTxIn.getSerializeSize).sum)
    + (getSizeOfCompactSize tx.vout.length + (tx.vout.map CTxOut.getSerializeSize).sum)
    + 4

def vtxSize (vtx : List CTransaction) : Nat :=
  getSizeOfCompactSize vtx.length + (vtx.map CTransaction.getSerializeSize).sum

def CBlock.getSerializeSize (block : CBlock) : Nat :=
  4 + 32 + 32 + 4 + 4 + 4 + bytesSize block.integrity + bytesSize block.authenticity
    + vtxSize block.vtx

def CBlock.txStart (block : CBlock) : Nat :=
  block.getSerializeSize - vtxSize block.vtx + getSizeOfCompactSize block.vtx.length

/-- The blocks written so far, newest first, each with the number of its file, and the file that
`AppendBlockFile` tries first. Every write appends to its file, so the list fixes all positions. -/
structure BlockFiles where
  writes : List (Nat × CBlock)
  nCurrentBlockFile : Nat
deriving DecidableEq, Repr

def fileSize : List (Nat × CBlock) → Nat → Nat
  | [], _ => 0
  | (nFile, block) :: older, n =>
    fileSize older n + if nFile = n then 8 + block.getSerializeSize else 0

/-- The loop of `AppendBlockFile`: a file at the limit is full. Every full file holds a block, so
the number of writes bounds the rounds. -/
def appendFrom (writes : List (Nat × CBlock)) : Nat → Nat → Nat
  | 0, nFile => nFile
  | fuel + 1, nFile =>
    if fileSize writes nFile < 0x7f000000 - MAX_SIZE then nFile
    else appendFrom writes fuel (nFile + 1)

def BlockFiles.appendBlockFile (files : BlockFiles) : Nat :=
  appendFrom files.writes files.writes.length files.nCurrentBlockFile

def BlockFiles.writeToDisk (files : BlockFiles) (block : CBlock) : BlockFiles × Nat × Nat :=
  let nFile := files.appendBlockFile
  (⟨(nFile, block) :: files.writes, nFile⟩, nFile, fileSize files.writes nFile + 8)

def readBlockAt : List (Nat × CBlock) → Nat → Nat → Option CBlock
  | [], _, _ => none
  | (n, block) :: older, nFile, nBlockPos =>
    if n = nFile ∧ fileSize older n + 8 = nBlockPos then some block
    else readBlockAt older nFile nBlockPos

def txAtOffset (offset : Nat) : Nat → List CTransaction → Option CTransaction
  | _, [] => none
  | start, tx :: rest =>
    if start = offset then some tx else txAtOffset offset (start + tx.getSerializeSize) rest

def readTxAt : List (Nat × CBlock) → Nat → Nat → Option CTransaction
  | [], _, _ => none
  | (n, block) :: older, nFile, nTxPos =>
    if n = nFile then
      match txAtOffset nTxPos (fileSize older n + 8 + block.txStart) block.vtx with
      | some tx => some tx
      | none => readTxAt older nFile nTxPos
    else readTxAt older nFile nTxPos

/-- `CTransaction::ReadFromDisk(pos)`, which seeks to `nTxPos` whatever `nBlockPos` is. -/
def BlockFiles.readTx (files : BlockFiles) : CDiskTxPos → Option CTransaction
  | none => none
  | some pos => readTxAt files.writes pos.nFile pos.nTxPos

end RitCoin.Model
