import RitCoin.Lib.Framing
import RitCoin.Model.DataStream
import RitCoin.Model.Serialize

/-!
# Receiving messages

`CMessageHeader` of `protocol.cpp`, the loop of `ProcessMessages` in `messages.cpp`, and how the socket
thread of `net.cpp` fills the buffer. A message that is dispatched is its command and its bytes; what the
handlers do with it does not touch the buffer.
-/

namespace RitCoin.Model
open Lib

structure CMessageHeader where
  pchMessageStart : List UInt8
  pchCommand : List UInt8
  nMessageSize : UInt32
  nChecksum : UInt32
deriving DecidableEq, Repr

namespace CMessageHeader

def COMMAND_SIZE : Nat := 12

def nHeaderSize : Nat := 24

def new (pszCommand : List UInt8) (nMessageSizeIn : UInt32) : CMessageHeader where
  pchMessageStart := Model.pchMessageStart
  pchCommand := (pszCommand ++ List.replicate COMMAND_SIZE 0).take COMMAND_SIZE
  nMessageSize := nMessageSizeIn
  nChecksum := 0

def serialize (hdr : CMessageHeader) : List UInt8 :=
  hdr.pchMessageStart ++ (hdr.pchCommand ++ (leBytes 4 hdr.nMessageSize.toNat ++
    leBytes 4 hdr.nChecksum.toNat))

def unserialize {σ : Type} (read : Nat → StateT σ Check (List UInt8)) : StateT σ Check CMessageHeader := do
  let pchMessageStart ← read 4
  let pchCommand ← read COMMAND_SIZE
  let nMessageSize ← readNumber read 4
  let nChecksum ← readNumber read 4
  pure ⟨pchMessageStart, pchCommand, UInt32.ofNat nMessageSize, UInt32.ofNat nChecksum⟩

def commandValid : List UInt8 → Bool
  | [] => true
  | c :: rest =>
    if c = 0 then rest.all (· = 0)
    else if c < 0x20 ∨ c > 0x7e then false
    else commandValid rest

def isValid (hdr : CMessageHeader) : Bool :=
  hdr.pchMessageStart == Model.pchMessageStart && commandValid hdr.pchCommand &&
    decide (hdr.nMessageSize.toNat ≤ MAX_SIZE)

def getCommand (hdr : CMessageHeader) : List UInt8 :=
  if hdr.pchCommand[COMMAND_SIZE - 1]? = some 0 then hdr.pchCommand.takeWhile (· ≠ 0) else hdr.pchCommand

end CMessageHeader

structure RawMessage where
  strCommand : List UInt8
  vMsg : List UInt8
deriving DecidableEq, Repr

section Receiving
variable (hash : List UInt8 → Uint256)

def checksum (bytes : List UInt8) : UInt32 := UInt32.ofNat (hash bytes).toNat

inductive Round
  | stop (vRecv : CDataStream)
  | next (vRecv : CDataStream)
  | dispatch (message : RawMessage) (vRecv : CDataStream)
deriving DecidableEq, Repr

def processHeader (vHeaderSave : List UInt8) (hdr : CMessageHeader) (vRecv : CDataStream) : Check Round :=
  if ¬ hdr.isValid then pure (.next vRecv)
  else if hdr.nMessageSize.toNat > MAX_SIZE then pure (.next vRecv)
  else if hdr.nMessageSize.toNat > vRecv.size then pure (.stop (vRecv.insertFront vHeaderSave))
  else
    let vMsg := vRecv.bytes.take hdr.nMessageSize.toNat
    if checksum hash vMsg ≠ hdr.nChecksum then pure (.next vRecv)
    else do
      let vRecv ← vRecv.ignore hdr.nMessageSize.toNat
      pure (.dispatch ⟨hdr.getCommand, vMsg⟩ vRecv)

open CMessageHeader in
def processRound (vRecv : CDataStream) : Check Round :=
  let pstart := search pchMessageStart vRecv.bytes
  if vRecv.size - pstart < nHeaderSize then
    -- the size is cast to `int`
    if (Int32.ofNat vRecv.size).toInt > nHeaderSize then
      pure (.stop (vRecv.eraseFront (vRecv.size - nHeaderSize)))
    else pure (.stop vRecv)
  else do
    let vRecv := vRecv.eraseFront pstart
    let vHeaderSave := vRecv.bytes.take nHeaderSize
    let (hdr, vRecv) ← CMessageHeader.unserialize CDataStream.read vRecv
    processHeader hash vHeaderSave hdr vRecv

/-- Every round that goes on has read a header, so the size of the buffer bounds the rounds. -/
def processLoop : Nat → CDataStream → Check (List RawMessage × CDataStream)
  | 0, vRecv => pure ([], vRecv)
  | fuel + 1, vRecv => do
      match ← processRound hash vRecv with
      | .stop vRecv => pure ([], vRecv)
      | .next vRecv => processLoop fuel vRecv
      | .dispatch message vRecv =>
        let (messages, vRecv) ← processLoop fuel vRecv
        pure (message :: messages, vRecv)

def processMessages (vRecv : CDataStream) : Check (List RawMessage × CDataStream) :=
  if vRecv.size = 0 then pure ([], vRecv)
  else do
    let (messages, vRecv) ← processLoop hash (vRecv.size + 1) vRecv
    pure (messages, vRecv.compact)

def floodControl : Failure := error "socket recv flood control disconnect (%d bytes)"

/-- `sizeof(pchBuf)`: what one call of `recv` can return. -/
def pchBufSize : Nat := 0x10000

/-- Flood control looks at the buffer before `recv` fills `pchBuf`. -/
def socketRecv (nReceiveBufferSize : UInt32) (vRecv : CDataStream) (pchBuf : List UInt8) : Check CDataStream := do
  let nPos := UInt32.ofNat vRecv.size
  failIf (nPos > nReceiveBufferSize) floodControl
  (vRecv.resize (nPos + UInt32.ofNat pchBuf.length).toNat).overwrite nPos.toNat pchBuf

/-- Chunks arrive and `ProcessMessages` runs after each. -/
def receiveChunks (nReceiveBufferSize : UInt32) :
    CDataStream → List (List UInt8) → Check (List RawMessage × CDataStream)
  | vRecv, [] => pure ([], vRecv)
  | vRecv, chunk :: rest => do
      let vRecv ← socketRecv nReceiveBufferSize vRecv chunk
      let (messages, vRecv) ← processMessages hash vRecv
      let (others, vRecv) ← receiveChunks nReceiveBufferSize vRecv rest
      pure (messages ++ others, vRecv)

end Receiving

end RitCoin.Model
