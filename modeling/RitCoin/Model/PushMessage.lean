import RitCoin.Model.ProcessMessages

/-!
# Sending messages

`BeginMessage`, `AbortMessage`, `EndMessage` and `PushMessage` of `net.h`, and the part of the socket
thread in `net.cpp` that sends. A message is built in place at the end of `vSend`, under the lock
`cs_vSend`; the socket thread sends only if it gets the lock. Bytes that were sent stay in the buffer behind
`vSend` until everything is sent.
-/

namespace RitCoin.Model
open Lib

/-- `csVSend` is how often the thread that pushes has entered `cs_vSend`, and `wire` is what has been
sent. -/
structure Sender where
  vSend : CDataStream
  nHeaderStart : Int32
  nMessageStart : UInt32
  csVSend : Nat
  wire : List UInt8
deriving DecidableEq, Repr

namespace CMessageHeader

def MESSAGE_SIZE_OFFSET : Nat := 16
def CHECKSUM_OFFSET : Nat := 20

end CMessageHeader

namespace Sender
open CMessageHeader

def start : Sender := ⟨.clear, -1, -1, 0, []⟩

def abortMessage (s : Sender) : Sender :=
  if s.nHeaderStart < 0 then s
  else
    { s with
      vSend := s.vSend.resize s.nHeaderStart.toInt.toNat
      nHeaderStart := -1
      nMessageStart := -1
      csVSend := s.csVSend - 1 }

def beginMessage (s : Sender) (pszCommand : List UInt8) : Sender :=
  let s := { s with csVSend := s.csVSend + 1 }
  let s := if s.nHeaderStart ≠ -1 then s.abortMessage else s
  let vSend := s.vSend.write (CMessageHeader.new pszCommand 0).serialize
  { s with
    vSend := vSend
    nHeaderStart := Int32.ofNat s.vSend.size
    nMessageStart := UInt32.ofNat vSend.size }

section Hash
variable (hash : List UInt8 → Uint256)

/-- `fDrop` is what `-dropmessagestest` decides. The lock is left only if the message is finished. -/
def endMessage (fDrop : Bool) (s : Sender) : Check Sender :=
  if fDrop then pure s.abortMessage
  else if s.nHeaderStart < 0 then pure s
  else do
    let nHeaderStart := s.nHeaderStart.toInt.toNat
    let nSize := UInt32.ofInt (s.vSend.size - s.nMessageStart.toNat)
    let vSend ← s.vSend.overwrite (nHeaderStart + MESSAGE_SIZE_OFFSET) (leBytes 4 nSize.toNat)
    failIf (s.nMessageStart.toNat > vSend.size) (.stop .outOfRange)
    let nChecksum := checksum hash (vSend.bytes.drop s.nMessageStart.toNat)
    failIf ((s.nMessageStart - s.nHeaderStart.toUInt32).toNat < CHECKSUM_OFFSET + 4) (.stop .assertion)
    let vSend ← vSend.overwrite (nHeaderStart + CHECKSUM_OFFSET) (leBytes 4 nChecksum.toNat)
    pure { s with vSend := vSend, nHeaderStart := -1, nMessageStart := -1, csVSend := s.csVSend - 1 }

end Hash

def socketSend (s : Sender) (nBytes : Nat) : Sender :=
  if s.csVSend ≠ 0 ∨ s.vSend.size = 0 then s
  else { s with vSend := s.vSend.eraseFront nBytes, wire := s.wire ++ s.vSend.bytes.take nBytes }

end Sender

/-- A message is ended, or the serialization of its arguments throws and it is aborted. -/
inductive Ending
  | ended (fDrop : Bool)
  | thrown
deriving DecidableEq, Repr

/-- `written` is what the arguments of `PushMessage` have put into `vSend` before the ending. -/
inductive SendEvent
  | pushMessage (pszCommand written : List UInt8) (ending : Ending)
  | socketSend (nBytes : Nat)
deriving DecidableEq, Repr

namespace Sender
variable (hash : List UInt8 → Uint256)

def pushMessage (s : Sender) (pszCommand written : List UInt8) (ending : Ending) : Check Sender :=
  let s := s.beginMessage pszCommand
  let s := { s with vSend := s.vSend.write written }
  match ending with
  | .ended fDrop => s.endMessage hash fDrop
  | .thrown => pure s.abortMessage

def step (s : Sender) : SendEvent → Check Sender
  | .pushMessage pszCommand written ending => s.pushMessage hash pszCommand written ending
  | .socketSend nBytes => pure (s.socketSend nBytes)

def run (s : Sender) (events : List SendEvent) : Check Sender := events.foldlM (step hash) s

variable {hash}

theorem run_cons (s : Sender) (event : SendEvent) (events : List SendEvent) :
    s.run hash (event :: events) = (s.step hash event >>= fun after => after.run hash events) :=
  List.foldlM_cons

theorem run_append (s : Sender) (events events' : List SendEvent) :
    s.run hash (events ++ events') = (s.run hash events >>= fun after => after.run hash events') :=
  List.foldlM_append

end Sender

end RitCoin.Model
