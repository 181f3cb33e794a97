import RitCoin.Model.ProcessMessages

/-!
# A connection that receives

The socket thread of `net.cpp` and the thread that calls `ProcessMessages` take turns at `vRecv`, in any
order.
-/

namespace RitCoin.Model
open Lib

def receiveBufferSize (maxReceiveBuffer : Int := 10 * 1000) : UInt32 := UInt32.ofInt (1000 * maxReceiveBuffer)

structure Socket where
  vRecv : CDataStream
  dispatched : List RawMessage

def Socket.new : Socket := ⟨.clear, []⟩

/-- The socket thread finds something to read and `recv` gives `pchBuf`, or the other thread has its turn. -/
inductive SocketEvent
  | recv (pchBuf : List UInt8)
  | processMessages

namespace Socket
variable (hash : List UInt8 → Uint256) (nReceiveBufferSize : UInt32)

def step (socket : Socket) : SocketEvent → Check Socket
  | .recv pchBuf => do
      let vRecv ← socketRecv nReceiveBufferSize socket.vRecv pchBuf
      pure { socket with vRecv := vRecv }
  | .processMessages => do
      let (messages, vRecv) ← Model.processMessages hash socket.vRecv
      pure ⟨vRecv, socket.dispatched ++ messages⟩

def run (events : List SocketEvent) : Check Socket := events.foldlM (step hash nReceiveBufferSize) .new

end Socket

def received : List SocketEvent → List UInt8
  | [] => []
  | .recv pchBuf :: rest => pchBuf ++ received rest
  | .processMessages :: rest => received rest

/-- `recv` returns at least a byte, and not more than there is room for in its buffer. -/
def SocketEvent.Possible : SocketEvent → Prop
  | .recv pchBuf => 0 < pchBuf.length ∧ pchBuf.length ≤ pchBufSize
  | .processMessages => True

end RitCoin.Model
