import RitCoin.Model.DataStream

/-!
# Calls of a stream

The members of `CDataStream` that move its contents, with the stream as a call leaves it also when it
throws, and the two ways to append a stream to another.
-/

namespace RitCoin.Model.CDataStream
open Lib

def takeCall (message : String) (copied : CDataStream → Nat → Check (List UInt8)) (nSize : Int32)
    (s : CDataStream) : Check (List UInt8) × CDataStream :=
  if nSize < 0 then (.error (.stop .assertion), s)
  else
    let nReadPosNext := s.nReadPos + nSize.toUInt32
    if next : nReadPosNext.toNat < s.vch.length then
      (copied s nSize.toNatClampNeg, ⟨s.vch, nReadPosNext, next.le⟩)
    else if nReadPosNext.toNat > s.vch.length then (.error (.throw message), s)
    else (copied s nSize.toNatClampNeg, clear)

def readCall : Int32 → CDataStream → Check (List UInt8) × CDataStream :=
  takeCall "CDataStream::read() : end of data" copy

def ignoreCall : Int32 → CDataStream → Check (List UInt8) × CDataStream :=
  takeCall "CDataStream::ignore() : end of data" fun _ _ => .ok []

def eraseOne (s : CDataStream) : CDataStream :=
  let nReadPos := s.nReadPos + 1
  if inside : nReadPos.toNat < s.vch.length then ⟨s.vch, nReadPos, inside.le⟩ else clear

def insertFill (s : CDataStream) (n : Nat) (x : UInt8) : CDataStream :=
  ⟨s.vch.take s.nReadPos.toNat ++ (List.replicate n x ++ s.vch.drop s.nReadPos.toNat), s.nReadPos, by
    rw [List.length_append, List.length_take_of_le s.inside]
    exact Nat.le_add_right _ _⟩

theorem nReadPos_le_resized (s : CDataStream) (n : Nat) (c : UInt8) : s.nReadPos.toNat ≤
    (s.vch.take (n + s.nReadPos.toNat) ++ List.replicate (n + s.nReadPos.toNat - s.vch.length) c).length := by
  rw [List.length_append, List.length_take, List.length_replicate]
  omega

def resizeFill (s : CDataStream) (n : Nat) (c : UInt8) : CDataStream :=
  ⟨s.vch.take (n + s.nReadPos.toNat) ++ List.replicate (n + s.nReadPos.toNat - s.vch.length) c, s.nReadPos,
    s.nReadPos_le_resized n c⟩

inductive Call
  | write (pch : List UInt8)
  | read (nSize : Int32)
  | ignore (nSize : Int32)
  | insert (pch : List UInt8)
  | insertFill (n : Nat) (x : UInt8)
  | erase (n : Nat)
  | eraseOne
  | resize (n : Nat) (c : UInt8)
  | clear
  | compact

/-- What a call returns, and the stream afterwards. There is no iterator behind the end to erase up to. -/
def call (s : CDataStream) : Call → Check (List UInt8) × CDataStream
  | .write pch => (.ok [], s.write pch)
  | .read nSize => s.readCall nSize
  | .ignore nSize => s.ignoreCall nSize
  | .insert pch => (.ok [], s.insertFront pch)
  | .insertFill n x => (.ok [], s.insertFill n x)
  | .erase n => if n ≤ s.size then (.ok [], s.eraseFront n) else (.error (.stop .outOfRange), s)
  | .eraseOne => if 1 ≤ s.size then (.ok [], s.eraseOne) else (.error (.stop .outOfRange), s)
  | .resize n c => (.ok [], s.resizeFill n c)
  | .clear => (.ok [], CDataStream.clear)
  | .compact => (.ok [], s.compact)

def run (s : CDataStream) : List Call → List (Check (List UInt8)) × CDataStream
  | [] => ([], s)
  | c :: calls =>
    let (returned, s) := s.call c
    let (later, s) := s.run calls
    (returned :: later, s)

def append (s t : CDataStream) : CDataStream := s.write t.bytes

/-- `s << t`: `Serialize` of `t` writes its vector, the size of which becomes the `int` of `write`. -/
def serialize (s t : CDataStream) : Check CDataStream :=
  if t.vch.isEmpty then .ok s
  else
    let nSize := Int32.ofNat t.vch.length
    if nSize < 0 then .error (.stop .assertion) else .ok (s.write (t.vch.take nSize.toNatClampNeg))

end RitCoin.Model.CDataStream
