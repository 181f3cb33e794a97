import RitCoin.Model.Types

/-!
# Streams

`CDataStream` of `serialize.h`, a buffer with a position to read from. The position is 32 bits wide
however long the buffer is. A read that fails throws, and the stream is not used again.
-/

namespace RitCoin.Model
open Lib

@[ext] structure CDataStream where
  vch : List UInt8
  nReadPos : UInt32
  inside : nReadPos.toNat ≤ vch.length
deriving DecidableEq, Repr

namespace CDataStream

def ofBytes (vch : List UInt8) : CDataStream := ⟨vch, 0, Nat.zero_le _⟩

def clear : CDataStream := ofBytes []

def bytes (s : CDataStream) : List UInt8 := s.vch.drop s.nReadPos.toNat

def size (s : CDataStream) : Nat := s.vch.length - s.nReadPos.toNat

def copy (s : CDataStream) (nSize : Nat) : Check (List UInt8) :=
  if s.nReadPos.toNat + nSize ≤ s.vch.length then .ok (s.bytes.take nSize)
  else .error (.stop .outOfRange)

/-- Going on to `nReadPosNext`. Whenever the end is reached, the buffer is cleared. -/
def advance (s : CDataStream) (nReadPosNext : UInt32) (message : String) : Check CDataStream :=
  if next : nReadPosNext.toNat < s.vch.length then .ok ⟨s.vch, nReadPosNext, next.le⟩
  else if nReadPosNext.toNat > s.vch.length then .error (.throw message)
  else .ok clear

def read (nSize : Nat) : StateT CDataStream Check (List UInt8) := fun s => do
  let after ← s.advance (s.nReadPos + UInt32.ofNat nSize) "CDataStream::read() : end of data"
  let pch ← s.copy nSize
  pure (pch, after)

def ignore (s : CDataStream) (nSize : Nat) : Check CDataStream :=
  s.advance (s.nReadPos + UInt32.ofNat nSize) "CDataStream::ignore() : end of data"

def write (s : CDataStream) (pch : List UInt8) : CDataStream :=
  ⟨s.vch ++ pch, s.nReadPos, by rw [List.length_append]; exact Nat.le_add_right_of_le s.inside⟩

def eraseFront (s : CDataStream) (n : Nat) : CDataStream :=
  if inside : s.nReadPos.toNat + n < s.vch.length then
    ⟨s.vch, UInt32.ofNat (s.nReadPos.toNat + n),
      by rw [UInt32.toNat_ofNat']; exact (Nat.mod_le _ _).trans inside.le⟩
  else clear

def insertFront (s : CDataStream) (pch : List UInt8) : CDataStream :=
  if room : pch.length ≤ s.nReadPos.toNat then
    ⟨s.vch.take (s.nReadPos.toNat - pch.length) ++ (pch ++ s.vch.drop s.nReadPos.toNat),
      UInt32.ofNat (s.nReadPos.toNat - pch.length), by
        rw [UInt32.toNat_ofNat', List.length_append, List.length_take_of_le (by have := s.inside; omega)]
        exact (Nat.mod_le _ _).trans (Nat.le_add_right _ _)⟩
  else
    ⟨s.vch.take s.nReadPos.toNat ++ (pch ++ s.vch.drop s.nReadPos.toNat), s.nReadPos, by
      rw [List.length_append, List.length_take_of_le s.inside]
      exact Nat.le_add_right _ _⟩

def compact (s : CDataStream) : CDataStream := ofBytes s.bytes

def resize (s : CDataStream) (n : Nat) : CDataStream :=
  ⟨s.vch.take (n + s.nReadPos.toNat) ++ List.replicate (n + s.nReadPos.toNat - s.vch.length) 0, s.nReadPos, by
    rw [List.length_append, List.length_take, List.length_replicate]
    omega⟩

def overwrite (s : CDataStream) (pos : Nat) (pch : List UInt8) : Check CDataStream :=
  if fits : s.nReadPos.toNat + pos + pch.length ≤ s.vch.length then
    .ok ⟨s.vch.take (s.nReadPos.toNat + pos) ++ (pch ++ s.vch.drop (s.nReadPos.toNat + pos + pch.length)),
      s.nReadPos, by
        rw [List.length_append, List.length_take_of_le (by omega)]
        omega⟩
  else .error (.stop .outOfRange)

@[simp] theorem bytes_ofBytes (vch : List UInt8) : (ofBytes vch).bytes = vch := rfl

@[simp] theorem bytes_clear : clear.bytes = [] := rfl

@[simp] theorem length_bytes (s : CDataStream) : s.bytes.length = s.size := List.length_drop

@[simp] theorem bytes_write (s : CDataStream) (pch : List UInt8) : (s.write pch).bytes = s.bytes ++ pch :=
  List.drop_append_of_le_length s.inside

theorem bytes_eraseFront {s : CDataStream} (small : s.vch.length < 2 ^ 32) (n : Nat) :
    (s.eraseFront n).bytes = s.bytes.drop n := by
  rw [eraseFront]
  split_ifs with inside
  · change s.vch.drop (UInt32.ofNat (s.nReadPos.toNat + n)).toNat = _
    rw [UInt32.toNat_ofNat', Nat.mod_eq_of_lt (inside.trans small), bytes, List.drop_drop]
  · rw [bytes_clear, eq_comm, List.drop_eq_nil_iff, length_bytes, size]
    omega

theorem length_vch_eraseFront (s : CDataStream) (n : Nat) : (s.eraseFront n).vch.length ≤ s.vch.length := by
  rw [eraseFront]
  split_ifs
  · exact le_rfl
  · exact Nat.zero_le _

theorem bytes_insertFront (s : CDataStream) (pch : List UInt8) : (s.insertFront pch).bytes = pch ++ s.bytes := by
  have inside := s.inside
  have bound := s.nReadPos.toNat_lt
  rw [insertFront]
  split_ifs with room
  · have position : (UInt32.ofNat (s.nReadPos.toNat - pch.length)).toNat = s.nReadPos.toNat - pch.length := by
      rw [UInt32.toNat_ofNat', Nat.mod_eq_of_lt (by omega)]
    change List.drop (UInt32.ofNat _).toNat _ = _
    rw [position]
    exact List.drop_left' (List.length_take_of_le (by omega))
  · exact List.drop_left' (List.length_take_of_le inside)

theorem bytes_resize (s : CDataStream) (n : Nat) :
    (s.resize n).bytes = s.bytes.take n ++ List.replicate (n - s.size) 0 := by
  have inside := s.inside
  change List.drop s.nReadPos.toNat (s.vch.take (n + s.nReadPos.toNat) ++ _) = _
  rw [List.drop_append_of_le_length (by rw [List.length_take]; omega), List.drop_take, Nat.add_sub_cancel, bytes,
    size]
  congr 2
  omega

theorem overwrite_ok {s : CDataStream} {pos : Nat} {pch : List UInt8} (fits : pos + pch.length ≤ s.size) :
    ∃ after, s.overwrite pos pch = .ok after ∧
      after.bytes = s.bytes.take pos ++ (pch ++ s.bytes.drop (pos + pch.length)) ∧
      after.nReadPos = s.nReadPos ∧ after.vch.length = s.vch.length := by
  have inside := s.inside
  rw [size] at fits
  rw [overwrite, dif_pos (by omega)]
  refine ⟨_, rfl, ?_, rfl, ?_⟩
  · change List.drop s.nReadPos.toNat (s.vch.take (s.nReadPos.toNat + pos) ++ _) = _
    rw [List.drop_append_of_le_length (by rw [List.length_take]; omega), List.drop_take, Nat.add_sub_cancel_left,
      bytes, List.drop_drop, Nat.add_assoc]
  · simp only [List.length_append, List.length_take, List.length_drop]
    omega

end CDataStream

end RitCoin.Model
