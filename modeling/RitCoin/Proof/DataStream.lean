import RitCoin.Model.StreamCalls

namespace RitCoin.Proof
open Lib Model

def takeFront (message : String) (returned : List UInt8 → List UInt8) (nSize : Int32) (queue : List UInt8) :
    Check (List UInt8) × List UInt8 :=
  if nSize < 0 then (.error (.stop .assertion), queue)
  else if nSize.toNatClampNeg ≤ queue.length then
    (.ok (returned (queue.take nSize.toNatClampNeg)), queue.drop nSize.toNatClampNeg)
  else (.error (.throw message), queue)

def queueCall (queue : List UInt8) : CDataStream.Call → Check (List UInt8) × List UInt8
  | .write pch => (.ok [], queue ++ pch)
  | .read nSize => takeFront "CDataStream::read() : end of data" id nSize queue
  | .ignore nSize => takeFront "CDataStream::ignore() : end of data" (fun _ => []) nSize queue
  | .insert pch => (.ok [], pch ++ queue)
  | .insertFill n x => (.ok [], List.replicate n x ++ queue)
  | .erase n => if n ≤ queue.length then (.ok [], queue.drop n) else (.error (.stop .outOfRange), queue)
  | .eraseOne => if 1 ≤ queue.length then (.ok [], queue.drop 1) else (.error (.stop .outOfRange), queue)
  | .resize n c => (.ok [], queue.take n ++ List.replicate (n - queue.length) c)
  | .clear => (.ok [], [])
  | .compact => (.ok [], queue)

def queueRun (queue : List UInt8) : List CDataStream.Call → List (Check (List UInt8)) × List UInt8
  | [] => ([], queue)
  | c :: calls =>
    let (returned, queue) := queueCall queue c
    let (later, queue) := queueRun queue calls
    (returned :: later, queue)

variable {s : CDataStream}

theorem next_toNat (small : s.vch.length < 2 ^ 31) {nSize : Int32} (nonneg : ¬ nSize < 0) :
    (s.nReadPos + nSize.toUInt32).toNat = s.nReadPos.toNat + nSize.toNatClampNeg := by
  have inside := s.inside
  have bound := nSize.toNatClampNeg_lt
  rw [UInt32.toNat_add, Int32.toNat_toUInt32_of_le (Int32.not_lt.mp nonneg), Nat.mod_eq_of_lt (by omega)]

theorem bytes_takeCall (small : s.vch.length < 2 ^ 31) (message : String)
    (copied : CDataStream → ℕ → Check (List UInt8)) (returned : List UInt8 → List UInt8)
    (copies : ∀ n ≤ s.size, copied s n = .ok (returned (s.bytes.take n))) (nSize : Int32) :
    (s.takeCall message copied nSize).map id CDataStream.bytes = takeFront message returned nSize s.bytes := by
  by_cases negative : nSize < 0
  · rw [CDataStream.takeCall, takeFront, if_pos negative, if_pos negative]
    rfl
  have next := next_toNat small negative
  have inside := s.inside
  have size : s.bytes.length = s.vch.length - s.nReadPos.toNat := s.length_bytes
  rw [CDataStream.takeCall, takeFront, if_neg negative, if_neg negative]
  simp only
  split_ifs with more enough enough beyond enough
  · rw [copies _ (s.length_bytes ▸ enough)]
    refine Prod.ext rfl ?_
    change s.vch.drop (s.nReadPos + nSize.toUInt32).toNat = _
    rw [next, CDataStream.bytes, List.drop_drop]
  · omega
  · omega
  · rfl
  · rw [copies _ (s.length_bytes ▸ enough)]
    refine Prod.ext rfl ?_
    have all : s.bytes.drop nSize.toNatClampNeg = [] := List.drop_eq_nil_of_le (by omega)
    exact all.symm
  · omega

theorem bytes_eraseOne (small : s.vch.length < 2 ^ 31) : s.eraseOne.bytes = s.bytes.drop 1 := by
  have inside := s.inside
  have next : (s.nReadPos + 1).toNat = s.nReadPos.toNat + 1 := by
    rw [UInt32.toNat_add, UInt32.toNat_one, Nat.mod_eq_of_lt (by omega)]
  rw [CDataStream.eraseOne]
  split_ifs with more
  · change s.vch.drop (s.nReadPos + 1).toNat = _
    rw [next, CDataStream.bytes, List.drop_drop]
  · rw [CDataStream.bytes_clear, eq_comm, List.drop_eq_nil_iff, CDataStream.length_bytes, CDataStream.size]
    omega

theorem bytes_insertFill (n : ℕ) (x : UInt8) : (s.insertFill n x).bytes = List.replicate n x ++ s.bytes :=
  List.drop_left' (List.length_take_of_le s.inside)

theorem bytes_resizeFill (n : ℕ) (c : UInt8) :
    (s.resizeFill n c).bytes = s.bytes.take n ++ List.replicate (n - s.size) c := by
  have inside := s.inside
  change List.drop s.nReadPos.toNat (s.vch.take (n + s.nReadPos.toNat) ++ _) = _
  rw [List.drop_append_of_le_length (by rw [List.length_take]; omega), List.drop_take, Nat.add_sub_cancel,
    CDataStream.bytes, CDataStream.size]
  congr 2
  omega

theorem bytes_call (small : s.vch.length < 2 ^ 31) (c : CDataStream.Call) :
    (s.call c).map id CDataStream.bytes = queueCall s.bytes c := by
  cases c with
  | write pch => exact Prod.ext rfl (s.bytes_write pch)
  | read nSize =>
    refine bytes_takeCall small _ CDataStream.copy id (fun n enough => ?_) nSize
    have inside := s.inside
    rw [CDataStream.size] at enough
    rw [CDataStream.copy, if_pos (by omega)]
    rfl
  | ignore nSize => exact bytes_takeCall small _ (fun _ _ => .ok []) (fun _ => []) (fun _ _ => rfl) nSize
  | insert pch => exact Prod.ext rfl (s.bytes_insertFront pch)
  | insertFill n x => exact Prod.ext rfl (bytes_insertFill n x)
  | erase n =>
    simp only [CDataStream.call, queueCall, CDataStream.length_bytes]
    split_ifs
    · exact Prod.ext rfl (CDataStream.bytes_eraseFront (small.trans (by decide)) n)
    · rfl
  | eraseOne =>
    simp only [CDataStream.call, queueCall, CDataStream.length_bytes]
    split_ifs
    · exact Prod.ext rfl (bytes_eraseOne small)
    · rfl
  | resize n c =>
    refine Prod.ext rfl ((bytes_resizeFill n c).trans ?_)
    rw [← s.length_bytes]
    rfl
  | clear => rfl
  | compact => rfl

theorem bytes_run : ∀ (calls : List CDataStream.Call) (s : CDataStream),
    (∀ k, (s.run (calls.take k)).2.vch.length < 2 ^ 31) →
    (s.run calls).map id CDataStream.bytes = queueRun s.bytes calls := by
  intro calls
  induction calls with
  | nil => exact fun _ _ => rfl
  | cons c calls ih =>
    intro s small
    have step := bytes_call (small 0) c
    have rest := ih (s.call c).2 fun k => small (k + 1)
    have left : (queueCall s.bytes c).2 = (s.call c).2.bytes := (congrArg Prod.snd step).symm
    have returned : (queueCall s.bytes c).1 = (s.call c).1 := (congrArg Prod.fst step).symm
    simp only [CDataStream.run, queueRun]
    rw [left, returned, ← rest]
    rfl

theorem takeCall_short (small : s.vch.length < 2 ^ 31) (message : String)
    (copied : CDataStream → ℕ → Check (List UInt8)) {nSize : Int32} (short : s.size < nSize.toNatClampNeg) :
    s.takeCall message copied nSize = (.error (.throw message), s) := by
  have nonneg : ¬ nSize < 0 := by
    intro negative
    have : nSize.toNatClampNeg = 0 := Int.toNat_of_nonpos (Int32.lt_iff_toInt_lt.mp negative).le
    omega
  have next := next_toNat small nonneg
  rw [CDataStream.size] at short
  rw [CDataStream.takeCall, if_neg nonneg]
  simp only
  rw [dif_neg (by omega), if_pos (by omega)]

/-- As long as the whole buffer has less than 2 ^ 31 bytes, the unread bytes of a stream are those of a queue,
and every call returns what it returns there. A call that asks for more than is left throws and changes
nothing. -/
theorem stream_refines_queue (s : CDataStream) (calls : List CDataStream.Call)
    (small : ∀ k, (s.run (calls.take k)).2.vch.length < 2 ^ 31) :
    let after := (s.run calls).2
    (s.run calls).1 = (queueRun s.bytes calls).1 ∧ after.bytes = (queueRun s.bytes calls).2 ∧
    ∀ nSize : Int32, after.size < nSize.toNatClampNeg →
      after.call (.read nSize) = (.error (.throw "CDataStream::read() : end of data"), after) ∧
      after.call (.ignore nSize) = (.error (.throw "CDataStream::ignore() : end of data"), after) := by
  intro after
  have refines := bytes_run calls s small
  have last : after.vch.length < 2 ^ 31 := by
    have := small calls.length
    rwa [List.take_length] at this
  refine ⟨congrArg Prod.fst refines, congrArg Prod.snd refines, fun nSize short => ⟨?_, ?_⟩⟩
  · exact takeCall_short last _ CDataStream.copy short
  · exact takeCall_short last _ (fun _ _ => .ok []) short

theorem stream_refines_queue_front :
    let s := CDataStream.ofBytes [1, 2]
    let calls : List CDataStream.Call := [.read 1, .insert [3]]
    (s.run calls).2.nReadPos = 0 ∧ (s.run calls).2.bytes = [3, 2] := by
  intro s calls
  refine ⟨by decide, ?_⟩
  refine (stream_refines_queue s calls fun k => ?_).2.1.trans (by decide)
  match k with
  | 0 => decide
  | 1 => decide
  | k + 2 =>
    have all : calls.take (k + 2) = calls := List.take_of_length_le (by simp [calls])
    rw [all]
    decide

theorem int32_ofNat (n : ℕ) :
    if n % 2 ^ 32 < 2 ^ 31 then ¬ Int32.ofNat n < 0 ∧ (Int32.ofNat n).toNatClampNeg = n % 2 ^ 32
    else Int32.ofNat n < 0 := by
  have value : (Int32.ofNat n).toInt = (n : ℤ).bmod (2 ^ 32) := Int32.toInt_ofNat'
  have clamp : (Int32.ofNat n).toNatClampNeg = (Int32.ofNat n).toInt.toNat := rfl
  rw [Int.bmod_def] at value
  rw [clamp, Int32.lt_iff_toInt_lt, Int32.toInt_zero, value]
  split_ifs <;> omega

/-- `s << t` leaves the same unread bytes as `s += t` exactly if nothing has been read from `t` and its size is
an `int`. -/
theorem serialize_eq_append_iff (s t : CDataStream) :
    CDataStream.bytes <$> s.serialize t = .ok (s.append t).bytes ↔ t.nReadPos = 0 ∧ t.vch.length < 2 ^ 31 := by
  have inside := t.inside
  have position := t.nReadPos.toNat_lt
  have size := int32_ofNat t.vch.length
  have zero : t.nReadPos = 0 ↔ t.nReadPos.toNat = 0 := by rw [← UInt32.toNat_inj, UInt32.toNat_zero]
  rw [CDataStream.serialize, CDataStream.append, CDataStream.bytes_write, zero]
  by_cases empty : t.vch.isEmpty = true
  · rw [List.isEmpty_iff] at empty
    have none : t.bytes = [] := by rw [CDataStream.bytes, empty, List.drop_nil]
    rw [empty, List.length_nil] at inside
    simp [empty, none]
    omega
  · rw [if_neg empty]
    split_ifs at size with fits
    · -- the buffer is written up to its size modulo 2 ^ 32
      simp only [size.1, if_false, size.2]
      change Except.ok (s.write _).bytes = _ ↔ _
      rw [CDataStream.bytes_write, Except.ok.injEq, List.append_cancel_left_eq, CDataStream.bytes]
      constructor
      · intro same
        have length := congrArg List.length same
        rw [List.length_take, List.length_drop] at length
        omega
      · rintro ⟨unread, short⟩
        rw [unread, List.drop_zero, Nat.mod_eq_of_lt (by omega), List.take_length]
    · simp only [size, if_true]
      constructor
      · intro same
        cases same
      · rintro ⟨-, short⟩
        omega

theorem serialize_read_stream :
    let s := CDataStream.ofBytes []
    let t := ((CDataStream.ofBytes [1, 2]).call (.read 1)).2
    t.bytes = [2] ∧ CDataStream.bytes <$> s.serialize t = .ok [1, 2] ∧ (s.append t).bytes = [2] := by
  decide

end RitCoin.Proof
