import RitCoin.Model.Script

namespace RitCoin.Proof
open Lib Model
variable {script rest : CScript} {opcode : UInt8} {data b : List UInt8}

theorem readLE_append {width : ℕ} {bytes : List UInt8} (length : bytes.length = width) (rest : CScript) :
    readLE width (bytes ++ rest) = some (ofLe bytes, rest) := by
  have value : ∀ bytes : List UInt8, bytes.foldr (fun byte n => byte.toNat + 256 * n) 0 = ofLe bytes := by
    intro bytes
    induction bytes with
    | nil => rfl
    | cons byte bytes ih => rw [List.foldr_cons, ih, ofLe]
  rw [readLE, if_neg (by rw [List.length_append]; omega), ← length, List.take_left, List.drop_left, value]

theorem readLE_eq_some {width n : ℕ} (read : readLE width script = some (n, rest)) :
    ∃ bytes : List UInt8, bytes.length = width ∧ script = bytes ++ rest ∧ n = ofLe bytes := by
  rw [readLE] at read
  split_ifs at read with short
  have length : (script.take width).length = width := List.length_take_of_le (Nat.not_lt.mp short)
  have again := readLE_append length (script.drop width)
  rw [List.take_append_drop, readLE, if_neg short] at again
  rw [again, Option.some.injEq, Prod.mk.injEq] at read
  obtain ⟨rfl, rfl⟩ := read
  exact ⟨script.take width, length, (List.take_append_drop width script).symm, rfl⟩

theorem decodeOpN_le (high : opcode ≤ OP_16) : decodeOpN opcode ≤ 16 := by
  have bound : opcode.toNat ≤ 96 := UInt8.le_iff_toNat_le.mp high
  change opcode.toNat - 80 ≤ 16
  omega

theorem decodeOpN_pos (low : OP_1 ≤ opcode) : 1 ≤ decodeOpN opcode := by
  have bound : 81 ≤ opcode.toNat := UInt8.le_iff_toNat_le.mp low
  change 1 ≤ opcode.toNat - 80
  omega

theorem toNat_decodeOpN (opcode : UInt8) : (UInt8.ofNat (decodeOpN opcode)).toNat = decodeOpN opcode := by
  have bound : opcode.toNat < 256 := opcode.toNat_lt
  refine UInt8.toNat_ofNat_of_lt' ?_
  change opcode.toNat - 80 < 256
  omega

def sizeWidth (opcode : UInt8) : ℕ :=
  if opcode < OP_PUSHDATA1 then 0 else if opcode = OP_PUSHDATA1 then 1 else if opcode = OP_PUSHDATA2 then 2 else 4

def pushSize (opcode : UInt8) (bytes : List UInt8) : ℕ :=
  if opcode < OP_PUSHDATA1 then opcode.toNat else ofLe bytes

inductive ReadsAs : CScript → UInt8 → List UInt8 → Prop
  | push {opcode : UInt8} {bytes data : List UInt8} : opcode ≤ OP_PUSHDATA4 →
      bytes.length = sizeWidth opcode → data.length = pushSize opcode bytes →
      ReadsAs (opcode :: (bytes ++ data)) opcode data
  | plain {opcode : UInt8} : OP_PUSHDATA4 < opcode → ReadsAs [opcode] opcode []

theorem ReadsAs.ne_nil {front : CScript} (reads : ReadsAs front opcode data) : front ≠ [] := by
  cases reads <;> exact List.cons_ne_nil _ _

def readSize (opcode : UInt8) (rest : CScript) : Option (ℕ × CScript) :=
  if opcode < OP_PUSHDATA1 then some (opcode.toNat, rest)
  else if opcode = OP_PUSHDATA1 then readLE 1 rest
  else if opcode = OP_PUSHDATA2 then readLE 2 rest
  else readLE 4 rest

theorem getOp2_cons (push : opcode ≤ OP_PUSHDATA4) (rest : CScript) :
    getOp2 (opcode :: rest) = (readSize opcode rest).bind fun size =>
      if size.2.length < size.1 then none
      else some (opcode, size.2.take size.1, size.2.drop size.1) := by
  rw [getOp2, if_pos push, readSize]
  split_ifs <;> rfl

theorem getOp2_push (push : opcode ≤ OP_PUSHDATA4) {bytes : List UInt8} (width : bytes.length = sizeWidth opcode)
    (rest : CScript) :
    getOp2 (opcode :: (bytes ++ rest)) =
      if rest.length < pushSize opcode bytes then none
      else some (opcode, rest.take (pushSize opcode bytes), rest.drop (pushSize opcode bytes)) := by
  have size : readSize opcode (bytes ++ rest) = some (pushSize opcode bytes, rest) := by
    rw [sizeWidth] at width
    rw [readSize, pushSize]
    split_ifs at width ⊢ with direct one two
    · rw [List.eq_nil_of_length_eq_zero width, List.nil_append]
    · exact readLE_append width rest
    · exact readLE_append width rest
    · exact readLE_append width rest
  rw [getOp2_cons push, size]
  rfl

theorem ReadsAs.getOp2 {front : CScript} (reads : ReadsAs front opcode data) (rest : CScript) :
    getOp2 (front ++ rest) = some (opcode, data, rest) := by
  cases reads with
  | push push width size =>
    rename_i bytes
    rw [List.cons_append, List.append_assoc, getOp2_push push width, ← size, List.take_left, List.drop_left,
      if_neg (by rw [List.length_append]; omega)]
  | plain above =>
    change Model.getOp2 (opcode :: rest) = _
    rw [Model.getOp2, if_neg (by simpa using above)]

theorem getOp2_eq_some :
    getOp2 script = some (opcode, data, rest) ↔ ∃ front, ReadsAs front opcode data ∧ script = front ++ rest := by
  constructor
  · intro read
    cases script with
    | nil => cases read
    | cons first tail =>
      by_cases push : first ≤ OP_PUSHDATA4
      · obtain ⟨bytes, behind, width, rfl⟩ : ∃ bytes behind : List UInt8,
            bytes.length = sizeWidth first ∧ tail = bytes ++ behind := by
          rw [getOp2_cons push] at read
          obtain ⟨⟨nSize, behind⟩, sized, -⟩ := Option.bind_eq_some_iff.mp read
          rw [readSize] at sized
          rw [sizeWidth]
          split_ifs at sized ⊢ with direct one two
          · exact ⟨[], tail, rfl, rfl⟩
          · obtain ⟨bytes, width, split, -⟩ := readLE_eq_some sized
            exact ⟨bytes, behind, width, split⟩
          · obtain ⟨bytes, width, split, -⟩ := readLE_eq_some sized
            exact ⟨bytes, behind, width, split⟩
          · obtain ⟨bytes, width, split, -⟩ := readLE_eq_some sized
            exact ⟨bytes, behind, width, split⟩
        rw [getOp2_push push width] at read
        split_ifs at read with short
        simp only [Option.some.injEq, Prod.mk.injEq] at read
        obtain ⟨rfl, rfl, rfl⟩ := read
        refine ⟨first :: (bytes ++ behind.take (pushSize first bytes)), ?_, ?_⟩
        · exact .push push width (List.length_take_of_le (Nat.not_lt.mp short))
        · rw [List.cons_append, List.append_assoc, List.take_append_drop]
      · rw [getOp2, if_neg push] at read
        simp only [Option.some.injEq, Prod.mk.injEq] at read
        obtain ⟨rfl, rfl, rfl⟩ := read
        exact ⟨[first], .plain (by simpa using push), rfl⟩
  · rintro ⟨front, reads, rfl⟩
    exact reads.getOp2 rest

theorem getOp2_length_lt (read : getOp2 script = some (opcode, data, rest)) : rest.length < script.length := by
  obtain ⟨front, reads, rfl⟩ := getOp2_eq_some.mp read
  rw [List.length_append]
  exact Nat.lt_add_of_pos_left (List.length_pos_iff.mpr reads.ne_nil)

theorem scanOpcodes_succ (fuel : ℕ) (read : getOp2 script = some (opcode, data, rest)) :
    scanOpcodes (fuel + 1) script = ((opcode, data) :: (scanOpcodes fuel rest).1, (scanOpcodes fuel rest).2) := by
  cases script with
  | nil => cases read
  | cons first tail => simp only [scanOpcodes, read]

theorem scanOpcodes_plain : ∀ {fuel : ℕ} {script : CScript}, ∀ op ∈ (scanOpcodes fuel script).1,
    ¬ op.1 ≤ OP_PUSHDATA4 → op.2 = [] := by
  intro fuel
  induction fuel with
  | zero => nofun
  | succ fuel ih =>
    intro script op member above
    cases read : getOp2 script with
    | none =>
      have empty : (scanOpcodes (fuel + 1) script).1 = [] := by
        cases script with
        | nil => rfl
        | cons first tail => simp only [scanOpcodes, read]
      rw [empty] at member
      cases member
    | some first =>
      obtain ⟨opcode, data, rest⟩ := first
      rw [scanOpcodes_succ fuel read] at member
      rcases List.mem_cons.mp member with rfl | member
      · obtain ⟨front, reads, -⟩ := getOp2_eq_some.mp read
        cases reads with
        | push push => exact absurd push above
        | plain => rfl
      · exact ih op member above

def opcodeOf (b : List UInt8) : UInt8 :=
  if b.length < OP_PUSHDATA1.toNat then UInt8.ofNat b.length
  else if b.length ≤ 0xff then OP_PUSHDATA1
  else if b.length ≤ 0xffff then OP_PUSHDATA2
  else OP_PUSHDATA4

theorem readsAs_opcodeOf (short : b.length < 2 ^ 32) :
    opcodeOf b ≤ OP_PUSHDATA4 ∧ ReadsAs (pushData b) (opcodeOf b) b := by
  rw [pushData, opcodeOf]
  split_ifs with direct one two
  · have small : b.length < 76 := direct
    have width : (UInt8.ofNat b.length).toNat = b.length := UInt8.toNat_ofNat_of_lt' (by change _ < 256; omega)
    have below : UInt8.ofNat b.length < OP_PUSHDATA1 := by
      rw [UInt8.lt_iff_toNat_lt, width]
      exact small
    have push : UInt8.ofNat b.length ≤ OP_PUSHDATA4 := by
      rw [UInt8.le_iff_toNat_le, width]
      change b.length ≤ 78
      omega
    have reads : ReadsAs (UInt8.ofNat b.length :: ([] ++ b)) (UInt8.ofNat b.length) b := by
      refine .push push ?_ ?_
      · rw [sizeWidth, if_pos below]
        rfl
      · rw [pushSize, if_pos below, width]
    exact ⟨push, reads⟩
  · exact ⟨by decide, .push (by decide) (length_leBytes 1 _) (ofLe_leBytes (by omega)).symm⟩
  · exact ⟨by decide, .push (by decide) (length_leBytes 2 _) (ofLe_leBytes (by omega)).symm⟩
  · exact ⟨by decide, .push (by decide) (length_leBytes 4 _) (ofLe_leBytes (by omega)).symm⟩

theorem readsAs_pushData (short : b.length < 2 ^ 32) :
    ∃ opcode, opcode ≤ OP_PUSHDATA4 ∧ ReadsAs (pushData b) opcode b :=
  ⟨opcodeOf b, readsAs_opcodeOf short⟩

theorem length_deleteFrom_le (b : CScript) : ∀ (fuel : ℕ) (script : CScript),
    (deleteFrom b fuel script).1.length ≤ script.length := by
  intro fuel
  induction fuel with
  | zero => exact fun _ => le_rfl
  | succ fuel ih =>
    intro script
    rw [deleteFrom]
    split_ifs with found
    · have := ih (script.drop b.length)
      rw [List.length_drop] at this
      exact this.trans (Nat.sub_le _ _)
    · cases read : getOp2 script with
      | none => exact le_rfl
      | some op =>
        obtain ⟨opcode, data, rest⟩ := op
        have shorter := getOp2_length_lt read
        have left := ih rest
        simp only [List.length_append, List.length_take]
        omega

theorem length_findAndDelete_le (script b : CScript) : (findAndDelete script b).1.length ≤ script.length := by
  rw [findAndDelete]
  split_ifs
  · exact le_rfl
  · exact length_deleteFrom_le b _ script

theorem deleteFrom_of_ne (short : b.length < 2 ^ 32) : ∀ (fuel : ℕ) {fuel' : ℕ} {script : CScript},
    script.length ≤ fuel' → (∀ op ∈ (scanOpcodes fuel' script).1, op.1 ≤ OP_PUSHDATA4 → op.2 ≠ b) →
    (deleteFrom (pushData b) fuel script).1 = script := by
  intro fuel
  induction fuel with
  | zero => exact fun _ _ => rfl
  | succ fuel ih =>
    intro fuel' script enough different
    rw [deleteFrom]
    have behind : ∀ {opcode : UInt8} {data : List UInt8} {rest : CScript},
        getOp2 script = some (opcode, data, rest) → (opcode ≤ OP_PUSHDATA4 → data ≠ b) ∧
          ∃ fuel, rest.length ≤ fuel ∧ ∀ op ∈ (scanOpcodes fuel rest).1, op.1 ≤ OP_PUSHDATA4 → op.2 ≠ b := by
      intro opcode data rest read
      have shorter := getOp2_length_lt read
      obtain ⟨fuel', rfl⟩ : ∃ rest, fuel' = rest + 1 := ⟨fuel' - 1, by omega⟩
      rw [scanOpcodes_succ fuel' read, List.forall_mem_cons] at different
      exact ⟨different.1, fuel', by omega, different.2⟩
    split_ifs with found
    · obtain ⟨opcode, push, reads⟩ := readsAs_pushData short
      have split : script = pushData b ++ script.drop (pushData b).length := by
        conv_lhs => rw [← List.take_append_drop (pushData b).length script, found.2]
      have read := reads.getOp2 (script.drop (pushData b).length)
      rw [← split] at read
      exact absurd rfl ((behind read).1 push)
    · cases read : getOp2 script with
      | none => rfl
      | some op =>
        obtain ⟨opcode, data, rest⟩ := op
        obtain ⟨-, fuel₁, shorter, others⟩ := behind read
        obtain ⟨front, -, rfl⟩ := getOp2_eq_some.mp read
        simp only [ih shorter others, List.length_append, Nat.add_sub_cancel, List.take_left]

theorem findAndDelete_of_ne (short : b.length < 2 ^ 32)
    (different : ∀ op ∈ (parseScript script).1, op.1 ≤ OP_PUSHDATA4 → op.2 ≠ b) :
    (findAndDelete script (pushData b)).1 = script := by
  rw [findAndDelete]
  split_ifs
  · rfl
  · exact deleteFrom_of_ne short _ le_rfl different

theorem getOp2_length_le (read : getOp2 script = some (opcode, data, rest)) :
    script.length ≤ rest.length + data.length + 5 := by
  obtain ⟨front, reads, rfl⟩ := getOp2_eq_some.mp read
  cases reads with
  | push push width size =>
    have : sizeWidth opcode ≤ 4 := by
      rw [sizeWidth]
      split_ifs <;> omega
    simp only [List.length_append, List.length_cons]
    omega
  | plain => simp

end RitCoin.Proof
