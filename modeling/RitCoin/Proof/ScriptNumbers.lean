import RitCoin.Proof.Compact
import RitCoin.Proof.ScriptRules

namespace RitCoin.Proof
open Lib Model
variable {p : List UInt8} {fNegative : Bool} {m : ℕ}

def SignMagnitude (fNegative : Bool) (m : ℕ) (p : List UInt8) : Prop :=
  ∃ top rest, p = top :: rest ∧ decide (top < 0x80) = !fNegative ∧ bytesToNat ((top &&& 0x7f) :: rest) = m

theorem toNat_and_mask (byte : UInt8) : (byte &&& 0x7f).toNat = byte.toNat % 128 := by
  rw [UInt8.toNat_and]
  exact Nat.and_two_pow_sub_one_eq_mod _ 7

theorem sign_bit (top : UInt8) :
    (top < 0x80 → top &&& 0x7f = top ∧ ¬ top ||| 0x80 < 0x80 ∧ (top ||| 0x80) &&& 0x7f = top) ∧
      (top < 0x80 ↔ top &&& 0x80 = 0) := by
  have bound : top.toNat < 256 := top.toNat_lt
  have masked : ∀ byte : UInt8, (byte &&& 0x7f).toNat = byte.toNat % 128 := toNat_and_mask
  have high : (top &&& 0x80).toNat = (top.toNat.testBit 7).toNat * 2 ^ 7 := by
    rw [UInt8.toNat_and]
    exact Nat.and_two_pow _ 7
  rw [UInt8.lt_iff_toNat_lt, UInt8.lt_iff_toNat_lt, ← UInt8.toNat_inj, ← UInt8.toNat_inj, ← UInt8.toNat_inj, masked,
    masked, high, Nat.testBit_eq_decide_div_mod_eq]
  change (top.toNat < 128 → _ ∧ ¬ _ < 128 ∧ _) ∧ (top.toNat < 128 ↔ _ = 0)
  constructor
  · intro low
    have set : (top ||| 0x80).toNat = 128 + top.toNat := by
      rw [UInt8.toNat_or, Nat.or_comm]
      exact (Nat.two_pow_add_eq_or_of_lt (show top.toNat < 2 ^ 7 from low) 1).symm
    rw [set]
    omega
  · rcases Nat.lt_or_ge top.toNat 128 with low | above
    · simp only [low, true_iff]
      simp
      omega
    · simp only [Nat.not_lt.mpr above, false_iff]
      simp
      omega

theorem signMagnitude_of_bytes {top : UInt8} (low : top < 0x80) (fNegative : Bool) (rest : List UInt8) :
    SignMagnitude fNegative (bytesToNat (top :: rest)) ((if fNegative then top ||| 0x80 else top) :: rest) := by
  obtain ⟨same, high, cleared⟩ := (sign_bit top).1 low
  refine ⟨_, rest, rfl, ?_, ?_⟩
  · cases fNegative
    · exact decide_eq_true low
    · exact decide_eq_false high
  · cases fNegative
    · exact congrArg (fun top => bytesToNat (top :: rest)) same
    · exact congrArg (fun top => bytesToNat (top :: rest)) cleared

theorem exists_signMagnitude (nonempty : p ≠ []) : ∃ fNegative m, SignMagnitude fNegative m p := by
  cases p with
  | nil => exact absurd rfl nonempty
  | cons top rest => exact ⟨_, _, top, rest, rfl, (Bool.not_not _).symm, rfl⟩

theorem SignMagnitude.value (holds : SignMagnitude fNegative m p) :
    mpiToBn p = if fNegative then -(m : ℤ) else m := by
  obtain ⟨top, rest, rfl, sign, rfl⟩ := holds
  cases fNegative with
  | false =>
    have low : top < 0x80 := of_decide_eq_true sign
    rw [mpiToBn_of_lt low, ((sign_bit top).1 low).1]
    rfl
  | true =>
    have high : ¬ top < 0x80 := of_decide_eq_false sign
    rw [mpiToBn, if_neg high]
    rfl

theorem SignMagnitude.eq_zero_iff (holds : SignMagnitude fNegative m p) : mpiToBn p = 0 ↔ m = 0 := by
  rw [holds.value]
  split_ifs <;> omega

theorem SignMagnitude.append (holds : SignMagnitude fNegative m p) (c : UInt8) :
    SignMagnitude fNegative (m * 256 + c.toNat) (p ++ [c]) := by
  obtain ⟨top, rest, rfl, sign, rfl⟩ := holds
  refine ⟨top, rest ++ [c], rfl, sign, ?_⟩
  rw [← List.cons_append, bytesToNat, List.foldl_append]
  rfl

theorem bytesToNat_digits (k : ℕ) : ∀ m : ℕ,
    bytesToNat ((List.range k).map fun i => UInt8.ofNat (m / 256 ^ (k - 1 - i) % 256)) = m % 256 ^ k := by
  induction k with
  | zero =>
    intro m
    rw [pow_zero, Nat.mod_one]
    rfl
  | succ k ih =>
    intro m
    have digits : (List.range k).map (fun i => UInt8.ofNat (m / 256 ^ (k + 1 - 1 - i) % 256)) =
        (List.range k).map fun i => UInt8.ofNat (m / 256 / 256 ^ (k - 1 - i) % 256) := by
      refine List.map_congr_left fun i member => ?_
      have below := List.mem_range.mp member
      rw [Nat.div_div_eq_div_mul, ← pow_succ', show k - 1 - i + 1 = k + 1 - 1 - i by omega]
    rw [List.range_succ, List.map_append, digits, bytesToNat, List.foldl_append, ← bytesToNat, ih (m / 256),
      pow_succ', Nat.mod_mul]
    simp only [List.map_cons, List.map_nil, List.foldl_cons, List.foldl_nil, UInt8.toNat_ofNat', Nat.sub_self,
      Nat.add_sub_cancel, pow_zero, Nat.div_one]
    omega

theorem signMagnitude_mpi {x : ℤ} (nonzero : x ≠ 0) :
    SignMagnitude (decide (x < 0)) x.natAbs ((List.range (mpiSize x)).map fun i => UInt8.ofNat (mpiByte x i)) := by
  have size : mpiSize x = byteSize x.natAbs := by
    rw [mpiSize, byteSize]
    simp only [nonzero, Int.natAbs_eq_zero, if_false]
  have bound := lt_two_pow_byteSize (Int.natAbs_pos.mpr nonzero)
  obtain ⟨k, length⟩ : ∃ k, byteSize x.natAbs = k + 1 := by
    rw [byteSize, if_neg (Int.natAbs_ne_zero.mpr nonzero)]
    exact ⟨_, rfl⟩
  have digits := bytesToNat_digits (k + 1) x.natAbs
  rw [length] at bound size
  have whole : x.natAbs < 256 ^ (k + 1) := by
    rw [pow_256]
    exact bound.trans_le (Nat.pow_le_pow_right (by decide) (Nat.sub_le _ _))
  have first : x.natAbs / 256 ^ k < 128 := by
    refine Nat.div_lt_of_lt_mul (bound.trans_le ?_)
    rw [pow_256, show 128 = 2 ^ 7 by rfl, ← pow_add]
    exact Nat.pow_le_pow_right (by decide) (by omega)
  have low : UInt8.ofNat (x.natAbs / 256 ^ k % 256) < 0x80 := by
    rw [UInt8.lt_iff_toNat_lt, UInt8.toNat_ofNat', Nat.mod_mod, Nat.mod_eq_of_lt (first.trans (by decide))]
    exact first
  -- only the first byte takes the sign
  have top : UInt8.ofNat (mpiByte x 0) = if decide (x < 0) then UInt8.ofNat (x.natAbs / 256 ^ k % 256) ||| 0x80
      else UInt8.ofNat (x.natAbs / 256 ^ k % 256) := by
    rw [mpiByte, size, Nat.shiftRight_eq_div_pow, ← pow_256]
    simp only [true_and, decide_eq_true_eq, Nat.add_sub_cancel, Nat.sub_zero]
    split_ifs
    · rw [UInt8.ofNat_or]
      rfl
    · rfl
  have others : ∀ i, UInt8.ofNat (mpiByte x (i + 1)) = UInt8.ofNat (x.natAbs / 256 ^ (k + 1 - 1 - (i + 1)) % 256) := by
    intro i
    rw [mpiByte, size, Nat.shiftRight_eq_div_pow, ← pow_256, if_neg (by omega)]
  rw [Nat.mod_eq_of_lt whole, List.range_succ_eq_map, List.map_cons] at digits
  have tail : ((List.range k).map Nat.succ).map (fun i => UInt8.ofNat (mpiByte x i)) =
      ((List.range k).map Nat.succ).map fun i => UInt8.ofNat (x.natAbs / 256 ^ (k + 1 - 1 - i) % 256) := by
    rw [List.map_map, List.map_map]
    exact List.map_congr_left fun i _ => others i
  change bytesToNat (UInt8.ofNat (x.natAbs / 256 ^ k % 256) :: _) = _ at digits
  have written := signMagnitude_of_bytes low (decide (x < 0))
    (((List.range k).map Nat.succ).map fun i => UInt8.ofNat (x.natAbs / 256 ^ (k + 1 - 1 - i) % 256))
  rw [digits] at written
  rw [size, List.range_succ_eq_map, List.map_cons, top, tail]
  exact written

theorem setvch_getvch (x : ℤ) : setvch (getvch x) = x := by
  rw [setvch, getvch, List.reverse_reverse]
  by_cases zero : x = 0
  · rw [zero]
    rfl
  · rw [(signMagnitude_mpi zero).value]
    split_ifs with negative
    · have below := of_decide_eq_true negative
      omega
    · have above : ¬ x < 0 := by simpa using negative
      omega

theorem castToBool_iff (vch : Valtype) : castToBool vch = true ↔ setvch vch ≠ 0 := by
  induction vch with
  | nil => decide
  | cons byte rest ih =>
    cases rest with
    | nil =>
      -- a single byte is zero with either sign
      have holds : SignMagnitude _ _ [byte] := ⟨byte, [], rfl, (Bool.not_not _).symm, rfl⟩
      have value : bytesToNat [byte &&& 0x7f] = byte.toNat % 128 := by
        rw [← toNat_and_mask]
        exact Nat.zero_add _
      have bound : byte.toNat < 256 := byte.toNat_lt
      have zeros : byte.toNat % 128 = 0 ↔ byte = 0 ∨ byte = 0x80 := by
        rw [← UInt8.toNat_inj, ← UInt8.toNat_inj]
        change _ ↔ byte.toNat = 0 ∨ byte.toNat = 128
        omega
      rw [setvch, List.reverse_singleton, Ne, holds.eq_zero_iff, value, zeros]
      by_cases zero : byte = 0 <;> simp [castToBool, zero]
    | cons next rest =>
      have nonempty : (next :: rest).reverse ≠ [] := by simp
      obtain ⟨fNegative, m, holds⟩ := exists_signMagnitude nonempty
      rw [setvch, Ne, holds.eq_zero_iff] at ih
      rw [setvch, List.reverse_cons, Ne, (holds.append byte).eq_zero_iff, castToBool]
      by_cases zero : byte = 0
      · rw [if_pos zero, ih, zero]
        simp
      · have positive : byte.toNat ≠ 0 := fun same => zero (UInt8.toNat_inj.mp same)
        simp [zero, positive]

theorem toNat_top (n : Int64) : ((n >>> 56) &&& 0xff).toUInt64.toUInt8.toNat = n.toUInt64.toNat / 256 ^ 7 := by
  have bound := n.toBitVec.isLt
  have shifted : (n >>> 56).toUInt64.toNat =
      if n.toBitVec.msb = true then 2 ^ 64 - 1 - (2 ^ 64 - 1 - n.toUInt64.toNat) >>> 56 else n.toUInt64.toNat >>> 56 := by
    change (n >>> 56).toBitVec.toNat = _
    rw [Int64.toBitVec_shiftRight]
    exact BitVec.toNat_sshiftRight
  change n.toUInt64.toNat < 2 ^ 64 at bound
  have low : (0xff : Int64).toUInt64.toNat = 2 ^ 8 - 1 := rfl
  rw [Int64.toUInt64_and, UInt64.toNat_toUInt8, UInt64.toNat_and, shifted, low, Nat.and_two_pow_sub_one_eq_mod]
  simp only [Nat.shiftRight_eq_div_pow]
  split_ifs <;> omega

theorem toNat_shift (n : Int64) : (n <<< 8).toUInt64.toNat = n.toUInt64.toNat % 256 ^ 7 * 256 := by
  have bound := n.toBitVec.isLt
  have shifted : (n <<< 8).toUInt64.toNat = n.toUInt64.toNat <<< 8 % 2 ^ 64 := by
    change (n <<< 8).toBitVec.toNat = _
    rw [Int64.toBitVec_shiftLeft]
    exact BitVec.toNat_shiftLeft
  rw [shifted, Nat.shiftLeft_eq]
  omega

theorem div_split (n : Int64) {rounds : ℕ} (few : rounds + 1 ≤ 8) :
    n.toUInt64.toNat / 256 ^ (8 - (rounds + 1)) =
      n.toUInt64.toNat / 256 ^ 7 * 256 ^ rounds + (n <<< 8).toUInt64.toNat / 256 ^ (8 - rounds) := by
  have whole : 256 ^ 7 = 256 ^ rounds * 256 ^ (7 - rounds) := by
    rw [← pow_add]
    congr 1
    omega
  have next : 256 ^ (8 - rounds) = 256 ^ (7 - rounds) * 256 := by
    rw [← pow_succ]
    congr 1
    omega
  rw [toNat_shift, next, Nat.mul_div_mul_right _ _ (by decide), show 8 - (rounds + 1) = 7 - rounds by omega]
  conv_lhs => rw [← Nat.div_add_mod' n.toUInt64.toNat (256 ^ 7)]
  rw [whole, ← Nat.mul_assoc, Nat.add_comm, Nat.add_mul_div_right _ _ (Nat.pow_pos (by decide)), Nat.add_comm]

theorem signMagnitude_int64Bytes : ∀ (rounds : ℕ) (n : Int64) {m : ℕ} {p : List UInt8}, rounds ≤ 8 →
    SignMagnitude fNegative m p → SignMagnitude fNegative (m * 256 ^ rounds + n.toUInt64.toNat / 256 ^ (8 - rounds))
      (int64Bytes fNegative rounds n false p) := by
  intro rounds
  induction rounds with
  | zero =>
    intro n m p _ holds
    have bound : n.toUInt64.toNat < 256 ^ 8 := n.toBitVec.isLt
    rw [Nat.sub_zero, Nat.div_eq_of_lt bound, pow_zero, Nat.mul_one]
    exact holds
  | succ rounds ih =>
    intro n m p few holds
    have later := ih (n <<< 8) (by omega) (holds.append ((n >>> 56) &&& 0xff).toUInt64.toUInt8)
    rw [toNat_top, Nat.add_mul, Nat.mul_assoc, ← pow_succ', Nat.add_assoc, ← div_split n few] at later
    exact later

theorem int64Bytes_leading (fNegative : Bool) : ∀ (rounds : ℕ) (n : Int64), rounds ≤ 8 →
    n.toUInt64.toNat / 256 ^ (8 - rounds) = 0 ∧ int64Bytes fNegative rounds n true [] = [] ∨
      SignMagnitude fNegative (n.toUInt64.toNat / 256 ^ (8 - rounds)) (int64Bytes fNegative rounds n true []) := by
  intro rounds
  induction rounds with
  | zero =>
    intro n _
    have bound : n.toUInt64.toNat < 256 ^ 8 := n.toBitVec.isLt
    exact .inl ⟨Nat.div_eq_of_lt bound, rfl⟩
  | succ rounds ih =>
    intro n few
    have top := toNat_top n
    rw [div_split n few, ← top]
    simp only [int64Bytes, if_true, List.nil_append]
    generalize ((n >>> 56) &&& 0xff).toUInt64.toUInt8 = c
    by_cases zero : c = 0
    · rw [if_pos zero, zero]
      simpa using ih (n <<< 8) (by omega)
    rw [if_neg zero]
    by_cases low : c &&& 0x80 = 0
    · have first : SignMagnitude fNegative c.toNat [if fNegative then c ||| 0x80 else c] := by
        simpa [bytesToNat] using signMagnitude_of_bytes ((sign_bit c).2.mpr low) fNegative []
      rw [if_neg (not_not.mpr low)]
      exact .inr (signMagnitude_int64Bytes rounds (n <<< 8) (by omega) first)
    · -- a byte with its top bit set needs another one for the sign
      have first : SignMagnitude fNegative c.toNat [if fNegative then 0x80 else 0, c] := by
        simpa [bytesToNat] using signMagnitude_of_bytes (show (0 : UInt8) < 0x80 by decide) fNegative [c]
      rw [if_pos low]
      exact .inr (signMagnitude_int64Bytes rounds (n <<< 8) (by omega) first)

theorem toNat_magnitude (n : Int64) :
    ((if n < 0 then -n else n).toUInt64.toNat : ℤ) = if n < 0 then -n.toInt else n.toInt := by
  have value : n.toInt = (n.toUInt64.toNat : ℤ).bmod (2 ^ 64) := BitVec.toInt_eq_toNat_bmod n.toBitVec
  have bound : n.toUInt64.toNat < 2 ^ 64 := n.toBitVec.isLt
  have negated : (-n).toUInt64.toNat = (2 ^ 64 - n.toUInt64.toNat) % 2 ^ 64 := BitVec.toNat_neg n.toBitVec
  have sign : n < 0 ↔ n.toInt < 0 := Int64.lt_iff_toInt_lt
  rw [Int.bmod_def] at value
  by_cases negative : n < 0
  · have below := sign.mp negative
    rw [if_pos negative, if_pos negative, negated]
    split_ifs at value <;> omega
  · have above := mt sign.mpr negative
    rw [if_neg negative, if_neg negative]
    split_ifs at value <;> omega

theorem setint64_eq (n : Int64) : setint64 n = n.toInt := by
  have magnitude := toNat_magnitude n
  have written := int64Bytes_leading (decide (n < 0)) 8 (if n < 0 then -n else n) le_rfl
  rw [Nat.sub_self, pow_zero, Nat.div_one] at written
  rw [setint64]
  rcases written with ⟨zero, empty⟩ | holds
  · rw [empty]
    rw [zero] at magnitude
    split_ifs at magnitude
    · exact (Int.neg_eq_zero.mp magnitude.symm).symm
    · exact magnitude
  · rw [holds.value, magnitude]
    simp only [decide_eq_true_eq]
    split_ifs
    · exact Int.neg_neg _
    · rfl

theorem instruction_numeral (opcode : UInt8) (numeral : opcode = 0x4f ∨ OP_1 ≤ opcode ∧ opcode ≤ OP_16) :
    getOp2 [opcode] = some (opcode, [], []) ∧ ¬ opcode ≤ OP_PUSHDATA4 ∧
      instruction opcode = some (.stack (.OP_N (opcode.toNat - 0x50))) := by
  rcases numeral with rfl | ⟨low, high⟩
  · exact ⟨rfl, by decide, rfl⟩
  · obtain ⟨plain, number, found⟩ := number_opcode low high
    rw [number]
    exact ⟨by rw [getOp2, if_neg plain], plain, found⟩

variable (C : Crypto) (checkSig : SigChecker)

theorem evalScript_numeral {opcode : UInt8} (numeral : opcode = 0x4f ∨ OP_1 ≤ opcode ∧ opcode ≤ OP_16) :
    (evalScript C checkSig [] [opcode]).result = .ok [getvch (opcode.toNat - 0x50)] := by
  obtain ⟨read, plain, found⟩ := instruction_numeral opcode numeral
  have small : opcode ≤ OP_16 := by
    rcases numeral with rfl | ⟨-, high⟩
    · decide
    · exact high
  obtain ⟨few, enabled⟩ := small_opcode small
  have step : StepsTo C checkSig (running [opcode] [opcode] [] 0)
      (running [opcode] [] [getvch (opcode.toNat - 0x50)] 0) := by
    refine steps_execute C checkSig _ _ _ _ read plain enabled found (by decide) ?_ (by simp [running])
    rw [if_neg few]
    rfl
  exact (evalScript_eq_ok C checkSig).mpr ⟨by simp, _, .single step, rfl, rfl, rfl⟩

theorem numeral_opcode {n : Int64} (small : n = -1 ∨ 1 ≤ n ∧ n ≤ 16) :
    let opcode := (n + (OP_1.toUInt64.toInt64 - 1)).toUInt64.toUInt8
    (opcode = 0x4f ∨ OP_1 ≤ opcode ∧ opcode ≤ OP_16) ∧ (opcode.toNat - 0x50 : ℤ) = n.toInt := by
  rcases small with rfl | ⟨low, high⟩
  · decide
  · have least : 1 ≤ n.toInt := Int64.le_iff_toInt_le.mp low
    have greatest : n.toInt ≤ 16 := Int64.le_iff_toInt_le.mp high
    obtain ⟨k, rfl⟩ : ∃ k : Fin 16, n = Int64.ofInt (k.val + 1) := by
      refine ⟨⟨n.toInt.toNat - 1, by omega⟩, ?_⟩
      rw [show ((n.toInt.toNat - 1 : ℕ) : ℤ) + 1 = n.toInt by omega, Int64.ofInt_toInt]
    clear low high least greatest
    revert k
    decide

theorem evalScript_pushInt64_eq (n : Int64) :
    (evalScript C checkSig [] (pushInt64 n)).result = .ok [getvch n.toInt] := by
  rw [pushInt64]
  split_ifs with small
  · obtain ⟨numeral, value⟩ := numeral_opcode small
    rw [evalScript_numeral C checkSig numeral, value]
  · rw [setint64_eq]
    have short : (getvch n.toInt).length ≤ 520 := by
      have low := Int64.le_toInt n
      have high := Int64.toInt_lt n
      exact short_getvch (n := 9) (by omega) (by decide)
    have one : ∀ value ∈ [getvch n.toInt], value.length ≤ 520 := by simpa using short
    have pushed := evalScript_pushes C checkSig one (by simp)
    rwa [pushes, List.flatMap_singleton] at pushed

theorem evalScript_pushInt64 (n : Int64) :
    ∃ vch, (evalScript C checkSig [] (pushInt64 n)).result = .ok [vch] ∧ setvch vch = n.toInt ∧
      (castToBool vch = true ↔ n ≠ 0) ∧
      castToBigNum vch = if n.toInt.natAbs < 2 ^ 31 then .ok n.toInt else .error .overflow := by
  refine ⟨getvch n.toInt, evalScript_pushInt64_eq C checkSig n, setvch_getvch _, ?_, ?_⟩
  · rw [castToBool_iff, setvch_getvch, Ne, ← Int64.toInt_zero, Int64.toInt_inj]
  · have length := two_mul_natAbs_setvch_lt (getvch n.toInt)
    rw [setvch_getvch] at length
    rw [castToBigNum, setvch_getvch, setvch_getvch]
    by_cases small : n.toInt.natAbs < 2 ^ 31
    · have few : (getvch n.toInt).length ≤ nMaxNumSize := length_getvch_le (n := 4) (by omega)
      rw [if_neg (Nat.not_lt.mpr few), if_pos small]
    · have long : ¬ (getvch n.toInt).length ≤ nMaxNumSize := fun few => by
        have := length.trans_le (Nat.pow_le_pow_right (by decide) few)
        change _ < 256 ^ 4 at this
        omega
      rw [if_pos (Nat.not_le.mp long), if_neg small]

end RitCoin.Proof
