import Mathlib.Order.Bounds.Basic
import RitCoin.Lib.Compact
import RitCoin.Model.BigNum

namespace RitCoin.Proof
open Lib Model
variable {top : UInt8} {nCompact : UInt32} {a b c nSize n : ℕ}

theorem bytesToNat_append_zeros (bytes : List UInt8) (k : ℕ) :
    bytesToNat (bytes ++ List.replicate k 0) = bytesToNat bytes * 256 ^ k := by
  induction k with
  | zero => simp
  | succ k ih =>
    rw [List.replicate_succ', ← List.append_assoc, bytesToNat, List.foldl_append, ← bytesToNat, ih, pow_succ,
      ← Nat.mul_assoc]
    simp

theorem compactBytes (b₀ b₁ b₂ : UInt8) (k : ℕ) :
    (((List.replicate (k + 3) (0 : UInt8)).set 0 b₀).set 1 b₁).set 2 b₂ = [b₀, b₁, b₂] ++ List.replicate k 0 := by
  simp [List.replicate_succ]

theorem mpiToBn_of_lt (low : top < 0x80) (rest : List UInt8) :
    mpiToBn (top :: rest) = bytesToNat (top :: rest) := if_pos low

theorem mpiToBn_nonpos (high : ¬ top < 0x80) (rest : List UInt8) : mpiToBn (top :: rest) ≤ 0 := by
  rw [mpiToBn, if_neg high]
  exact Int.neg_nonpos_of_nonneg (Int.natCast_nonneg _)

theorem short_of_mpi (rest : List UInt8) (k : ℕ) (few : rest.length ≤ 2)
    (positive : 0 < mpiToBn (top :: (rest ++ List.replicate k 0))) :
    ∃ n : ℕ, mpiToBn (top :: (rest ++ List.replicate k 0)) = (n : ℤ) ∧ Short n := by
  by_cases low : top < 0x80
  · refine ⟨_, mpiToBn_of_lt low _, bytesToNat (top :: rest), k, ?_, bytesToNat_append_zeros (top :: rest) k⟩
    have first : top.toNat < 128 := by simpa using UInt8.lt_iff_toNat_lt.mp low
    rcases rest with _ | ⟨b, _ | ⟨c, _ | ⟨d, rest⟩⟩⟩
    · simp only [bytesToNat, List.foldl_cons, List.foldl_nil]
      omega
    · have := b.toNat_lt
      simp only [bytesToNat, List.foldl_cons, List.foldl_nil]
      omega
    · have := b.toNat_lt
      have := c.toNat_lt
      simp only [bytesToNat, List.foldl_cons, List.foldl_nil]
      omega
    · simp only [List.length_cons] at few
      omega
  · exact absurd positive (Int.not_lt.mpr (mpiToBn_nonpos low _))

theorem short_setCompact (positive : 0 < setCompact nCompact) :
    ∃ n : ℕ, setCompact nCompact = (n : ℤ) ∧ Short n := by
  unfold setCompact at positive ⊢
  dsimp only at positive ⊢
  generalize (nCompact >>> 24).toNat = nSize at positive ⊢
  match nSize with
  | 0 => exact absurd positive (lt_irrefl 0)
  | 1 => exact short_of_mpi [] 0 (by decide) positive
  | 2 => exact short_of_mpi [_] 0 (by simp) positive
  | k + 3 =>
    rw [compactBytes] at positive ⊢
    exact short_of_mpi [_, _] k (by simp) positive

theorem mpiSize_natCast (n : ℕ) : mpiSize n = byteSize n := by
  simp [mpiSize, byteSize]

theorem mpiByte_natCast (n i : ℕ) : mpiByte n i = n / 256 ^ (byteSize n - 1 - i) % 256 := by
  have nonneg : ¬ (i = 0 ∧ (n : ℤ) < 0) := by omega
  rw [mpiByte, if_neg nonneg, mpiSize_natCast, Int.natAbs_natCast, Nat.shiftRight_eq_div_pow, pow_256]

theorem packed_eq (nSize : ℕ) (a_lt : a < 256) (b_lt : b < 256) (c_lt : c < 256) :
    nSize <<< 24 ||| a <<< 16 ||| b <<< 8 ||| c = nSize * 2 ^ 24 + a * 2 ^ 16 + b * 2 ^ 8 + c := by
  rw [Nat.lor_assoc, Nat.lor_assoc, ← Nat.shiftLeft_add_eq_or_of_lt (by omega : c < 2 ^ 8)]
  rw [← Nat.shiftLeft_add_eq_or_of_lt (by rw [Nat.shiftLeft_eq]; omega : b <<< 8 + c < 2 ^ 16)]
  rw [← Nat.shiftLeft_add_eq_or_of_lt
    (by rw [Nat.shiftLeft_eq, Nat.shiftLeft_eq]; omega : a <<< 16 + (b <<< 8 + c) < 2 ^ 24)]
  rw [Nat.shiftLeft_eq, Nat.shiftLeft_eq, Nat.shiftLeft_eq]
  omega

theorem fields_of_packed (size : nSize < 256) (a_lt : a < 256) (b_lt : b < 256) (c_lt : c < 256) :
    let nCompact := UInt32.ofNat (nSize <<< 24 ||| a <<< 16 ||| b <<< 8 ||| c)
    (nCompact >>> 24).toNat = nSize ∧ (nCompact >>> 16).toUInt8 = UInt8.ofNat a ∧
      (nCompact >>> 8).toUInt8 = UInt8.ofNat b ∧ nCompact.toUInt8 = UInt8.ofNat c := by
  dsimp only
  rw [packed_eq nSize a_lt b_lt c_lt]
  refine ⟨?_, ?_, ?_, ?_⟩
  · rw [UInt32.toNat_shiftRight, UInt32.toNat_ofNat', Nat.shiftRight_eq_div_pow]
    change _ / 2 ^ 24 = _
    omega
  · apply UInt8.toNat.inj
    rw [UInt32.toNat_toUInt8, UInt32.toNat_shiftRight, UInt32.toNat_ofNat', Nat.shiftRight_eq_div_pow,
      UInt8.toNat_ofNat']
    change _ / 2 ^ 16 % 2 ^ 8 = _
    omega
  · apply UInt8.toNat.inj
    rw [UInt32.toNat_toUInt8, UInt32.toNat_shiftRight, UInt32.toNat_ofNat', Nat.shiftRight_eq_div_pow,
      UInt8.toNat_ofNat']
    change _ / 2 ^ 8 % 2 ^ 8 = _
    omega
  · apply UInt8.toNat.inj
    rw [UInt32.toNat_toUInt8, UInt32.toNat_ofNat', UInt8.toNat_ofNat']
    omega

theorem three_bytes {q : ℕ} (small : q < 2 ^ 23) (k : ℕ) :
    mpiToBn ([UInt8.ofNat (q / 256 ^ 2 % 256), UInt8.ofNat (q / 256 % 256), UInt8.ofNat (q % 256)] ++
      List.replicate k 0) = (q * 256 ^ k : ℕ) := by
  have low : UInt8.ofNat (q / 256 ^ 2 % 256) < 0x80 := by
    rw [UInt8.lt_iff_toNat_lt, UInt8.toNat_ofNat']
    change _ < 128
    omega
  rw [List.cons_append, mpiToBn_of_lt low, ← List.cons_append, bytesToNat_append_zeros]
  simp only [bytesToNat, List.foldl_cons, List.foldl_nil, UInt8.toNat_ofNat']
  congr 2
  omega

theorem setCompact_of_fields (size : (nCompact >>> 24).toNat = nSize)
    (first : (nCompact >>> 16).toUInt8 = UInt8.ofNat a) (second : (nCompact >>> 8).toUInt8 = UInt8.ofNat b)
    (third : nCompact.toUInt8 = UInt8.ofNat c) :
    setCompact nCompact = mpiToBn ((((List.replicate nSize (0 : UInt8)).set 0 (UInt8.ofNat a)).set 1
      (UInt8.ofNat b)).set 2 (UInt8.ofNat c)) := by
  unfold setCompact
  rw [size, first, second, third]

theorem setCompact_getCompact (positive : 0 < n) (size : byteSize n < 256) :
    setCompact (getCompact n) = roundDown n := by
  have bound := lt_two_pow_byteSize positive
  have bytes := mpiByte_natCast n
  have byte_lt : ∀ i, mpiByte n i < 256 := fun i => by
    rw [bytes]
    exact Nat.mod_lt _ (by decide)
  unfold getCompact
  dsimp only
  rw [mpiSize_natCast, roundDown]
  rcases length : byteSize n with _ | _ | _ | k
  · -- a positive number has a byte
    rw [byteSize, if_neg positive.ne'] at length
    omega
  · rw [Nat.zero_add] at length ⊢
    rw [length] at bound bytes
    obtain ⟨h, h₀, h₁, h₂⟩ := fields_of_packed (show 1 < 256 by decide) (byte_lt 0) (show 0 < 256 by decide)
      (show 0 < 256 by decide)
    rw [Nat.zero_shiftLeft] at h h₀ h₁ h₂
    rw [if_pos le_rfl, if_neg (by decide), if_neg (by decide), setCompact_of_fields h h₀ h₁ h₂, bytes]
    have low : UInt8.ofNat (n / 256 ^ (1 - 1 - 0) % 256) < 0x80 := by
      rw [UInt8.lt_iff_toNat_lt, UInt8.toNat_ofNat']
      change n / 1 % 256 % 256 < 128
      omega
    refine (mpiToBn_of_lt low []).trans ?_
    simp only [bytesToNat, List.foldl_cons, List.foldl_nil, UInt8.toNat_ofNat']
    omega
  · rw [show 0 + 1 + 1 = 2 from rfl] at length ⊢
    rw [length] at bound bytes
    obtain ⟨h, h₀, h₁, h₂⟩ := fields_of_packed (show 2 < 256 by decide) (byte_lt 0) (byte_lt 1)
      (show 0 < 256 by decide)
    rw [if_pos (by decide), if_pos le_rfl, if_neg (by decide), setCompact_of_fields h h₀ h₁ h₂, bytes, bytes]
    have low : UInt8.ofNat (n / 256 ^ (2 - 1 - 0) % 256) < 0x80 := by
      rw [UInt8.lt_iff_toNat_lt, UInt8.toNat_ofNat']
      change n / 256 % 256 % 256 < 128
      omega
    refine (mpiToBn_of_lt low [UInt8.ofNat (n / 256 ^ (2 - 1 - 1) % 256)]).trans ?_
    simp only [bytesToNat, List.foldl_cons, List.foldl_nil, UInt8.toNat_ofNat']
    omega
  · rw [length] at bound bytes size
    obtain ⟨h, h₀, h₁, h₂⟩ := fields_of_packed size (byte_lt 0) (byte_lt 1) (byte_lt 2)
    have q_lt : n / 256 ^ k < 2 ^ 23 := by
      have := head_lt n
      rwa [length] at this
    have second : n / 256 ^ (k + 1) = n / 256 ^ k / 256 := by rw [Nat.div_div_eq_div_mul, ← pow_succ]
    have first : n / 256 ^ (k + 2) = n / 256 ^ k / 256 ^ 2 := by rw [Nat.div_div_eq_div_mul, ← pow_add]
    rw [if_pos (by omega), if_pos (by omega), if_pos (by omega), setCompact_of_fields h h₀ h₁ h₂, compactBytes,
      bytes, bytes, bytes]
    change mpiToBn ([UInt8.ofNat (n / 256 ^ (k + 2) % 256), UInt8.ofNat (n / 256 ^ (k + 1) % 256),
      UInt8.ofNat (n / 256 ^ k % 256)] ++ List.replicate k 0) = _
    rw [first, second, three_bytes q_lt]
    rfl

def compactTargets : Set ℤ := {y | 0 ≤ y ∧ ∃ nCompact, setCompact nCompact = y}

theorem isGreatest_setCompact (size : byteSize n < 256) :
    IsGreatest {y ∈ compactTargets | y ≤ n} (setCompact (getCompact n)) := by
  rcases Nat.eq_zero_or_pos n with rfl | positive
  · have zero : setCompact (getCompact (0 : ℕ)) = 0 := by decide
    rw [zero]
    exact ⟨⟨⟨le_rfl, 0, by decide⟩, le_rfl⟩, fun y member => member.2⟩
  · have rounded := setCompact_getCompact positive size
    refine ⟨⟨⟨?_, getCompact n, rfl⟩, ?_⟩, ?_⟩
    · rw [rounded]
      exact Int.natCast_nonneg _
    · rw [rounded]
      exact Int.ofNat_le.mpr (roundDown_le n)
    · rintro y ⟨⟨nonneg, nCompact, rfl⟩, le⟩
      rw [rounded]
      rcases nonneg.eq_or_lt with zero | above
      · rw [← zero]
        exact Int.natCast_nonneg _
      · obtain ⟨k, target, short⟩ := short_setCompact above
        rw [target] at le ⊢
        exact Int.ofNat_le.mpr (le_roundDown short (Int.ofNat_le.mp le))

theorem isGreatest_setCompact_of_lt {x : ℤ} (nonneg : 0 ≤ x) (size : x < 256 ^ 254) :
    IsGreatest {y ∈ compactTargets | y ≤ x} (setCompact (getCompact x)) := by
  obtain ⟨n, rfl⟩ := Int.eq_ofNat_of_zero_le nonneg
  refine isGreatest_setCompact (Nat.lt_succ_of_le (byteSize_le (b := 2032) ?_))
  have width : (256 : ℕ) ^ 254 = 2 ^ 2032 := pow_256 254
  rw [← width]
  exact_mod_cast size

/-- `GetCompact` followed by `SetCompact` rounds down to the numbers that have a compact form. -/
theorem setCompact_getCompact_rounds (x : ℤ) (nonneg : 0 ≤ x) (size : x < 256 ^ 254) :
    IsGreatest {y ∈ compactTargets | y ≤ x} (setCompact (getCompact x)) ∧
    (∀ y, x ≤ y → y < 256 ^ 254 → setCompact (getCompact x) ≤ setCompact (getCompact y)) ∧
    (x ∈ compactTargets → setCompact (getCompact x) = x) := by
  have greatest := isGreatest_setCompact_of_lt nonneg size
  refine ⟨greatest, fun y le size' => ?_, fun member => ?_⟩
  · have above := isGreatest_setCompact_of_lt (nonneg.trans le) size'
    exact above.2 ⟨greatest.1.1, greatest.1.2.trans le⟩
  · exact le_antisymm greatest.1.2 (greatest.2 ⟨member, le_rfl⟩)

theorem setCompact_getCompact_rounds_four_bytes :
    IsGreatest {y ∈ compactTargets | y ≤ 0x12345678} 0x12345600 :=
  (setCompact_getCompact_rounds 0x12345678 (by decide) (by norm_num)).1

end RitCoin.Proof
