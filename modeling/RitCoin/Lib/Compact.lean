import Mathlib.Data.Nat.Log
import Mathlib.Tactic.Ring

/-!
# Numbers of three bytes

A number is cut to its first three bytes, where the first byte keeps its top bit free. `Short` numbers
survive, and what is left of a number is the largest short number that is not above it.
-/

namespace RitCoin.Lib

/-- The bytes of a number, of which the first is less than 128. -/
def byteSize (n : ℕ) : ℕ := if n = 0 then 0 else (Nat.log2 n + 1) / 8 + 1

def roundDown (n : ℕ) : ℕ := n / 256 ^ (byteSize n - 3) * 256 ^ (byteSize n - 3)

def Short (n : ℕ) : Prop := ∃ m j, m < 2 ^ 23 ∧ n = m * 256 ^ j

theorem pow_256 (k : ℕ) : 256 ^ k = 2 ^ (8 * k) := by
  rw [pow_mul]
  rfl

theorem lt_two_pow_byteSize {n : ℕ} (positive : 0 < n) : n < 2 ^ (8 * byteSize n - 1) := by
  refine Nat.lt_log2_self.trans_le (Nat.pow_le_pow_right (by decide) ?_)
  rw [byteSize, if_neg positive.ne']
  omega

theorem two_pow_le_of_byteSize {n : ℕ} (large : 2 ≤ byteSize n) : 2 ^ (8 * (byteSize n - 1) - 1) ≤ n := by
  have positive : n ≠ 0 := by
    rintro rfl
    exact absurd large (by decide)
  refine (Nat.pow_le_pow_right (by decide) ?_).trans (Nat.log2_self_le positive)
  rw [byteSize, if_neg positive]
  omega

theorem byteSize_le {n b : ℕ} (small : n < 2 ^ b) : byteSize n ≤ b / 8 + 1 := by
  unfold byteSize
  split_ifs with zero
  · exact Nat.zero_le _
  · have bits := (Nat.log2_lt zero).mpr small
    omega

theorem roundDown_le (n : ℕ) : roundDown n ≤ n := Nat.div_mul_le_self ..

theorem head_lt (n : ℕ) : n / 256 ^ (byteSize n - 3) < 2 ^ 23 := by
  rcases Nat.eq_zero_or_pos n with rfl | positive
  · decide
  have bound := lt_two_pow_byteSize positive
  refine Nat.div_lt_of_lt_mul (bound.trans_le ?_)
  rw [pow_256, ← pow_add]
  exact Nat.pow_le_pow_right (by decide) (by omega)

theorem le_roundDown {n k : ℕ} (short : Short k) (le : k ≤ n) : k ≤ roundDown n := by
  obtain ⟨m, j, small, rfl⟩ := short
  rcases Nat.lt_or_ge j (byteSize n - 3) with few | many
  · have lead : 2 ^ (8 * (byteSize n - 1) - 1) ≤ roundDown n := by
      have large := two_pow_le_of_byteSize (n := n) (by omega)
      have split : 2 ^ (8 * (byteSize n - 1) - 1) = 2 ^ 15 * 256 ^ (byteSize n - 3) := by
        rw [pow_256, ← pow_add]
        congr 1
        omega
      rw [split] at large ⊢
      exact Nat.mul_le_mul_right _ ((Nat.le_div_iff_mul_le (Nat.pow_pos (by decide))).mpr large)
    refine le_trans ?_ lead
    calc m * 256 ^ j ≤ 2 ^ 23 * 256 ^ j := Nat.mul_le_mul_right _ small.le
      _ = 2 ^ (23 + 8 * j) := by rw [pow_256, ← pow_add]
      _ ≤ 2 ^ (8 * (byteSize n - 1) - 1) := Nat.pow_le_pow_right (by decide) (by omega)
  · have divides : 256 ^ (byteSize n - 3) ∣ m * 256 ^ j := Dvd.dvd.mul_left (pow_dvd_pow 256 many) m
    obtain ⟨q, multiple⟩ := divides
    rw [multiple, Nat.mul_comm] at le ⊢
    exact Nat.mul_le_mul_right _ ((Nat.le_div_iff_mul_le (Nat.pow_pos (by decide))).mpr le)

end RitCoin.Lib
