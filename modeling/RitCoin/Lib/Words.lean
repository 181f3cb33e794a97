import Mathlib.Data.Nat.Bitwise
import Mathlib.Tactic.Ring

/-!
# Numbers in words

A list of 32-bit words, the lowest first, as a number.
-/

namespace RitCoin.Lib

def wordsToNat : List UInt32 → ℕ
  | [] => 0
  | word :: words => word.toNat + 2 ^ 32 * wordsToNat words

theorem wordsToNat_lt (words : List UInt32) : wordsToNat words < 2 ^ (32 * words.length) := by
  induction words with
  | nil => exact Nat.one_pos
  | cons word words ih =>
    have low := word.toNat_lt
    rw [wordsToNat, List.length_cons, Nat.mul_succ, Nat.add_comm (32 * _), pow_add]
    omega

theorem wordsToNat_append (words later : List UInt32) :
    wordsToNat (words ++ later) = wordsToNat words + 2 ^ (32 * words.length) * wordsToNat later := by
  induction words with
  | nil => simp [wordsToNat]
  | cons word words ih =>
    rw [List.cons_append, wordsToNat, wordsToNat, ih, List.length_cons, Nat.mul_succ, pow_add]
    ring

@[simp] theorem wordsToNat_zeros (k : ℕ) : wordsToNat (List.replicate k 0) = 0 := by
  induction k with
  | zero => rfl
  | succ k ih =>
    rw [List.replicate_succ, wordsToNat, ih]
    rfl

theorem wordsToNat_inj : ∀ {words other : List UInt32}, words.length = other.length →
    wordsToNat words = wordsToNat other → words = other := by
  intro words
  induction words with
  | nil => exact fun length _ => (List.eq_nil_of_length_eq_zero length.symm).symm
  | cons word words ih =>
    intro other length same
    cases other with
    | nil => cases length
    | cons first other =>
      have low := word.toNat_lt
      have low' := first.toNat_lt
      rw [wordsToNat, wordsToNat] at same
      have heads : word = first := UInt32.toNat_inj.mp (by omega)
      have tails := ih (Nat.succ.inj length) (by omega)
      rw [heads, tails]

theorem mod_words (n m k : ℕ) :
    (n + 2 ^ 32 * m) % 2 ^ (32 * (k + 1)) = n % 2 ^ 32 + 2 ^ 32 * ((n / 2 ^ 32 + m) % 2 ^ (32 * k)) := by
  rw [Nat.mul_succ, Nat.add_comm (32 * k), pow_add, Nat.mod_mul, Nat.add_mul_mod_self_left,
    Nat.add_mul_div_left _ _ (by decide)]

theorem testBit_wordsToNat (words : List UInt32) (p : ℕ) :
    (wordsToNat words).testBit p = (words.getD (p / 32) 0).toNat.testBit (p % 32) := by
  induction words generalizing p with
  | nil =>
    rw [wordsToNat, List.getD_nil, Nat.zero_testBit]
    exact (Nat.zero_testBit _).symm
  | cons word words ih =>
    rw [wordsToNat, Nat.add_comm]
    rcases Nat.lt_or_ge p 32 with low | high
    · rw [Nat.testBit_two_pow_mul_add _ word.toNat_lt, if_pos low, Nat.div_eq_of_lt low, Nat.mod_eq_of_lt low]
      rfl
    · rw [Nat.testBit_two_pow_mul_add _ word.toNat_lt, if_neg (Nat.not_lt.mpr high), ih]
      have quotient : p / 32 = (p - 32) / 32 + 1 := by omega
      have remainder : p % 32 = (p - 32) % 32 := by omega
      rw [quotient, remainder]
      rfl

end RitCoin.Lib
