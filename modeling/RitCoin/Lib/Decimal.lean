import Mathlib

/-!
# Decimal numerals

Numbers written with the ASCII digits, the most significant first. Leading zeros do not change what
is written, trailing ones multiply it.
-/

namespace RitCoin.Lib

def isDigit (c : UInt8) : Bool := decide (48 ≤ c.toNat) && decide (c.toNat ≤ 57)

def digitValue (c : UInt8) : Nat := c.toNat - 48

def digitOf (d : Nat) : UInt8 := UInt8.ofNat (48 + d)

def ofDecimal (text : List UInt8) : Nat := Nat.ofDigits 10 (text.reverse.map digitValue)

def toDecimal (n : Nat) : List UInt8 :=
  if n = 0 then [digitOf 0] else (Nat.digits 10 n).reverse.map digitOf

def padLeft (width : Nat) (text : List UInt8) : List UInt8 :=
  List.replicate (width - text.length) (digitOf 0) ++ text

def padRight (width : Nat) (text : List UInt8) : List UInt8 :=
  text ++ List.replicate (width - text.length) (digitOf 0)

theorem digitOf_toNat {d : Nat} (small : d < 10) : (digitOf d).toNat = 48 + d := by
  rw [digitOf, UInt8.toNat_ofNat_of_lt']
  show 48 + d < 256
  omega

theorem digitValue_digitOf {d : Nat} (small : d < 10) : digitValue (digitOf d) = d := by
  rw [digitValue, digitOf_toNat small, Nat.add_sub_cancel_left]

theorem isDigit_digitOf {d : Nat} (small : d < 10) : isDigit (digitOf d) = true := by
  rw [isDigit, digitOf_toNat small]
  simp
  omega

theorem digitValue_lt {c : UInt8} (digit : isDigit c = true) : digitValue c < 10 := by
  simp only [isDigit, Bool.and_eq_true, decide_eq_true_eq] at digit
  rw [digitValue]
  omega

@[simp] theorem ofDecimal_nil : ofDecimal [] = 0 := rfl

theorem ofDecimal_append (high low : List UInt8) :
    ofDecimal (high ++ low) = ofDecimal high * 10 ^ low.length + ofDecimal low := by
  rw [ofDecimal, List.reverse_append, List.map_append, Nat.ofDigits_append]
  simp only [List.length_map, List.length_reverse, ofDecimal]
  ring

theorem ofDecimal_cons (c : UInt8) (low : List UInt8) :
    ofDecimal (c :: low) = digitValue c * 10 ^ low.length + ofDecimal low := by
  rw [← List.singleton_append, ofDecimal_append]
  simp [ofDecimal]

theorem ofDecimal_zeros (k : Nat) : ofDecimal (List.replicate k (digitOf 0)) = 0 := by
  rw [ofDecimal, List.reverse_replicate, List.map_replicate, digitValue_digitOf (by omega),
    Nat.ofDigits_replicate_zero]

theorem ofDecimal_padLeft (width : Nat) (text : List UInt8) : ofDecimal (padLeft width text) = ofDecimal text := by
  rw [padLeft, ofDecimal_append, ofDecimal_zeros, Nat.zero_mul, Nat.zero_add]

theorem ofDecimal_lt {text : List UInt8} (digits : ∀ c ∈ text, isDigit c = true) :
    ofDecimal text < 10 ^ text.length := by
  have small : ∀ d ∈ text.reverse.map digitValue, d < 10 := by
    intro d mem
    obtain ⟨c, inText, rfl⟩ := List.mem_map.mp mem
    exact digitValue_lt (digits c (List.mem_reverse.mp inText))
  rw [ofDecimal]
  calc Nat.ofDigits 10 (text.reverse.map digitValue)
    _ < 10 ^ (text.reverse.map digitValue).length := Nat.ofDigits_lt_base_pow_length (by omega) small
    _ = 10 ^ text.length := by rw [List.length_map, List.length_reverse]

theorem ofDecimal_toDecimal (n : Nat) : ofDecimal (toDecimal n) = n := by
  rw [toDecimal]
  split
  · rename_i zero
    simp [ofDecimal, digitValue_digitOf, zero]
  · have values : ((Nat.digits 10 n).map digitOf).map digitValue = Nat.digits 10 n := by
      rw [List.map_map]
      conv_rhs => rw [← List.map_id (Nat.digits 10 n)]
      apply List.map_congr_left
      intro d mem
      exact digitValue_digitOf (Nat.digits_lt_base (by omega) mem)
    rw [ofDecimal, ← List.map_reverse, List.reverse_reverse, values, Nat.ofDigits_digits]

theorem isDigit_of_mem_toDecimal {n : Nat} {c : UInt8} (mem : c ∈ toDecimal n) : isDigit c = true := by
  rw [toDecimal] at mem
  split at mem
  · rw [List.mem_singleton.mp mem]
    exact isDigit_digitOf (by omega)
  · obtain ⟨d, inDigits, rfl⟩ := List.mem_map.mp mem
    exact isDigit_digitOf (Nat.digits_lt_base (by omega) (List.mem_reverse.mp inDigits))

theorem toDecimal_length_le {n k : Nat} (positive : 0 < k) (small : n < 10 ^ k) : (toDecimal n).length ≤ k := by
  rw [toDecimal]
  split
  · exact positive
  · simpa using (Nat.digits_length_le_iff (by omega) n).mpr small

theorem lt_toDecimal_length {n k : Nat} (large : 10 ^ k ≤ n) : k < (toDecimal n).length := by
  have nonzero : n ≠ 0 := by
    have := Nat.pow_pos (n := k) (show 0 < 10 by omega)
    omega
  rw [toDecimal, if_neg nonzero]
  simpa using (Nat.lt_digits_length_iff (by omega) n).mpr large

theorem isDigit_of_mem_padLeft {width : Nat} {text : List UInt8} (digits : ∀ c ∈ text, isDigit c = true) :
    ∀ c ∈ padLeft width text, isDigit c = true := by
  intro c mem
  rcases List.mem_append.mp mem with zero | old
  · rw [(List.mem_replicate.mp zero).2]
    exact isDigit_digitOf (by omega)
  · exact digits c old

theorem padLeft_length (width : Nat) (text : List UInt8) : (padLeft width text).length = max width text.length := by
  simp only [padLeft, List.length_append, List.length_replicate]
  omega

end RitCoin.Lib
