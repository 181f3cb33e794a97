import RitCoin.Model.Base64

namespace RitCoin.Proof
open Model.Base64

theorem decode64_table : (∀ i : Fin 64, decode64 (charAt i) = (i : ℕ)) ∧ decode64 pad = -1 ∧ decode64 0 = -1 := by
  decide +kernel

theorem decode64_charAt {i : ℕ} (small : i < 64) : decode64 (charAt i) = i := decode64_table.1 ⟨i, small⟩

theorem decode64_pad : decode64 pad = -1 := decode64_table.2.1

theorem decode64_zero : decode64 0 = -1 := decode64_table.2.2

theorem decodeLoop_charAt (mode : Mode) (left : ℕ) {dec : ℕ} (small : dec < 64) (p : List UInt8) :
    decodeLoop mode left (charAt dec :: p) =
      match mode with
      | .none => decodeLoop .six dec p
      | .six => (decodeLoop .four (dec &&& 15) p).map (UInt8.ofNat (left <<< 2 ||| dec >>> 4) :: ·) id
      | .four => (decodeLoop .two (dec &&& 3) p).map (UInt8.ofNat (left <<< 4 ||| dec >>> 2) :: ·) id
      | .two => (decodeLoop .none left p).map (UInt8.ofNat (left <<< 6 ||| dec) :: ·) id := by
  have known : decode64 (charAt dec) ≠ -1 := by
    rw [decode64_charAt small]
    omega
  rw [decodeLoop, if_neg known, decode64_charAt small, Int.toNat_natCast]
  cases mode <;> rfl

theorem decodeLoop_pad (mode : Mode) (left : ℕ) (p : List UInt8) :
    decodeLoop mode left (pad :: p) = ([], mode, left, pad :: p) := by
  rw [decodeLoop, if_pos decode64_pad]

theorem shift_or {a b k : ℕ} (small : b < 2 ^ k) : a <<< k ||| b = a * 2 ^ k + b := by
  rw [← Nat.shiftLeft_add_eq_or_of_lt small, Nat.shiftLeft_eq]

theorem group_bits {a b c : ℕ} (a_lt : a < 256) (b_lt : b < 256) (c_lt : c < 256) :
    a >>> 2 < 64 ∧ (a &&& 3) <<< 4 ||| b >>> 4 < 64 ∧ (b &&& 15) <<< 2 ||| c >>> 6 < 64 ∧ c &&& 63 < 64 ∧
    (a >>> 2) <<< 2 ||| ((a &&& 3) <<< 4 ||| b >>> 4) >>> 4 = a ∧
    (((a &&& 3) <<< 4 ||| b >>> 4) &&& 15) <<< 4 ||| ((b &&& 15) <<< 2 ||| c >>> 6) >>> 2 = b ∧
    (((b &&& 15) <<< 2 ||| c >>> 6) &&& 3) <<< 6 ||| (c &&& 63) = c := by
  have two_bits : ∀ n, n &&& 3 = n % 4 := fun n => Nat.and_two_pow_sub_one_eq_mod n 2
  have four_bits : ∀ n, n &&& 15 = n % 16 := fun n => Nat.and_two_pow_sub_one_eq_mod n 4
  have six_bits : c &&& 63 = c % 64 := Nat.and_two_pow_sub_one_eq_mod c 6
  have second : (a % 4) <<< 4 ||| b >>> 4 = a % 4 * 16 + b / 16 := by
    rw [Nat.shiftRight_eq_div_pow, shift_or (by omega)]
    rfl
  have third : (b % 16) <<< 2 ||| c >>> 6 = b % 16 * 4 + c / 64 := by
    rw [Nat.shiftRight_eq_div_pow, shift_or (by omega)]
    rfl
  rw [two_bits a, four_bits b, six_bits, second, third, four_bits, two_bits]
  simp only [Nat.shiftRight_eq_div_pow]
  refine ⟨by omega, by omega, by omega, by omega, ?_, ?_, ?_⟩
  · rw [shift_or (by omega)]
    omega
  · rw [shift_or (by omega)]
    omega
  · rw [shift_or (by omega)]
    omega

theorem shift_and_eq_zero (a k : ℕ) : a <<< k &&& (2 ^ k - 1) = 0 := by
  rw [Nat.and_two_pow_sub_one_eq_mod, Nat.shiftLeft_eq, Nat.mul_mod_left]

theorem decodeLoop_encodeLoop : ∀ (pch : List UInt8) (left left' : ℕ),
    ∃ stopped, decodeLoop .none left' (encodeLoop .none left pch) = (pch, stopped) ∧ isInvalid stopped = false
  | [], _, _ => ⟨_, rfl, rfl⟩
  | [a], _, _ => by
      obtain ⟨first, second, -, -, byte, -, -⟩ := group_bits a.toNat_lt (show 0 < 256 by decide)
        (show 0 < 256 by decide)
      rw [Nat.zero_shiftRight, Nat.or_zero] at second byte
      have empty : (a.toNat &&& 3) <<< 4 &&& 15 = 0 := shift_and_eq_zero _ 4
      simp only [encodeLoop, decodeLoop_charAt, decodeLoop_pad, first, second, byte, empty, UInt8.ofNat_toNat]
      exact ⟨_, rfl, by simp [isInvalid, decode64_zero]⟩
  | [a, b], _, _ => by
      obtain ⟨first, second, third, -, byte, byte', -⟩ := group_bits a.toNat_lt b.toNat_lt (show 0 < 256 by decide)
      rw [Nat.zero_shiftRight, Nat.or_zero] at third byte'
      have empty : (b.toNat &&& 15) <<< 2 &&& 3 = 0 := shift_and_eq_zero _ 2
      simp only [encodeLoop, decodeLoop_charAt, decodeLoop_pad, first, second, third, byte, byte', empty,
        UInt8.ofNat_toNat]
      exact ⟨_, rfl, by simp [isInvalid, decode64_zero]⟩
  | a :: b :: c :: pch, left, left' => by
      obtain ⟨first, second, third, fourth, byte, byte', byte''⟩ := group_bits a.toNat_lt b.toNat_lt c.toNat_lt
      simp only [encodeLoop, decodeLoop_charAt, first, second, third, fourth, byte, byte', byte'', UInt8.ofNat_toNat]
      obtain ⟨stopped, rest, valid⟩ := decodeLoop_encodeLoop pch ((b.toNat &&& 15) <<< 2)
        (((b.toNat &&& 15) <<< 2 ||| c.toNat >>> 6) &&& 3)
      rw [rest]
      exact ⟨stopped, rfl, valid⟩

theorem decodeBase64_encodeBase64 (b : List UInt8) : decodeBase64 (encodeBase64 b) = (b, false) := by
  obtain ⟨stopped, decoded, valid⟩ := decodeLoop_encodeLoop b 0 0
  rw [decodeBase64, encodeBase64, decoded]
  simp only [valid]

end RitCoin.Proof
