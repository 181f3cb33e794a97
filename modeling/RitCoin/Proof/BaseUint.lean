import RitCoin.Model.BaseUint

namespace RitCoin.Proof
open Lib Model Model.BaseUint
variable {b : ℕ} {shift word : UInt32}

theorem wordsToNat_complement (words : List UInt32) :
    wordsToNat (words.map (~~~ ·)) + wordsToNat words + 1 = 2 ^ (32 * words.length) := by
  induction words with
  | nil => rfl
  | cons word words ih =>
    have low := word.toNat_lt
    have flipped : (~~~ word).toNat = 2 ^ 32 - 1 - word.toNat := UInt32.toNat_not word
    rw [List.map_cons, wordsToNat, wordsToNat, flipped, List.length_cons, Nat.mul_succ, Nat.add_comm (32 * _),
      pow_add]
    omega

theorem wordsToNat_increment (words : List UInt32) :
    wordsToNat (incrementLoop words) = (wordsToNat words + 1) % 2 ^ (32 * words.length) := by
  induction words with
  | nil => rfl
  | cons word words ih =>
    have bound := wordsToNat_lt words
    have low := word.toNat_lt
    have sum : (word + 1).toNat = (word.toNat + 1) % 2 ^ 32 := UInt32.toNat_add word 1
    rw [wordsToNat, Nat.add_right_comm, List.length_cons, mod_words, ← sum, incrementLoop]
    split_ifs with carry
    · have wrapped : word.toNat + 1 = 2 ^ 32 := by
        have zero := congrArg UInt32.toNat carry.1
        rw [sum, UInt32.toNat_zero] at zero
        omega
      rw [wordsToNat, ih, wrapped, Nat.add_comm (wordsToNat words)]
      rfl
    · by_cases last : words = []
      · subst last
        simp [wordsToNat, Nat.mod_one]
      · have positive : (word + 1).toNat ≠ 0 := fun zero => carry ⟨UInt32.toNat_inj.mp zero, last⟩
        have small : (word.toNat + 1) / 2 ^ 32 = 0 := by omega
        rw [wordsToNat, small, Nat.zero_add, Nat.mod_eq_of_lt bound]

theorem wordsToNat_decrement (words : List UInt32) :
    (wordsToNat (decrementLoop words) + 1) % 2 ^ (32 * words.length) = wordsToNat words := by
  induction words with
  | nil => rfl
  | cons word words ih =>
    have bound := wordsToNat_lt (word :: words)
    have low := word.toNat_lt
    have difference : (word - 1).toNat = (2 ^ 32 - 1 + word.toNat) % 2 ^ 32 := UInt32.toNat_sub word 1
    have borrow : word - 1 = 0xffffffff ↔ word.toNat = 0 := by
      rw [← UInt32.toNat_inj, difference]
      change _ = 2 ^ 32 - 1 ↔ _
      omega
    simp only [decrementLoop, borrow]
    split_ifs with wraps
    · have highest : (word - 1).toNat + 1 = 2 ^ 32 := by
        rw [difference, wraps.1]
        rfl
      rw [wordsToNat, Nat.add_right_comm, highest, List.length_cons, mod_words, Nat.mod_self,
        Nat.div_self (by decide), Nat.add_comm 1, ih, wordsToNat, wraps.1]
    · rw [wordsToNat, Nat.add_right_comm]
      by_cases zero : word.toNat = 0
      · have last : words = [] := by_contra fun more => wraps ⟨zero, more⟩
        subst last
        rw [difference, zero]
        simp [wordsToNat, zero]
      · have lower : (word - 1).toNat + 1 = word.toNat := by
          rw [difference]
          omega
        rw [lower]
        exact Nat.mod_eq_of_lt bound

theorem wordsToNat_addLoop : ∀ (words words' : List UInt32) (carry : UInt64), words.length = words'.length →
    carry.toNat ≤ 1 → wordsToNat (addLoop carry words words') =
      (carry.toNat + wordsToNat words + wordsToNat words') % 2 ^ (32 * words.length) := by
  intro words
  induction words with
  | nil =>
    intro words' carry _ _
    simp [addLoop, wordsToNat, Nat.mod_one]
  | cons word words ih =>
    intro words' carry length small
    cases words' with
    | nil => cases length
    | cons word' words' =>
      have low := word.toNat_lt
      have low' := word'.toNat_lt
      -- the sum of two words and the carry has 33 bits
      have sum : (carry + word.toUInt64 + word'.toUInt64).toNat = carry.toNat + word.toNat + word'.toNat := by
        rw [UInt64.toNat_add, UInt64.toNat_add, UInt32.toNat_toUInt64, UInt32.toNat_toUInt64]
        omega
      have kept : ((carry + word.toUInt64 + word'.toUInt64) &&& 0xffffffff).toUInt32.toNat =
          (carry.toNat + word.toNat + word'.toNat) % 2 ^ 32 := by
        rw [UInt64.toNat_toUInt32, UInt64.toNat_and, sum]
        change (_ &&& (2 ^ 32 - 1)) % 2 ^ 32 = _
        rw [Nat.and_two_pow_sub_one_eq_mod, Nat.mod_mod]
      have carried : ((carry + word.toUInt64 + word'.toUInt64) >>> 32).toNat =
          (carry.toNat + word.toNat + word'.toNat) / 2 ^ 32 := by
        rw [UInt64.toNat_shiftRight, sum, Nat.shiftRight_eq_div_pow]
        rfl
      have total : carry.toNat + wordsToNat (word :: words) + wordsToNat (word' :: words') =
          carry.toNat + word.toNat + word'.toNat + 2 ^ 32 * (wordsToNat words + wordsToNat words') := by
        rw [wordsToNat, wordsToNat]
        ring
      rw [addLoop, wordsToNat, kept, ih _ _ (Nat.succ.inj length) (by rw [carried]; omega), carried, total,
        List.length_cons, mod_words, Nat.add_assoc (_ / _)]

section Sums
variable {WIDTH : ℕ} (a b : BaseUint WIDTH)

theorem value_lt : a.value < 2 ^ (32 * WIDTH) := by
  have bound := wordsToNat_lt a.pn
  rwa [a.length_pn] at bound

theorem value_inj {a b : BaseUint WIDTH} : a.value = b.value ↔ a = b := by
  constructor
  · intro same
    have words := wordsToNat_inj (a.length_pn.trans b.length_pn.symm) same
    cases a
    cases b
    cases words
    rfl
  · rintro rfl
    rfl

theorem value_addAssign : (addAssign a b).value = (a.value + b.value) % 2 ^ (32 * WIDTH) := by
  have sum := wordsToNat_addLoop a.pn b.pn 0 (a.length_pn.trans b.length_pn.symm) (by decide)
  rw [a.length_pn] at sum
  change wordsToNat (addLoop 0 a.pn b.pn) = _
  rw [sum, UInt64.toNat_zero, Nat.zero_add]
  rfl

theorem value_increment : (increment a).value = (a.value + 1) % 2 ^ (32 * WIDTH) := by
  have sum := wordsToNat_increment a.pn
  rwa [a.length_pn] at sum

theorem eq_sub_of_add {d b v m : ℕ} (small : d < m) (sum : (d + b) % m = v % m) : (d : ℤ) = ((v : ℤ) - b) % m := by
  have congruent : ((d : ℤ) + b) ≡ v [ZMOD m] := by exact_mod_cast (Int.natCast_modEq_iff.mpr sum)
  have difference : (d : ℤ) ≡ v - b [ZMOD m] := by simpa using congruent.sub_right (b : ℤ)
  rw [← difference.eq, Int.emod_eq_of_lt (Int.natCast_nonneg d) (Int.ofNat_lt.mpr small)]

theorem value_decrement : ((decrement a).value : ℤ) = ((a.value : ℤ) - 1) % (2 ^ (32 * WIDTH) : ℕ) := by
  have sum := wordsToNat_decrement a.pn
  rw [a.length_pn] at sum
  refine eq_sub_of_add (value_lt _) ?_
  rw [Nat.mod_eq_of_lt (value_lt a)]
  exact sum

theorem add_negate : ((negate a).value + a.value) % 2 ^ (32 * WIDTH) = 0 := by
  have flipped := wordsToNat_complement a.pn
  rw [a.length_pn] at flipped
  change (complement a).value + a.value + 1 = _ at flipped
  change ((increment (complement a)).value + a.value) % _ = 0
  rw [value_increment, Nat.mod_add_mod, Nat.add_right_comm, flipped, Nat.mod_self]

theorem value_negate : ((negate a).value : ℤ) = (-(a.value : ℤ)) % (2 ^ (32 * WIDTH) : ℕ) := by
  have sum := eq_sub_of_add (v := 0) (value_lt (negate a)) (add_negate a)
  simpa using sum

theorem value_subAssign : ((subAssign a b).value : ℤ) = ((a.value : ℤ) - b.value) % (2 ^ (32 * WIDTH) : ℕ) := by
  refine eq_sub_of_add (value_lt _) ?_
  rw [subAssign, value_addAssign, Nat.mod_add_mod, Nat.add_assoc, Nat.add_mod, add_negate, Nat.add_zero, Nat.mod_mod]

theorem value_assign (wide : 2 ≤ WIDTH) (b64 : UInt64) : (assign WIDTH b64).value = b64.toNat := by
  obtain ⟨k, rfl⟩ : ∃ k, WIDTH = k + 2 := ⟨WIDTH - 2, by omega⟩
  have bound := b64.toNat_lt
  have low : b64.toUInt32.toNat = b64.toNat % 2 ^ 32 := UInt64.toNat_toUInt32 b64
  have high : (b64 >>> 32).toUInt32.toNat = b64.toNat / 2 ^ 32 := by
    rw [UInt64.toNat_toUInt32, UInt64.toNat_shiftRight, Nat.shiftRight_eq_div_pow]
    change b64.toNat / 2 ^ 32 % 2 ^ 32 = _
    omega
  change wordsToNat (b64.toUInt32 :: (b64 >>> 32).toUInt32 :: List.replicate k 0) = _
  rw [wordsToNat, wordsToNat, wordsToNat_zeros, low, high]
  omega

end Sums

theorem getD_orAt {pn : List UInt32} {i : ℕ} (inside : i < pn.length) (word : UInt32) (j : ℕ) :
    (orAt pn i word).getD j 0 = if j = i then pn.getD j 0 ||| word else pn.getD j 0 := by
  rw [orAt, List.getD_eq_getElem?_getD, List.getD_eq_getElem?_getD, List.getElem?_modify]
  by_cases same : i = j
  · subst same
    simp [inside]
  · simp [same, Ne.symm same]

theorem getD_zeros (k j : ℕ) : (List.replicate k (0 : UInt32)).getD j 0 = 0 := by
  rw [List.getD_eq_getElem?_getD, List.getElem?_replicate]
  split_ifs <;> rfl

theorem getD_orAt_if {pn : List UInt32} {i : ℕ} {guard : Prop} [Decidable guard] (inside : guard → i < pn.length)
    (word : UInt32) (j : ℕ) :
    (if guard then orAt pn i word else pn).getD j 0 = pn.getD j 0 ||| if guard ∧ j = i then word else 0 := by
  by_cases writes : guard
  · rw [if_pos writes, getD_orAt (inside writes)]
    simp only [writes, true_and]
    split_ifs
    · rfl
    · rw [UInt32.or_zero]
  · rw [if_neg writes, if_neg (fun both => writes both.1), UInt32.or_zero]

theorem or_exchange (a b c d : UInt32) : a ||| b ||| c ||| d = a ||| c ||| (b ||| d) := by
  rw [UInt32.or_assoc a b c, UInt32.or_comm b c, ← UInt32.or_assoc a c b, UInt32.or_assoc (a ||| c)]

theorem or_gather {before now after : Prop} [Decidable before] [Decidable now] [Decidable after] {x y : UInt32}
    (grows : after ↔ before ∨ now) (same : now → x = y) :
    ((if before then x else 0) ||| if now then y else 0) = if after then x else 0 := by
  by_cases now : now
  · rw [if_pos now, if_pos (grows.mpr (.inr now)), ← same now]
    split_ifs
    · exact UInt32.or_self
    · exact UInt32.zero_or
  · rw [if_neg now, UInt32.or_zero]
    exact if_congr (by rw [grows, or_iff_left now]) rfl rfl

theorem getD_shiftLeft (a : List UInt32) {WIDTH k : ℕ} (shift : UInt32) {j : ℕ} (inside : j < WIDTH) (i : ℕ) :
    ((List.range i).foldl (shiftLeftRound a WIDTH k shift) (List.replicate WIDTH 0)).getD j 0 =
      (if shift ≠ 0 ∧ k + 1 ≤ j ∧ j < i + k + 1 then a.getD (j - k - 1) 0 >>> (32 - shift) else 0) |||
        if k ≤ j ∧ j < i + k then a.getD (j - k) 0 <<< shift else 0 := by
  induction i with
  | zero =>
    rw [List.range_zero, List.foldl_nil, getD_zeros, if_neg (by omega), if_neg (by omega)]
    rfl
  | succ i ih =>
    have length := (length_foldl (length_shiftLeftRound a WIDTH k shift) (List.range i)
      (List.replicate WIDTH 0)).trans List.length_replicate
    rw [List.range_succ, List.foldl_append, List.foldl_cons, List.foldl_nil]
    generalize (List.range i).foldl (shiftLeftRound a WIDTH k shift) (List.replicate WIDTH 0) = pn at ih length
    have kept : (if i + k + 1 < WIDTH ∧ shift ≠ 0 then orAt pn (i + k + 1) (a.getD i 0 >>> (32 - shift))
        else pn).length = WIDTH := by
      split_ifs
      · rw [length_orAt, length]
      · exact length
    rw [shiftLeftRound, getD_orAt_if (fun guard => kept.symm ▸ guard),
      getD_orAt_if (fun guard => length.symm ▸ guard.1), ih]
    refine (or_exchange _ _ _ _).trans (congrArg₂ (· ||| ·) (or_gather ?_ ?_) (or_gather ?_ ?_))
    · have same : i + k + 1 < WIDTH ∧ j = i + k + 1 ↔ j = i + k + 1 := by omega
      have upto : k + 1 ≤ j ∧ j < i + 1 + k + 1 ↔ k + 1 ≤ j ∧ j < i + k + 1 ∨ j = i + k + 1 := by omega
      rw [and_right_comm, same, and_comm (a := j = _), upto, and_or_left]
    · rintro ⟨-, rfl⟩
      rw [show i + k + 1 - k - 1 = i by omega]
    · omega
    · rintro ⟨-, rfl⟩
      rw [Nat.add_sub_cancel]

theorem getD_shiftRight (a : List UInt32) {WIDTH k : ℕ} (shift : UInt32) {j : ℕ} (inside : j < WIDTH) (i : ℕ)
    (rounds : i ≤ WIDTH) :
    ((List.range i).foldl (shiftRightRound a k shift) (List.replicate WIDTH 0)).getD j 0 =
      (if shift ≠ 0 ∧ j + k + 1 < i then a.getD (j + k + 1) 0 <<< (32 - shift) else 0) |||
        if j + k < i then a.getD (j + k) 0 >>> shift else 0 := by
  induction i with
  | zero =>
    rw [List.range_zero, List.foldl_nil, getD_zeros, if_neg (by omega), if_neg (by omega)]
    rfl
  | succ i ih =>
    have length := (length_foldl (length_shiftRightRound a k shift) (List.range i)
      (List.replicate WIDTH 0)).trans List.length_replicate
    have before := ih (by omega)
    rw [List.range_succ, List.foldl_append, List.foldl_cons, List.foldl_nil]
    generalize (List.range i).foldl (shiftRightRound a k shift) (List.replicate WIDTH 0) = pn at before length
    have kept : (if k + 1 ≤ i ∧ shift ≠ 0 then orAt pn (i - k - 1) (a.getD i 0 <<< (32 - shift))
        else pn).length = WIDTH := by
      split_ifs
      · rw [length_orAt, length]
      · exact length
    rw [shiftRightRound, getD_orAt_if (fun guard => by rw [kept]; omega),
      getD_orAt_if (fun guard => by rw [length]; omega), before]
    refine (or_exchange _ _ _ _).trans (congrArg₂ (· ||| ·) (or_gather ?_ ?_) (or_gather ?_ ?_))
    · have same : k + 1 ≤ i ∧ j = i - k - 1 ↔ j + k + 1 = i := by omega
      have upto : j + k + 1 < i + 1 ↔ j + k + 1 < i ∨ j + k + 1 = i := by omega
      rw [and_right_comm, same, and_comm (a := _ = i), upto, and_or_left]
    · rintro ⟨⟨low, -⟩, rfl⟩
      rw [show i - k - 1 + k + 1 = i by omega]
    · omega
    · rintro ⟨low, rfl⟩
      rw [Nat.sub_add_cancel low]

theorem testBit_shl (small : shift.toNat < 32) (inside : b < 32) :
    (word <<< shift).toNat.testBit b = (decide (shift.toNat ≤ b) && word.toNat.testBit (b - shift.toNat)) := by
  rw [UInt32.toNat_shiftLeft, Nat.mod_eq_of_lt small, Nat.testBit_mod_two_pow, decide_eq_true inside, Bool.true_and,
    Nat.testBit_shiftLeft]

theorem testBit_shr (small : shift.toNat < 32) (b : ℕ) :
    (word >>> shift).toNat.testBit b = word.toNat.testBit (shift.toNat + b) := by
  rw [UInt32.toNat_shiftRight, Nat.mod_eq_of_lt small, Nat.testBit_shiftRight]

theorem testBit_word (high : 32 ≤ b) : word.toNat.testBit b = false :=
  Nat.testBit_lt_two_pow (word.toNat_lt.trans_le (Nat.pow_le_pow_right (by decide) high))

theorem toNat_complement_shift (small : shift.toNat < 32) (nonzero : shift ≠ 0) :
    (32 - shift).toNat = 32 - shift.toNat ∧ 0 < shift.toNat := by
  have positive : shift.toNat ≠ 0 := fun zero => nonzero (UInt32.toNat_inj.mp zero)
  rw [UInt32.toNat_sub]
  change (2 ^ 32 - shift.toNat + 32) % 2 ^ 32 = _ ∧ _
  omega

theorem testBit_left (words : List UInt32) (k : ℕ) (small : shift.toNat < 32) (j : ℕ) (inside : b < 32) :
    ((if shift ≠ 0 ∧ k + 1 ≤ j then words.getD (j - k - 1) 0 >>> (32 - shift) else 0) |||
        if k ≤ j then words.getD (j - k) 0 <<< shift else 0).toNat.testBit b =
      (decide (32 * k + shift.toNat ≤ 32 * j + b) &&
        (wordsToNat words).testBit (32 * j + b - (32 * k + shift.toNat))) := by
  rw [UInt32.toNat_or, Nat.testBit_or, testBit_wordsToNat]
  rcases Nat.lt_or_ge b shift.toNat with low | high
  · have nonzero : shift ≠ 0 := by
      rintro rfl
      exact Nat.not_lt_zero b low
    obtain ⟨rest, -⟩ := toNat_complement_shift small nonzero
    have none : (if k ≤ j then words.getD (j - k) 0 <<< shift else 0).toNat.testBit b = false := by
      split_ifs
      · rw [testBit_shl small inside, decide_eq_false (Nat.not_le.mpr low), Bool.false_and]
      · exact Nat.zero_testBit b
    rw [none, Bool.or_false]
    by_cases above : k + 1 ≤ j
    · rw [if_pos ⟨nonzero, above⟩, testBit_shr (by omega), rest, decide_eq_true (by omega), Bool.true_and]
      congr 2
      · congr 1
        omega
      · omega
    · rw [if_neg (fun both => above both.2), decide_eq_false (by omega), Bool.false_and]
      exact Nat.zero_testBit b
  · have none : (if shift ≠ 0 ∧ k + 1 ≤ j then words.getD (j - k - 1) 0 >>> (32 - shift) else 0).toNat.testBit b =
        false := by
      split_ifs with both
      · obtain ⟨rest, positive⟩ := toNat_complement_shift small both.1
        rw [testBit_shr (by omega), rest, testBit_word (by omega)]
      · exact Nat.zero_testBit b
    rw [none, Bool.false_or]
    by_cases above : k ≤ j
    · rw [if_pos above, testBit_shl small inside, decide_eq_true high, decide_eq_true (by omega), Bool.true_and,
        Bool.true_and]
      congr 2
      · congr 1
        omega
      · omega
    · rw [if_neg above, decide_eq_false (by omega), Bool.false_and]
      exact Nat.zero_testBit b

theorem testBit_right (words : List UInt32) (k : ℕ) (small : shift.toNat < 32) (j : ℕ) (inside : b < 32) :
    ((if shift ≠ 0 ∧ j + k + 1 < words.length then words.getD (j + k + 1) 0 <<< (32 - shift) else 0) |||
        if j + k < words.length then words.getD (j + k) 0 >>> shift else 0).toNat.testBit b =
      (wordsToNat words).testBit (32 * k + shift.toNat + (32 * j + b)) := by
  rw [UInt32.toNat_or, Nat.testBit_or, testBit_wordsToNat]
  rcases Nat.lt_or_ge (b + shift.toNat) 32 with low | high
  · have none : (if shift ≠ 0 ∧ j + k + 1 < words.length then words.getD (j + k + 1) 0 <<< (32 - shift)
        else 0).toNat.testBit b = false := by
      split_ifs with both
      · obtain ⟨rest, positive⟩ := toNat_complement_shift small both.1
        rw [testBit_shl (by omega) inside, decide_eq_false (by omega), Bool.false_and]
      · exact Nat.zero_testBit b
    have position : (32 * k + shift.toNat + (32 * j + b)) / 32 = j + k := by omega
    rw [none, Bool.false_or, position]
    split_ifs with within
    · rw [testBit_shr small]
      congr 1
      omega
    · rw [List.getD_eq_default _ _ (Nat.not_lt.mp within)]
      exact (Nat.zero_testBit b).trans (Nat.zero_testBit _).symm
  · have none : (if j + k < words.length then words.getD (j + k) 0 >>> shift else 0).toNat.testBit b = false := by
      split_ifs
      · rw [testBit_shr small, testBit_word (by omega)]
      · exact Nat.zero_testBit b
    have nonzero : shift ≠ 0 := by
      rintro rfl
      exact absurd (inside.trans_le high) (lt_irrefl b)
    obtain ⟨rest, -⟩ := toNat_complement_shift small nonzero
    have position : (32 * k + shift.toNat + (32 * j + b)) / 32 = j + k + 1 := by omega
    rw [none, Bool.or_false, position]
    by_cases within : j + k + 1 < words.length
    · rw [if_pos ⟨nonzero, within⟩, testBit_shl (by omega) inside, decide_eq_true (by omega), Bool.true_and]
      congr 1
      omega
    · rw [if_neg (fun both => within both.2), List.getD_eq_default _ _ (Nat.not_lt.mp within)]
      exact (Nat.zero_testBit b).trans (Nat.zero_testBit _).symm

section Shifts
variable {WIDTH : ℕ} (a : BaseUint WIDTH) (shift : UInt32)

theorem toNat_parts : 32 * (shift / 32).toNat + (shift % 32).toNat = shift.toNat ∧ (shift % 32).toNat < 32 := by
  rw [UInt32.toNat_div, UInt32.toNat_mod]
  change 32 * (shift.toNat / 32) + shift.toNat % 32 = _ ∧ shift.toNat % 32 < 32
  omega

theorem value_shiftLeftAssign :
    (shiftLeftAssign a shift).value = a.value * 2 ^ shift.toNat % 2 ^ (32 * WIDTH) := by
  obtain ⟨parts, small⟩ := toNat_parts shift
  apply Nat.eq_of_testBit_eq
  intro p
  rw [Nat.testBit_mod_two_pow, ← Nat.shiftLeft_eq, Nat.testBit_shiftLeft]
  by_cases inside : p < 32 * WIDTH
  · have bit := testBit_left a.pn (shift / 32).toNat small (p / 32) (Nat.mod_lt p (by decide))
    rw [parts, Nat.div_add_mod] at bit
    rw [decide_eq_true inside, Bool.true_and]
    refine Eq.trans ?_ bit
    have within : p / 32 < WIDTH := by omega
    rw [value, testBit_wordsToNat, shiftLeftAssign, getD_shiftLeft a.pn _ within]
    congr 3
    · exact if_congr (and_congr_right fun _ => by omega) rfl rfl
    · exact if_congr (by omega) rfl rfl
  · have bound := value_lt (shiftLeftAssign a shift)
    rw [decide_eq_false inside, Bool.false_and]
    exact Nat.testBit_lt_two_pow (bound.trans_le (Nat.pow_le_pow_right (by decide) (Nat.not_lt.mp inside)))

theorem value_shiftRightAssign : (shiftRightAssign a shift).value = a.value / 2 ^ shift.toNat := by
  obtain ⟨parts, small⟩ := toNat_parts shift
  apply Nat.eq_of_testBit_eq
  intro p
  rw [← Nat.shiftRight_eq_div_pow, Nat.testBit_shiftRight]
  by_cases inside : p < 32 * WIDTH
  · have bit := testBit_right a.pn (shift / 32).toNat small (p / 32) (Nat.mod_lt p (by decide))
    rw [parts, Nat.div_add_mod, a.length_pn] at bit
    refine Eq.trans ?_ bit
    have within : p / 32 < WIDTH := by omega
    rw [value, testBit_wordsToNat, shiftRightAssign, getD_shiftRight a.pn _ within _ le_rfl]
  · have bound := value_lt (shiftRightAssign a shift)
    have above : 2 ^ (32 * WIDTH) ≤ 2 ^ (shift.toNat + p) := Nat.pow_le_pow_right (by decide) (by omega)
    rw [Nat.testBit_lt_two_pow (bound.trans_le (Nat.pow_le_pow_right (by decide) (Nat.not_lt.mp inside))),
      Nat.testBit_lt_two_pow ((value_lt a).trans_le above)]

end Shifts

theorem top_decides {x m w w' : ℕ} (bound : x < m) (less : w < w') (y : ℕ) : x + m * w < y + m * w' := by
  have next : m * (w + 1) ≤ m * w' := Nat.mul_le_mul_left m less
  rw [Nat.mul_succ] at next
  omega

theorem compareLoop_lt (equal : Bool) (words : List (UInt32 × UInt32)) :
    compareLoop (fun word word' => decide (word < word')) equal words.reverse = true ↔
      wordsToNat (words.map Prod.fst) < wordsToNat (words.map Prod.snd) ∨
        equal = true ∧ wordsToNat (words.map Prod.fst) = wordsToNat (words.map Prod.snd) := by
  induction words using List.reverseRecOn with
  | nil => simp [compareLoop, wordsToNat]
  | append_singleton words top ih =>
    obtain ⟨word, word'⟩ := top
    have bound := wordsToNat_lt (words.map Prod.fst)
    have bound' := wordsToNat_lt (words.map Prod.snd)
    rw [List.length_map] at bound bound'
    simp only [List.reverse_append, List.reverse_singleton, List.singleton_append, compareLoop, decide_eq_true_eq,
      List.map_append, List.map_singleton, wordsToNat_append, List.length_map, wordsToNat, Nat.mul_zero,
      Nat.add_zero]
    rcases Nat.lt_trichotomy word.toNat word'.toNat with less | same | greater
    · have decided := top_decides bound less (wordsToNat (words.map Prod.snd))
      rw [if_pos (UInt32.lt_iff_toNat_lt.mpr less)]
      exact iff_of_true rfl (.inl decided)
    · obtain rfl := UInt32.toNat_inj.mp same
      rw [if_neg (UInt32.lt_irrefl word), if_neg (UInt32.lt_irrefl word), ih, Nat.add_lt_add_iff_right,
        Nat.add_right_cancel_iff]
    · have decided := top_decides bound' greater (wordsToNat (words.map Prod.fst))
      have high : word' < word := UInt32.lt_iff_toNat_lt.mpr greater
      rw [if_neg (UInt32.lt_asymm high), if_pos high]
      exact iff_of_false Bool.false_ne_true (by omega)

theorem compareLoop_swap (first : UInt32 → UInt32 → Bool) (equal : Bool) (words : List (UInt32 × UInt32)) :
    compareLoop (fun word word' => first word' word) equal words = compareLoop first equal (words.map Prod.swap) := by
  induction words with
  | nil => rfl
  | cons word words ih =>
    rw [compareLoop, List.map_cons, compareLoop, ih]
    rfl

section Comparisons
variable {WIDTH : ℕ} (a b : BaseUint WIDTH)

theorem compareLoop_value (equal : Bool) :
    compareLoop (fun word word' => decide (word < word')) equal (a.pn.zip b.pn).reverse = true ↔
      a.value < b.value ∨ equal = true ∧ a.value = b.value := by
  have length : a.pn.length = b.pn.length := a.length_pn.trans b.length_pn.symm
  rw [compareLoop_lt, List.map_fst_zip length.le, List.map_snd_zip length.ge]
  rfl

theorem compareLoop_value_gt (equal : Bool) :
    compareLoop (fun word word' => decide (word > word')) equal (a.pn.zip b.pn).reverse = true ↔
      b.value < a.value ∨ equal = true ∧ b.value = a.value := by
  rw [← compareLoop_value, ← List.zip_swap, ← List.map_reverse, ← compareLoop_swap]

theorem value_lt_iff : a.lt b = true ↔ a.value < b.value := by
  rw [BaseUint.lt, compareLoop_value]
  simp

theorem value_le_iff : a.le b = true ↔ a.value ≤ b.value := by
  rw [BaseUint.le, compareLoop_value]
  simp [Nat.le_iff_lt_or_eq]

theorem value_gt_iff : a.gt b = true ↔ a.value > b.value := by
  rw [BaseUint.gt, compareLoop_value_gt]
  simp

theorem value_ge_iff : a.ge b = true ↔ a.value ≥ b.value := by
  rw [BaseUint.ge, compareLoop_value_gt]
  simp [Nat.le_iff_lt_or_eq]

theorem all_zip_iff : ∀ {words words' : List UInt32}, words.length = words'.length →
    ((words.zip words').all (fun pair => pair.1 == pair.2) = true ↔ words = words') := by
  intro words
  induction words with
  | nil => exact fun length => iff_of_true rfl (List.eq_nil_of_length_eq_zero length.symm).symm
  | cons word words ih =>
    intro words' length
    cases words' with
    | nil => cases length
    | cons word' words' =>
      rw [List.zip_cons_cons, List.all_cons, Bool.and_eq_true, ih (Nat.succ.inj length), beq_iff_eq,
        List.cons.injEq]

theorem value_eq_iff : a.eq b = true ↔ a.value = b.value := by
  rw [BaseUint.eq, all_zip_iff (a.length_pn.trans b.length_pn.symm), value_inj]
  cases a
  cases b
  simp

theorem value_eq64_iff (wide : 2 ≤ WIDTH) (b64 : UInt64) : a.eq64 b64 = true ↔ a.value = b64.toNat := by
  rw [← value_assign wide, value_inj]
  obtain ⟨pn, length⟩ := a
  obtain ⟨k, rfl⟩ : ∃ k, WIDTH = k + 2 := ⟨WIDTH - 2, by omega⟩
  match pn, length with
  | word :: word' :: words, length =>
    have short : words.length = k := by simpa using length
    have zeros : words.all (· == 0) = true ↔ words = List.replicate k 0 := by
      rw [List.eq_replicate_iff]
      simp [short]
    change ((word == _ && word' == _ && words.all _) = true) ↔ _
    rw [Bool.and_eq_true, Bool.and_eq_true, beq_iff_eq, beq_iff_eq, zeros, assign, BaseUint.mk.injEq]
    change _ ↔ _ = (b64.toUInt32 :: (b64 >>> 32).toUInt32 :: List.replicate k 0)
    rw [List.cons.injEq, List.cons.injEq, and_assoc]

end Comparisons

theorem hexDigit_facts {n : ℕ} (small : n < 16) :
    hexDigit n ≠ 0 ∧ Money.isspace (hexDigit n) = false ∧ tolower (hexDigit n) ≠ 120 ∧
      (phexdigit (hexDigit n) != 0 || hexDigit n == 48) = true := by
  interval_cases n <;> decide

theorem hexByte_read (byte : UInt8) :
    phexdigit (hexDigit (byte.toNat % 16)) ||| phexdigit (hexDigit (byte.toNat / 16)) <<< 4 = byte := by
  revert byte
  decide +kernel

theorem hexBytes_read (bytes : List UInt8) :
    hexBytes bytes.length (bytes.flatMap fun byte => (hexByte byte).reverse) = bytes := by
  induction bytes with
  | nil => rfl
  | cons byte bytes ih =>
    rw [List.flatMap_cons, List.length_cons]
    change (_ ||| _) :: hexBytes bytes.length (bytes.flatMap fun byte => (hexByte byte).reverse) = _
    rw [ih, hexByte_read]

theorem bytesToWords_read (words : List UInt32) :
    bytesToWords words.length (words.flatMap fun word => leBytes 4 word.toNat) = words := by
  induction words with
  | nil => rfl
  | cons word words ih =>
    have length := length_leBytes 4 word.toNat
    rw [List.flatMap_cons, List.length_cons, bytesToWords, List.take_left' length, List.drop_left' length, ih,
      ofLe_leBytes word.toNat_lt, UInt32.ofNat_toNat]

section Hex
variable {WIDTH : ℕ} (a : BaseUint WIDTH)

theorem length_bytes : (bytes a).length = WIDTH * 4 := by
  rw [bytes, List.length_flatMap]
  simp [a.length_pn]

theorem getHex_digits : ∀ c ∈ getHex a, ∃ n < 16, c = hexDigit n := by
  intro c member
  obtain ⟨byte, -, digit⟩ := List.mem_flatMap.mp member
  have small := byte.toNat_lt
  simp only [hexByte, List.mem_cons, List.not_mem_nil, or_false] at digit
  rcases digit with rfl | rfl
  · exact ⟨_, by omega, rfl⟩
  · exact ⟨_, by omega, rfl⟩

theorem setHex_getHex : setHex WIDTH (getHex a) = a := by
  have digits := getHex_digits a
  have text : Money.cStr (getHex a) = getHex a := by
    rw [Money.cStr, List.takeWhile_eq_self_iff]
    intro c member
    obtain ⟨n, small, rfl⟩ := digits c member
    simpa using (hexDigit_facts small).1
  have trimmed : (getHex a).dropWhile Money.isspace = getHex a := by
    rw [List.dropWhile_eq_self_iff]
    intro nonempty
    obtain ⟨n, small, digit⟩ := digits _ (List.getElem_mem nonempty)
    rw [digit, (hexDigit_facts small).2.1]
    exact Bool.false_ne_true
  have plain : skip0x (getHex a) = getHex a := by
    match hex : getHex a with
    | [] => rfl
    | [c] => rfl
    | c :: x :: psz =>
      obtain ⟨n, small, digit⟩ := digits x (by rw [hex]; simp)
      rw [skip0x, if_neg (fun both => (hexDigit_facts small).2.2.1 (digit ▸ both.2))]
  have all : (getHex a).takeWhile (fun c => phexdigit c != 0 || c == 48) = getHex a := by
    rw [List.takeWhile_eq_self_iff]
    intro c member
    obtain ⟨n, small, rfl⟩ := digits c member
    exact (hexDigit_facts small).2.2.2
  rw [← value_inj]
  change wordsToNat (bytesToWords WIDTH (hexBytes (WIDTH * 4) _)) = wordsToNat a.pn
  rw [text, trimmed, plain, all, getHex, List.reverse_flatMap, List.reverse_reverse, ← length_bytes a]
  have read := hexBytes_read (bytes a)
  have words := bytesToWords_read a.pn
  rw [a.length_pn] at words
  exact congrArg wordsToNat ((congrArg (bytesToWords WIDTH) read).trans words)

end Hex

/-- The operations compute modulo the size of the number, the comparisons are those of numbers, and the text
of a number is read back. -/
theorem baseUint_computes {WIDTH : ℕ} (wide : 2 ≤ WIDTH) (a b : BaseUint WIDTH) (b64 : UInt64) (shift : UInt32) :
    let m : ℤ := (2 ^ (32 * WIDTH) : ℕ)
    -- sums and differences
    ((addAssign a b).value : ℤ) = (a.value + b.value) % m ∧
    ((subAssign a b).value : ℤ) = (a.value - b.value) % m ∧
    ((addAssign64 a b64).value : ℤ) = (a.value + b64.toNat) % m ∧
    ((subAssign64 a b64).value : ℤ) = (a.value - b64.toNat) % m ∧
    ((negate a).value : ℤ) = -a.value % m ∧
    ((increment a).value : ℤ) = (a.value + 1) % m ∧ ((decrement a).value : ℤ) = (a.value - 1) % m ∧
    postIncrement a = (a, increment a) ∧ postDecrement a = (a, decrement a) ∧
    -- shifts
    ((shiftLeftAssign a shift).value : ℤ) = a.value * 2 ^ shift.toNat % m ∧
    ((shiftRightAssign a shift).value : ℤ) = a.value / 2 ^ shift.toNat ∧
    -- comparisons
    (a.lt b = true ↔ a.value < b.value) ∧ (a.le b = true ↔ a.value ≤ b.value) ∧
    (a.gt b = true ↔ a.value > b.value) ∧ (a.ge b = true ↔ a.value ≥ b.value) ∧
    (a.eq b = true ↔ a.value = b.value) ∧ (a.ne b = true ↔ a.value ≠ b.value) ∧
    (a.eq64 b64 = true ↔ a.value = b64.toNat) ∧ (a.ne64 b64 = true ↔ a.value ≠ b64.toNat) ∧
    setHex WIDTH (getHex a) = a := by
  have other : (a.ne b = true ↔ a.value ≠ b.value) := by
    rw [BaseUint.ne, Bool.not_eq_true', ← Bool.not_eq_true, value_eq_iff]
  have other64 : (a.ne64 b64 = true ↔ a.value ≠ b64.toNat) := by
    rw [BaseUint.ne64, Bool.not_eq_true', ← Bool.not_eq_true, value_eq64_iff a wide]
  have sum64 := value_addAssign a (assign WIDTH b64)
  have difference64 := value_subAssign a (assign WIDTH b64)
  rw [value_assign wide] at sum64 difference64
  refine ⟨?_, value_subAssign a b, ?_, difference64, value_negate a, ?_, value_decrement a, rfl, rfl, ?_, ?_,
    value_lt_iff a b, value_le_iff a b, value_gt_iff a b, value_ge_iff a b, value_eq_iff a b, other,
    value_eq64_iff a wide b64, other64, setHex_getHex a⟩
  · exact_mod_cast value_addAssign a b
  · exact_mod_cast sum64
  · exact_mod_cast value_increment a
  · exact_mod_cast value_shiftLeftAssign a shift
  · exact_mod_cast value_shiftRightAssign a shift

theorem baseUint_computes_borrow :
    ((subAssign64 (assign 2 0) 1).value : ℤ) = (0 - 1) % (2 ^ 64 : ℕ) ∧ setHex 2 (getHex (assign 2 1)) = assign 2 1 :=
  ⟨(baseUint_computes (by decide) (assign 2 0) (assign 2 0) 1 0).2.2.2.1,
    (baseUint_computes (by decide) (assign 2 1) (assign 2 0) 1 0).2.2.2.2.2.2.2.2.2.2.2.2.2.2.2.2.2.2.2⟩

end RitCoin.Proof
