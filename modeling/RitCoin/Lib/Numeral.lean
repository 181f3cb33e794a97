import Mathlib.Data.Nat.Digits.Lemmas

/-!
# Numerals with leading zeros

A list of digits is a number and how many zeros stand in front of it. Two lists in different bases that
agree in both are the same text.
-/

namespace RitCoin.Lib

def horner (b : ℕ) (digits : List ℕ) : ℕ := digits.foldl (fun n digit => n * b + digit) 0

def leadingZeros (digits : List ℕ) : ℕ := (digits.takeWhile (· == 0)).length

/-- The digits of a number behind a number of zeros. -/
def numeral (b : ℕ) (zeros n : ℕ) : List ℕ := List.replicate zeros 0 ++ (b.digits n).reverse

theorem horner_eq_ofDigits (b : ℕ) (digits : List ℕ) : horner b digits = Nat.ofDigits b digits.reverse := by
  induction digits using List.reverseRecOn with
  | nil => rfl
  | append_singleton digits last ih =>
    rw [horner, List.foldl_append, ← horner, ih, List.reverse_append, List.reverse_singleton, List.singleton_append,
      Nat.ofDigits_cons]
    simp only [List.foldl_cons, List.foldl_nil]
    rw [Nat.mul_comm, Nat.add_comm]

theorem horner_zeros_append (b zeros : ℕ) (digits : List ℕ) :
    horner b (List.replicate zeros 0 ++ digits) = horner b digits := by
  rw [horner_eq_ofDigits, horner_eq_ofDigits, List.reverse_append, List.reverse_replicate,
    Nat.ofDigits_append_replicate_zero]

theorem horner_digits (b n : ℕ) : horner b (b.digits n).reverse = n := by
  rw [horner_eq_ofDigits, List.reverse_reverse, Nat.ofDigits_digits]

theorem eq_digits {b : ℕ} (base : 1 < b) {digits : List ℕ} (small : ∀ digit ∈ digits, digit < b)
    (first : ∀ digit ∈ digits.head?, digit ≠ 0) : digits = (b.digits (horner b digits)).reverse := by
  rw [horner_eq_ofDigits, Nat.digits_ofDigits b base _ (fun digit member => small digit (List.mem_reverse.mp member)),
    List.reverse_reverse]
  intro nonempty
  apply first
  rw [List.getLast_reverse, List.head?_eq_some_head, Option.mem_some_iff]

theorem head_digits {b n : ℕ} (digit : ℕ) (head : digit ∈ (b.digits n).reverse.head?) : digit ≠ 0 := by
  rw [List.head?_reverse] at head
  have positive : n ≠ 0 := by
    rintro rfl
    simp at head
  rw [List.getLast?_eq_getLast_of_ne_nil (Nat.digits_ne_nil_iff_ne_zero.mpr positive), Option.mem_some_iff] at head
  rw [← head]
  exact Nat.getLast_digit_ne_zero b positive

theorem leadingZeros_append {zeros : ℕ} {digits : List ℕ} (first : ∀ digit ∈ digits.head?, digit ≠ 0) :
    leadingZeros (List.replicate zeros 0 ++ digits) = zeros := by
  have stop : digits.takeWhile (· == 0) = [] := by
    cases digits with
    | nil => rfl
    | cons digit digits => simp [first digit rfl]
  rw [leadingZeros, List.takeWhile_append_of_pos (by simp), stop, List.append_nil, List.length_replicate]

theorem split_zeros (digits : List ℕ) : ∃ rest : List ℕ, (∀ digit ∈ rest.head?, digit ≠ 0) ∧
    digits = List.replicate (leadingZeros digits) 0 ++ rest := by
  induction digits with
  | nil => exact ⟨[], nofun, rfl⟩
  | cons digit digits ih =>
    cases digit with
    | zero =>
      obtain ⟨rest, first, split⟩ := ih
      refine ⟨rest, first, ?_⟩
      conv_lhs => rw [split]
      rfl
    | succ digit => exact ⟨(digit + 1) :: digits, by simp, rfl⟩

theorem read_numeral (b zeros n : ℕ) :
    leadingZeros (numeral b zeros n) = zeros ∧ horner b (numeral b zeros n) = n := by
  constructor
  · exact leadingZeros_append head_digits
  · rw [numeral, horner_zeros_append, horner_digits]

theorem numeral_read {b : ℕ} (base : 1 < b) {digits : List ℕ} (small : ∀ digit ∈ digits, digit < b) :
    numeral b (leadingZeros digits) (horner b digits) = digits := by
  obtain ⟨rest, first, split⟩ := split_zeros digits
  have value : horner b digits = horner b rest := by
    conv_lhs => rw [split, horner_zeros_append]
  have kept : ∀ digit ∈ rest, digit < b := fun digit member =>
    small digit (by rw [split]; exact List.mem_append_right _ member)
  conv_rhs => rw [split, eq_digits base kept first]
  rw [numeral, value]

end RitCoin.Lib
