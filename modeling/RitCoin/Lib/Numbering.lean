import Mathlib.Data.List.Nodup
import Mathlib.Logic.Function.Basic

/-!
# Lists whose elements know their places

A list together with a function that says for each element at which place it stands.
-/

namespace RitCoin.Lib
variable {α : Type*} {l : List α} {place : α → Option ℕ} {a b : α} {i j : ℕ}

def Numbered (l : List α) (place : α → Option ℕ) : Prop := ∀ i a, l[i]? = some a ↔ place a = some i

namespace Numbered

theorem nil : Numbered [] fun _ : α => none := by
  intro i a
  simp

theorem nodup (numbered : Numbered l place) : l.Nodup := by
  rw [List.nodup_iff_getElem?_ne_getElem?]
  intro i j less bound same
  have first := List.getElem?_eq_getElem (Nat.lt_trans less bound)
  have second := same.symm.trans first
  rw [numbered] at first second
  rw [first] at second
  cases second
  exact Nat.lt_irrefl _ less

variable [DecidableEq α]

theorem snoc (numbered : Numbered l place) (fresh : place a = none) :
    Numbered (l ++ [a]) (Function.update place a (some l.length)) := by
  intro i b
  rw [Function.update_apply, List.getElem?_append]
  split_ifs with inside same same
  · rw [numbered, same, fresh]
    simp only [reduceCtorEq, Option.some.injEq, false_iff]
    omega
  · rw [numbered]
  · rw [List.getElem?_singleton, same]
    split_ifs <;> simp <;> omega
  · rw [List.getElem?_singleton]
    have outside : place b ≠ some i := by
      rw [Ne, ← numbered, List.getElem?_eq_none (by omega)]
      simp
    simp only [outside, iff_false]
    split_ifs
    · exact fun other => same (Option.some.inj other).symm
    · simp

theorem swap (numbered : Numbered l place) (first : l[i]? = some a) (second : l[j]? = some b) (apart : i ≠ j) :
    Numbered ((l.set i b).set j a) (Function.update (Function.update place a (some j)) b (some i)) := by
  have placeA := (numbered i a).mp first
  have placeB := (numbered j b).mp second
  have different : a ≠ b := by
    rintro rfl
    rw [placeA] at placeB
    exact apart (Option.some.inj placeB)
  have boundI := (List.getElem?_eq_some_iff.mp first).1
  have boundJ := (List.getElem?_eq_some_iff.mp second).1
  intro k c
  rw [Function.update_apply, Function.update_apply, List.getElem?_set, List.getElem?_set, List.length_set]
  by_cases atJ : j = k
  · subst atJ
    rw [if_pos rfl, if_pos boundJ]
    split_ifs with isB isA
    · simp [isB, different, apart]
    · simp [isA]
    · rw [← numbered, second]
      simp [Ne.symm isA, Ne.symm isB]
  · rw [if_neg atJ]
    by_cases atI : i = k
    · subst atI
      rw [if_pos rfl, if_pos boundI]
      split_ifs with isB isA
      · simp [isB]
      · simp [isA, different.symm, Ne.symm apart]
      · rw [← numbered, first]
        simp [Ne.symm isA, Ne.symm isB]
    · rw [if_neg atI, numbered]
      split_ifs with isB isA
      · simp [isB, placeB, atI, atJ]
      · simp [isA, placeA, atI, atJ]
      · rfl

theorem dropLast (numbered : Numbered l place) (last : l[l.length - 1]? = some a) :
    Numbered l.dropLast (Function.update place a none) := by
  have placeA := (numbered _ a).mp last
  have bound := (List.getElem?_eq_some_iff.mp last).1
  intro i b
  rw [Function.update_apply, List.getElem?_dropLast]
  split_ifs with inside same same
  · rw [numbered, same, placeA]
    simp only [Option.some.injEq, iff_false]
    omega
  · rw [numbered]
  · simp
  · rw [← numbered]
    simp only [false_iff]
    intro here
    obtain rfl : i = l.length - 1 := by
      have := (List.getElem?_eq_some_iff.mp here).1
      omega
    rw [last] at here
    exact same (Option.some.inj here).symm

end Numbered

end RitCoin.Lib
