import RitCoin.Lib.Outcome

/-!
# Matching in order

Two lists are matched in order when each element of the first can be given one of the second, with
the order kept. Trying the elements of the second list one after the other, and giving each to the
first element that is still without one, finds such a matching whenever there is one.
-/

namespace RitCoin.Lib
variable {α β : Type*}

/-- A strictly increasing assignment of positions whose pairs all fit. -/
def MatchesInOrder (fits : α → β → Prop) (xs : List α) (ys : List β) : Prop :=
  ∃ f : Fin xs.length ↪o Fin ys.length, ∀ i, fits (xs.get i) (ys.get (f i))

def matchGreedily (fits : α → β → Bool) : List α → List β → Bool
  | [], _ => true
  | _ :: _, [] => false
  | x :: xs, y :: ys => if fits x y then matchGreedily fits xs ys else matchGreedily fits (x :: xs) ys

theorem matchesInOrder_iff_sublist {fits : α → β → Prop} {xs : List α} {ys : List β} :
    MatchesInOrder fits xs ys ↔ ∃ zs, zs.Sublist ys ∧ List.Forall₂ fits xs zs := by
  constructor
  · rintro ⟨f, each⟩
    refine ⟨List.ofFn fun i => ys.get (f i), ?_, ?_⟩
    · rw [List.sublist_iff_exists_fin_orderEmbedding_get_eq]
      refine ⟨(Fin.castOrderIso (by simp)).toOrderEmbedding.trans f, ?_⟩
      intro i
      rw [List.get_ofFn]
      rfl
    · rw [List.forall₂_iff_get]
      refine ⟨by simp, ?_⟩
      intro i inXs inOfFn
      rw [List.get_ofFn]
      exact each ⟨i, inXs⟩
  · rintro ⟨zs, sublist, pairs⟩
    obtain ⟨length, each⟩ := List.forall₂_iff_get.mp pairs
    obtain ⟨g, same⟩ := List.sublist_iff_exists_fin_orderEmbedding_get_eq.mp sublist
    refine ⟨(Fin.castOrderIso length).toOrderEmbedding.trans g, ?_⟩
    intro i
    have pair := each i.val i.isLt (length ▸ i.isLt)
    rw [same] at pair
    exact pair

theorem matchesInOrder_reverse {fits : α → β → Prop} {xs : List α} {ys : List β} :
    MatchesInOrder fits xs.reverse ys.reverse ↔ MatchesInOrder fits xs ys := by
  rw [matchesInOrder_iff_sublist, matchesInOrder_iff_sublist]
  constructor
  · rintro ⟨zs, sublist, pairs⟩
    exact ⟨zs.reverse, by simpa using sublist.reverse, by simpa using List.rel_reverse pairs⟩
  · rintro ⟨zs, sublist, pairs⟩
    exact ⟨zs.reverse, sublist.reverse, List.rel_reverse pairs⟩

theorem matchGreedily_iff_sublist (fits : α → β → Bool) : ∀ (ys : List β) (xs : List α),
    matchGreedily fits xs ys = true ↔ ∃ zs, zs.Sublist ys ∧ List.Forall₂ (fun x y => fits x y = true) xs zs := by
  intro ys
  induction ys with
  | nil =>
    intro xs
    cases xs with
    | nil => simp [matchGreedily]
    | cons x xs => simp [matchGreedily]
  | cons y ys ih =>
    intro xs
    cases xs with
    | nil => simp [matchGreedily]
    | cons x xs =>
      by_cases fit : fits x y = true
      · rw [matchGreedily, if_pos fit, ih]
        constructor
        · rintro ⟨zs, sublist, pairs⟩
          exact ⟨y :: zs, sublist.cons_cons y, .cons fit pairs⟩
        · -- whatever was given to `x`, the rest is matched after it
          rintro ⟨_, sublist, pairs⟩
          cases pairs with
          | cons _ pairs => exact ⟨_, List.Sublist.tail sublist, pairs⟩
      · rw [matchGreedily, if_neg fit, ih]
        constructor
        · rintro ⟨zs, sublist, pairs⟩
          exact ⟨zs, sublist.cons y, pairs⟩
        · rintro ⟨zs, sublist, pairs⟩
          cases sublist with
          | cons _ sublist => exact ⟨zs, sublist, pairs⟩
          | cons_cons _ sublist =>
            cases pairs with
            | cons first _ => exact absurd first fit

theorem matchGreedily_iff (fits : α → β → Bool) (xs : List α) (ys : List β) :
    matchGreedily fits xs ys = true ↔ MatchesInOrder (fun x y => fits x y = true) xs ys := by
  rw [matchGreedily_iff_sublist, matchesInOrder_iff_sublist]

theorem matchGreedily_of_length_lt {fits : α → β → Bool} {xs : List α} {ys : List β}
    (more : ys.length < xs.length) : matchGreedily fits xs ys = false := by
  by_contra found
  rw [Bool.not_eq_false, matchGreedily_iff_sublist] at found
  obtain ⟨zs, sublist, pairs⟩ := found
  have := sublist.length_le
  have := pairs.length_eq
  omega

end RitCoin.Lib
