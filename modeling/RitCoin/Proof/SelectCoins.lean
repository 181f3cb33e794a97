import Mathlib.Algebra.BigOperators.Fin
import Mathlib.Algebra.Order.BigOperators.Group.List
import RitCoin.Model.SelectCoins

namespace RitCoin.Proof
open Lib Model
variable {coins : List WalletCoin} {nTargetValue : Int64}

def coinTotal (coins : List WalletCoin) : ℤ := (coins.map fun coin => coin.first.toInt).sum

def Positive (coins : List WalletCoin) : Prop := ∀ coin ∈ coins, 0 ≤ coin.first.toInt

theorem coinTotal_nonneg (positive : Positive coins) : 0 ≤ coinTotal coins := by
  refine List.sum_nonneg fun x member => ?_
  obtain ⟨coin, inside, rfl⟩ := List.mem_map.mp member
  exact positive coin inside

theorem coinTotal_cons (coin : WalletCoin) (coins : List WalletCoin) :
    coinTotal (coin :: coins) = coin.first.toInt + coinTotal coins := List.sum_cons

theorem coinTotal_append (coins coins' : List WalletCoin) :
    coinTotal (coins ++ coins') = coinTotal coins + coinTotal coins' := by
  rw [coinTotal, List.map_append, List.sum_append]
  rfl

theorem coinTotal_subperm {chosen : List WalletCoin} (part : chosen.Subperm coins) (positive : Positive coins) :
    coinTotal chosen ≤ coinTotal coins := by
  obtain ⟨same, perm, sub⟩ := part
  rw [show coinTotal chosen = coinTotal same from ((perm.map _).sum_eq).symm]
  refine (sub.map _).sum_le_sum fun x member => ?_
  obtain ⟨coin, inside, rfl⟩ := List.mem_map.mp member
  exact positive coin inside

theorem foldl_add (coins : List WalletCoin) (selection : Selection) :
    (coins.foldl Selection.add selection).nValueRet = selection.nValueRet + Int64.ofInt (coinTotal coins) ∧
      (coins.foldl Selection.add selection).setCoinsRet =
        (coins.map WalletCoin.second).toFinset ∪ selection.setCoinsRet := by
  induction coins generalizing selection with
  | nil => exact ⟨by simp [coinTotal], by simp⟩
  | cons coin coins ih =>
    obtain ⟨value, set⟩ := ih (selection.add coin)
    rw [List.foldl_cons, value, set]
    constructor
    · rw [coinTotal_cons, Int64.ofInt_add, Int64.ofInt_toInt, ← Int64.add_assoc]
      rfl
    · rw [Selection.add, List.map_cons, List.toFinset_cons, Finset.insert_union, Finset.union_insert]

def Pays (nTargetValue : Int64) (coins : List WalletCoin) (selection : Selection) : Prop :=
  ∃ chosen, chosen.Subperm coins ∧ (chosen.map WalletCoin.second).Nodup ∧
    selection.setCoinsRet = (chosen.map WalletCoin.second).toFinset ∧
    selection.nValueRet.toInt = coinTotal chosen ∧ nTargetValue ≤ selection.nValueRet

structure Addable (coins : List WalletCoin) : Prop where
  positive : Positive coins
  bounded : coinTotal coins < 2 ^ 63 - 1
  distinct : (coins.map WalletCoin.second).Nodup

theorem Addable.subperm {chosen : List WalletCoin} (addable : Addable coins) (part : chosen.Subperm coins) :
    Addable chosen where
  positive := fun coin member => addable.positive coin (part.subset member)
  bounded := (coinTotal_subperm part addable.positive).trans_lt addable.bounded
  distinct := by
    obtain ⟨same, perm, sub⟩ := part
    exact (perm.map _).nodup_iff.mp ((sub.map _).nodup addable.distinct)

theorem pays_of_chosen (chosen : List WalletCoin) (addable : Addable coins) (part : chosen.Subperm coins)
    (enough : nTargetValue.toInt ≤ coinTotal chosen) :
    Pays nTargetValue coins (chosen.foldl Selection.add .empty) := by
  have own := addable.subperm part
  obtain ⟨value, set⟩ := foldl_add chosen .empty
  have exact : (chosen.foldl Selection.add .empty).nValueRet.toInt = coinTotal chosen := by
    rw [value, Selection.empty, Int64.zero_add]
    have low := coinTotal_nonneg own.positive
    have high := own.bounded
    exact Int64.toInt_ofInt_of_le (by omega) (by omega)
  refine ⟨chosen, part, own.distinct, ?_, exact, ?_⟩
  · rw [set, Selection.empty, Finset.union_empty]
  · rw [Int64.le_iff_toInt_le, exact]
    exact enough

def eligible (nConfMine nConfTheirs : Int) (vCoins : List COutput) : List WalletCoin :=
  (vCoins.filter (COutput.confirmed nConfMine nConfTheirs)).map COutput.coin

structure SplitOf (nTargetValue : Int64) (seen : List WalletCoin) (split : Split) : Prop where
  vValue : split.vValue = seen.filter fun coin => coin.first < nTargetValue + CENT
  nTotalLower : split.nTotalLower = Int64.ofInt (coinTotal split.vValue)
  lower : split.coinLowestLarger.2 = none →
    split.coinLowestLarger.1 = Int64.maxValue ∧ ∀ coin ∈ seen, coin.first < nTargetValue + CENT
  larger : ∀ second, split.coinLowestLarger.2 = some second →
    ⟨split.coinLowestLarger.1, second⟩ ∈ seen ∧ ¬ split.coinLowestLarger.1 < nTargetValue + CENT

theorem SplitOf.start (nTargetValue : Int64) : SplitOf nTargetValue [] .start where
  vValue := rfl
  nTotalLower := rfl
  lower := fun _ => ⟨rfl, by simp⟩
  larger := fun _ found => by cases found

theorem SplitOf.put {seen : List WalletCoin} {split : Split} (is : SplitOf nTargetValue seen split)
    {coin : WalletCoin} (bounded : coin.first < Int64.maxValue) :
    SplitOf nTargetValue (seen ++ [coin]) (split.put nTargetValue coin) := by
  unfold Split.put
  split_ifs with small lowest
  · refine ⟨?_, ?_, ?_, ?_⟩
    · rw [List.filter_append, is.vValue, List.filter_cons_of_pos (by simpa using small), List.filter_nil]
    · change split.nTotalLower + coin.first = Int64.ofInt (coinTotal (split.vValue ++ [coin]))
      rw [is.nTotalLower, coinTotal_append, Int64.ofInt_add]
      simp [coinTotal]
    · intro none
      obtain ⟨top, all⟩ := is.lower none
      refine ⟨top, fun other member => ?_⟩
      rcases List.mem_append.mp member with old | new
      · exact all other old
      · rw [List.mem_singleton.mp new]
        exact small
    · intro second found
      obtain ⟨member, large⟩ := is.larger second found
      exact ⟨List.mem_append_left _ member, large⟩
  · refine ⟨?_, is.nTotalLower, fun none => (by cases none), ?_⟩
    · rw [List.filter_append, is.vValue, List.filter_cons_of_neg (by simpa using small), List.filter_nil,
        List.append_nil]
    · rintro second found
      cases found
      exact ⟨List.mem_append_right _ (List.mem_singleton.mpr rfl), small⟩
  · refine ⟨?_, is.nTotalLower, fun none => ?_, ?_⟩
    · rw [List.filter_append, is.vValue, List.filter_cons_of_neg (by simpa using small), List.filter_nil,
        List.append_nil]
    · rw [(is.lower none).1] at lowest
      exact absurd bounded lowest
    · intro second found
      obtain ⟨member, large⟩ := is.larger second found
      exact ⟨List.mem_append_left _ member, large⟩

inductive ScanEnd (nTargetValue : Int64) (coins : List WalletCoin) : WalletCoin ⊕ Split → Prop
  | found {coin} (member : coin ∈ coins) (same : coin.first = nTargetValue) : ScanEnd nTargetValue coins (.inl coin)
  | split {s} (is : SplitOf nTargetValue coins s) : ScanEnd nTargetValue coins (.inr s)

theorem scan_scanEnd {nConfMine nConfTheirs : Int} : ∀ {vCoins : List COutput}
    {seen : List WalletCoin} {split : Split}, SplitOf nTargetValue seen split →
    (∀ coin ∈ eligible nConfMine nConfTheirs vCoins, coin.first < Int64.maxValue) →
    ScanEnd nTargetValue (seen ++ eligible nConfMine nConfTheirs vCoins)
      (scan nTargetValue nConfMine nConfTheirs split vCoins) := by
  intro vCoins
  induction vCoins with
  | nil =>
    intro seen split is _
    rw [eligible, List.filter_nil, List.map_nil, List.append_nil]
    exact .split is
  | cons output rest ih =>
    intro seen split is bounded
    unfold scan
    by_cases confirmed : output.confirmed nConfMine nConfTheirs
    · have first : eligible nConfMine nConfTheirs (output :: rest) =
          output.coin :: eligible nConfMine nConfTheirs rest := by
        rw [eligible, List.filter_cons_of_pos confirmed, List.map_cons]
        rfl
      rw [first, List.forall_mem_cons] at bounded
      rw [if_pos confirmed, first]
      split_ifs with same
      · exact .found (List.mem_append_right _ (List.mem_cons_self ..)) same
      · have next := ih (is.put bounded.1) bounded.2
        rwa [List.append_assoc, List.singleton_append] at next
    · have skipped : eligible nConfMine nConfTheirs (output :: rest) = eligible nConfMine nConfTheirs rest := by
        rw [eligible, List.filter_cons_of_neg confirmed]
        rfl
      rw [if_neg confirmed, skipped]
      rw [skipped] at bounded
      exact ih is bounded

section Search
variable {n : ℕ} {value : Fin n → Int64} {nTargetValue : Int64} {s : Search n}

def sumOf (value : Fin n → Int64) (vf : Vector Bool n) : ℤ := ∑ i : Fin n, if vf.get i then (value i).toInt else 0

theorem sumOf_set (value : Fin n → Int64) {vf : Vector Bool n} {i : Fin n} (fresh : vf.get i = false) :
    sumOf value (vf.set i true i.isLt) = sumOf value vf + (value i).toInt := by
  rw [sumOf, sumOf, Fintype.sum_eq_add_sum_compl i, Fintype.sum_eq_add_sum_compl i, fresh]
  have others : ∀ j ∈ ({i}ᶜ : Finset (Fin n)), (if (vf.set i true).get j then (value j).toInt else 0) =
      if vf.get j then (value j).toInt else 0 := by
    intro j other
    have apart : (i : ℕ) ≠ j := by
      intro same
      exact (Finset.mem_compl.mp other) (Finset.mem_singleton.mpr (Fin.ext same.symm))
    simp only [Vector.get_eq_getElem, Vector.getElem_set_ne _ _ apart]
  rw [Finset.sum_congr rfl others]
  simp only [Vector.get_eq_getElem, Vector.getElem_set_self, if_true, Bool.false_eq_true, if_false]
  omega

theorem sumOf_bounds (positive : ∀ i, 0 ≤ (value i).toInt) (vf : Vector Bool n) :
    0 ≤ sumOf value vf ∧ sumOf value vf ≤ ∑ i, (value i).toInt := by
  refine ⟨Finset.sum_nonneg fun i _ => ?_, Finset.sum_le_sum fun i _ => ?_⟩
  all_goals split_ifs
  · exact positive i
  · exact le_rfl
  · exact le_rfl
  · exact positive i

structure SubsetOk (value : Fin n → Int64) (nTargetValue : Int64) (s : Search n) : Prop where
  nTotal : s.nTotal.toInt = sumOf value s.vfIncluded
  nBest : s.nBest.toInt = sumOf value s.vfBest
  enough : nTargetValue ≤ s.nBest

section
variable (positive : ∀ i, 0 ≤ (value i).toInt) (bounded : ∑ i, (value i).toInt < 2 ^ 63)
  (sound : SubsetOk value nTargetValue s)
include positive bounded sound

theorem SubsetOk.pick {i : Fin n} (fresh : s.vfIncluded[i] = false) :
    SubsetOk value nTargetValue (s.pick value nTargetValue i) ∧
      ∀ j, j ≠ i → (s.pick value nTargetValue i).vfIncluded[j] = s.vfIncluded[j] := by
  have sum := sumOf_set value (i := i) fresh
  have range := sumOf_bounds positive (s.vfIncluded.set i true)
  have value_nonneg := positive i
  have low := (sumOf_bounds positive s.vfIncluded).1
  have nTotal : (s.nTotal + value i).toInt = sumOf value (s.vfIncluded.set i true) := by
    rw [Int64.toInt_add, sound.nTotal, ← sum, Int.bmod_eq_of_le] <;> omega
  have back : s.nTotal + value i - value i = s.nTotal := Int64.add_sub_cancel ..
  have undone : (s.vfIncluded.set i true).set i false = s.vfIncluded := by
    rw [Vector.set_set, ← fresh]
    exact Vector.set_getElem_self _
  have elsewhere : ∀ j, j ≠ i → (s.vfIncluded.set i true)[j] = s.vfIncluded[j] := by
    intro j other
    exact Vector.getElem_set_ne _ _ fun same => other (Fin.ext same.symm)
  unfold Search.pick
  dsimp only
  rw [back, undone]
  split_ifs with reached better
  · exact ⟨⟨sound.nTotal, nTotal, reached⟩, fun _ _ => rfl⟩
  · exact ⟨⟨sound.nTotal, sound.nBest, sound.enough⟩, fun _ _ => rfl⟩
  · exact ⟨⟨nTotal, sound.nBest, sound.enough⟩, elsewhere⟩

theorem SubsetOk.firstPass (empty : ∀ i : Fin n, s.vfIncluded[i] = false) (rand : ℕ → ℕ) :
    SubsetOk value nTargetValue (s.firstPass value nTargetValue rand) := by
  have loop : ∀ (l : List (Fin n)) (s : Search n), l.Nodup → SubsetOk value nTargetValue s →
      (∀ i ∈ l, s.vfIncluded[i] = false) → SubsetOk value nTargetValue
        (l.foldl (fun s (i : Fin n) => if rand i.val % 2 ≠ 0 then s.pick value nTargetValue i else s) s) := by
    intro l
    induction l with
    | nil => exact fun _ _ sound _ => sound
    | cons i l ih =>
      intro s nodup sound fresh
      rw [List.nodup_cons] at nodup
      rw [List.forall_mem_cons] at fresh
      rw [List.foldl_cons]
      split_ifs
      · obtain ⟨picked, elsewhere⟩ := sound.pick positive bounded fresh.1
        refine ih _ nodup.2 picked fun j member => ?_
        rw [elsewhere j fun same => nodup.1 (same ▸ member)]
        exact fresh.2 j member
      · exact ih s nodup.2 sound fresh.2
  exact loop _ s (List.nodup_finRange n) sound fun i _ => empty i

theorem SubsetOk.secondPass : SubsetOk value nTargetValue (s.secondPass value nTargetValue) := by
  refine List.foldlRecOn (List.finRange n) _ sound fun s sound i _ => ?_
  split_ifs with included
  · exact sound
  · exact (sound.pick positive bounded (Bool.eq_false_iff.mpr included)).1

theorem SubsetOk.round (rand : ℕ → ℕ) : SubsetOk value nTargetValue (s.round value nTargetValue rand) := by
  have none : ∀ i : Fin n, (Vector.replicate n false).get i = false := fun i => Vector.getElem_replicate i.isLt
  have start : SubsetOk value nTargetValue
      { s with vfIncluded := Vector.replicate n false, nTotal := 0, fReachedTarget := false } := by
    refine ⟨?_, sound.nBest, sound.enough⟩
    simp only [sumOf, none, Bool.false_eq_true, if_false, Finset.sum_const_zero]
    rfl
  have first := start.firstPass positive bounded none rand
  unfold Search.round
  dsimp only
  split_ifs
  · exact first
  · exact first.secondPass positive bounded

end

theorem SubsetOk.rounds (positive : ∀ i, 0 ≤ (value i).toInt) (bounded : ∑ i, (value i).toInt < 2 ^ 63)
    (rand : ℕ → ℕ → ℕ) {nTotalLower : Int64} (all : nTotalLower.toInt = ∑ i, (value i).toInt)
    (enough : nTargetValue ≤ nTotalLower) :
    SubsetOk value nTargetValue (Search.rounds value nTargetValue rand nTotalLower) := by
  have start : SubsetOk value nTargetValue
      ⟨0, Vector.replicate n false, false, nTotalLower, Vector.replicate n true⟩ := by
    refine ⟨?_, ?_, enough⟩
    all_goals simp [sumOf, all]
  unfold Search.rounds
  generalize List.range 1000 = reps
  refine List.foldlRecOn reps _ start fun s sound nRep _ => ?_
  split_ifs
  · exact sound.round positive bounded (rand nRep)
  · exact sound

end Search

def subsetOf (vValue : List WalletCoin) (vf : Vector Bool vValue.length) : List WalletCoin :=
  ((List.finRange vValue.length).filter vf.get).map vValue.get

theorem subsetOf_sublist (vValue : List WalletCoin) (vf : Vector Bool vValue.length) :
    (subsetOf vValue vf).Sublist vValue := by
  have sub := (List.filter_sublist (p := vf.get) (l := List.finRange vValue.length)).map vValue.get
  rwa [List.map_get_finRange] at sub

theorem coinTotal_subsetOf (vValue : List WalletCoin) (vf : Vector Bool vValue.length) :
    coinTotal (subsetOf vValue vf) = sumOf (fun i => (vValue.get i).first) vf := by
  rw [sumOf, Fin.sum_univ_def, coinTotal, subsetOf, List.map_map]
  induction List.finRange vValue.length with
  | nil => rfl
  | cons i rest ih =>
    rw [List.map_cons, List.sum_cons, ← ih, List.filter_cons]
    split_ifs
    · rw [List.map_cons, List.sum_cons]
      rfl
    · rw [zero_add]

theorem sum_get_first (vValue : List WalletCoin) :
    ∑ i, ((vValue.get i).first).toInt = coinTotal vValue := by
  have values : (List.finRange vValue.length).map (fun i => ((vValue.get i).first).toInt) =
      ((List.finRange vValue.length).map vValue.get).map fun coin => coin.first.toInt := by
    rw [List.map_map]
    rfl
  rw [Fin.sum_univ_def, values, List.map_get_finRange]
  rfl

theorem foldl_subset (vValue : List WalletCoin) (vf : Vector Bool vValue.length) :
    (List.finRange vValue.length).foldl
        (fun selection i => if vf.get i then selection.add (vValue.get i) else selection) Selection.empty =
      (subsetOf vValue vf).foldl Selection.add .empty := by
  rw [subsetOf, List.foldl_map, List.foldl_filter]

section Select
variable {nTargetValue target : Int64} {coins : List WalletCoin} {split : Split}

theorem SplitOf.vValue_subperm (is : SplitOf target coins split) : split.vValue.Subperm coins := by
  rw [is.vValue]
  exact List.filter_sublist.subperm

theorem SplitOf.nTotalLower_toInt (is : SplitOf target coins split) (addable : Addable coins) :
    split.nTotalLower.toInt = coinTotal split.vValue := by
  have own := addable.subperm is.vValue_subperm
  have low := coinTotal_nonneg own.positive
  have high := own.bounded
  rw [is.nTotalLower]
  exact Int64.toInt_ofInt_of_le (by omega) (by omega)

theorem pays_of_larger (is : SplitOf target coins split) (addable : Addable coins) {nLarger : Int64}
    {second : ℕ × ℕ} (larger : split.coinLowestLarger = (nLarger, some second))
    (least : target.toInt ≤ (target + CENT).toInt) : Pays target coins (Selection.empty.add ⟨nLarger, second⟩) := by
  obtain ⟨member, large⟩ := is.larger second (by rw [larger])
  rw [larger] at member large
  refine pays_of_chosen [⟨nLarger, second⟩] addable (List.singleton_subperm_iff.mpr member) ?_
  have large : (target + CENT).toInt ≤ nLarger.toInt := Int64.le_iff_toInt_le.mp (Int64.not_lt.mp large)
  simp only [coinTotal, List.map_cons, List.map_nil, List.sum_cons, List.sum_nil]
  omega

theorem bestSubset_pays {vValue : List WalletCoin} {nTotalLower : Int64} (addable : Addable coins)
    (part : vValue.Subperm coins) (all : nTotalLower.toInt = coinTotal vValue) (raised : target ≤ nTargetValue)
    (enough : nTargetValue ≤ nTotalLower) (rand : ℕ → ℕ → ℕ) :
    Pays target coins (bestSubset rand nTargetValue nTotalLower vValue).2 := by
  have own := addable.subperm part
  have positive : ∀ i, 0 ≤ ((vValue.get i).first).toInt := fun i => own.positive _ (List.get_mem ..)
  have sum := sum_get_first vValue
  have sound := SubsetOk.rounds positive (by rw [sum]; have := own.bounded; omega) rand (all.trans sum.symm) enough
  have chosen : (bestSubset rand nTargetValue nTotalLower vValue).2 = _ := foldl_subset vValue _
  rw [chosen]
  refine pays_of_chosen _ addable ((subsetOf_sublist _ _).subperm.trans part) ?_
  rw [coinTotal_subsetOf, ← sound.nBest]
  exact (Int64.le_iff_toInt_le.mp raised).trans (Int64.le_iff_toInt_le.mp sound.enough)

theorem approximate_pays (is : SplitOf target coins split) (addable : Addable coins)
    (least : target.toInt ≤ (target + CENT).toInt) (raised : target ≤ nTargetValue)
    (enough : nTargetValue ≤ split.nTotalLower) (rand : ℕ → ℕ → ℕ) :
    Pays target coins (approximate rand nTargetValue split) := by
  have perm := List.perm_insertionSort WalletCoin.after split.vValue
  have all : split.nTotalLower.toInt = coinTotal (split.vValue.insertionSort WalletCoin.after) :=
    (is.nTotalLower_toInt addable).trans ((perm.map _).sum_eq).symm
  have subset := bestSubset_pays addable (perm.subperm.trans is.vValue_subperm) all raised enough rand
  unfold approximate
  dsimp only
  split
  · next nLarger second larger =>
      split_ifs
      · exact pays_of_larger is addable larger least
      · exact subset
  · exact subset

theorem SplitOf.vValue_eq (is : SplitOf target coins split) (none : split.coinLowestLarger.2 = none) :
    split.vValue = coins := by
  rw [is.vValue, List.filter_eq_self]
  intro coin member
  exact decide_eq_true ((is.lower none).2 coin member)

theorem Pays.enough {selection : Selection} (pays : Pays target coins selection) (addable : Addable coins) :
    target.toInt ≤ coinTotal coins := by
  obtain ⟨chosen, part, -, -, value, enough⟩ := pays
  have total := coinTotal_subperm part addable.positive
  rw [Int64.le_iff_toInt_le, value] at enough
  exact enough.trans total

theorem afterScan_ok (is : SplitOf target coins split) (addable : Addable coins)
    (cent : (target + CENT).toInt = target.toInt + 1000000) (rand : ℕ → ℕ → ℕ) :
    (afterScan rand target split).1 = true ∧ Pays target coins (afterScan rand target split).2 ∨
      (afterScan rand target split).1 = false ∧ coinTotal coins < target.toInt := by
  have lower := is.nTotalLower_toInt addable
  have least : target.toInt ≤ (target + CENT).toInt := by omega
  unfold afterScan
  by_cases exactly : split.nTotalLower = target ∨ split.nTotalLower = target + CENT
  · rw [if_pos exactly]
    refine .inl ⟨rfl, pays_of_chosen _ addable is.vValue_subperm ?_⟩
    rw [← lower]
    rcases exactly with same | same
    · rw [same]
    · rw [same]
      exact least
  rw [if_neg exactly]
  by_cases short : split.nTotalLower < target + (if split.coinLowestLarger.2.isSome then CENT else 0)
  · rw [if_pos short]
    split
    · next nLarger none =>
        have all := is.vValue_eq (by rw [none])
        rw [none, Option.isSome_none, if_neg Bool.false_ne_true, Int64.add_zero, Int64.lt_iff_toInt_lt, lower,
          all] at short
        exact .inr ⟨rfl, short⟩
    · next nLarger second larger => exact .inl ⟨rfl, pays_of_larger is addable larger least⟩
  rw [if_neg short]
  have reached : target ≤ split.nTotalLower := by
    refine Int64.le_trans ?_ (Int64.not_lt.mp short)
    split_ifs
    · exact Int64.le_iff_toInt_le.mpr least
    · rw [Int64.add_zero]
      exact Int64.le_refl _
  split_ifs with above
  · exact .inl ⟨rfl, approximate_pays is addable least (Int64.le_iff_toInt_le.mpr least) above rand⟩
  · exact .inl ⟨rfl, approximate_pays is addable least (Int64.le_refl _) reached rand⟩

theorem selectCoinsMinConf_ok {nTargetValue : Int64} {nConfMine nConfTheirs : Int} {vCoins : List COutput}
    (addable : Addable (eligible nConfMine nConfTheirs vCoins))
    (cent : (nTargetValue + CENT).toInt = nTargetValue.toInt + 1000000) (rand : ℕ → ℕ → ℕ) :
    let result := selectCoinsMinConf rand nTargetValue nConfMine nConfTheirs vCoins
    result.1 = true ∧ Pays nTargetValue (eligible nConfMine nConfTheirs vCoins) result.2 ∨
      result.1 = false ∧ coinTotal (eligible nConfMine nConfTheirs vCoins) < nTargetValue.toInt := by
  have small : ∀ coin ∈ eligible nConfMine nConfTheirs vCoins, coin.first < Int64.maxValue := by
    intro coin member
    have one := (addable.subperm (List.singleton_subperm_iff.mpr member)).bounded
    rw [Int64.lt_iff_toInt_lt, Int64.toInt_maxValue]
    simpa [coinTotal] using one
  have scanned := scan_scanEnd (SplitOf.start nTargetValue) small
  rw [List.nil_append] at scanned
  unfold selectCoinsMinConf
  generalize scan nTargetValue nConfMine nConfTheirs .start vCoins = ends at scanned
  cases scanned with
  | found member same =>
    refine .inl ⟨rfl, pays_of_chosen [_] addable (List.singleton_subperm_iff.mpr member) ?_⟩
    simp [coinTotal, same]
  | split is => exact afterScan_ok is addable cent rand

/-- The selection succeeds exactly if the coins are enough, and then it pays. -/
theorem selectCoinsMinConf_iff (rand : ℕ → ℕ → ℕ) (nTargetValue fee : Int64) (nConfMine nConfTheirs : Int)
    (vCoins : List COutput) (money : moneyRange fee) (most : nTargetValue.toInt ≤ MAX_MONEY.toInt + fee.toInt)
    (distinct : (vCoins.map fun output => output.coin.second).Nodup)
    (positive : ∀ coin ∈ eligible nConfMine nConfTheirs vCoins, 0 ≤ coin.first)
    (bounded : coinTotal (eligible nConfMine nConfTheirs vCoins) < 2 ^ 63 - 1) :
    let result := selectCoinsMinConf rand nTargetValue nConfMine nConfTheirs vCoins
    (result.1 = true ↔ nTargetValue.toInt ≤ coinTotal (eligible nConfMine nConfTheirs vCoins)) ∧
      (result.1 = true → Pays nTargetValue (eligible nConfMine nConfTheirs vCoins) result.2) := by
  have addable : Addable (eligible nConfMine nConfTheirs vCoins) := by
    refine ⟨fun coin member => Int64.le_iff_toInt_le.mp (positive coin member), bounded, ?_⟩
    rw [eligible, List.map_map]
    exact (List.filter_sublist.map _).nodup distinct
  have cent : (nTargetValue + CENT).toInt = nTargetValue.toInt + 1000000 := by
    have supply : MAX_MONEY.toInt = 10000000000000000 := by decide
    have one : CENT.toInt = 1000000 := by decide
    rw [moneyRange, Bool.and_eq_true, decide_eq_true_eq, decide_eq_true_eq, Int64.le_iff_toInt_le,
      Int64.le_iff_toInt_le, supply] at money
    have low := nTargetValue.minValue_le_toInt
    rw [Int64.toInt_minValue] at low
    rw [Int64.toInt_add, one, Int.bmod_eq_of_le] <;> omega
  rcases selectCoinsMinConf_ok addable cent rand with ⟨yes, pays⟩ | ⟨no, less⟩
  · exact ⟨iff_of_true yes (pays.enough addable), fun _ => pays⟩
  · exact ⟨iff_of_false (by simp [no]) (by omega), fun yes => absurd (no.symm.trans yes) Bool.false_ne_true⟩

end Select

def ownCoin (address : ℕ) (nValue : Int64) : COutput where
  tx := ⟨address, [⟨nValue, []⟩], true⟩
  i := 0
  nDepth := 10
  inside := Nat.one_pos

def threeCoins : List COutput := [ownCoin 1 (3 * CENT), ownCoin 2 (2 * CENT), ownCoin 3 (9 * CENT)]

theorem threeCoins_selected :
    ((selectCoinsMinConf (fun nRep i => nRep + i) (4 * CENT) 1 6 threeCoins).1 = true ↔
        (4 * CENT).toInt ≤ coinTotal (eligible 1 6 threeCoins)) ∧
      ((selectCoinsMinConf (fun nRep i => nRep + i) (4 * CENT) 1 6 threeCoins).1 = true →
        Pays (4 * CENT) (eligible 1 6 threeCoins)
          (selectCoinsMinConf (fun nRep i => nRep + i) (4 * CENT) 1 6 threeCoins).2) :=
  selectCoinsMinConf_iff _ (4 * CENT) CENT 1 6 threeCoins (by decide) (by decide) (by decide) (by decide) (by decide)

def overdrawn : List COutput := [ownCoin 1 5, ownCoin 2 (-1)]

def hugeCoin : List COutput := [ownCoin 1 Int64.maxValue]

/-- An exact match ends the loop before the negative coin is seen, and the largest number is not less than the
initial value of `coinLowestLarger`. -/
theorem selectCoinsMinConf_differs :
    ((overdrawn.map fun output => output.coin.second).Nodup ∧ coinTotal (eligible 1 6 overdrawn) < 5 ∧
      (selectCoinsMinConf (fun _ _ => 0) 5 1 6 overdrawn).1 = true) ∧
    (hugeCoin.map fun output => output.coin.second).Nodup ∧ 5 ≤ coinTotal (eligible 1 6 hugeCoin) ∧
      (selectCoinsMinConf (fun _ _ => 0) 5 1 6 hugeCoin).1 = false := by
  decide +kernel

end RitCoin.Proof
