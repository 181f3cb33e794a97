import RitCoin.Lib.Ledger

/-!
# The supply of a ledger

The total value of the unspent outputs, and how it moves when a transaction is applied: it loses
what the transaction spends and gains what it creates, provided no unspent output is overwritten.
-/

namespace RitCoin.Lib

theorem finsum_update {ι : Type} [DecidableEq ι] {f : ι → Int} (finite : f.support.Finite)
    (i : ι) (x : Int) : ∑ᶠ j, Function.update f i x j = ∑ᶠ j, f j - f i + x := by
  have before : f.support ⊆ ↑(insert i finite.toFinset) := by
    intro j h
    simp [Function.mem_support.mp h]
  have after : (Function.update f i x).support ⊆ ↑(insert i finite.toFinset) := by
    intro j h
    by_cases same : j = i
    · simp [same]
    · have : f j ≠ 0 := by simpa [same] using h
      simp [this]
  rw [finsum_eq_sum_of_support_subset _ before, finsum_eq_sum_of_support_subset _ after,
    Finset.sum_update_of_mem (Finset.mem_insert_self _ _),
    ← Finset.sum_sdiff (Finset.singleton_subset_iff.mpr (Finset.mem_insert_self i finite.toFinset))]
  simp only [Finset.sum_singleton]
  ring

theorem finsum_eq_sum_entries {ι V : Type} [DecidableEq ι] {entries : List (ι × V)}
    (nodup : (entries.map Prod.fst).Nodup) {f : ι → Int} {g : ι × V → Int}
    (agree : ∀ e ∈ entries, g e = f e.1) (support : ∀ i, f i ≠ 0 → i ∈ entries.map Prod.fst) :
    (entries.map g).sum = ∑ᶠ i, f i := by
  have keys : entries.map g = (entries.map Prod.fst).map f := by
    rw [List.map_map]
    exact List.map_congr_left agree
  rw [keys, ← List.sum_toFinset f nodup]
  exact (finsum_eq_sum_of_support_subset _ fun i h => by
    simpa using support i (Function.mem_support.mp h)).symm

namespace Coins
variable {Id Tx Loc : Type} {F : Form Id Tx} {coins : Coins F Loc}

def worth (coins : Coins F Loc) (id : Id) : Int := (coins id).elim 0 Coin.unspent

noncomputable def total (coins : Coins F Loc) : Int := ∑ᶠ id, coins.worth id

def Finite (coins : Coins F Loc) : Prop := {id | coins id ≠ none}.Finite

def value (coins : Coins F Loc) (o : Id × Nat) : Int :=
  (coins o.1).elim 0 fun c => (F.values c.tx)[o.2]?.getD 0

/-- A transaction with this id may be created: no unspent output is under it. -/
def Free (coins : Coins F Loc) (id : Id) : Prop := ∀ c, coins id = some c → c.FullySpent

theorem Finite.support (finite : coins.Finite) : coins.worth.support.Finite := by
  apply finite.subset
  intro id h none
  exact h (by rw [worth, none]; rfl)

variable [DecidableEq Id]

theorem finite_update (finite : coins.Finite) (id : Id) (c : Option (Coin F Loc)) :
    Coins.Finite (Function.update coins id c) := by
  apply (finite.insert id).subset
  intro id' h
  by_cases same : id' = id
  · exact .inl same
  · exact .inr (by simpa [same] using h)

theorem worth_update (coins : Coins F Loc) (id : Id) (c : Option (Coin F Loc)) :
    worth (Function.update coins id c) = Function.update coins.worth id (c.elim 0 Coin.unspent) := by
  funext id'
  by_cases same : id' = id
  · subst same; simp [worth]
  · simp [worth, same]

theorem total_update (finite : coins.Finite) (id : Id) (c : Option (Coin F Loc)) :
    total (Function.update coins id c) = coins.total - coins.worth id + c.elim 0 Coin.unspent := by
  rw [total, worth_update, finsum_update finite.support, total]

theorem total_spend (finite : coins.Finite) (loc : Loc) (o : Id × Nat) (free : coins.Unspent o) :
    (spend loc coins o).total = coins.total - coins.value o := by
  obtain ⟨c, found, free⟩ := free
  rw [spend, total_update finite]
  simp only [worth, value, found, Option.map_some, Option.elim_some, Coin.unspent_mark c o.2 loc free]
  ring

theorem unspent_spend (loc : Loc) {o o' : Id × Nat} (ne : o ≠ o') (free : coins.Unspent o') :
    (spend loc coins o).Unspent o' := by
  obtain ⟨c, found, free⟩ := free
  by_cases same : o'.1 = o.1
  · refine ⟨c.mark o.2 loc, ?_, ?_⟩
    · rw [same, spend_self, ← same, found]; rfl
    · have : o.2 ≠ o'.2 := fun eq => ne (Prod.ext same.symm eq)
      simpa [List.getElem?_set, this] using free
  · exact ⟨c, by rw [spend_of_ne loc coins o same, found], free⟩

theorem value_spend (loc : Loc) (coins : Coins F Loc) (o o' : Id × Nat) :
    (spend loc coins o).value o' = coins.value o' := by
  by_cases same : o'.1 = o.1
  · simp only [value, same, spend_self]
    cases coins o.1 <;> rfl
  · rw [value, spend_of_ne loc coins o same, value]

theorem total_spendAll (loc : Loc) (outputs : List (Id × Nat)) (nodup : outputs.Nodup) :
    ∀ coins : Coins F Loc, coins.Finite → (∀ o ∈ outputs, coins.Unspent o) →
      (coins.spendAll loc outputs).Finite ∧
      (coins.spendAll loc outputs).total = coins.total - (outputs.map coins.value).sum := by
  induction outputs with
  | nil => intro coins finite _; simpa [spendAll] using finite
  | cons o rest ih =>
    intro coins finite free
    obtain ⟨fresh, nodup⟩ := List.nodup_cons.mp nodup
    have finite' : (spend loc coins o).Finite := finite_update finite _ _
    have free' : ∀ o' ∈ rest, (spend loc coins o).Unspent o' := by
      intro o' member
      exact unspent_spend loc (fun eq => fresh (eq ▸ member)) (free o' (.tail _ member))
    obtain ⟨finite'', sum⟩ := ih nodup _ finite' free'
    refine ⟨finite'', ?_⟩
    rw [spendAll_cons, sum, total_spend finite loc o (free o (.head _))]
    simp only [List.map_cons, List.sum_cons, funext (value_spend loc coins o)]
    ring

theorem Free.spendAll {id : Id} (free : coins.Free id) (loc : Loc) (outputs : List (Id × Nat)) :
    (coins.spendAll loc outputs).Free id := by
  induction outputs generalizing coins with
  | nil => exact free
  | cons o rest ih =>
    apply ih
    intro c h
    by_cases same : id = o.1
    · subst same
      rw [spend_self] at h
      obtain ⟨d, found, rfl⟩ := Option.map_eq_some_iff.mp h
      exact (free d found).mark o.2 loc
    · rw [spend_of_ne loc coins o same] at h
      exact free c h

omit [DecidableEq Id] in
theorem Free.worth_eq_zero {id : Id} (free : coins.Free id) : coins.worth id = 0 := by
  unfold worth
  cases found : coins id with
  | none => rfl
  | some c => exact (free c found).unspent_eq_zero

theorem finite_apply (finite : coins.Finite) (loc : Loc) (tx : Tx) (applicable : coins.Applicable tx) :
    (coins.apply loc tx).Finite :=
  finite_update (total_spendAll loc _ applicable.nodup coins finite applicable.unspent).1 _ _

theorem total_apply (finite : coins.Finite) (loc : Loc) (tx : Tx) (applicable : coins.Applicable tx)
    (free : coins.Free (F.id tx)) :
    (coins.apply loc tx).total =
      coins.total - ((F.spends tx).map coins.value).sum + (F.values tx).sum := by
  obtain ⟨finite', sum⟩ := total_spendAll loc _ applicable.nodup coins finite applicable.unspent
  rw [apply, create, total_update finite', sum, (free.spendAll loc _).worth_eq_zero,
    Option.elim_some, Coin.unspent_new]
  ring

omit [DecidableEq Id] in
theorem total_nonneg (positive : ∀ id c, coins id = some c → ∀ v ∈ F.values c.tx, 0 ≤ v) : 0 ≤ coins.total := by
  apply finsum_nonneg
  intro id
  unfold worth
  cases found : coins id with
  | none => exact le_rfl
  | some c => exact c.unspent_nonneg (positive id c found)

end Coins

end RitCoin.Lib
