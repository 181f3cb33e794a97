import Mathlib.Data.List.Basic
import Std.Data.ExtTreeMap.Lemmas

/-!
# Items and their owners

Owners under keys, each with a list of items, and a second map that finds for an item the key of its
owner and the place of the item in the owner's list.
-/

namespace RitCoin.Lib
open Std

section Inverse
variable {K T O : Type*} {items : T → List O} {owners : K → Option T} {next next' : O → Option (K × ℕ)}

/-- `next` leads from the items back to the owners. -/
def Inverse (items : T → List O) (owners : K → Option T) (next : O → Option (K × ℕ)) : Prop :=
  ∀ o k i, next o = some (k, i) ↔ ∃ t, owners k = some t ∧ (items t)[i]? = some o

namespace Inverse

theorem empty : Inverse items (fun _ : K => none) fun _ => none := by
  intro o k i
  simp

theorem unique (inverse : Inverse items owners next) {k k' : K} {t t' : T} {o : O}
    (owner : owners k = some t) (owner' : owners k' = some t') (item : o ∈ items t)
    (item' : o ∈ items t') : k = k' := by
  obtain ⟨i, place⟩ := List.getElem?_of_mem item
  obtain ⟨i', place'⟩ := List.getElem?_of_mem item'
  have back := (inverse o k i).mpr ⟨t, owner, place⟩
  rw [(inverse o k' i').mpr ⟨t', owner', place'⟩] at back
  cases back
  rfl

section Change
variable {owners' : K → Option T} {k : K} {t : T} (elsewhere : ∀ k', k' ≠ k → owners' k' = owners k')
  (others : ∀ o ∉ items t, next' o = next o)
include elsewhere others

theorem add (inverse : Inverse items owners next) (fresh : owners k = none) (owner : owners' k = some t)
    (free : ∀ o ∈ items t, next o = none)
    (entered : ∀ o i, (items t)[i]? = some o → next' o = some (k, i)) : Inverse items owners' next' := by
  intro o k' i
  by_cases item : o ∈ items t
  · obtain ⟨j, place⟩ := List.getElem?_of_mem item
    constructor
    · intro back
      rw [entered o j place] at back
      cases back
      exact ⟨t, owner, place⟩
    · rintro ⟨t', owner', place'⟩
      by_cases same : k' = k
      · subst same
        rw [owner] at owner'
        cases owner'
        exact entered o i place'
      · have back := (inverse o k' i).mpr ⟨t', by rwa [← elsewhere k' same], place'⟩
        rw [free o item] at back
        cases back
  · rw [others o item, inverse o k' i]
    by_cases same : k' = k
    · subst same
      simp only [fresh, owner, reduceCtorEq, false_and, exists_false, Option.some.injEq, exists_eq_left',
        false_iff]
      exact fun place => item (List.mem_of_getElem? place)
    · rw [elsewhere k' same]

theorem remove (inverse : Inverse items owners next) (owner : owners k = some t) (gone : owners' k = none)
    (erased : ∀ o ∈ items t, next' o = none) : Inverse items owners' next' := by
  intro o k' i
  by_cases item : o ∈ items t
  · rw [erased o item]
    simp only [reduceCtorEq, false_iff, not_exists, not_and]
    intro t' owner' place'
    by_cases same : k' = k
    · rw [same, gone] at owner'
      cases owner'
    · rw [elsewhere k' same] at owner'
      exact same (inverse.unique owner' owner (List.mem_of_getElem? place') item)
  · rw [others o item, inverse o k' i]
    by_cases same : k' = k
    · subst same
      simp only [gone, owner, reduceCtorEq, false_and, exists_false, Option.some.injEq, exists_eq_left',
        iff_false]
      exact fun place => item (List.mem_of_getElem? place)
    · rw [elsewhere k' same]

end Change

end Inverse

end Inverse

section Loops
variable {A B V : Type*} [Ord A] [TransOrd A] [LawfulEqOrd A] (key : B → A)

theorem getElem?_foldl_erase [DecidableEq A] (items : List B) (map : ExtTreeMap A V) (a : A) :
    (items.foldl (fun map b => map.erase (key b)) map)[a]? =
      if a ∈ items.map key then none else map[a]? := by
  induction items generalizing map with
  | nil => simp
  | cons b items ih =>
    rw [List.foldl_cons, ih, ExtTreeMap.getElem?_erase]
    by_cases same : key b = a
    · simp [same]
    · simp [same, Ne.symm same]

theorem getElem?_foldl_insert (value : B → V) (items : List B) (map : ExtTreeMap A V) {a : A}
    (absent : a ∉ items.map key) :
    (items.foldl (fun map b => map.insert (key b) (value b)) map)[a]? = map[a]? := by
  induction items generalizing map with
  | nil => rfl
  | cons b items ih =>
    obtain ⟨apart, absent⟩ := not_or.mp (List.mem_cons.not.mp absent)
    rw [List.foldl_cons, ih _ absent, ExtTreeMap.getElem?_insert]
    simp [Ne.symm apart]

theorem getElem?_foldl_insert_of_nodup (value : B → V) (items : List B) (map : ExtTreeMap A V)
    (nodup : (items.map key).Nodup) {b : B} (member : b ∈ items) :
    (items.foldl (fun map b => map.insert (key b) (value b)) map)[key b]? = some (value b) := by
  induction items generalizing map with
  | nil => cases member
  | cons first items ih =>
    obtain ⟨absent, nodup⟩ := List.nodup_cons.mp nodup
    rcases List.mem_cons.mp member with rfl | later
    · rw [List.foldl_cons, getElem?_foldl_insert key value items _ absent]
      simp
    · exact ih _ nodup later

end Loops

end RitCoin.Lib
