import Mathlib.Data.List.Nodup
import Std.Data.ExtTreeMap.Lemmas

/-!
# Maps of maps

A map whose values are maps, used through an indexing operation that makes an empty value where there is none.
-/

namespace RitCoin.Lib
open Std

abbrev Buckets (K H V : Type) [Ord K] [TransOrd K] [Ord H] [TransOrd H] :=
  ExtTreeMap K (ExtTreeMap H V)

namespace Buckets
variable {K H V : Type} [Ord K] [TransOrd K] [Ord H] [TransOrd H] {b : Buckets K H V} {k k' : K} {h h' : H}
  {v : V}

def bucket (b : Buckets K H V) (k : K) : ExtTreeMap H V := b[k]?.getD ∅

/-- Looking at a key makes a bucket for it. -/
def touch (b : Buckets K H V) (k : K) : Buckets K H V := b.insert k (b.bucket k)

/-- An entry that is already there stays. -/
def put (b : Buckets K H V) (k : K) (h : H) (v : V) : Buckets K H V :=
  b.insert k ((b.bucket k).insertIfNew h v)

/-- The bucket goes with its last entry. -/
def drop (b : Buckets K H V) (k : K) (h : H) : Buckets K H V :=
  if ((b.bucket k).erase h).isEmpty then b.erase k else b.insert k ((b.bucket k).erase h)

def Full (b : Buckets K H V) : Prop := ∀ (k : K) (values : ExtTreeMap H V), b[k]? = some values → values ≠ ∅

variable [LawfulEqOrd K] [DecidableEq K]

theorem bucket_insert {values : ExtTreeMap H V} :
    bucket (b.insert k values) k' = if k = k' then values else b.bucket k' := by
  rw [bucket, ExtTreeMap.getElem?_insert]
  simp only [Std.compare_eq_iff_eq]
  split_ifs <;> rfl

@[simp] theorem bucket_touch : (b.touch k).bucket k' = b.bucket k' := by
  rw [touch, bucket_insert]
  split_ifs with same
  · rw [same]
  · rfl

theorem bucket_put : (b.put k h v).bucket k' = if k = k' then (b.bucket k').insertIfNew h v else b.bucket k' := by
  rw [put, bucket_insert]
  split_ifs with same
  · rw [same]
  · rfl

theorem bucket_drop : (b.drop k h).bucket k' = if k = k' then (b.bucket k').erase h else b.bucket k' := by
  rw [drop]
  split_ifs with last same same
  · subst same
    rw [bucket, ExtTreeMap.getElem?_erase_self, ExtTreeMap.isEmpty_iff.mp last]
    rfl
  · rw [bucket, ExtTreeMap.getElem?_erase, if_neg (by rwa [Std.compare_eq_iff_eq])]
    rfl
  · rw [bucket_insert, if_pos same, same]
  · rw [bucket_insert, if_neg same]

omit [LawfulEqOrd K] [DecidableEq K] in
theorem Full.empty : Full (∅ : Buckets K H V) := by
  intro k values found
  rw [ExtTreeMap.getElem?_empty] at found
  cases found

omit [LawfulEqOrd K] [DecidableEq K] in
theorem Full.insert {values : ExtTreeMap H V} (full : b.Full) (some : values ≠ ∅) : Full (b.insert k values) := by
  intro k' values' found
  rw [ExtTreeMap.getElem?_insert] at found
  split_ifs at found
  · cases found
    exact some
  · exact full k' values' found

omit [LawfulEqOrd K] [DecidableEq K] in
theorem Full.put (full : b.Full) : (b.put k h v).Full :=
  full.insert (by simp)

omit [LawfulEqOrd K] [DecidableEq K] in
theorem Full.drop (full : b.Full) : (b.drop k h).Full := by
  rw [Buckets.drop]
  split_ifs with last
  · intro k' values found
    rw [ExtTreeMap.getElem?_erase] at found
    split_ifs at found
    exact full k' values found
  · exact full.insert fun none => last (ExtTreeMap.isEmpty_iff.mpr none)

theorem ne_empty_iff {values : ExtTreeMap H V} :
    values ≠ ∅ ↔ ∃ (key : H) (value : V), values[key]? = some value := by
  rw [Ne, ExtTreeMap.eq_empty_iff_forall_not_mem]
  simp only [not_forall, not_not, ExtTreeMap.mem_iff_isSome_getElem?, Option.isSome_iff_exists]

section Entries
variable [LawfulEqOrd H] [DecidableEq H] {w : V}

theorem getElem?_put : ((b.put k h v).bucket k')[h']? =
    (b.bucket k')[h']?.or (if k = k' ∧ h = h' then some v else none) := by
  rw [bucket_put]
  by_cases same : k = k'
  · rw [if_pos same, ExtTreeMap.getElem?_insertIfNew]
    by_cases place : h = h'
    · subst place
      cases found : (b.bucket k')[h]? with
      | none => simp [same, ExtTreeMap.mem_iff_isSome_getElem?, found]
      | some w => simp [ExtTreeMap.mem_iff_isSome_getElem?, found]
    · simp [place]
  · simp [same]

theorem getElem?_drop_eq_some : ((b.drop k h).bucket k')[h']? = some w ↔
    (b.bucket k')[h']? = some w ∧ ¬ (k = k' ∧ h = h') := by
  rw [bucket_drop]
  by_cases same : k = k'
  · rw [if_pos same, ExtTreeMap.getElem?_erase]
    by_cases place : h = h' <;> simp [same, place]
  · simp [same]

theorem getElem?_foldl_put (keys : List K) (b : Buckets K H V) :
    ((keys.foldl (fun b k => b.put k h v) b).bucket k')[h']? =
      (b.bucket k')[h']?.or (if k' ∈ keys ∧ h = h' then some v else none) := by
  induction keys generalizing b with
  | nil => simp
  | cons k keys ih =>
    rw [List.foldl_cons, ih, getElem?_put, Option.or_assoc]
    congr 1
    by_cases first : k = k' ∧ h = h'
    · have listed : k' ∈ k :: keys ∧ h = h' := ⟨first.1 ▸ List.mem_cons_self, first.2⟩
      rw [if_pos first, if_pos listed, Option.some_or]
    · rw [if_neg first, Option.none_or]
      refine if_congr ⟨?_, ?_⟩ rfl rfl
      · rintro ⟨member, place⟩
        exact ⟨List.mem_cons_of_mem _ member, place⟩
      · rintro ⟨member, place⟩
        exact ⟨(List.mem_cons.mp member).resolve_left fun same => first ⟨same.symm, place⟩, place⟩

theorem getElem?_foldl_drop_eq_some (keys : List K) (b : Buckets K H V) :
    ((keys.foldl (fun b k => b.drop k h) b).bucket k')[h']? = some w ↔
      (b.bucket k')[h']? = some w ∧ ¬ (k' ∈ keys ∧ h = h') := by
  induction keys generalizing b with
  | nil => simp
  | cons k keys ih =>
    rw [List.foldl_cons, ih, getElem?_drop_eq_some, List.mem_cons]
    grind

end Entries

end Buckets

end RitCoin.Lib
