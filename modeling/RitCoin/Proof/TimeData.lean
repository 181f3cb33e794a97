import RitCoin.Model.TimeData

/-!
# How far peers can move the clock

`AddTimeData` takes over a median of less than 70 minutes. `abs64` of the smallest number is that number
itself, so the smallest number is taken over as well.
-/

namespace RitCoin.Proof
open Lib Model Std
variable {filter : CMedianFilter Int64} {values : List Int64} {calls : List TimeData.Call} {data : TimeData}

theorem getElem?_eq_least_iff {m : Int64} : ∀ {l : List Int64} {i : ℕ}, l.Pairwise (· ≤ ·) →
    (∀ x ∈ l, m ≤ x) → (l[i]? = some m ↔ i < l.count m) := by
  intro l
  induction l with
  | nil => simp
  | cons a l ih =>
    intro i sorted least
    rw [List.pairwise_cons] at sorted
    rw [List.forall_mem_cons] at least
    by_cases same : a = m
    · subst same
      cases i with
      | zero => simp
      | succ i =>
        rw [List.getElem?_cons_succ, ih sorted.2 least.2, List.count_cons_self]
        omega
    · have absent : m ∉ a :: l := by
        intro member
        rcases List.mem_cons.mp member with rfl | member
        · exact same rfl
        · exact same (Int64.le_antisymm (sorted.1 m member) least.1)
      rw [List.count_eq_zero_of_not_mem absent]
      simp only [Nat.not_lt_zero, iff_false]
      exact fun here => absent (List.mem_of_getElem? here)

theorem abs64_lt_iff (n : Int64) : abs64 n < 70 * 60 ↔ n = Int64.minValue ∨ |n.toInt| < 70 * 60 := by
  have limit : (70 * 60 : Int64).toInt = 70 * 60 := by decide
  have zero : (0 : Int64).toInt = 0 := by decide
  have low := n.minValue_le_toInt
  rw [Int64.toInt_minValue] at low
  by_cases least : n = Int64.minValue
  · subst least
    exact iff_of_true (by decide) (.inl rfl)
  · have above : n.toInt ≠ -2 ^ 63 := fun same => least (Int64.toInt.inj (same.trans Int64.toInt_minValue.symm))
    rw [or_iff_right least, abs64, Int64.lt_iff_toInt_lt, limit, abs_lt]
    split_ifs with positive
    · rw [ge_iff_le, Int64.le_iff_toInt_le, zero] at positive
      omega
    · have negative := Int64.lt_iff_toInt_lt.mp (Int64.not_le.mp positive)
      have high := n.toInt_le
      rw [Int64.toInt_neg, Int.bmod_eq_of_le (by omega) (by omega)]
      omega

def heard : List CNetAddr → List TimeData.Call → List Int64
  | _, [] => []
  | seen, call :: rest =>
    if call.ip ∈ seen then heard seen rest else (call.nTime - call.now) :: heard (call.ip :: seen) rest

def samples (calls : List TimeData.Call) : List Int64 := 0 :: heard [] calls

/-- More than half of an odd number of samples are the smallest number. From 200 samples on the number
in the filter is even. -/
def Deceived (calls : List TimeData.Call) : Prop :=
  5 ≤ (samples calls).length ∧ (samples calls).length < 200 ∧ (samples calls).length % 2 = 1 ∧
    (samples calls).length < 2 * (samples calls).count Int64.minValue

instance (calls : List TimeData.Call) : Decidable (Deceived calls) := by
  unfold Deceived
  infer_instance

def NearClock (data : TimeData) : Prop :=
  |data.nTimeOffset.toInt| < 70 * 60 ∧ ∀ now, |(getAdjustedTime data now - now).toInt| < 70 * 60

theorem heard_snoc (seen : List CNetAddr) (calls : List TimeData.Call) (call : TimeData.Call) :
    heard seen (calls ++ [call]) = heard seen calls ++
      if call.ip ∈ seen ∨ call.ip ∈ calls.map TimeData.Call.ip then [] else [call.nTime - call.now] := by
  induction calls generalizing seen with
  | nil => by_cases known : call.ip ∈ seen <;> simp [heard, known]
  | cons first calls ih =>
    rw [List.cons_append, heard, heard, ih, ih]
    grind

theorem nearClock_iff (data : TimeData) : NearClock data ↔ |data.nTimeOffset.toInt| < 70 * 60 := by
  refine ⟨And.left, fun near => ⟨near, fun now => ?_⟩⟩
  rwa [getAdjustedTime, Int64.add_comm, Int64.add_sub_cancel]

structure Sampled (calls : List TimeData.Call) (data : TimeData) : Prop where
  known : ∀ ip, ip ∈ data.setKnown ↔ ip ∈ calls.map TimeData.Call.ip
  nSize : data.vTimeOffsets.nSize = 200
  vValues : data.vTimeOffsets.vValues = (samples calls).drop ((samples calls).length - 200)
  near : (∀ k, ¬ Deceived (calls.take k)) → NearClock data
  deceived : Deceived calls → data.nTimeOffset = Int64.minValue

theorem median_ok (sorted : filter.vSorted = values.insertionSort (· ≤ ·)) (odd : values.length % 2 = 1) :
    ∃ nMedian, filter.median = .ok nMedian ∧
      (nMedian = Int64.minValue ↔ values.length < 2 * values.count Int64.minValue) := by
  have perm := List.perm_insertionSort (· ≤ ·) values
  have order := List.pairwise_insertionSort (· ≤ ·) values
  have length := perm.length_eq
  obtain ⟨nMedian, middle⟩ : ∃ nMedian, (values.insertionSort (· ≤ ·))[values.length / 2]? = some nMedian :=
    ⟨_, List.getElem?_eq_getElem (by omega)⟩
  refine ⟨nMedian, ?_, ?_⟩
  · rw [CMedianFilter.median, sorted, length, if_pos odd, middle]
    rfl
  · have place := getElem?_eq_least_iff (i := values.length / 2) order fun x _ => Int64.minValue_le x
    rw [middle, Option.some.injEq, perm.count_eq] at place
    rw [place]
    omega

theorem samples_snoc (calls : List TimeData.Call) (call : TimeData.Call) :
    samples (calls ++ [call]) = samples calls ++
      if call.ip ∈ calls.map TimeData.Call.ip then [] else [call.nTime - call.now] := by
  rw [samples, heard_snoc, samples, List.cons_append]
  simp

theorem forall_take_snoc {call : TimeData.Call} {P : List TimeData.Call → Prop}
    (all : ∀ k, P ((calls ++ [call]).take k)) : (∀ k, P (calls.take k)) ∧ P (calls ++ [call]) := by
  constructor
  · intro k
    have short := all (min k calls.length)
    rwa [List.take_append_of_le_length (Nat.min_le_right ..), ← List.take_take, List.take_length] at short
  · have whole := all (calls ++ [call]).length
    rwa [List.take_length] at whole

theorem input_vValues {given : List Int64} (nSize : filter.nSize = 200)
    (vValues : filter.vValues = given.drop (given.length - 200)) (value : Int64) :
    (filter.input value).vValues = (given ++ [value]).drop ((given ++ [value]).length - 200) := by
  have count : filter.vValues.length = min given.length 200 := by
    rw [vValues, List.length_drop, Nat.sub_sub_eq_min]
  rw [CMedianFilter.input, nSize, count, vValues, List.length_append, List.length_singleton,
    List.drop_append_of_le_length (by omega)]
  split_ifs with full
  · rw [List.drop_drop, show given.length + 1 - 200 = given.length - 200 + 1 by omega]
  · rw [show given.length + 1 - 200 = given.length - 200 by omega]

theorem Sampled.new : Sampled [] TimeData.new where
  known := by simp [TimeData.new]
  nSize := rfl
  vValues := rfl
  near := fun _ => (nearClock_iff _).mpr (by decide)
  deceived := fun deceived => absurd deceived.1 (by decide)

theorem update_ok (sorted : data.vTimeOffsets.vSorted = values.insertionSort (· ≤ ·))
    (odd : values.length % 2 = 1) :
    ∃ data', data.update = .ok data' ∧ data'.setKnown = data.setKnown ∧ data'.vTimeOffsets = data.vTimeOffsets ∧
      (values.length < 2 * values.count Int64.minValue → data'.nTimeOffset = Int64.minValue) ∧
      (¬ values.length < 2 * values.count Int64.minValue → NearClock data') := by
  obtain ⟨nMedian, median, least⟩ := median_ok sorted odd
  rw [TimeData.update, median, ok_bind]
  simp only [abs64_lt_iff, nearClock_iff, ← least]
  by_cases small : nMedian = Int64.minValue ∨ |nMedian.toInt| < 70 * 60
  · rw [if_pos small]
    exact ⟨_, rfl, rfl, rfl, id, fun other => small.resolve_left other⟩
  · rw [if_neg small]
    have other := (not_or.mp small).1
    have zero : |(0 : Int64).toInt| < 70 * 60 := by decide
    split_ifs
    all_goals exact ⟨_, rfl, rfl, rfl, fun same => absurd same other, fun _ => zero⟩

theorem Sampled.round (sampled : Sampled calls data) (call : TimeData.Call) :
    ∃ data', data.addTimeData call.ip call.nTime call.now = .ok data' ∧ Sampled (calls ++ [call]) data' := by
  have grown := samples_snoc calls call
  have member : ∀ ip, ip ∈ (calls ++ [call]).map TimeData.Call.ip ↔ ip ∈ data.setKnown ∨ ip = call.ip := by
    intro ip
    rw [List.map_append, List.mem_append, List.map_singleton, List.mem_singleton, sampled.known]
  rw [TimeData.addTimeData]
  by_cases known : call.ip ∈ data.setKnown
  · rw [if_pos ((sampled.known call.ip).mp known), List.append_nil] at grown
    refine ⟨data, if_pos known, fun ip => ?_, sampled.nSize, by rw [grown]; exact sampled.vValues,
      fun all => sampled.near (forall_take_snoc (P := fun l => ¬ Deceived l) all).1,
      fun deceived => sampled.deceived ?_⟩
    · rw [member]
      exact ⟨.inl, fun member => member.elim id (fun same => same ▸ known)⟩
    · rwa [Deceived, grown] at deceived
  · rw [if_neg ((sampled.known call.ip).not.mp known)] at grown
    have vValues := input_vValues sampled.nSize sampled.vValues (call.nTime - call.now)
    rw [← grown] at vValues
    have mem : ∀ ip, ip ∈ data.setKnown.insert call.ip ↔ ip ∈ (calls ++ [call]).map TimeData.Call.ip := by
      intro ip
      rw [member, ExtTreeSet.mem_insert, Std.LawfulEqCmp.compare_eq_iff_eq, or_comm, eq_comm]
    have size : (data.vTimeOffsets.input (call.nTime - call.now)).size = min (samples (calls ++ [call])).length 200 := by
      rw [CMedianFilter.size, vValues, List.length_drop, Nat.sub_sub_eq_min]
    simp only [if_neg known, size]
    by_cases odd : min (samples (calls ++ [call])).length 200 ≥ 5 ∧ min (samples (calls ++ [call])).length 200 % 2 = 1
    · rw [if_pos odd]
      have few : (samples (calls ++ [call])).length < 200 := by
        by_contra many
        rw [Nat.min_eq_right (Nat.not_lt.mp many)] at odd
        exact absurd odd.2 (by decide)
      rw [Nat.min_eq_left few.le] at odd
      let given := { data with
        setKnown := data.setKnown.insert call.ip
        vTimeOffsets := data.vTimeOffsets.input (call.nTime - call.now) }
      have sorted : given.vTimeOffsets.vSorted = _ := congrArg (List.insertionSort (· ≤ ·)) vValues
      rw [Nat.sub_eq_zero_of_le few.le, List.drop_zero] at sorted
      obtain ⟨data', update, setKnown, vTimeOffsets, most, least⟩ := update_ok sorted odd.2
      refine ⟨data', update, ?_, ?_, ?_, fun all => least fun majority => ?_, fun deceived => most deceived.2.2.2⟩
      · rw [setKnown]
        exact mem
      · rw [vTimeOffsets]
        exact sampled.nSize
      · rw [vTimeOffsets]
        exact vValues
      · exact (forall_take_snoc (P := fun l => ¬ Deceived l) all).2 ⟨odd.1, few, odd.2, majority⟩
    · rw [if_neg odd]
      refine ⟨_, rfl, mem, sampled.nSize, vValues, fun all => ?_, fun deceived => absurd ?_ odd⟩
      · exact (nearClock_iff _).mpr ((nearClock_iff _).mp
          (sampled.near (forall_take_snoc (P := fun l => ¬ Deceived l) all).1))
      · obtain ⟨few, many, parity, -⟩ := deceived
        omega

theorem Sampled.run (calls : List TimeData.Call) : ∃ data, TimeData.run calls = .ok data ∧ Sampled calls data := by
  induction calls using List.reverseRecOn with
  | nil => exact ⟨_, rfl, .new⟩
  | append_singleton calls call ih =>
    obtain ⟨data, ran, sampled⟩ := ih
    obtain ⟨data', round, sampled'⟩ := sampled.round call
    refine ⟨data', ?_, sampled'⟩
    rw [TimeData.run, List.foldlM_append]
    rw [TimeData.run] at ran
    rw [ran, ok_bind, List.foldlM_cons, round]
    rfl

/-- The offset stays within 70 minutes all the way exactly if there never is a majority of samples of the
smallest number. -/
theorem adjustedTime_near_iff (calls : List TimeData.Call) :
    (∀ k, ∃ data, TimeData.run (calls.take k) = .ok data ∧ NearClock data) ↔
      ∀ k, ¬ Deceived (calls.take k) := by
  constructor
  · intro near k deceived
    obtain ⟨data, ran, close⟩ := near k
    obtain ⟨data', ran', sampled⟩ := Sampled.run (calls.take k)
    obtain rfl := Except.ok.inj (ran.symm.trans ran')
    rw [nearClock_iff, sampled.deceived deceived] at close
    exact absurd close (by decide)
  · intro honest k
    obtain ⟨data, ran, sampled⟩ := Sampled.run (calls.take k)
    refine ⟨data, ran, sampled.near fun j => ?_⟩
    rw [List.take_take]
    exact honest (min j k)

def farCalls : List TimeData.Call :=
  [1, 2, 3, 4].map fun ip => { ip := ip, nTime := Int64.minValue, now := 0 }

/-- `abs64` is negative for the smallest number, so the check for a median of less than 70 minutes passes. -/
theorem farCalls_not_near :
    ∃ data, TimeData.run farCalls = .ok data ∧ data.nTimeOffset = Int64.minValue ∧ ¬ NearClock data := by
  obtain ⟨data, ran, sampled⟩ := Sampled.run farCalls
  have offset := sampled.deceived (by decide +kernel)
  refine ⟨data, ran, offset, ?_⟩
  rw [nearClock_iff, offset]
  decide

end RitCoin.Proof
