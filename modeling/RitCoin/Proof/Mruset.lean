import RitCoin.Model.Mruset

namespace RitCoin.Proof
open Model Std

variable {α : Type} [Ord α] [TransOrd α]

structure Sound (m : Mruset α) : Prop where
  nodup : m.queue.Nodup
  subset : ∀ x ∈ m.queue, m.count x = true

theorem insert_cases (m : Mruset α) (x : α) :
    m.count x = true ∧ (m.insert x).1 = m ∨
    m.count x = false ∧
      ((m.insert x).1 = ⟨m.set.insert x, m.queue ++ [x], m.nMaxSize⟩ ∨
        ∃ front rest, m.queue = front :: rest ∧
          (m.insert x).1 = ⟨(m.set.insert x).erase front, rest ++ [x], m.nMaxSize⟩) := by
  obtain ⟨set, queue, nMaxSize⟩ := m
  unfold Mruset.insert Mruset.count
  by_cases old : set.contains x = true
  · exact .inl ⟨old, by rw [if_pos old]⟩
  · refine .inr ⟨Bool.eq_false_iff.mpr old, ?_⟩
    rw [if_neg old]
    cases queue with
    | nil => exact .inl rfl
    | cons front rest =>
      simp only
      split_ifs
      · exact .inr ⟨front, rest, rfl, rfl⟩
      · exact .inl rfl

variable [LawfulEqOrd α] {m : Mruset α}

theorem count_insert {x y : α} (known : (m.insert x).1.count y = true) : y = x ∨ m.count y = true := by
  rcases insert_cases m x with ⟨_, same⟩ | ⟨_, added | ⟨front, rest, _, added⟩⟩
  · rw [same] at known
    exact .inr known
  · rw [added] at known
    simp only [Mruset.count, ExtTreeSet.contains_insert, Bool.or_eq_true, beq_iff_eq,
      Std.compare_eq_iff_eq] at known
    exact known.imp_left Eq.symm
  · rw [added] at known
    simp only [Mruset.count, ExtTreeSet.contains_erase, ExtTreeSet.contains_insert, Bool.and_eq_true,
      Bool.or_eq_true, beq_iff_eq, Std.compare_eq_iff_eq] at known
    exact known.2.imp_left Eq.symm

theorem Sound.insert (sound : Sound m) (x : α) :
    Sound (m.insert x).1 ∧ (m.insert x).1.count x = true := by
  rcases insert_cases m x with ⟨old, same⟩ | ⟨new, cases⟩
  · rw [same]
    exact ⟨sound, old⟩
  have absent : x ∉ m.queue := fun inQueue => by
    rw [sound.subset x inQueue] at new
    cases new
  rcases cases with added | ⟨front, rest, queue, added⟩
  · rw [added]
    refine ⟨⟨?_, ?_⟩, ExtTreeSet.contains_insert_self⟩
    · exact List.nodup_append.mpr ⟨sound.nodup, List.nodup_singleton x, fun a inQueue b isX => by
        rw [List.mem_singleton.mp isX]
        exact fun same => absent (same ▸ inQueue)⟩
    · intro y member
      simp only [Mruset.count, ExtTreeSet.contains_insert, Bool.or_eq_true, beq_iff_eq,
        Std.compare_eq_iff_eq]
      rcases List.mem_append.mp member with old | isX
      · exact .inr (sound.subset y old)
      · exact .inl (List.mem_singleton.mp isX).symm
  · rw [added]
    have nodup := sound.nodup
    have subset := sound.subset
    rw [queue] at nodup subset absent
    rw [List.nodup_cons] at nodup
    rw [List.mem_cons, not_or] at absent
    have kept {y : α} (ne : front ≠ y) (member : x = y ∨ m.set.contains y = true) :
        ((m.set.insert x).erase front).contains y = true := by
      simpa [ExtTreeSet.contains_erase, ExtTreeSet.contains_insert, ne] using member
    refine ⟨⟨?_, ?_⟩, kept (Ne.symm absent.1) (.inl rfl)⟩
    · exact List.nodup_append.mpr ⟨nodup.2, List.nodup_singleton x, fun a inRest b isX => by
        rw [List.mem_singleton.mp isX]
        exact fun same => absent.2 (same ▸ inRest)⟩
    · intro y member
      rcases List.mem_append.mp member with old | isX
      · exact kept (fun same => nodup.1 (same ▸ old)) (.inr (subset y (List.mem_cons_of_mem _ old)))
      · rw [List.mem_singleton.mp isX]
        exact kept (Ne.symm absent.1) (.inl rfl)


structure Mirrored (m : Mruset α) : Prop where
  nodup : m.queue.Nodup
  count_iff : ∀ x, m.count x = true ↔ x ∈ m.queue
  size : m.set.size = m.queue.length
  limited : m.nMaxSize ≠ 0 → m.queue.length ≤ m.nMaxSize

omit [LawfulEqOrd α] in
theorem mirrored_empty (nMaxSizeIn : ℕ) : Mirrored (Mruset.empty nMaxSizeIn : Mruset α) where
  nodup := List.nodup_nil
  count_iff x := by simp [Mruset.empty, Mruset.count]
  size := rfl
  limited _ := Nat.zero_le _

theorem erase_front {set : ExtTreeSet α} {front : α} {rest : List α} (nodup : (front :: rest).Nodup)
    (same : ∀ x, set.contains x = true ↔ x ∈ front :: rest) (size : set.size = (front :: rest).length) :
    rest.Nodup ∧ (∀ x, (set.erase front).contains x = true ↔ x ∈ rest) ∧ (set.erase front).size = rest.length := by
  rw [List.nodup_cons] at nodup
  refine ⟨nodup.2, fun x => ?_, ?_⟩
  · rw [ExtTreeSet.contains_erase, Bool.and_eq_true, same, List.mem_cons]
    constructor
    · rintro ⟨other, rfl | member⟩
      · simp at other
      · exact member
    · intro member
      refine ⟨?_, .inr member⟩
      have other : front ≠ x := fun here => nodup.1 (here ▸ member)
      simpa using other
  · have inside : set.contains front = true := (same front).mpr List.mem_cons_self
    rw [ExtTreeSet.size_erase, if_pos inside, size, List.length_cons, Nat.add_sub_cancel]

theorem evict_spec (s : ℕ) : ∀ (queue : List α) (set : ExtTreeSet α), queue.Nodup →
    (∀ x, set.contains x = true ↔ x ∈ queue) → set.size = queue.length →
    ∃ gone, queue = gone ++ (Mruset.evict s set queue).2 ∧ (Mruset.evict s set queue).2.Nodup ∧
      (∀ x, (Mruset.evict s set queue).1.contains x = true ↔ x ∈ (Mruset.evict s set queue).2) ∧
      (Mruset.evict s set queue).1.size = (Mruset.evict s set queue).2.length ∧
      (Mruset.evict s set queue).2.length ≤ s := by
  intro queue
  induction queue with
  | nil => exact fun set nodup same size => ⟨[], rfl, nodup, same, size, Nat.zero_le _⟩
  | cons front rest ih =>
    intro set nodup same size
    rw [Mruset.evict]
    split_ifs with full
    · obtain ⟨nodup', same', size'⟩ := erase_front nodup same size
      obtain ⟨gone, split, kept⟩ := ih (set.erase front) nodup' same' size'
      exact ⟨front :: gone, congrArg (List.cons front) split, kept⟩
    · refine ⟨[], rfl, nodup, same, size, ?_⟩
      rw [List.length_cons]
      omega

theorem insert_back {set : ExtTreeSet α} {queue : List α} {x : α} (nodup : queue.Nodup)
    (same : ∀ y, set.contains y = true ↔ y ∈ queue) (size : set.size = queue.length) (new : x ∉ queue) :
    (queue ++ [x]).Nodup ∧ (∀ y, (set.insert x).contains y = true ↔ y ∈ queue ++ [x]) ∧
      (set.insert x).size = (queue ++ [x]).length := by
  refine ⟨?_, fun y => ?_, ?_⟩
  · refine List.nodup_append.mpr ⟨nodup, List.nodup_singleton x, fun a inQueue b isX => ?_⟩
    rw [List.mem_singleton.mp isX]
    exact fun here => new (here ▸ inQueue)
  · rw [ExtTreeSet.contains_insert, Bool.or_eq_true, same, beq_iff_eq, Std.compare_eq_iff_eq, List.mem_append,
      List.mem_singleton, or_comm, eq_comm]
  · have absent : ¬ set.contains x = true := fun member => new ((same x).mp member)
    rw [ExtTreeSet.size_insert, if_neg absent, size, List.length_append, List.length_singleton]

theorem contains_erase_insert {set : ExtTreeSet α} {front x : α} (other : front ≠ x) (y : α) :
    ((set.insert x).erase front).contains y = ((set.erase front).insert x).contains y := by
  rw [Bool.eq_iff_iff]
  simp only [ExtTreeSet.contains_erase, ExtTreeSet.contains_insert, Bool.and_eq_true, Bool.or_eq_true, beq_iff_eq,
    bne_iff_ne, ne_eq, Std.compare_eq_iff_eq]
  constructor
  · rintro ⟨away, isX | member⟩
    · exact .inl isX
    · exact .inr ⟨away, member⟩
  · rintro (rfl | ⟨away, member⟩)
    · exact ⟨other, .inl rfl⟩
    · exact ⟨away, .inr member⟩

def appended (m : Mruset α) : Mruset.Call α → List α
  | .insert x => if m.count x then [] else [x]
  | .maxSize _ => []

theorem Mirrored.maxSize {m : Mruset α} (mirrored : Mirrored m) (s : ℕ) :
    Mirrored (m.maxSize s) ∧ ∃ gone, m.queue = gone ++ (m.maxSize s).queue := by
  rw [Mruset.maxSize]
  split_ifs with zero
  · exact ⟨{ mirrored with limited := fun positive => absurd zero positive }, [], rfl⟩
  · obtain ⟨gone, split, nodup, same, size, room⟩ := evict_spec s m.queue m.set mirrored.nodup
      mirrored.count_iff mirrored.size
    exact ⟨⟨nodup, same, size, fun _ => room⟩, gone, split⟩

theorem Mirrored.insert {m : Mruset α} (mirrored : Mirrored m) (x : α) :
    Mirrored (m.insert x).1 ∧ ∃ gone kept, m.queue = gone ++ kept ∧
      (m.insert x).1.queue = kept ++ (if m.count x then [] else [x]) := by
  obtain ⟨set, queue, nMaxSize⟩ := m
  obtain ⟨nodup, same, size, limited⟩ := mirrored
  by_cases old : set.contains x = true
  · have isSame : (Mruset.insert ⟨set, queue, nMaxSize⟩ x).1 = ⟨set, queue, nMaxSize⟩ := by
      rw [Mruset.insert, if_pos old]
    rw [isSame, Mruset.count, if_pos old]
    exact ⟨⟨nodup, same, size, limited⟩, [], queue, rfl, (List.append_nil queue).symm⟩
  · have new : x ∉ queue := fun member => old ((same x).mpr member)
    rw [Mruset.count, if_neg old]
    cases queue with
    | nil =>
      have grown : (Mruset.insert ⟨set, [], nMaxSize⟩ x).1 = ⟨set.insert x, [x], nMaxSize⟩ := by
        rw [Mruset.insert, if_neg old]
      obtain ⟨nodup', same', size'⟩ := insert_back nodup same size new
      rw [grown]
      exact ⟨⟨nodup', same', size', fun positive => Nat.one_le_iff_ne_zero.mpr positive⟩, [], [], rfl, rfl⟩
    | cons front rest =>
      by_cases full : nMaxSize ≠ 0 ∧ (front :: rest).length = nMaxSize
      · have moved : (Mruset.insert ⟨set, front :: rest, nMaxSize⟩ x).1 =
            ⟨(set.insert x).erase front, rest ++ [x], nMaxSize⟩ := by
          rw [Mruset.insert, if_neg old]
          simp only [if_pos full]
        obtain ⟨nodup₁, same₁, size₁⟩ := erase_front nodup same size
        have new₁ : x ∉ rest := fun member => new (List.mem_cons_of_mem _ member)
        have other : front ≠ x := fun here => new (here ▸ List.mem_cons_self)
        obtain ⟨nodup', same', -⟩ := insert_back nodup₁ same₁ size₁ new₁
        rw [moved]
        refine ⟨⟨nodup', fun y => ?_, ?_, fun _ => ?_⟩, [front], rest, rfl, rfl⟩
        · exact (Bool.eq_iff_iff.mp (contains_erase_insert other y)).trans (same' y)
        · have held : set.contains front = true := (same front).mpr List.mem_cons_self
          have inside : (set.insert x).contains front = true := by
            rw [ExtTreeSet.contains_insert, held, Bool.or_true]
          have absent : ¬ set.contains x = true := old
          rw [ExtTreeSet.size_erase, if_pos inside, ExtTreeSet.size_insert, if_neg absent, size]
          simp
        · have := full.2
          simp only [List.length_append, List.length_cons, List.length_nil] at this ⊢
          omega
      · have grown : (Mruset.insert ⟨set, front :: rest, nMaxSize⟩ x).1 =
            ⟨set.insert x, front :: rest ++ [x], nMaxSize⟩ := by
          rw [Mruset.insert, if_neg old]
          simp only [if_neg full]
        obtain ⟨nodup', same', size'⟩ := insert_back nodup same size new
        rw [grown]
        refine ⟨⟨nodup', same', size', fun positive => ?_⟩, [], front :: rest, rfl, rfl⟩
        have bound := limited positive
        have notFull : (front :: rest).length ≠ nMaxSize := fun is => full ⟨positive, is⟩
        rw [List.length_append, List.length_singleton]
        exact Nat.lt_of_le_of_ne bound notFull

theorem Mirrored.call {m : Mruset α} (mirrored : Mirrored m) (c : Mruset.Call α) :
    Mirrored (m.call c) ∧ ∃ gone kept, m.queue = gone ++ kept ∧ (m.call c).queue = kept ++ appended m c := by
  cases c with
  | insert x => exact mirrored.insert x
  | maxSize s =>
    obtain ⟨after, gone, split⟩ := mirrored.maxSize s
    exact ⟨after, gone, _, split, (List.append_nil _).symm⟩

def NewAt (nMaxSizeIn : ℕ) (calls : List (Mruset.Call α)) (i : ℕ) (x : α) : Prop :=
  calls[i]? = some (.insert x) ∧ (Mruset.run nMaxSizeIn (calls.take i)).count x = false

omit [LawfulEqOrd α] in
theorem mruset_run_append (nMaxSizeIn : ℕ) (calls : List (Mruset.Call α)) (c : Mruset.Call α) :
    Mruset.run nMaxSizeIn (calls ++ [c]) = (Mruset.run nMaxSizeIn calls).call c := by
  rw [Mruset.run, List.foldl_append]
  rfl

omit [LawfulEqOrd α] in
theorem newAt_append {nMaxSizeIn : ℕ} {calls : List (Mruset.Call α)} {c : Mruset.Call α} {i : ℕ} {x : α} :
    NewAt nMaxSizeIn (calls ++ [c]) i x ↔
      NewAt nMaxSizeIn calls i x ∨ i = calls.length ∧ x ∈ appended (Mruset.run nMaxSizeIn calls) c := by
  rcases Nat.lt_trichotomy i calls.length with before | rfl | after
  · have old : ¬ i = calls.length := before.ne
    rw [NewAt, NewAt, List.getElem?_append_left before, List.take_append_of_le_length before.le]
    simp only [old, false_and, or_false]
  · rw [NewAt, NewAt, List.getElem?_append_right le_rfl, Nat.sub_self, List.take_left,
      List.getElem?_eq_none (Nat.le_refl calls.length)]
    cases c with
    | insert y =>
      simp only [List.getElem?_cons_zero, Option.some.injEq, Mruset.Call.insert.injEq, reduceCtorEq, false_and,
        false_or, true_and, appended]
      by_cases known : (Mruset.run nMaxSizeIn calls).count y = true
      · rw [if_pos known]
        constructor
        · rintro ⟨rfl, new⟩
          exact absurd (known.symm.trans new) nofun
        · exact fun member => absurd member List.not_mem_nil
      · rw [if_neg known, List.mem_singleton]
        constructor
        · exact fun new => new.1.symm
        · rintro rfl
          exact ⟨rfl, Bool.eq_false_of_not_eq_true known⟩
    | maxSize s => simp [appended]
  · have past : (calls ++ [c]).length ≤ i := by simpa using after
    have old : ¬ i = calls.length := after.ne'
    rw [NewAt, NewAt, List.getElem?_eq_none after.le, List.getElem?_eq_none past]
    simp only [old, reduceCtorEq, false_and, or_false]

theorem run_history (nMaxSizeIn : ℕ) (calls : List (Mruset.Call α)) :
    Mirrored (Mruset.run nMaxSizeIn calls) ∧ ∃ gone kept : List (ℕ × α),
      (gone ++ kept).Pairwise (fun a b => a.1 < b.1) ∧
      (∀ i x, (i, x) ∈ gone ++ kept ↔ NewAt nMaxSizeIn calls i x) ∧
      kept.map Prod.snd = (Mruset.run nMaxSizeIn calls).queue := by
  induction calls using List.reverseRecOn with
  | nil =>
    refine ⟨mirrored_empty nMaxSizeIn, [], [], .nil, fun i x => ?_, rfl⟩
    simp [NewAt]
  | append_singleton calls c ih =>
    obtain ⟨mirrored, gone, kept, ordered, listed, queue⟩ := ih
    obtain ⟨after, dropped, rest, split, queue'⟩ := mirrored.call c
    rw [mruset_run_append]
    -- the elements that the call drops go over from the queue to those that are gone
    rw [← queue, List.map_eq_append_iff] at split
    obtain ⟨lost, left, rfl, rfl, rfl⟩ := split
    let fresh := (appended (Mruset.run nMaxSizeIn calls) c).map fun x => (calls.length, x)
    have regroup : gone ++ lost ++ (left ++ fresh) = gone ++ (lost ++ left) ++ fresh := by
      simp only [List.append_assoc]
    refine ⟨after, gone ++ lost, left ++ fresh, ?_, ?_, ?_⟩
    · rw [regroup, List.pairwise_append]
      refine ⟨ordered, ?_, ?_⟩
      · cases c with
        | insert x =>
          simp only [fresh, appended]
          split_ifs
          · exact .nil
          · exact List.pairwise_singleton _ _
        | maxSize s => exact .nil
      · intro earlier member later isFresh
        obtain ⟨x, -, rfl⟩ := List.mem_map.mp isFresh
        exact (List.getElem?_eq_some_iff.mp ((listed earlier.1 earlier.2).mp member).1).1
    · intro i x
      rw [regroup, List.mem_append, listed, newAt_append]
      simp [fresh, and_comm, eq_comm]
    · rw [List.map_append, queue', List.map_map]
      simp

/-- In every run the set has the elements of the queue, within the limit, and what is there was new later than
anything that is gone. -/
theorem mruset_keepsRecent (nMaxSizeIn : ℕ) (calls : List (Mruset.Call α)) :
    let m := Mruset.run nMaxSizeIn calls
    (∀ x, m.count x = true ↔ x ∈ m.queue) ∧ m.queue.Nodup ∧ (m.nMaxSize ≠ 0 → m.set.size ≤ m.nMaxSize) ∧
    ∀ x y i j, m.count x = true → m.count y = false →
      NewAt nMaxSizeIn calls i x → (∀ k, NewAt nMaxSizeIn calls k x → k ≤ i) →
      NewAt nMaxSizeIn calls j y → j < i := by
  intro m
  obtain ⟨mirrored, gone, kept, ordered, listed, queue⟩ := run_history nMaxSizeIn calls
  refine ⟨mirrored.count_iff, mirrored.nodup, fun positive => ?_, ?_⟩
  · rw [mirrored.size]
    exact mirrored.limited positive
  · intro x y i j present absent _ last newY
    obtain ⟨⟨k, x'⟩, inKept, rfl⟩ := List.mem_map.mp (queue ▸ (mirrored.count_iff x).mp present)
    have inGone : (j, y) ∈ gone := by
      rcases List.mem_append.mp ((listed j y).mpr newY) with here | here
      · exact here
      · have inQueue : y ∈ m.queue := queue ▸ List.mem_map_of_mem here
        exact absurd (((mirrored.count_iff y).mpr inQueue).symm.trans absent) nofun
    have earlier : j < k := (List.pairwise_append.mp ordered).2.2 _ inGone _ inKept
    have newX : NewAt nMaxSizeIn calls k x' := (listed k x').mp (List.mem_append_right _ inKept)
    exact earlier.trans_le (last k newX)

theorem mruset_keepsRecent_second :
    let calls : List (Mruset.Call ℕ) := [.insert 5, .insert 6]
    (Mruset.run 1 calls).count 6 = true ∧ (Mruset.run 1 calls).count 5 = false ∧
    (Mruset.run 1 calls).set.size ≤ (Mruset.run 1 calls).nMaxSize ∧ 0 < 1 := by
  intro calls
  have second : (Mruset.run 1 calls).count 6 = true := by decide +kernel
  have first : (Mruset.run 1 calls).count 5 = false := by decide +kernel
  obtain ⟨-, -, limited, order⟩ := mruset_keepsRecent 1 calls
  refine ⟨second, first, limited (by decide), order 6 5 1 0 second first ?_ ?_ ?_⟩
  · exact ⟨rfl, by decide +kernel⟩
  · intro k new
    have inside := (List.getElem?_eq_some_iff.mp new.1).1
    exact Nat.le_of_lt_succ inside
  · exact ⟨rfl, by decide +kernel⟩

end RitCoin.Proof
