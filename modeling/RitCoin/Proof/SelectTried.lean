import RitCoin.Proof.AddrMan

namespace RitCoin.Proof
open Lib Model Std

def lastSuccess (am : CAddrMan) (nId : ℕ) : Int64 := ((entries am nId).map fun info => info.nLastSuccess).getD 0

def EvictsOldest (am : CAddrMan) (b : TriedBucket) (nPos : ℤ) : Prop :=
  0 ≤ nPos ∧ ∃ nId, (am.vvTried b)[nPos.toNat]? = some nId ∧
    ∀ other ∈ (am.vvTried b).take ADDRMAN_TRIED_ENTRIES_INSPECT_ON_EVICT,
      lastSuccess am nId ≤ lastSuccess am other

section Rounds
variable (age : ℕ → Int64) (rand : ℕ → ℕ)

def pick (choice : CAddrMan.Choice) (i nPos : ℕ) : CAddrMan.Choice :=
  let nTemp := choice.vTried.getD nPos 0
  let vTried := (choice.vTried.set nPos (choice.vTried.getD i 0)).set i nTemp
  match choice.nOldest with
  | none => ⟨vTried, some nTemp, nPos⟩
  | some nOldest => if age nTemp < age nOldest then ⟨vTried, some nTemp, nPos⟩ else { choice with vTried := vTried }

def oldestStep (choice : CAddrMan.Choice) (i : ℕ) : CAddrMan.Choice :=
  pick age choice i (getRandInt (rand i) (choice.vTried.length - i) + i)

def rounds (vTried : List ℕ) : CAddrMan.Choice :=
  (List.range (min ADDRMAN_TRIED_ENTRIES_INSPECT_ON_EVICT vTried.length)).foldl (oldestStep age rand) ⟨vTried, none, -1⟩

structure Chosen (vTried : List ℕ) (choice : CAddrMan.Choice) : Prop where
  perm : choice.vTried.Perm vTried
  place : ∀ nOldest, choice.nOldest = some nOldest →
    nOldest ∈ vTried ∧ 0 ≤ choice.nOldestPos ∧ choice.nOldestPos.toNat < vTried.length

variable {vTried : List ℕ} {choice : CAddrMan.Choice} {i : ℕ}

theorem drawn_lt {length : ℕ} (inside : i < length) : getRandInt (rand i) (length - i) + i < length := by
  have drawn : getRandInt (rand i) (length - i) < length - i := getRandInt_lt (Nat.sub_pos_of_lt inside)
  omega

theorem Chosen.step (chosen : Chosen vTried choice) (inside : i < vTried.length) :
    Chosen vTried (oldestStep age rand choice i) ∧ (oldestStep age rand choice i).nOldest ≠ none := by
  have length := chosen.perm.length_eq
  have bound := drawn_lt rand inside
  rw [← length] at inside bound
  rw [oldestStep]
  generalize getRandInt (rand i) (choice.vTried.length - i) + i = nPos at bound ⊢
  rw [pick]
  have moved : ((choice.vTried.set nPos (choice.vTried.getD i 0)).set i (choice.vTried.getD nPos 0)).Perm vTried := by
    rw [List.getD_eq_getElem _ _ inside, List.getD_eq_getElem _ _ bound]
    exact (List.set_set_perm bound inside).trans chosen.perm
  have member : choice.vTried.getD nPos 0 ∈ vTried := by
    rw [List.getD_eq_getElem _ _ bound]
    exact chosen.perm.mem_iff.mp (List.getElem_mem bound)
  have here : ∀ nOldest, some (choice.vTried.getD nPos 0) = some nOldest →
      nOldest ∈ vTried ∧ (0 : ℤ) ≤ nPos ∧ (nPos : ℤ).toNat < vTried.length :=
    fun _ it => ⟨Option.some.inj it ▸ member, by omega, by omega⟩
  cases oldest : choice.nOldest with
  | none => exact ⟨⟨moved, here⟩, nofun⟩
  | some nOldest =>
    simp only
    split_ifs
    · exact ⟨⟨moved, here⟩, nofun⟩
    · exact ⟨⟨moved, fun x it => chosen.place x (oldest.trans it)⟩, nofun⟩

theorem rounds_chosen (vTried : List ℕ) :
    Chosen vTried (rounds age rand vTried) ∧ (vTried ≠ [] → (rounds age rand vTried).nOldest ≠ none) := by
  have all := foldl_rel (oldestStep age rand)
    (List.range (min ADDRMAN_TRIED_ENTRIES_INSPECT_ON_EVICT vTried.length))
    (fun done choice => Chosen vTried choice ∧ (done ≠ [] → choice.nOldest ≠ none)) ⟨vTried, none, -1⟩
    ⟨⟨List.Perm.refl _, nofun⟩, fun nonempty => absurd rfl nonempty⟩ ?_
  · refine ⟨all.1, fun nonempty => all.2 ?_⟩
    rw [Ne, List.range_eq_nil]
    have positive := List.length_pos_of_ne_nil nonempty
    rw [ADDRMAN_TRIED_ENTRIES_INSPECT_ON_EVICT]
    omega
  · intro done i rest choice split ih
    have inside : i ∈ List.range (min ADDRMAN_TRIED_ENTRIES_INSPECT_ON_EVICT vTried.length) := by
      rw [split]
      simp
    obtain ⟨chosen, some⟩ := ih.1.step age rand (i := i) (by rw [List.mem_range] at inside; omega)
    exact ⟨chosen, fun _ => some⟩

variable {age rand}

theorem oldestStep_draw {nPos : ℕ} (above : i ≤ nPos) (inside : nPos < choice.vTried.length)
    (draw : rand i = nPos - i) : oldestStep age rand choice i = pick age choice i nPos := by
  rw [oldestStep, draw, getRandInt, if_neg (by omega), Nat.mod_eq_of_lt (by omega), Nat.sub_add_cancel above]

section
variable (oldest : ∃ nOldest, choice.nOldest = some nOldest ∧ ∀ x ∈ choice.vTried, age nOldest ≤ age x)
include oldest

theorem oldestStep_stay (zero : rand i = 0) (inside : i < choice.vTried.length) :
    oldestStep age rand choice i = choice := by
  obtain ⟨nOldest, found, least⟩ := oldest
  rw [oldestStep_draw le_rfl inside (by omega), pick, found, List.getD_eq_getElem _ _ inside]
  simp only [List.set_getElem_self]
  rw [if_neg (Int64.not_lt.mpr (least _ (List.getElem_mem inside))), ← found]

theorem rounds_stay {is : List ℕ} (zero : ∀ i ∈ is, rand i = 0) (inside : ∀ i ∈ is, i < choice.vTried.length) :
    is.foldl (oldestStep age rand) choice = choice := by
  induction is with
  | nil => rfl
  | cons i is ih =>
    rw [List.forall_mem_cons] at zero inside
    rw [List.foldl_cons, oldestStep_stay oldest zero.1 inside.1, ih zero.2 inside.2]

end

def Misplaced (age : ℕ → Int64) (choice : CAddrMan.Choice) : Prop :=
  ∃ x ∈ choice.vTried.take ADDRMAN_TRIED_ENTRIES_INSPECT_ON_EVICT, ∃ y,
    choice.vTried[choice.nOldestPos.toNat]? = some y ∧ age x < age y

theorem rounds_cons (age : ℕ → Int64) (rand : ℕ → ℕ) (a : ℕ) (w : List ℕ) :
    rounds age rand (a :: w) = ((List.range (min 3 w.length)).map Nat.succ).foldl (oldestStep age rand)
      (oldestStep age rand ⟨a :: w, none, -1⟩ 0) := by
  rw [rounds, ADDRMAN_TRIED_ENTRIES_INSPECT_ON_EVICT, List.length_cons,
    show min 4 (w.length + 1) = min 3 w.length + 1 by omega, List.range_succ_eq_map, List.foldl_cons]

theorem rounds_cons_cons (age : ℕ → Int64) (rand : ℕ → ℕ) (a b : ℕ) (w : List ℕ) :
    rounds age rand (a :: b :: w) = (((List.range (min 2 w.length)).map Nat.succ).map Nat.succ).foldl
      (oldestStep age rand) (oldestStep age rand (oldestStep age rand ⟨a :: b :: w, none, -1⟩ 0) 1) := by
  rw [rounds_cons, List.length_cons, show min 3 (w.length + 1) = min 2 w.length + 1 by omega,
    List.range_succ_eq_map, List.map_cons, List.foldl_cons]

theorem misplaced_first {a j m : ℕ} {w : List ℕ} (there : w[j]? = some m) (least : ∀ x ∈ a :: w, age m ≤ age x)
    (younger : age m < age a) : ∃ rand, Misplaced age (rounds age rand (a :: w)) := by
  obtain ⟨inside, entry⟩ := List.getElem?_eq_some_iff.mp there
  let rand : ℕ → ℕ := fun i => if i = 0 then j + 1 else 0
  have first : oldestStep age rand ⟨a :: w, none, -1⟩ 0 = ⟨m :: w.set j a, some m, j + 1⟩ := by
    refine (oldestStep_draw (Nat.zero_le (j + 1)) (by simpa using inside) rfl).trans ?_
    simp [pick, there]
  refine ⟨rand, ?_⟩
  rw [rounds_cons, first, rounds_stay]
  · exact ⟨m, by simp [ADDRMAN_TRIED_ENTRIES_INSPECT_ON_EVICT], a, by simp [inside], younger⟩
  · refine ⟨m, rfl, fun x member => ?_⟩
    rcases List.mem_cons.mp member with rfl | member
    · exact Int64.le_refl _
    · rcases List.mem_or_eq_of_mem_set member with member | rfl
      · exact least x (List.mem_cons_of_mem _ member)
      · exact least x List.mem_cons_self
  · intro i member
    simp only [List.mem_map] at member
    simp only [rand]
    grind
  · intro i member
    simp only [List.mem_map, List.mem_range] at member
    simp only [List.length_cons]
    grind

theorem misplaced_second {a b j y : ℕ} {w : List ℕ} (there : w[j]? = some y)
    (least : ∀ x ∈ a :: b :: w, age b ≤ age x) (younger : age b < age y) :
    ∃ rand, Misplaced age (rounds age rand (a :: b :: w)) := by
  obtain ⟨inside, entry⟩ := List.getElem?_eq_some_iff.mp there
  let rand : ℕ → ℕ := fun i => if i = 0 then 1 else if i = 1 then j + 1 else 0
  have first : oldestStep age rand ⟨a :: b :: w, none, -1⟩ 0 = ⟨b :: a :: w, some b, 1⟩ := by
    refine (oldestStep_draw (Nat.zero_le 1) (by simp) rfl).trans ?_
    simp [pick]
  have second : oldestStep age rand ⟨b :: a :: w, some b, 1⟩ 1 = ⟨b :: y :: w.set j a, some b, 1⟩ := by
    have older : ¬ age y < age b := Int64.not_lt.mpr (Int64.le_of_lt younger)
    refine (oldestStep_draw (show 1 ≤ j + 2 by omega) (by simpa using inside) rfl).trans ?_
    simp [pick, there, older]
  refine ⟨rand, ?_⟩
  rw [rounds_cons_cons, first, second, rounds_stay]
  · exact ⟨b, by simp [ADDRMAN_TRIED_ENTRIES_INSPECT_ON_EVICT], y, by simp, younger⟩
  · refine ⟨b, rfl, fun x member => ?_⟩
    rcases List.mem_cons.mp member with rfl | member
    · exact Int64.le_refl _
    · rcases List.mem_cons.mp member with rfl | member
      · exact Int64.le_of_lt younger
      · rcases List.mem_or_eq_of_mem_set member with member | rfl
        · exact least x (by simp [member])
        · exact least x List.mem_cons_self
  · intro i member
    simp only [List.mem_map] at member
    simp only [rand]
    grind
  · intro i member
    simp only [List.mem_map, List.mem_range] at member
    simp only [List.length_cons]
    grind

theorem misplaced_third {a b c : ℕ} {w : List ℕ} (least : ∀ x ∈ a :: b :: c :: w, age a ≤ age x)
    (younger : age a < age b) : ∃ rand, Misplaced age (rounds age rand (a :: b :: c :: w)) := by
  let rand : ℕ → ℕ := fun i => if i = 0 then 2 else if i = 1 then 1 else 0
  have first : oldestStep age rand ⟨a :: b :: c :: w, none, -1⟩ 0 = ⟨c :: b :: a :: w, some c, 2⟩ := by
    refine (oldestStep_draw (Nat.zero_le 2) (by simp) rfl).trans ?_
    simp [pick]
  obtain ⟨nOldest, second, oldest⟩ : ∃ nOldest, oldestStep age rand ⟨c :: b :: a :: w, some c, 2⟩ 1 =
      ⟨c :: a :: b :: w, some nOldest, 2⟩ ∧ age nOldest ≤ age a := by
    have step : oldestStep age rand ⟨c :: b :: a :: w, some c, 2⟩ 1 = pick age ⟨c :: b :: a :: w, some c, 2⟩ 1 2 :=
      oldestStep_draw (by omega) (by simp) rfl
    rw [step]
    by_cases older : age a < age c
    · exact ⟨a, by simp [pick, older], Int64.le_refl _⟩
    · exact ⟨c, by simp [pick, older], Int64.not_lt.mp older⟩
  refine ⟨rand, ?_⟩
  rw [rounds_cons_cons, first, second, rounds_stay]
  · exact ⟨a, by simp [ADDRMAN_TRIED_ENTRIES_INSPECT_ON_EVICT], b, by simp, younger⟩
  · refine ⟨nOldest, rfl, fun x member => Int64.le_trans oldest (least x ?_)⟩
    simp only [List.mem_cons] at member ⊢
    tauto
  · intro i member
    simp only [List.mem_map] at member
    simp only [rand]
    grind
  · intro i member
    simp only [List.mem_map, List.mem_range] at member
    simp only [List.length_cons]
    grind

def FairBucket (age : ℕ → Int64) (vTried : List ℕ) : Prop :=
  (vTried ≠ [] ∧ ∀ x ∈ vTried, ∀ y ∈ vTried, age x = age y) ∨ ∃ x y, vTried = [x, y] ∧ age x ≤ age y

theorem exists_misplaced {vTried : List ℕ} (nonempty : vTried ≠ []) (unfair : ¬ FairBucket age vTried) :
    ∃ rand, Misplaced age (rounds age rand vTried) := by
  rw [FairBucket, not_or] at unfair
  cases vTried with
  | nil => exact absurd rfl nonempty
  | cons a w =>
    by_cases first : ∀ x ∈ w, age a ≤ age x
    · have least : ∀ x ∈ a :: w, age a ≤ age x := List.forall_mem_cons.mpr ⟨Int64.le_refl _, first⟩
      obtain ⟨y, member, younger⟩ : ∃ y ∈ a :: w, age a < age y := by
        by_contra none
        have same : ∀ x ∈ a :: w, age x = age a := fun x member =>
          Int64.le_antisymm (Int64.not_lt.mp fun less => none ⟨x, member, less⟩) (least x member)
        exact unfair.1 ⟨nonempty, fun x hx y hy => (same x hx).trans (same y hy).symm⟩
      rcases w with - | ⟨b, - | ⟨c, w⟩⟩
      · rw [List.mem_singleton.mp member] at younger
        exact (Int64.lt_irrefl younger).elim
      · exact absurd ⟨a, b, rfl, first b List.mem_cons_self⟩ unfair.2
      · by_cases second : age a < age b
        · exact misplaced_third least second
        · have both : age b = age a := Int64.le_antisymm (Int64.not_lt.mp second) (first b List.mem_cons_self)
          rw [← both] at younger
          have later : y ∈ c :: w := by
            rcases List.mem_cons.mp member with rfl | member
            · rw [both] at younger
              exact (Int64.lt_irrefl younger).elim
            · rcases List.mem_cons.mp member with rfl | member
              · exact (Int64.lt_irrefl younger).elim
              · exact member
          obtain ⟨j, there⟩ := List.getElem?_of_mem later
          exact misplaced_second there (fun x it => both ▸ least x it) younger
    · obtain ⟨x, member, less⟩ : ∃ x ∈ w, age x < age a := by
        by_contra none
        exact first fun x member => Int64.not_lt.mp fun less => none ⟨x, member, less⟩
      obtain ⟨m, inW, least⟩ := w.toFinset.exists_min_image (fun x => (age x).toInt) ⟨x, by simpa using member⟩
      simp only [List.mem_toFinset] at inW least
      have younger : age m < age a := Int64.lt_of_le_of_lt (Int64.le_iff_toInt_le.mpr (least x member)) less
      obtain ⟨j, there⟩ := List.getElem?_of_mem inW
      refine misplaced_first there ?_ younger
      rw [List.forall_mem_cons]
      exact ⟨Int64.le_of_lt younger, fun z inside => Int64.le_iff_toInt_le.mpr (least z inside)⟩

theorem FairBucket.chosen (fair : FairBucket age vTried) (rand : ℕ → ℕ) :
    ∃ nId, (rounds age rand vTried).vTried[(rounds age rand vTried).nOldestPos.toNat]? = some nId ∧
      ∀ x ∈ vTried, age nId ≤ age x := by
  rcases fair with ⟨nonempty, same⟩ | ⟨x, y, rfl, older⟩
  · obtain ⟨chosen, some⟩ := rounds_chosen age rand vTried
    obtain ⟨nOldest, found⟩ := Option.ne_none_iff_exists'.mp (some nonempty)
    obtain ⟨-, -, inside⟩ := chosen.place nOldest found
    rw [← chosen.perm.length_eq] at inside
    have member := chosen.perm.mem_iff.mp (List.getElem_mem inside)
    exact ⟨_, List.getElem?_eq_getElem inside, fun x other => (same _ member x other) ▸ Int64.le_refl _⟩
  · have last : ∀ choice : CAddrMan.Choice, choice.vTried.length = 2 →
        oldestStep age rand choice 1 = pick age choice 1 1 := by
      intro choice length
      rw [oldestStep, length, getRandInt]
      simp [Nat.mod_one]
    have drawn : getRandInt (rand 0) 2 = 0 ∨ getRandInt (rand 0) 2 = 1 := by
      have bound : getRandInt (rand 0) 2 < 2 := getRandInt_lt (by omega)
      omega
    have two : rounds age rand [x, y] = oldestStep age rand (oldestStep age rand ⟨[x, y], none, -1⟩ 0) 1 :=
      rounds_cons_cons age rand x y []
    rw [two]
    rcases drawn with zero | one
    · have first : oldestStep age rand ⟨[x, y], none, -1⟩ 0 = ⟨[x, y], some x, 0⟩ := by
        simp [oldestStep, zero, pick]
      rw [first, last _ rfl]
      refine ⟨x, ?_, by simp [older]⟩
      simp [pick, Int64.not_lt.mpr older]
    · have first : oldestStep age rand ⟨[x, y], none, -1⟩ 0 = ⟨[y, x], some y, 1⟩ := by
        simp [oldestStep, one, pick]
      rw [first, last _ rfl]
      refine ⟨x, ?_, by simp [older]⟩
      by_cases strict : age x < age y <;> simp [pick, strict]

end Rounds

section Code
variable {am : CAddrMan} {b : TriedBucket} {rand : ℕ → ℕ}

theorem selectTriedRound_eq {vTried : List ℕ} (known : ∀ nId ∈ vTried, nId ∈ am.mapInfo)
    {choice : CAddrMan.Choice} (chosen : Chosen vTried choice) {i : ℕ} (inside : i < vTried.length) :
    am.selectTriedRound rand choice i = .ok (oldestStep (lastSuccess am) rand choice i) := by
  have length := chosen.perm.length_eq
  have bound := drawn_lt rand inside
  rw [← length] at inside bound
  rw [CAddrMan.selectTriedRound, oldestStep]
  generalize getRandInt (rand i) (choice.vTried.length - i) + i = nPos at bound ⊢
  have entry : ∀ nId ∈ vTried, ∃ info, entries am nId = some info ∧ lastSuccess am nId = info.nLastSuccess := by
    intro nId member
    obtain ⟨info, here⟩ := Option.isSome_iff_exists.mp (ExtTreeMap.isSome_getElem?_iff_mem.mpr (known nId member))
    exact ⟨info, here, by simp [lastSuccess, entries, here]⟩
  have member := chosen.perm.mem_iff.mp (List.getElem_mem bound)
  obtain ⟨info, here, age⟩ := entry _ member
  rw [pick, element_ok (List.getElem?_eq_getElem bound), ok_bind, element_ok (List.getElem?_eq_getElem inside), ok_bind,
    List.getD_eq_getElem _ _ bound, List.getD_eq_getElem _ _ inside]
  cases oldest : choice.nOldest with
  | none => rfl
  | some nOldest =>
    obtain ⟨infoOld, there, ageOld⟩ := entry _ (chosen.place nOldest oldest).1
    simp only [assert_ok (Or.inr (mem_mapInfo here)), ok_bind, info_ok here, info_ok there, age, ageOld]
    split_ifs <;> rfl

theorem selectTried_eq (known : ∀ nId ∈ am.vvTried b, nId ∈ am.mapInfo) (rand : ℕ → ℕ) :
    am.selectTried b rand =
      .ok (am.setTried b (rounds (lastSuccess am) rand (am.vvTried b)).vTried,
        (rounds (lastSuccess am) rand (am.vvTried b)).nOldestPos) := by
  have loop : ∀ (is : List ℕ) (choice : CAddrMan.Choice), (∀ i ∈ is, i < (am.vvTried b).length) →
      Chosen (am.vvTried b) choice → is.foldlM (am.selectTriedRound rand) choice =
        .ok (is.foldl (oldestStep (lastSuccess am) rand) choice) := by
    intro is
    induction is with
    | nil => exact fun _ _ _ => rfl
    | cons i is ih =>
      intro choice inside chosen
      rw [List.forall_mem_cons] at inside
      rw [List.foldlM_cons, selectTriedRound_eq known chosen inside.1, ok_bind, List.foldl_cons]
      exact ih _ inside.2 (chosen.step _ _ inside.1).1
  have start : Chosen (am.vvTried b) ⟨am.vvTried b, none, -1⟩ := ⟨List.Perm.refl _, nofun⟩
  have run := loop (List.range (min ADDRMAN_TRIED_ENTRIES_INSPECT_ON_EVICT (am.vvTried b).length)) _
    (fun i member => by rw [List.mem_range] at member; omega) start
  rw [CAddrMan.selectTried]
  change (List.foldlM _ _ _ >>= _) = _
  rw [run]
  rfl

theorem evictsOldest_iff (choice : CAddrMan.Choice) :
    EvictsOldest (am.setTried b choice.vTried) b choice.nOldestPos ↔
      0 ≤ choice.nOldestPos ∧ ∃ nId, choice.vTried[choice.nOldestPos.toNat]? = some nId ∧
        ∀ other ∈ choice.vTried.take ADDRMAN_TRIED_ENTRIES_INSPECT_ON_EVICT,
          lastSuccess am nId ≤ lastSuccess am other := by
  have bucket : (am.setTried b choice.vTried).vvTried b = choice.vTried := Function.update_self ..
  rw [EvictsOldest, bucket]
  rfl

/-- The position that `SelectTried` returns holds an oldest entry of those inspected, for every draw,
only in buckets where that cannot go wrong. -/
theorem selectTried_evicts_iff (known : ∀ nId ∈ am.vvTried b, nId ∈ am.mapInfo) :
    (∀ rand, ∃ am' nPos, am.selectTried b rand = .ok (am', nPos) ∧ EvictsOldest am' b nPos) ↔
      FairBucket (lastSuccess am) (am.vvTried b) := by
  have code : ∀ rand, (∃ am' nPos, am.selectTried b rand = .ok (am', nPos) ∧ EvictsOldest am' b nPos) ↔
      EvictsOldest (am.setTried b (rounds (lastSuccess am) rand (am.vvTried b)).vTried) b
        (rounds (lastSuccess am) rand (am.vvTried b)).nOldestPos := by
    intro rand
    rw [selectTried_eq known]
    constructor
    · rintro ⟨_, _, ⟨⟩, evicts⟩
      exact evicts
    · exact fun evicts => ⟨_, _, rfl, evicts⟩
  simp only [code, evictsOldest_iff]
  constructor
  · intro evicts
    by_contra unfair
    have nonempty : am.vvTried b ≠ [] := by
      intro empty
      have position := (evicts fun _ => 0).1
      rw [empty] at position
      change (0 : ℤ) ≤ -1 at position
      omega
    obtain ⟨rand, x, front, y, here, less⟩ := exists_misplaced nonempty unfair
    obtain ⟨-, nId, there, oldest⟩ := evicts rand
    rw [here, Option.some.injEq] at there
    exact Int64.not_lt.mpr (oldest x front) (there ▸ less)
  · intro fair rand
    obtain ⟨chosen, some⟩ := rounds_chosen (lastSuccess am) rand (am.vvTried b)
    obtain ⟨nId, here, oldest⟩ := fair.chosen rand
    have nonempty : am.vvTried b ≠ [] := by
      rcases fair with ⟨nonempty, -⟩ | ⟨x, y, two, -⟩
      · exact nonempty
      · simp [two]
    obtain ⟨nOldest, found⟩ := Option.ne_none_iff_exists'.mp (some nonempty)
    exact ⟨(chosen.place nOldest found).2.1, nId, here,
      fun other front => oldest other (chosen.perm.mem_iff.mp (List.mem_of_mem_take front))⟩

def oneBucket (successes : List Int64) : CAddrMan :=
  { CAddrMan.new (Vector.replicate 32 0) with
    mapInfo := ExtTreeMap.ofList (successes.zipIdx.map fun entry => (entry.2,
      { CAddrInfo.new ⟨⟨BitVec.ofNat 128 entry.2, 0⟩, 0, 0, 0⟩ 0 with
        nLastSuccess := entry.1, fInTried := true, nRandomPos := entry.2 }))
    vvTried := fun b => if b.val = 0 then List.range successes.length else [] }

theorem oneBucket_evicts : (oneBucket [1, 2]).vvTried 0 = [0, 1] ∧ ∀ rand, ∃ am' nPos,
    (oneBucket [1, 2]).selectTried 0 rand = .ok (am', nPos) ∧ EvictsOldest am' 0 nPos :=
  ⟨by decide, (selectTried_evicts_iff (by decide +kernel)).mpr (.inr ⟨0, 1, by decide, by decide +kernel⟩)⟩

theorem fullBucket_evicts_youngest : ∃ am' nPos,
    (oneBucket (2 :: List.replicate 63 1)).selectTried 0 (fun i => if i = 0 then 1 else 0) = .ok (am', nPos) ∧
      ¬ EvictsOldest am' 0 nPos := by
  let am := oneBucket (2 :: List.replicate 63 1)
  let choice := rounds (lastSuccess am) (fun i => if i = 0 then 1 else 0) (am.vvTried 0)
  have result : choice.vTried[choice.nOldestPos.toNat]? = some 0 ∧
      1 ∈ choice.vTried.take ADDRMAN_TRIED_ENTRIES_INSPECT_ON_EVICT ∧ lastSuccess am 1 < lastSuccess am 0 := by
    decide +kernel
  refine ⟨_, _, selectTried_eq (by decide +kernel) _, ?_⟩
  rw [evictsOldest_iff]
  rintro ⟨-, nId, here, oldest⟩
  have first := result.1.symm.trans here
  rw [← Option.some.inj first] at oldest
  exact Int64.not_lt.mpr (oldest 1 result.2.1) result.2.2

end Code

end RitCoin.Proof
