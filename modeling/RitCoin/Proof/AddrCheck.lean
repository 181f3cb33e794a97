import RitCoin.Proof.AddrCalls

namespace RitCoin.Proof
open Lib Model Std Function

theorem nodup_toList (s : ExtTreeSet ℕ) : s.toList.Nodup :=
  ExtTreeSet.distinct_toList.imp fun apart same => apart (Std.compare_eq_iff_eq.mpr same)

theorem checkTried_all {S : ExtTreeSet ℕ} {ids : List ℕ} (nodup : ids.Nodup) (same : ∀ x, x ∈ ids ↔ x ∈ S) :
    ∃ left : ExtTreeSet ℕ, ids.foldlM CAddrMan.checkTried S = .ok left ∧ left.size = 0 := by
  obtain ⟨left, run, members⟩ := foldlM_complete CAddrMan.checkTried ids
    (fun done left => ∀ x, x ∈ left ↔ x ∈ S ∧ x ∉ done) S (by simp) fun done nId rest left split members => by
      have fresh : nId ∉ done := by
        rw [split, List.nodup_append] at nodup
        exact fun old => nodup.2.2 nId old nId List.mem_cons_self rfl
      have inside : nId ∈ left := (members nId).mpr ⟨(same nId).mp (by simp [split]), fresh⟩
      refine ⟨left.erase nId, ?_, fun x => ?_⟩
      · rw [CAddrMan.checkTried, failIf_of_not (not_not.mpr inside)]
        rfl
      · simp [ExtTreeSet.mem_erase, members, eq_comm (a := x)]
        tauto
  refine ⟨left, run, ?_⟩
  rw [← ExtTreeSet.length_toList, List.length_eq_zero_iff, List.eq_nil_iff_forall_not_mem]
  intro x member
  obtain ⟨inS, outside⟩ := (members x).mp (ExtTreeSet.mem_toList.mp member)
  exact outside ((same x).mpr inS)

theorem checkNew_all {M : ExtTreeMap ℕ ℤ} {ids : List ℕ} (positive : ∀ (x : ℕ) (n : ℤ), M[x]? = some n → 1 ≤ n)
    (same : ∀ x : ℕ, (ids.count x : ℤ) = (M[x]?).getD 0) :
    ∃ left : ExtTreeMap ℕ ℤ, ids.foldlM CAddrMan.checkNew M = .ok left ∧ left.size = 0 := by
  obtain ⟨left, run, counts⟩ := foldlM_complete CAddrMan.checkNew ids
    (fun done left => ∀ x : ℕ, (∀ n, left[x]? = some n → 1 ≤ n) ∧ (left[x]?).getD 0 = (M[x]?).getD 0 - done.count x) M
    (fun x => ⟨positive x, by simp⟩) fun done nId rest left split counts => by
      have total := same nId
      rw [split, List.count_append, List.count_cons_self] at total
      obtain ⟨low, count⟩ := counts nId
      cases found : left[nId]? with
      | none =>
        rw [found, Option.getD_none] at count
        omega
      | some n =>
        rw [found, Option.getD_some] at count
        rw [CAddrMan.checkNew, found]
        dsimp only
        split_ifs with last
        · refine ⟨_, rfl, fun x => ?_⟩
          rw [ExtTreeMap.getElem?_erase]
          by_cases it : nId = x
          · subst it
            simp
            omega
          · simpa [it, List.count_singleton] using counts x
        · refine ⟨_, rfl, fun x => ?_⟩
          rw [ExtTreeMap.getElem?_insert]
          by_cases it : nId = x
          · subst it
            have one := low n found
            simp
            omega
          · simpa [it, List.count_singleton] using counts x
  refine ⟨left, run, ?_⟩
  rw [← ExtTreeMap.length_toList, List.length_eq_zero_iff, List.eq_nil_iff_forall_not_mem]
  rintro ⟨x, n⟩ member
  have found := ExtTreeMap.mem_toList_iff_getElem?_eq_some.mp member
  obtain ⟨low, count⟩ := counts x
  have one := low n found
  rw [found, Option.getD_some, ← same] at count
  omega

section Check
variable {hash : List UInt8 → Uint256} {count : ℕ} {am : CAddrMan}

section
variable (inv : AddrInv hash count am 0)
include inv

theorem checkInfo_ok (collected : CAddrMan.Collected) {nId : ℕ} {info : CAddrInfo}
    (here : entries am nId = some info) : am.checkInfo collected (nId, info) = .ok
      (if info.fInTried then { collected with setTried := collected.setTried.insert nId }
      else { collected with mapNew := collected.mapNew.insert nId info.nRefCount }) := by
  have ok := inv.filed.entry nId info here
  have place := inv.linked.vRandom_place here
  have bound := (List.getElem?_eq_some_iff.mp place).1
  have positive := inv.linked.positive nId info here
  have address : am.mapAddr.getD info.addr 0 = nId := by
    rw [ExtTreeMap.getD_eq_getD_getElem?, (inv.linked.inverse _ nId).mpr ⟨info, here, rfl⟩, Option.getD_some]
  have rest : ∀ collected : CAddrMan.Collected, (do
      failIf (am.mapAddr.getD info.addr 0 ≠ nId) (-5)
      failIf (info.nRandomPos < 0 ∨ info.nRandomPos ≥ am.vRandom.length ∨
        am.vRandom[info.nRandomPos.toNat]? ≠ some nId) (-14)
      failIf (info.nLastTry < 0) (-6)
      failIf (info.nLastSuccess < 0) (-8)
      pure collected : Except ℤ CAddrMan.Collected) = .ok collected := by
    intro collected
    rw [failIf_of_not (not_not.mpr address), ok_bind, failIf_of_not (by simp [place]; omega), ok_bind,
      failIf_of_not (Int64.not_lt.mpr ok.nLastTry), ok_bind, failIf_of_not (Int64.not_lt.mpr ok.nLastSuccess)]
    rfl
  cases flag : info.fInTried with
  | true =>
    obtain ⟨count, success⟩ := ok.tried flag
    simp only [CAddrMan.checkInfo, flag, if_true, failIf_of_not success, failIf_of_not (not_not.mpr count), ok_bind]
    exact rest _
  | false =>
    obtain ⟨low, high⟩ := ok.new flag
    simp only [CAddrMan.checkInfo, flag, Bool.false_eq_true, if_false, ok_bind,
      failIf_of_not (show ¬ (info.nRefCount < 0 ∨ info.nRefCount > ADDRMAN_NEW_BUCKETS_PER_ADDRESS) by omega),
      failIf_of_not (show ¬ info.nRefCount = 0 by omega)]
    exact rest _

theorem collect_ok :
    ∃ collected, am.mapInfo.toList.foldlM am.checkInfo ⟨∅, ∅⟩ = .ok collected ∧
      (∀ x, x ∈ collected.setTried ↔ ∃ info, entries am x = some info ∧ info.fInTried = true) ∧
      ∀ x : ℕ, collected.mapNew[x]? = ((entries am x).filter fun info => !info.fInTried).map fun info => info.nRefCount := by
  have listed : ∀ x info, (x, info) ∈ am.mapInfo.toList ↔ entries am x = some info := fun _ _ =>
    ExtTreeMap.mem_toList_iff_getElem?_eq_some
  obtain ⟨collected, run, setTried, mapNew⟩ := foldlM_complete am.checkInfo am.mapInfo.toList
    (fun done collected => (∀ x, x ∈ collected.setTried ↔ ∃ info, (x, info) ∈ done ∧ info.fInTried = true) ∧
      ∀ (x : ℕ) (n : ℤ), collected.mapNew[x]? = some n ↔
        ∃ info, (x, info) ∈ done ∧ info.fInTried = false ∧ info.nRefCount = n) ⟨∅, ∅⟩
    ⟨by simp, by simp⟩ fun done entry rest collected split sound => by
      obtain ⟨nId, info⟩ := entry
      have member : (nId, info) ∈ am.mapInfo.toList := by simp [split]
      have others : ∀ info', (nId, info') ∈ done → info' = info := by
        intro info' old
        have both : (nId, info') ∈ am.mapInfo.toList := by simp [split, old]
        rw [listed] at member both
        exact Option.some.inj (both.symm.trans member)
      refine ⟨_, checkInfo_ok inv collected ((listed nId info).mp member), ?_⟩
      have grown : ∀ x info', (x, info') ∈ done ++ [(nId, info)] ↔ (x, info') ∈ done ∨ x = nId ∧ info' = info := by
        simp
      simp only [grown]
      cases flag : info.fInTried with
      | true =>
        refine ⟨fun x => ?_, fun x n => ?_⟩
        · simp only [if_true, ExtTreeSet.mem_insert, Std.compare_eq_iff_eq, sound.1]
          grind
        · simp only [if_true, sound.2]
          grind
      | false =>
        refine ⟨fun x => ?_, fun x n => ?_⟩
        · simp only [Bool.false_eq_true, if_false, sound.1]
          grind
        · simp only [Bool.false_eq_true, if_false, ExtTreeMap.getElem?_insert, Std.compare_eq_iff_eq]
          split_ifs with it
          · grind
          · rw [sound.2]
            grind
  refine ⟨collected, run, fun x => ?_, fun x => ?_⟩
  · simp only [setTried, listed]
  · ext n
    simp only [mapNew, listed]
    cases entries am x <;> simp [and_assoc]

theorem mem_triedIds (x : ℕ) :
    x ∈ (List.finRange ADDRMAN_TRIED_BUCKET_COUNT).flatMap am.vvTried ↔
      ∃ info, entries am x = some info ∧ info.fInTried = true := by
  simp only [List.mem_flatMap, List.mem_finRange, true_and, inv.filed.tried]
  constructor
  · rintro ⟨b, info, here, flag, -⟩
    exact ⟨info, here, flag⟩
  · rintro ⟨info, here, flag⟩
    exact ⟨_, info, here, flag, rfl⟩

theorem nodup_triedIds : ((List.finRange ADDRMAN_TRIED_BUCKET_COUNT).flatMap am.vvTried).Nodup := by
  rw [List.nodup_flatMap]
  refine ⟨fun b _ => inv.filed.nodup b, (List.nodup_finRange _).imp fun {b c} apart x inB inC => ?_⟩
  obtain ⟨info, here, -, isB⟩ := (inv.filed.tried b x).mp inB
  obtain ⟨other, there, -, isC⟩ := (inv.filed.tried c x).mp inC
  rw [here, Option.some.injEq] at there
  exact apart (isB.symm.trans (there ▸ isC))

end

theorem length_triedIds (inv : AddrInv hash count am 0) :
    (((List.finRange ADDRMAN_TRIED_BUCKET_COUNT).flatMap am.vvTried).length : ℤ) = am.nTried := by
  rw [inv.nTried, List.length_flatMap, Fin.sum_univ_def]
  push_cast [List.map_map]
  rfl

theorem count_newIds (vvNew : NewBucket → ExtTreeSet ℕ) (x : ℕ) :
    ((List.finRange ADDRMAN_NEW_BUCKET_COUNT).flatMap fun b => (vvNew b).toList).count x =
      (newBuckets vvNew x).card := by
  have each : ∀ b, (vvNew b).toList.count x = if x ∈ vvNew b then 1 else 0 := by
    intro b
    rw [(nodup_toList _).count]
    simp
  rw [List.count_flatMap, newBuckets, Finset.card_filter, Fin.sum_univ_def]
  exact congrArg List.sum (List.map_congr_left fun b _ => each b)

theorem checks_ok (inv : AddrInv hash count am 0) : am.checks = .ok ⟨⟩ := by
  obtain ⟨collected, run, setTried, mapNew⟩ := collect_ok inv
  have triedSize : (collected.setTried.size : ℤ) = am.nTried := by
    rw [← length_triedIds inv, ← ExtTreeSet.length_toList]
    congr 1
    refine ((List.perm_ext_iff_of_nodup (nodup_toList _) (nodup_triedIds inv)).mpr fun x => ?_).length_eq
    rw [ExtTreeSet.mem_toList, setTried, mem_triedIds inv]
  have newSize : (collected.mapNew.size : ℤ) = am.nNew := by
    have all : (collected.setTried.toList ++ collected.mapNew.keys).Perm am.vRandom := by
      have member : ∀ x, x ∈ collected.mapNew ↔ ∃ info, entries am x = some info ∧ info.fInTried = false := by
        intro x
        rw [ExtTreeMap.mem_iff_isSome_getElem?, mapNew]
        cases entries am x <;> simp
      refine (List.perm_ext_iff_of_nodup ?_ inv.linked.numbered.nodup).mpr fun x => ?_
      · refine (nodup_toList _).append ExtTreeMap.nodup_keys fun x tried new => ?_
        obtain ⟨info, here, flag⟩ := (setTried x).mp (ExtTreeSet.mem_toList.mp tried)
        obtain ⟨other, there, untried⟩ := (member x).mp (ExtTreeMap.mem_keys.mp new)
        simp_all
      · rw [List.mem_append, ExtTreeSet.mem_toList, setTried, ExtTreeMap.mem_keys, member, List.mem_iff_getElem?]
        simp only [inv.linked.numbered _ x, randomPos]
        cases entries am x <;> simp
    have length := all.length_eq
    rw [List.length_append, ExtTreeSet.length_toList, ExtTreeMap.length_keys] at length
    have total := inv.total
    omega
  have positive : ∀ (x : ℕ) n, collected.mapNew[x]? = some n → 1 ≤ n := by
    intro x n found
    rw [mapNew, Option.map_eq_some_iff] at found
    obtain ⟨info, new, rfl⟩ := found
    rw [Option.filter_eq_some_iff, Bool.not_eq_true'] at new
    exact ((inv.filed.entry x info new.1).new new.2).1
  have counted : ∀ x : ℕ, (((List.finRange ADDRMAN_NEW_BUCKET_COUNT).flatMap fun b =>
      (am.vvNew b).toList).count x : ℤ) = (collected.mapNew[x]?).getD 0 := by
    intro x
    have refs := inv.filed.refs x
    rw [Pi.zero_apply, add_zero] at refs
    rw [count_newIds, ← refs, mapNew]
    cases here : entries am x with
    | none => rfl
    | some info =>
      cases flag : info.fInTried with
      | false => simp [Option.filter, flag]
      | true => simp [Option.filter, flag, ((inv.filed.entry x info here).tried flag).1]
  obtain ⟨noTried, tried, triedLeft⟩ := checkTried_all (nodup_triedIds inv) fun x =>
    (mem_triedIds inv x).trans (setTried x).symm
  obtain ⟨noNew, new, newLeft⟩ := checkNew_all positive counted
  rw [CAddrMan.checks, failIf_of_not (not_not.mpr inv.total.symm), ok_bind, run, ok_bind,
    failIf_of_not (not_not.mpr triedSize), ok_bind, failIf_of_not (not_not.mpr newSize), ok_bind, tried, ok_bind, new,
    ok_bind, failIf_of_not (not_not.mpr triedLeft), ok_bind, failIf_of_not (not_not.mpr newLeft)]

def InTriedBucket (hash : List UInt8 → Uint256) (am : CAddrMan) : Prop :=
  ∀ b, ∀ nId ∈ am.vvTried b, ∀ info, am.mapInfo[nId]? = some info → info.getTriedBucket hash am.nKey = b

/-- No call fails an assertion, and `Check_` finds nothing wrong afterwards: whatever the calls, the numbers
drawn, the clock and the hash function, as long as no more addresses are added than an `int` can count. No
bucket outgrows its size, and tried entries are where their hash says. -/
theorem calls_checked (hash : List UInt8 → Uint256) (nKey : Vector UInt8 32) (calls : List CAddrMan.Call)
    (positive : ∀ call ∈ calls, TimesPositive call) (few : (calls.map adds).sum < 2 ^ 31) :
    ∃ am, (CAddrMan.new nKey).calls hash calls = .ok am ∧ am.check_ = 0 ∧ InTriedBucket hash am ∧
      (∀ b, (am.vvTried b).length ≤ ADDRMAN_TRIED_BUCKET_SIZE) ∧
      ∀ b, (am.vvNew b).size ≤ ADDRMAN_NEW_BUCKET_SIZE := by
  obtain ⟨am, run, count, bound, inv⟩ := calls_ok hash nKey positive few
  refine ⟨am, run, ?_, fun b nId member info here => ?_, inv.triedSize, inv.newSize⟩
  · rw [CAddrMan.check_, checks_ok inv]
  · obtain ⟨other, there, -, bucket⟩ := (inv.filed.tried b nId).mp member
    rw [entries, here, Option.some.injEq] at there
    rw [there]
    exact bucket

theorem calls_checked_good : ∃ am, (CAddrMan.new (Vector.replicate 32 0)).calls (fun _ => 0)
    [.add ⟨⟨0xffff08080808, 1⟩, 0, 9, 0⟩ 0 0 (fun _ => 0) (fun _ => 9),
      .good ⟨0xffff08080808, 1⟩ 9 fun _ => 0] = .ok am ∧ am.check_ = 0 := by
  obtain ⟨am, run, checked, -⟩ := calls_checked (fun _ => 0) (Vector.replicate 32 0)
    [.add ⟨⟨0xffff08080808, 1⟩, 0, 9, 0⟩ 0 0 (fun _ => 0) (fun _ => 9), .good ⟨0xffff08080808, 1⟩ 9 fun _ => 0]
    (by simp [TimesPositive]) (by decide)
  exact ⟨am, run, checked⟩

end Check

end RitCoin.Proof
