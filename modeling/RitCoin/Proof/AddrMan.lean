import RitCoin.Proof.AddrTables

namespace RitCoin.Proof
open Lib Model Std Function

def entries (am : CAddrMan) : Entries := fun nId => am.mapInfo[nId]?

def triedBucket (hash : List UInt8 → Uint256) (am : CAddrMan) (info : CAddrInfo) : TriedBucket :=
  info.getTriedBucket hash am.nKey

structure AddrInv (hash : List UInt8 → Uint256) (count : ℕ) (am : CAddrMan) (due : ℕ → ℤ) : Prop where
  nIdCount : am.nIdCount = count
  linked : Linked am.nIdCount (entries am) am.mapAddr am.vRandom
  filed : Filed (triedBucket hash am) (entries am) am.vvTried am.vvNew due
  nTried : am.nTried = ∑ b, ((am.vvTried b).length : ℤ)
  total : am.nTried + am.nNew = am.vRandom.length
  triedSize : ∀ b, (am.vvTried b).length ≤ ADDRMAN_TRIED_BUCKET_SIZE
  newSize : ∀ b, (am.vvNew b).size ≤ ADDRMAN_NEW_BUCKET_SIZE

section Reading
variable {am : CAddrMan} {nId : ℕ} {info : CAddrInfo}

theorem assert_ok {c : Prop} [Decidable c] (holds : c) : Model.assert c = .ok ⟨⟩ :=
  failIf_of_not (not_not.mpr holds)

theorem info_ok (here : entries am nId = some info) : am.info nId = .ok info := by
  rw [entries] at here
  rw [CAddrMan.info, here]

theorem mem_mapInfo (here : entries am nId = some info) : nId ∈ am.mapInfo := by
  rw [ExtTreeMap.mem_iff_isSome_getElem?]
  exact Option.isSome_of_eq_some here

theorem element_ok {v : List ℕ} {i : ℕ} (here : v[i]? = some nId) : CAddrMan.element v i = .ok nId := by
  simp [CAddrMan.element, here]

theorem find_some {addr : CNetAddr} (found : am.find addr = some (nId, info)) :
    am.mapAddr[addr]? = some nId ∧ entries am nId = some info := by
  simp only [CAddrMan.find, Option.bind_eq_bind, Option.bind_eq_some_iff] at found
  obtain ⟨_, address, _, entry, same⟩ := found
  cases same
  exact ⟨address, entry⟩

theorem entries_modify (here : entries am nId = some info) (f : CAddrInfo → CAddrInfo) :
    entries (am.modify nId f) = update (entries am) nId (some (f info)) := by
  funext x
  rw [entries, CAddrMan.modify, ExtTreeMap.getElem?_modify]
  by_cases same : x = nId
  · subst same
    rw [entries] at here
    simp [here]
  · simp [same, Ne.symm same, entries]

end Reading

section Swap
variable {am : CAddrMan} {i j a b nId : ℕ} {info : CAddrInfo}

theorem swapRandom_ok (linked : Linked am.nIdCount (entries am) am.mapAddr am.vRandom)
    (first : am.vRandom[i]? = some a) (second : am.vRandom[j]? = some b) :
    ∃ mapInfo vRandom, am.swapRandom i j = .ok { am with mapInfo := mapInfo, vRandom := vRandom } ∧
      Linked am.nIdCount (fun nId => mapInfo[nId]?) am.mapAddr vRandom ∧
      vRandom.length = am.vRandom.length ∧
      ∃ pos : ℕ → ℤ, pos a = j ∧
        ∀ nId : ℕ, mapInfo[nId]? = (entries am nId).map fun info => { info with nRandomPos := pos nId } := by
  obtain ⟨infoA, entryA, placeA⟩ := linked.exists_entry first
  obtain ⟨infoB, entryB, placeB⟩ := linked.exists_entry second
  by_cases same : i = j
  · subst same
    refine ⟨am.mapInfo, am.vRandom, if_pos rfl, linked, rfl,
      fun nId => ((entries am nId).map CAddrInfo.nRandomPos).getD 0, ?_, fun nId => ?_⟩
    · simp [entryA, placeA]
    · change entries am nId = _
      cases here : entries am nId <;> simp [here]
  · have boundI := (List.getElem?_eq_some_iff.mp first).1
    have boundJ := (List.getElem?_eq_some_iff.mp second).1
    have different : a ≠ b := by
      rintro rfl
      rw [entryA, Option.some.injEq] at entryB
      rw [entryB, placeB, Nat.cast_inj] at placeA
      exact same placeA.symm
    let before := am.modify a fun info => { info with nRandomPos := j }
    have entryB' : entries before b = some infoB := by
      rw [entries_modify entryA, update_of_ne different.symm, entryB]
    have moved := entries_modify entryB' fun info => { info with nRandomPos := i }
    rw [entries_modify entryA] at moved
    refine ⟨_, (am.vRandom.set i b).set j a, ?_, ?_, by simp,
      fun x => if x = b then i else if x = a then j else ((entries am x).map CAddrInfo.nRandomPos).getD 0, ?_,
      fun x => (congrFun moved x).trans ?_⟩
    · rw [CAddrMan.swapRandom, if_neg (by omega), assert_ok (by omega), ok_bind, assert_ok (by omega), ok_bind,
        element_ok first, ok_bind, element_ok second, ok_bind, assert_ok (mem_mapInfo entryA), ok_bind,
        assert_ok (mem_mapInfo entryB), ok_bind]
      rfl
    · have swapped := linked.swap same first second entryA entryB
      rwa [← moved] at swapped
    · simp [different]
    · rw [update_apply, update_apply]
      split_ifs with isB isA
      · simp [isB, entryB]
      · simp [isA, different, entryA]
      · cases here : entries am x <;> simp [here, isA, isB]

theorem swapLast_ok (linked : Linked am.nIdCount (entries am) am.mapAddr am.vRandom)
    (here : entries am nId = some info) :
    ∃ mapInfo vRandom, am.swapRandom info.nRandomPos (am.vRandom.length - 1) =
        .ok { am with mapInfo := mapInfo, vRandom := vRandom } ∧
      Linked am.nIdCount (fun x => (mapInfo.erase nId)[x]?) (am.mapAddr.erase info.addr) vRandom.dropLast ∧
      vRandom.length = am.vRandom.length ∧ 0 < am.vRandom.length ∧
      ∃ pos : ℕ → ℤ, (fun x => (mapInfo.erase nId)[x]?) =
        update (fun x => (entries am x).map fun info => { info with nRandomPos := pos x }) nId none := by
  have atPlace := linked.vRandom_place here
  have inside := (List.getElem?_eq_some_iff.mp atPlace).1
  have positive := linked.positive nId info here
  have atEnd : am.vRandom[am.vRandom.length - 1]? = some am.vRandom[am.vRandom.length - 1] :=
    List.getElem?_eq_getElem _
  obtain ⟨mapInfo, vRandom, run, linked', length, pos, last, moved⟩ := swapRandom_ok linked atPlace atEnd
  have erased : (fun x => (mapInfo.erase nId)[x]?) = update (fun x => mapInfo[x]?) nId none := by
    funext x
    rw [ExtTreeMap.getElem?_erase]
    by_cases it : x = nId
    · simp [it]
    · simp [it, Ne.symm it]
  refine ⟨mapInfo, vRandom, ?_, ?_, length, by omega, pos, ?_⟩
  · rw [← run]
    congr 1 <;> omega
  · have there : (fun x : ℕ => mapInfo[x]?) nId = some { info with nRandomPos := pos nId } := by
      refine (moved nId).trans ?_
      rw [here]
      rfl
    have gone := linked'.remove there (by simp only; omega)
    rw [erased]
    exact gone
  · rw [erased]
    congr 1
    exact funext moved

end Swap

section References
variable {hash : List UInt8 → Uint256} {count : ℕ} {am : CAddrMan} {due : ℕ → ℤ} {nId : ℕ} {info : CAddrInfo}
  {b : NewBucket}

theorem AddrInv.modify (inv : AddrInv hash count am due) (here : entries am nId = some info)
    {f : CAddrInfo → CAddrInfo} (service : (f info).toCService = info.toCService)
    (nRandomPos : (f info).nRandomPos = info.nRandomPos) (fInTried : (f info).fInTried = info.fInTried)
    (nRefCount : (f info).nRefCount = info.nRefCount) (ok : EntryOk (f info)) :
    AddrInv hash count (am.modify nId f) due := by
  have changed := entries_modify here f
  have bucket : triedBucket hash am (f info) = triedBucket hash am info := by
    rw [triedBucket, CAddrInfo.getTriedBucket, service]
    rfl
  refine ⟨inv.nIdCount, ?_, ?_, inv.nTried, inv.total, inv.triedSize, inv.newSize⟩
  · rw [changed]
    exact inv.linked.modify here (by rw [service]) nRandomPos
  · rw [changed]
    exact inv.filed.modify here bucket fInTried nRefCount ok

theorem size_erase_add_one {s : ExtTreeSet ℕ} (member : nId ∈ s) : (s.erase nId).size + 1 = s.size := by
  have positive : 0 < s.toList.length := List.length_pos_of_mem (ExtTreeSet.mem_toList.mpr member)
  rw [ExtTreeSet.length_toList] at positive
  rw [ExtTreeSet.size_erase, if_pos (ExtTreeSet.mem_iff_contains.mp member)]
  omega

structure Released (hash : List UInt8 → Uint256) (count : ℕ) (am : CAddrMan) (due : ℕ → ℤ) (b : NewBucket)
    (nId : ℕ) (am' : CAddrMan) : Prop where
  inv : AddrInv hash count am' due
  vvNew : am'.vvNew = update am.vvNew b ((am.vvNew b).erase nId)

theorem release_ok (inv : AddrInv hash count am due) (member : nId ∈ am.vvNew b) (none : due nId = 0) :
    ∃ am', am.release b nId = .ok am' ∧ Released hash count am due b nId am' := by
  obtain ⟨info, here, referred⟩ := inv.filed.exists_entry member none.ge
  let f : CAddrInfo → CAddrInfo := fun info => { info with nRefCount := info.nRefCount - 1 }
  let less := am.modify nId f
  have changed : entries less = update (entries am) nId (some (f info)) := entries_modify here f
  have here' : entries less nId = some (f info) := by rw [changed, update_self]
  have linked : Linked less.nIdCount (entries less) less.mapAddr less.vRandom := by
    rw [changed]
    exact inv.linked.modify here rfl rfl
  have newSize : ∀ c, (update am.vvNew b ((am.vvNew b).erase nId) c).size ≤ ADDRMAN_NEW_BUCKET_SIZE :=
    (forall_update_iff am.vvNew fun _ ids => ids.size ≤ _).mpr
      ⟨ExtTreeSet.size_erase_le.trans (inv.newSize b), fun c _ => inv.newSize c⟩
  rw [CAddrMan.release, info_ok here', ok_bind]
  by_cases last : info.nRefCount - 1 = 0
  · obtain ⟨mapInfo, vRandom, run, linked', length, positive, pos, moved⟩ := swapLast_ok linked here'
    have filed := (inv.filed.reposition pos fun _ _ => rfl).release member none
      (show _ = some { info with nRandomPos := pos nId } by rw [here]; rfl)
    rw [if_pos last] at filed
    rw [if_pos last, run, ok_bind]
    refine ⟨_, rfl, ⟨inv.nIdCount, linked', ?_, inv.nTried, ?_, inv.triedSize, newSize⟩, rfl⟩
    · change Filed _ (fun x => (mapInfo.erase nId)[x]?) _ _ _
      rw [moved]
      refine (congrArg (Filed _ · _ _ _) ?_).mp filed
      funext x
      by_cases it : x = nId
      · simp [it]
      · simp [it, changed]
    · have total : less.nTried + less.nNew = less.vRandom.length := inv.total
      simp only [CAddrMan.eraseNew, List.length_dropLast, length]
      omega
  · rw [if_neg last]
    refine ⟨_, rfl, ⟨inv.nIdCount, linked, ?_, inv.nTried, inv.total, inv.triedSize, newSize⟩, rfl⟩
    have filed := inv.filed.release member none here
    rw [if_neg last] at filed
    change Filed _ (entries less) _ _ _
    rw [changed]
    exact filed

theorem getRandInt_lt {nRand nMax : ℕ} (positive : 0 < nMax) : getRandInt nRand nMax < nMax := by
  rw [getRandInt, if_neg positive.ne']
  exact Nat.mod_lt _ positive

theorem findTerrible_ok (now : ℕ → Int64) : ∀ {ids : List ℕ},
    (∀ nId ∈ ids, ∃ info, entries am nId = some info) →
    ∃ found, am.findTerrible now ids = .ok found ∧ ∀ nId, found = some nId → nId ∈ ids := by
  intro ids
  induction ids with
  | nil => exact fun _ => ⟨none, rfl, nofun⟩
  | cons first ids ih =>
    intro known
    rw [List.forall_mem_cons] at known
    obtain ⟨info, here⟩ := known.1
    obtain ⟨found, run, member⟩ := ih known.2
    rw [CAddrMan.findTerrible, info_ok here, ok_bind]
    split_ifs
    · exact ⟨some first, rfl, fun nId it => by simp [Option.some.inj it]⟩
    · exact ⟨found, run, fun nId it => List.mem_cons_of_mem _ (member nId it)⟩

theorem oldestRound_ok (n : List ℕ) {nOldest : Option ℕ} (nI : ℕ) (here : entries am nId = some info)
    (known : ∀ x, nOldest = some x → ∃ other, entries am x = some other) :
    ∃ next, am.oldestRound n nOldest (nId, nI) = .ok next ∧ (next = nOldest ∨ next = some nId) ∧
      (nI ∈ n → next ≠ none) := by
  simp only [CAddrMan.oldestRound]
  by_cases drawn : nI ∈ n
  · rw [if_pos drawn, assert_ok (.inr (mem_mapInfo here)), ok_bind]
    cases nOldest with
    | none => exact ⟨some nId, rfl, .inr rfl, nofun⟩
    | some oldest =>
      obtain ⟨other, there⟩ := known oldest rfl
      simp only [info_ok here, info_ok there, ok_bind]
      split_ifs
      · exact ⟨some nId, rfl, .inr rfl, nofun⟩
      · exact ⟨some oldest, rfl, .inl rfl, nofun⟩
  · exact ⟨nOldest, if_neg drawn, .inl rfl, fun other => absurd other drawn⟩

theorem oldest_ok {ids : List ℕ} (n : List ℕ) (known : ∀ nId ∈ ids, ∃ info, entries am nId = some info)
    (drawn : ∃ nI ∈ n, nI < ids.length) :
    ∃ nOldest ∈ ids, ids.zipIdx.foldlM (am.oldestRound n) none = .ok (some nOldest) := by
  let R : List (ℕ × ℕ) → Option ℕ → Prop := fun done nOldest =>
    (∀ x, nOldest = some x → x ∈ ids) ∧ ((∃ entry ∈ done, entry.2 ∈ n) → nOldest ≠ none)
  have round : ∀ done entry rest nOldest, ids.zipIdx = done ++ entry :: rest → R done nOldest →
      ∃ next, am.oldestRound n nOldest entry = .ok next ∧ R (done ++ [entry]) next := by
    rintro done ⟨nId, nI⟩ rest nOldest split ⟨member, chosen⟩
    have inside : nId ∈ ids := by
      have entry : (nId, nI) ∈ ids.zipIdx := by rw [split]; simp
      exact List.mem_of_getElem? (List.mem_zipIdx_iff_getElem?.mp entry)
    obtain ⟨info, here⟩ := known nId inside
    obtain ⟨next, run, which, some⟩ := oldestRound_ok n nI here fun x it => known x (member x it)
    refine ⟨next, run, fun x it => ?_, ?_⟩
    · rcases which with rfl | rfl
      · exact member x it
      · cases it
        exact inside
    · rintro ⟨entry, old, inN⟩
      rw [List.mem_append, List.mem_singleton] at old
      rcases old with old | rfl
      · rcases which with rfl | rfl
        · exact chosen ⟨entry, old, inN⟩
        · nofun
      · exact some inN
  obtain ⟨nI, inN, bound⟩ := drawn
  obtain ⟨last, run, member, chosen⟩ := foldlM_complete (am.oldestRound n) ids.zipIdx R none
    ⟨nofun, fun ⟨_, absent, _⟩ => absurd absent List.not_mem_nil⟩ round
  cases last with
  | none => exact absurd rfl (chosen ⟨(ids[nI], nI), List.mem_zipIdx_iff_getElem?.mpr (by simp), inN⟩)
  | some nOldest => exact ⟨nOldest, member nOldest rfl, run⟩

theorem shrinkNew_ok (inv : AddrInv hash count am due) (member : nId ∈ am.vvNew b)
    (none : ∀ x ∈ am.vvNew b, due x = 0) (rand : ℕ → ℕ) (now : ℕ → Int64) :
    ∃ am' code, am.shrinkNew b rand now = .ok (am', code) ∧
      ∃ x ∈ am.vvNew b, Released hash count am due b x am' := by
  have known : ∀ x ∈ (am.vvNew b).toList, ∃ info, entries am x = some info := by
    intro x inside
    rw [ExtTreeSet.mem_toList] at inside
    obtain ⟨info, here, -⟩ := inv.filed.exists_entry inside (none x inside).ge
    exact ⟨info, here⟩
  obtain ⟨found, search, inBucket⟩ := findTerrible_ok now known
  rw [CAddrMan.shrinkNew, search, ok_bind]
  cases found with
  | some x =>
    have inside := ExtTreeSet.mem_toList.mp (inBucket x rfl)
    obtain ⟨am', run, released⟩ := release_ok inv inside (none x inside)
    exact ⟨am', 0, by simp only [run, ok_bind]; rfl, x, inside, released⟩
  | none =>
    have positive : 0 < (am.vvNew b).size := by
      rw [← ExtTreeSet.length_toList]
      exact List.length_pos_of_mem (ExtTreeSet.mem_toList.mpr member)
    obtain ⟨x, inside, choice⟩ := oldest_ok
      ((List.range 4).map fun i => getRandInt (rand i) (am.vvNew b).size) known
      ⟨getRandInt (rand 0) (am.vvNew b).size, List.mem_map.mpr ⟨0, by simp, rfl⟩,
        by rw [ExtTreeSet.length_toList]; exact getRandInt_lt positive⟩
    obtain ⟨info, here⟩ := known x inside
    rw [ExtTreeSet.mem_toList] at inside
    obtain ⟨am', run, released⟩ := release_ok inv inside (none x inside)
    refine ⟨am', 1, ?_, x, inside, released⟩
    simp only [choice, ok_bind, assert_ok (mem_mapInfo here), run]
    rfl

end References

end RitCoin.Proof
