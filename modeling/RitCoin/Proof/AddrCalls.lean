import RitCoin.Proof.SelectTried

namespace RitCoin.Proof
open Lib Model Std Function

section Calls
variable {hash : List UInt8 → Uint256} {count : ℕ} {am : CAddrMan} {due : ℕ → ℤ} {nId : ℕ} {info : CAddrInfo}
  {b : NewBucket}

theorem insertNew_ok (inv : AddrInv hash count am (update 0 nId 1)) (absent : nId ∉ am.vvNew b) (rand : ℕ → ℕ)
    (now : ℕ → Int64) :
    ∃ am', (do
      let am ←
        if (am.vvNew b).size = ADDRMAN_NEW_BUCKET_SIZE then do
          let (am, _) ← am.shrinkNew b rand now
          pure am
        else pure am
      pure (am.insertNew b nId) : Check CAddrMan) = .ok am' ∧ AddrInv hash count am' 0 := by
  have settled : update (update (0 : ℕ → ℤ) nId 1) nId (update (0 : ℕ → ℤ) nId 1 nId - 1) = 0 := by
    rw [update_idem, update_self, sub_self]
    exact update_eq_self nId 0
  have finish : ∀ {am : CAddrMan}, AddrInv hash count am (update 0 nId 1) → nId ∉ am.vvNew b →
      (am.vvNew b).size < ADDRMAN_NEW_BUCKET_SIZE → AddrInv hash count (am.insertNew b nId) 0 := by
    intro am inv absent room
    refine ⟨inv.nIdCount, inv.linked, ?_, inv.nTried, inv.total, inv.triedSize, ?_⟩
    · have filed := inv.filed.insert absent
      rwa [settled] at filed
    · exact (forall_update_iff am.vvNew fun _ ids => ids.size ≤ _).mpr
        ⟨ExtTreeSet.size_insert_le.trans room, fun c _ => inv.newSize c⟩
  by_cases full : (am.vvNew b).size = ADDRMAN_NEW_BUCKET_SIZE
  · have positive : 0 < (am.vvNew b).toList.length := by
      rw [ExtTreeSet.length_toList, full]
      decide
    obtain ⟨member, inside⟩ := List.exists_mem_of_length_pos positive
    have undue : ∀ x ∈ am.vvNew b, update (0 : ℕ → ℤ) nId 1 x = 0 := by
      intro x inside
      have apart : x ≠ nId := fun same => absent (same ▸ inside)
      rw [update_of_ne apart]
      rfl
    obtain ⟨am', code, run, x, held, released⟩ := shrinkNew_ok inv (ExtTreeSet.mem_toList.mp inside) undue rand now
    have left : am'.vvNew b = (am.vvNew b).erase x := by rw [released.vvNew, update_self]
    refine ⟨am'.insertNew b nId, ?_, finish released.inv ?_ ?_⟩
    · rw [if_pos full, run]
      rfl
    · rw [left]
      exact fun member => absent (ExtTreeSet.mem_of_mem_erase member)
    · have size := size_erase_add_one held
      rw [left]
      omega
  · refine ⟨am.insertNew b nId, ?_, finish inv absent (Nat.lt_of_le_of_ne (inv.newSize b) full)⟩
    rw [if_neg full]
    rfl

theorem refer_ok (inv : AddrInv hash count am 0) (here : entries am nId = some info) (flag : info.fInTried = false)
    (room : info.nRefCount < ADDRMAN_NEW_BUCKETS_PER_ADDRESS) (source : CNetAddr) (rand : ℕ → ℕ) (now : ℕ → Int64) :
    ∃ am', am.refer hash nId source rand now = .ok am' ∧ AddrInv hash count am' 0 := by
  rw [CAddrMan.refer, info_ok here, ok_bind]
  by_cases member : nId ∈ am.vvNew (info.getNewBucket hash am.nKey source)
  · exact ⟨am, if_pos member, inv⟩
  · have counted : AddrInv hash count (am.modify nId fun info => { info with nRefCount := info.nRefCount + 1 })
        (update 0 nId 1) := by
      have changed := entries_modify here fun info => { info with nRefCount := info.nRefCount + 1 }
      refine ⟨inv.nIdCount, ?_, ?_, inv.nTried, inv.total, inv.triedSize, inv.newSize⟩
      · rw [changed]
        exact inv.linked.modify here rfl rfl
      · rw [changed]
        exact inv.filed.refer here flag room
    rw [if_neg member]
    exact insertNew_ok counted member rand now

theorem find_none (inv : AddrInv hash count am due) {addr : CNetAddr} (unknown : am.find addr = none) :
    am.mapAddr[addr]? = none := by
  cases known : am.mapAddr[addr]? with
  | none => rfl
  | some nId =>
    obtain ⟨info, here, -⟩ := (inv.linked.inverse addr nId).mp known
    rw [entries] at here
    simp [CAddrMan.find, known, here] at unknown

theorem absent_of_fresh (inv : AddrInv hash count am 0) :
    entries am am.nIdCount = none ∧ ∀ b, am.nIdCount ∉ am.vvNew b := by
  have fresh : ∀ info, entries am am.nIdCount ≠ some info := fun info here =>
    Nat.lt_irrefl _ (inv.linked.fresh _ info here)
  refine ⟨Option.eq_none_iff_forall_ne_some.mpr fresh, fun b member => ?_⟩
  obtain ⟨info, here, -⟩ := inv.filed.exists_entry member le_rfl
  exact fresh info here

def withEntry (am : CAddrMan) (addr : CAddress) (source : CNetAddr) : CAddrMan :=
  { am with
    nIdCount := am.nIdCount + 1
    mapInfo := am.mapInfo.insert am.nIdCount { CAddrInfo.new addr source with nRandomPos := am.vRandom.length }
    mapAddr := am.mapAddr.insert addr.addr am.nIdCount
    vRandom := am.vRandom ++ [am.nIdCount] }

theorem create_eq (few : am.nIdCount < 2 ^ 31 - 1) (addr : CAddress) (source : CNetAddr) :
    am.create addr source = .ok (withEntry am addr source, am.nIdCount) := by
  rw [CAddrMan.create, failIf_of_not (by omega)]
  rfl

theorem create_ok (inv : AddrInv hash count am 0) {addr : CAddress} (unknown : am.find addr.addr = none)
    (source : CNetAddr) (nTime : CAddrInfo → UInt32) (rand : ℕ → ℕ) (now : ℕ → Int64) {ready : CAddrMan}
    (is : ready = { (withEntry am addr source).modify am.nIdCount fun info => { info with nTime := nTime info } with
      nNew := am.nNew + 1 }) :
    ∃ am', ready.refer hash am.nIdCount source rand now = .ok am' ∧ AddrInv hash (count + 1) am' 0 := by
  obtain ⟨absent, outside⟩ := absent_of_fresh inv
  let first : CAddrInfo := { CAddrInfo.new addr source with nRandomPos := am.vRandom.length }
  let info : CAddrInfo := { first with nTime := nTime first }
  have created : entries (withEntry am addr source) = update (entries am) am.nIdCount (some first) := by
    funext x
    change (am.mapInfo.insert am.nIdCount first)[x]? = _
    rw [ExtTreeMap.getElem?_insert, update_apply]
    simp [eq_comm (a := x), entries]
  have all : entries ready = update (entries am) am.nIdCount (some info) := by
    have there : entries (withEntry am addr source) am.nIdCount = some first := by rw [created, update_self]
    rw [is]
    refine (entries_modify there _).trans ?_
    rw [created, update_idem]
  have here : entries ready am.nIdCount = some info := by rw [all, update_self]
  have vvNew : ready.vvNew = am.vvNew := by rw [is]; rfl
  have counted : AddrInv hash (count + 1)
      (ready.modify am.nIdCount fun info => { info with nRefCount := info.nRefCount + 1 })
      (update 0 am.nIdCount 1) := by
    have changed := entries_modify here fun info => { info with nRefCount := info.nRefCount + 1 }
    rw [all, update_idem] at changed
    let one : CAddrInfo := { info with nRefCount := info.nRefCount + 1 }
    have ok : EntryOk one :=
      ⟨Int64.le_refl 0, Int64.le_refl 0, fun tried => absurd tried Bool.false_ne_true,
        fun _ => ⟨le_rfl, show (1 : ℤ) ≤ ADDRMAN_NEW_BUCKETS_PER_ADDRESS by decide⟩⟩
    have linked := inv.linked.create (show am.mapAddr[one.addr]? = none from find_none inv unknown) rfl
    have filed := inv.filed.create absent rfl rfl rfl ok
    rw [← changed] at linked filed
    have total : am.nTried + (am.nNew + 1) = ((am.vRandom ++ [am.nIdCount]).length : ℤ) := by
      rw [List.length_append, List.length_singleton, Nat.cast_add, ← inv.total]
      ring
    subst is
    exact ⟨congrArg (· + 1) inv.nIdCount, linked, filed, inv.nTried, total, inv.triedSize, inv.newSize⟩
  rw [CAddrMan.refer, info_ok here, ok_bind, if_neg (by rw [vvNew]; exact outside _)]
  exact insertNew_ok counted (by rw [CAddrMan.modify, vvNew]; exact outside _) rand now

theorem EntryOk.refresh (ok : EntryOk info) (addr : CAddress) (nTimePenalty nNow : Int64) :
    EntryOk (CAddrMan.refresh addr nTimePenalty nNow info) :=
  ⟨ok.nLastTry, ok.nLastSuccess, ok.tried, ok.new⟩

theorem add_ok (inv : AddrInv hash count am 0) (addr : CAddress) (source : CNetAddr) (nTimePenalty : Int64)
    (rand : ℕ → ℕ) (now : ℕ → Int64) (few : count < 2 ^ 31 - 1) :
    ∃ am' fNew, am.add_ hash addr source nTimePenalty rand now = .ok (am', fNew) ∧
      ∃ count' ≤ count + 1, AddrInv hash count' am' 0 := by
  have same : ∀ {am'}, AddrInv hash count am' 0 → ∃ count' ≤ count + 1, AddrInv hash count' am' 0 :=
    fun inv => ⟨count, Nat.le_succ _, inv⟩
  rw [CAddrMan.add_]
  split_ifs with unroutable
  · exact ⟨am, false, rfl, same inv⟩
  · cases found : am.find addr.addr with
    | none =>
      obtain ⟨am', run, inv'⟩ := create_ok inv found source
        (fun info => truncated (max 0 (seconds info.nTime - nTimePenalty))) (fun i => rand (i + 1))
        (fun i => now (i + 1)) rfl
      refine ⟨am', true, ?_, count + 1, le_rfl, inv'⟩
      rw [create_eq (inv.nIdCount.trans_lt few), ok_bind]
      exact congrArg (· >>= fun am => pure (am, true)) run
    | some entry =>
      obtain ⟨nId, info⟩ := entry
      have here := (find_some found).2
      have ok := inv.filed.entry nId info here
      have refreshed := inv.modify here (f := CAddrMan.refresh addr nTimePenalty (now 0)) rfl rfl rfl rfl
        (ok.refresh addr nTimePenalty (now 0))
      have here' : entries (am.modify nId (CAddrMan.refresh addr nTimePenalty (now 0))) nId =
          some (CAddrMan.refresh addr nTimePenalty (now 0) info) := by rw [entries_modify here, update_self]
      dsimp only
      split_ifs with stale tried limit drawn
      · exact ⟨_, false, rfl, same refreshed⟩
      · exact ⟨_, false, rfl, same refreshed⟩
      · exact ⟨_, false, rfl, same refreshed⟩
      · exact ⟨_, false, rfl, same refreshed⟩
      · have flag : info.fInTried = false := Bool.eq_false_iff.mpr tried
        have count := (ok.new flag).2
        obtain ⟨am', run, inv'⟩ := refer_ok refreshed here' flag (count.lt_of_ne limit) source
          (fun i => rand (i + 1)) fun i => now (i + 1)
        refine ⟨am', false, ?_, same inv'⟩
        rw [run]
        rfl

theorem removeNew_ok (here : entries am nId = some info)
    (refs : info.nRefCount = (newBuckets am.vvNew nId).card) :
    ∃ mapInfo, (List.finRange ADDRMAN_NEW_BUCKET_COUNT).foldl (CAddrMan.removeNew nId) am =
        { am with mapInfo := mapInfo, vvNew := fun b => (am.vvNew b).erase nId } ∧
      (fun x => mapInfo[x]?) = update (entries am) nId (some { info with nRefCount := 0 }) := by
  have loop := foldl_rel (CAddrMan.removeNew nId) (List.finRange ADDRMAN_NEW_BUCKET_COUNT)
    (fun done am' => am' = { am with mapInfo := am'.mapInfo, vvNew := am'.vvNew } ∧
      entries am' = update (entries am) nId (some { info with nRefCount := (newBuckets am'.vvNew nId).card }) ∧
      ∀ b x, x ∈ am'.vvNew b ↔ x ∈ am.vvNew b ∧ (b ∈ done → x ≠ nId)) am ?_ ?_
  · obtain ⟨fields, lookup, member⟩ := loop
    generalize (List.finRange ADDRMAN_NEW_BUCKET_COUNT).foldl (CAddrMan.removeNew nId) am = am' at *
    have vvNew : am'.vvNew = fun b => (am.vvNew b).erase nId := by
      funext b
      apply ExtTreeSet.ext_mem
      intro x
      simp [member, ExtTreeSet.mem_erase, eq_comm (a := x), and_comm]
    have none : newBuckets am'.vvNew nId = ∅ := by rw [vvNew, newBuckets_eraseAll, if_pos rfl]
    rw [none, Finset.card_empty] at lookup
    exact ⟨am'.mapInfo, fields.trans (by rw [vvNew]), lookup⟩
  · refine ⟨rfl, ?_, by simp⟩
    rw [← refs, update_eq_self_iff.mpr here.symm]
  · rintro done b rest am' - ⟨fields, lookup, member⟩
    rw [CAddrMan.removeNew]
    split_ifs with inside
    · have there : entries (am'.eraseNew b nId) nId =
          some { info with nRefCount := (newBuckets am'.vvNew nId).card } := by
        change entries am' nId = _
        rw [lookup, update_self]
      refine ⟨?_, ?_, fun c x => ?_⟩
      · rw [fields]
        rfl
      · have card := Finset.card_erase_add_one (mem_newBuckets.mpr inside)
        rw [entries_modify there]
        change update (entries am') _ _ = _
        rw [lookup, update_idem]
        congr 3
        change ((newBuckets am'.vvNew nId).card : ℤ) - 1 =
          ((newBuckets (update am'.vvNew b ((am'.vvNew b).erase nId)) nId).card : ℤ)
        rw [newBuckets_erase, if_pos rfl]
        omega
      · change x ∈ update am'.vvNew b ((am'.vvNew b).erase nId) c ↔ _
        by_cases same : c = b
        · subst same
          simp [member, ExtTreeSet.mem_erase, eq_comm (a := x)]
          tauto
        · simp [same, member]
    · refine ⟨fields, lookup, fun c x => ?_⟩
      rw [member]
      by_cases same : c = b
      · subst same
        have outside : x ∈ am'.vvNew c → x ≠ nId := fun there isId => inside (isId ▸ there)
        rw [member] at outside
        simp
        tauto
      · simp [same]

theorem sum_length_update (vvTried : TriedBucket → List ℕ) (b : TriedBucket) (vTried : List ℕ) :
    ∑ c, ((update vvTried b vTried c).length : ℤ) =
      ∑ c, ((vvTried c).length : ℤ) - (vvTried b).length + vTried.length := by
  have lengths : (fun c => ((update vvTried b vTried c).length : ℤ)) =
      update (fun c => ((vvTried c).length : ℤ)) b vTried.length := by
    funext c
    by_cases same : c = b <;> simp [same]
  rw [lengths, Finset.sum_update_of_mem (Finset.mem_univ b),
    ← Finset.add_sum_erase _ (fun c => ((vvTried c).length : ℤ)) (Finset.mem_univ b), ← Finset.erase_eq]
  ring

theorem set_perm {v : List ℕ} {i old : ℕ} (there : v[i]? = some old) : (nId :: v).Perm (old :: v.set i nId) := by
  obtain ⟨bound, rfl⟩ := List.getElem?_eq_some_iff.mp there
  have moved := (List.set_perm_cons_eraseIdx bound nId).cons v[i]
  refine (List.Perm.trans ?_ (List.Perm.swap _ _ _)).trans moved.symm
  exact (List.getElem_cons_eraseIdx_perm bound).symm.cons nId

theorem selectTried_ok {kb : TriedBucket} (known : ∀ x ∈ am.vvTried kb, x ∈ am.mapInfo) (nonempty : am.vvTried kb ≠ [])
    (rand : ℕ → ℕ) :
    ∃ vTried i old, am.selectTried kb rand = .ok (am.setTried kb vTried, (i : ℕ)) ∧ vTried.Perm (am.vvTried kb) ∧
      vTried[i]? = some old := by
  obtain ⟨chosen, found⟩ := rounds_chosen (lastSuccess am) rand (am.vvTried kb)
  have selected := selectTried_eq known rand
  generalize rounds (lastSuccess am) rand (am.vvTried kb) = choice at chosen found selected
  obtain ⟨nOldest, oldest⟩ := Option.ne_none_iff_exists'.mp (found nonempty)
  obtain ⟨-, positive, bound⟩ := chosen.place nOldest oldest
  obtain ⟨i, isPos⟩ := Int.eq_ofNat_of_zero_le positive
  rw [isPos, Int.toNat_natCast, ← chosen.perm.length_eq] at bound
  rw [isPos] at selected
  exact ⟨choice.vTried, i, choice.vTried[i], selected, chosen.perm, List.getElem?_eq_getElem bound⟩

def withoutRefs (am : CAddrMan) (nId : ℕ) (mapInfo : ExtTreeMap ℕ CAddrInfo) : CAddrMan :=
  { am with mapInfo := mapInfo, vvNew := fun b => (am.vvNew b).erase nId, nNew := am.nNew - 1 }

section MakeTried
variable {mapInfo : ExtTreeMap ℕ CAddrInfo} (inv : AddrInv hash count am 0) (here : entries am nId = some info)
  (flag : info.fInTried = false) (success : info.nLastSuccess ≠ 0)
  (lookup : entries (withoutRefs am nId mapInfo) = update (entries am) nId (some { info with nRefCount := 0 }))
include inv here flag success lookup

theorem promote_ok {kb : TriedBucket} (is : triedBucket hash am info = kb)
    (room : (am.vvTried kb).length < ADDRMAN_TRIED_BUCKET_SIZE) :
    AddrInv hash count ({ (withoutRefs am nId mapInfo).setTried kb (am.vvTried kb ++ [nId]) with
      nTried := am.nTried + 1 }.modify nId fun info => { info with fInTried := true }) 0 := by
  subst is
  let tried : CAddrInfo := { info with nRefCount := 0, fInTried := true }
  have there : entries (withoutRefs am nId mapInfo) nId = some { info with nRefCount := 0 } := by
    rw [lookup, update_self]
  have final : entries ({ (withoutRefs am nId mapInfo).setTried (triedBucket hash am info)
      (am.vvTried (triedBucket hash am info) ++ [nId]) with nTried := am.nTried + 1 }.modify nId
        fun info => { info with fInTried := true }) = update (entries am) nId (some tried) := by
    refine (entries_modify there _).trans ?_
    exact (congrArg (update · nId _) lookup).trans (update_idem ..)
  have linked : Linked _ (update (entries am) nId (some tried)) _ _ := inv.linked.modify here rfl rfl
  have filed := inv.filed.promote here rfl flag success (show tried.fInTried = true from rfl) rfl rfl rfl rfl
    (List.perm_append_singleton nId _)
  rw [← final] at linked filed
  refine ⟨inv.nIdCount, linked, filed, ?_, ?_, ?_, fun c => ExtTreeSet.size_erase_le.trans (inv.newSize c)⟩
  · refine Eq.trans ?_ (sum_length_update am.vvTried _ _).symm
    change am.nTried + 1 = _
    rw [inv.nTried, List.length_append, List.length_singleton]
    push_cast
    ring
  · change am.nTried + 1 + (am.nNew - 1) = am.vRandom.length
    rw [← inv.total]
    ring
  · refine (forall_update_iff am.vvTried fun _ ids => ids.length ≤ _).mpr ⟨?_, fun c _ => inv.triedSize c⟩
    rw [List.length_append]
    exact room

theorem replace_ok {kb : TriedBucket} (is : triedBucket hash am info = kb) {vTried : List ℕ}
    (perm : vTried.Perm (am.vvTried kb)) {i old : ℕ} (atPos : vTried[i]? = some old) {c : NewBucket}
    (room : ((am.vvNew c).erase nId).size < ADDRMAN_NEW_BUCKET_SIZE) :
    AddrInv hash count ({ (((withoutRefs am nId mapInfo).setTried kb vTried).modify old fun info =>
      { info with fInTried := false, nRefCount := 1 }).insertNew c old with nNew := am.nNew - 1 + 1 }.setTried kb
        (vTried.set i nId) |>.modify nId fun info => { info with fInTried := true }) 0 := by
  subst is
  let tried : CAddrInfo := { info with nRefCount := 0, fInTried := true }
  obtain ⟨infoOld, hereOld, flagOld, bucketOld⟩ :=
    (inv.filed.tried _ old).mp (perm.mem_iff.mp (List.mem_of_getElem? atPos))
  have apart : old ≠ nId := by
    intro same
    rw [same, here, Option.some.injEq] at hereOld
    rw [hereOld, flagOld] at flag
    cases flag
  have thereOld : entries (withoutRefs am nId mapInfo) old = some infoOld := by rw [lookup, update_of_ne apart, hereOld]
  let new : CAddrInfo := { infoOld with fInTried := false, nRefCount := 1 }
  let moved := { (((withoutRefs am nId mapInfo).setTried (triedBucket hash am info) vTried).modify old fun info =>
    { info with fInTried := false, nRefCount := 1 }).insertNew c old with nNew := am.nNew - 1 + 1 }.setTried
      (triedBucket hash am info) (vTried.set i nId)
  have final : entries (moved.modify nId fun info => { info with fInTried := true }) =
      update (update (entries am) nId (some tried)) old (some new) := by
    have others : entries moved = update (entries (withoutRefs am nId mapInfo)) old (some new) :=
      entries_modify thereOld _
    have there : entries moved nId = some { info with nRefCount := 0 } := by
      rw [others, update_of_ne apart.symm, lookup, update_self]
    rw [entries_modify there, others, update_comm apart, lookup, update_idem]
  have hereOld : update (entries am) nId (some tried) old = some infoOld := by rw [update_of_ne apart, hereOld]
  have filed := (inv.filed.promote here rfl flag success (show tried.fInTried = true from rfl) rfl rfl rfl rfl
    (perm.cons nId)).demote hereOld rfl flagOld
      (show List.Perm (update am.vvTried _ (nId :: vTried) (triedBucket hash am infoOld)) (old :: vTried.set i nId) by
        rw [bucketOld, update_self]; exact set_perm atPos) c
  rw [bucketOld, update_idem, ← final] at filed
  have linked : Linked _ (update (entries am) nId (some tried)) _ _ := inv.linked.modify here rfl rfl
  have linked : Linked _ (update _ old (some new)) _ _ := linked.modify hereOld rfl rfl
  rw [← final] at linked
  have size : (vTried.set i nId).length = (am.vvTried (triedBucket hash am info)).length := by
    rw [List.length_set]
    exact perm.length_eq
  have vvTried : (moved.modify nId fun info => { info with fInTried := true }).vvTried =
      update am.vvTried (triedBucket hash am info) (vTried.set i nId) := update_idem ..
  refine ⟨inv.nIdCount, linked, ?_, ?_, ?_, ?_, ?_⟩
  · rw [vvTried]
    exact filed
  · rw [vvTried, sum_length_update, size]
    change am.nTried = _
    rw [inv.nTried]
    ring
  · change am.nTried + (am.nNew - 1 + 1) = am.vRandom.length
    rw [← inv.total]
    ring
  · rw [vvTried]
    exact (forall_update_iff am.vvTried fun _ ids => ids.length ≤ _).mpr
      ⟨size.trans_le (inv.triedSize _), fun d _ => inv.triedSize d⟩
  · exact (forall_update_iff (fun b => (am.vvNew b).erase nId) fun _ ids => ids.size ≤ _).mpr
      ⟨ExtTreeSet.size_insert_le.trans room, fun d _ => ExtTreeSet.size_erase_le.trans (inv.newSize d)⟩

end MakeTried

section
variable (inv : AddrInv hash count am 0)
include inv

theorem makeTried_ok (here : entries am nId = some info) (flag : info.fInTried = false)
    (success : info.nLastSuccess ≠ 0) (member : nId ∈ am.vvNew b) (rand : ℕ → ℕ) :
    ∃ am', am.makeTried hash nId b rand = .ok am' ∧ AddrInv hash count am' 0 := by
  have refs := inv.filed.refs_of_some here
  rw [Pi.zero_apply, add_zero] at refs
  obtain ⟨mapInfo, removed, lookup⟩ := removeNew_ok here refs
  let bare := withoutRefs am nId mapInfo
  have lookup : entries bare = update (entries am) nId (some { info with nRefCount := 0 }) := lookup
  have there : entries bare nId = some { info with nRefCount := 0 } := by rw [lookup, update_self]
  let kb := triedBucket hash am info
  rw [CAddrMan.makeTried, assert_ok member, ok_bind]
  dsimp only
  rw [removed]
  change ∃ am', (bare.info nId >>= _) = _ ∧ _
  rw [info_ok there, ok_bind, assert_ok rfl, ok_bind]
  change ∃ am', (if (am.vvTried kb).length < ADDRMAN_TRIED_BUCKET_SIZE then _ else _) = _ ∧ _
  by_cases room : (am.vvTried kb).length < ADDRMAN_TRIED_BUCKET_SIZE
  · rw [if_pos room]
    exact ⟨_, rfl, promote_ok inv here flag success lookup rfl room⟩
  · have held : ∀ x ∈ am.vvTried kb, ∃ other, entries bare x = some other := by
      intro x inside
      obtain ⟨other, entry, -⟩ := (inv.filed.tried kb x).mp inside
      by_cases same : x = nId
      · exact ⟨_, same ▸ there⟩
      · exact ⟨other, by rw [lookup, update_of_ne same]; exact entry⟩
    have nonempty : bare.vvTried kb ≠ [] := by
      intro empty
      rw [show am.vvTried kb = [] from empty] at room
      exact room (by decide)
    have known : ∀ x ∈ bare.vvTried kb, x ∈ bare.mapInfo := by
      intro x inside
      obtain ⟨other, entry⟩ := held x inside
      exact mem_mapInfo entry
    obtain ⟨vTried, i, old, selected, perm, atPos⟩ := selectTried_ok known nonempty rand
    obtain ⟨infoOld, thereOld⟩ := held old (perm.mem_iff.mp (List.mem_of_getElem? atPos))
    -- the bucket that receives the evicted entry: its own unless that is full, and then the one that was just left
    let own := infoOld.getNewBucket hash am.nKey infoOld.source
    let c := if ((am.vvNew own).erase nId).size < ADDRMAN_NEW_BUCKET_SIZE then own else b
    have roomC : ((am.vvNew c).erase nId).size < ADDRMAN_NEW_BUCKET_SIZE := by
      by_cases some : ((am.vvNew own).erase nId).size < ADDRMAN_NEW_BUCKET_SIZE
      · rwa [show c = own from if_pos some]
      · rw [show c = b from if_neg some]
        have size := size_erase_add_one member
        have limit := inv.newSize b
        omega
    refine ⟨_, ?_, replace_ok inv here flag success lookup rfl perm atPos roomC⟩
    rw [if_neg room]
    change (bare.selectTried kb rand >>= _) = _
    rw [selected, ok_bind]
    change (CAddrMan.element (update am.vvTried kb vTried kb) i >>= _) = _
    rw [update_self, element_ok atPos, ok_bind]
    change (Model.assert (old ∈ bare.mapInfo) >>= fun _ => bare.info old >>= _) = _
    rw [assert_ok (mem_mapInfo thereOld), ok_bind, info_ok thereOld, ok_bind]
    let evicted := (bare.setTried kb vTried).modify old fun info => { info with fInTried := false, nRefCount := 1 }
    have bucket : (if ((am.vvNew own).erase nId).size < ADDRMAN_NEW_BUCKET_SIZE then evicted.insertNew own old
        else evicted.insertNew b old) = evicted.insertNew c old := (apply_ite (evicted.insertNew · old) _ _ _).symm
    refine (congrArg (fun filed : CAddrMan => (.ok ({ filed with nNew := filed.nNew + 1 }.setTried kb
      ((filed.vvTried kb).set i nId) |>.modify nId fun info => { info with fInTried := true }) : Check CAddrMan))
      bucket).trans ?_
    rw [show (evicted.insertNew c old).vvTried kb = vTried from update_self ..]
    rfl

theorem AddrInv.touch (here : entries am nId = some info) {f : CAddrInfo → CAddrInfo}
    (kept : ∃ nTime nLastTry nLastSuccess nAttempts, 0 ≤ nLastTry ∧
      (nLastSuccess = info.nLastSuccess ∨ 0 < nLastSuccess) ∧ f info = { info with
        nTime := nTime, nLastTry := nLastTry, nLastSuccess := nLastSuccess, nAttempts := nAttempts }) :
    AddrInv hash count (am.modify nId f) 0 := by
  obtain ⟨nTime, nLastTry, nLastSuccess, nAttempts, tried, success, is⟩ := kept
  have ok := inv.filed.entry nId info here
  have later : 0 ≤ nLastSuccess ∧ (info.nLastSuccess ≠ 0 → nLastSuccess ≠ 0) := by
    rcases success with same | positive
    · rw [same]
      exact ⟨ok.nLastSuccess, id⟩
    · exact ⟨Int64.le_of_lt positive, fun _ => (Int64.ne_of_lt positive).symm⟩
  refine inv.modify here (by rw [is]) (by rw [is]) (by rw [is]) (by rw [is]) ?_
  rw [is]
  exact ⟨tried, later.1, fun flag => ⟨(ok.tried flag).1, later.2 (ok.tried flag).2⟩, ok.new⟩

theorem good_ok (addr : CService) {nTime : Int64} (positive : 0 < nTime) (rand : ℕ → ℕ) :
    ∃ am', am.good_ hash addr nTime rand = .ok am' ∧ AddrInv hash count am' 0 := by
  rw [CAddrMan.good_]
  cases found : am.find addr.addr with
  | none => exact ⟨am, rfl, inv⟩
  | some entry =>
    obtain ⟨nId, info⟩ := entry
    have here := (find_some found).2
    let f : CAddrInfo → CAddrInfo := fun info =>
      { info with nLastSuccess := nTime, nLastTry := nTime, nTime := truncated nTime, nAttempts := 0 }
    have touched : AddrInv hash count (am.modify nId f) 0 :=
      inv.touch here ⟨_, _, _, _, Int64.le_of_lt positive, .inr positive, rfl⟩
    dsimp only
    split_ifs with other tried
    · exact ⟨am, rfl, inv⟩
    · exact ⟨_, rfl, touched⟩
    · split
      · exact ⟨_, rfl, touched⟩
      · rename_i nUBucket chosen
        have there : entries (am.modify nId f) nId = some (f info) := by rw [entries_modify here, update_self]
        exact makeTried_ok touched there (Bool.eq_false_iff.mpr tried)
          (Int64.ne_of_lt positive).symm (by simpa using List.find?_some chosen) _

theorem attempt_ok (addr : CService) {nTime : Int64} (positive : 0 < nTime) :
    AddrInv hash count (am.attempt_ addr nTime) 0 := by
  rw [CAddrMan.attempt_]
  cases found : am.find addr.addr with
  | none => exact inv
  | some entry =>
    dsimp only
    split_ifs
    · exact inv
    · exact inv.touch (find_some found).2 ⟨_, _, _, _, Int64.le_of_lt positive, .inl rfl, rfl⟩

theorem connected_ok (addr : CService) (nTime : Int64) : AddrInv hash count (am.connected_ addr nTime) 0 := by
  rw [CAddrMan.connected_]
  cases found : am.find addr.addr with
  | none => exact inv
  | some entry =>
    have here := (find_some found).2
    dsimp only
    split_ifs
    · exact inv
    · exact inv.touch here ⟨_, _, _, _, (inv.filed.entry _ _ here).nLastTry, .inl rfl, rfl⟩
    · exact inv

theorem getAddrRound_ok (rand : ℕ → ℕ) (vAddr : List CAddress) {n : ℕ} (inside : n < am.vRandom.length) :
    ∃ state, CAddrMan.getAddrRound rand (am, vAddr) n = .ok state ∧ AddrInv hash count state.1 0 ∧
      state.1.vRandom.length = am.vRandom.length := by
  obtain ⟨mapInfo, vRandom, run, linked, length, pos, -, moved⟩ := swapRandom_ok inv.linked
    (List.getElem?_eq_getElem inside) (List.getElem?_eq_getElem (drawn_lt rand inside))
  let am' := { am with mapInfo := mapInfo, vRandom := vRandom }
  have atN : am'.vRandom[n]? = some vRandom[n] := List.getElem?_eq_getElem _
  obtain ⟨info, here, -⟩ := linked.exists_entry atN
  have here : entries am' vRandom[n] = some info := here
  have total : am.nTried + am.nNew = vRandom.length := by rw [inv.total, length]
  refine ⟨(am', vAddr ++ [info.toCAddress]), ?_,
    ⟨inv.nIdCount, linked, ?_, inv.nTried, total, inv.triedSize, inv.newSize⟩, length⟩
  · change (am.swapRandom n _ >>= _) = _
    rw [run, ok_bind, element_ok atN, ok_bind, assert_ok (mem_mapInfo here), ok_bind, info_ok here]
    rfl
  · refine (congrArg (Filed _ · _ _ _) ?_).mp (inv.filed.reposition pos fun _ _ => rfl)
    exact (funext moved).symm

theorem getAddr_ok (rand : ℕ → ℕ) :
    ∃ am' vAddr, am.getAddr_ rand = .ok (am', vAddr) ∧ AddrInv hash count am' 0 := by
  let R : List ℕ → CAddrMan × List CAddress → Prop := fun _ state =>
    AddrInv hash count state.1 0 ∧ state.1.vRandom.length = am.vRandom.length
  have few : min (ADDRMAN_GETADDR_MAX_PCT * am.vRandom.length / 100) ADDRMAN_GETADDR_MAX ≤ am.vRandom.length := by
    rw [ADDRMAN_GETADDR_MAX_PCT]
    omega
  obtain ⟨⟨am', vAddr⟩, run, inv', -⟩ := foldlM_complete (CAddrMan.getAddrRound rand)
    (List.range (min (ADDRMAN_GETADDR_MAX_PCT * am.vRandom.length / 100) ADDRMAN_GETADDR_MAX)) R (am, []) ⟨inv, rfl⟩
    fun done n rest state split sound => by
      have member : n ∈ List.range _ := split ▸ List.mem_append_right done List.mem_cons_self
      obtain ⟨next, run, inv', same⟩ := getAddrRound_ok sound.1 rand state.2
        (n := n) (by rw [sound.2]; exact (List.mem_range.mp member).trans_le few)
      exact ⟨next, run, inv', same.trans sound.2⟩
  exact ⟨am', vAddr, run, inv'⟩

end

def TimesPositive : CAddrMan.Call → Prop
  | .good _ nTime _ => 0 < nTime
  | .attempt _ nTime => 0 < nTime
  | _ => True

/-- How many addresses a call adds at most. -/
def adds : CAddrMan.Call → ℕ
  | .add .. => 1
  | .addAll vAddr .. => vAddr.length
  | _ => 0

theorem call_ok (inv : AddrInv hash count am 0) {call : CAddrMan.Call} (positive : TimesPositive call)
    (few : count + adds call < 2 ^ 31) :
    ∃ am', am.call hash call = .ok am' ∧ ∃ count' ≤ count + adds call, AddrInv hash count' am' 0 := by
  cases call with
  | add addr source nTimePenalty rand now =>
    rw [adds] at few
    obtain ⟨am', fNew, run, inv'⟩ := add_ok inv addr source nTimePenalty rand now (by omega)
    exact ⟨am', by rw [CAddrMan.call, run]; rfl, inv'⟩
  | addAll vAddr source nTimePenalty rand now =>
    rw [adds] at few ⊢
    rw [← List.length_zipIdx (l := vAddr)] at few ⊢
    refine foldlM_complete _ vAddr.zipIdx (fun done am => ∃ count' ≤ count + done.length, AddrInv hash count' am 0) am
      ⟨count, le_rfl, inv⟩ ?_
    rintro done entry rest am split ⟨before, bound, inv⟩
    rw [split, List.length_append, List.length_cons] at few
    obtain ⟨am', fNew, run, after, bound', inv'⟩ :=
      add_ok inv entry.1 source nTimePenalty (rand entry.2) (now entry.2) (by omega)
    refine ⟨am', by rw [run]; rfl, after, ?_, inv'⟩
    rw [List.length_append, List.length_singleton]
    omega
  | good addr nTime rand =>
    obtain ⟨am', run, inv'⟩ := good_ok inv addr positive rand
    exact ⟨am', run, count, le_rfl, inv'⟩
  | attempt addr nTime => exact ⟨_, rfl, count, le_rfl, attempt_ok inv addr positive⟩
  | connected addr nTime => exact ⟨_, rfl, count, le_rfl, connected_ok inv addr nTime⟩
  | getAddr rand =>
    obtain ⟨am', vAddr, run, inv'⟩ := getAddr_ok inv rand
    exact ⟨am', by rw [CAddrMan.call, run]; rfl, count, le_rfl, inv'⟩

theorem calls_ok (hash : List UInt8 → Uint256) (nKey : Vector UInt8 32) {calls : List CAddrMan.Call}
    (positive : ∀ call ∈ calls, TimesPositive call) (few : (calls.map adds).sum < 2 ^ 31) :
    ∃ am, (CAddrMan.new nKey).calls hash calls = .ok am ∧ ∃ count ≤ (calls.map adds).sum, AddrInv hash count am 0 := by
  refine foldlM_complete (CAddrMan.call hash) calls
    (fun done am => ∃ count ≤ (done.map adds).sum, AddrInv hash count am 0) _ ⟨0, le_rfl, ?_⟩ ?_
  swap
  · rintro done call rest am split ⟨before, bound, inv⟩
    rw [split, List.map_append, List.sum_append, List.map_cons, List.sum_cons] at few
    obtain ⟨am', run, after, bound', inv'⟩ := call_ok inv (positive call (by simp [split])) (by omega)
    refine ⟨am', run, after, ?_, inv'⟩
    rw [List.map_append, List.sum_append, List.map_singleton, List.sum_singleton]
    omega
  have nothing : entries (CAddrMan.new nKey) = fun _ => none := by
    funext nId
    exact ExtTreeMap.getElem?_empty
  refine ⟨rfl, ?_, ?_, ?_, rfl, fun _ => Nat.zero_le _, fun _ => Nat.zero_le _⟩
  · rw [nothing]
    exact .empty
  · rw [nothing]
    exact .empty
  · simp [CAddrMan.new]

end Calls

end RitCoin.Proof
