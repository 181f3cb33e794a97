import RitCoin.Lib.Numbering
import RitCoin.Model.AddrMan

namespace RitCoin.Proof
open Lib Model Std Function

abbrev Entries := ℕ → Option CAddrInfo

theorem forall_entry_update {entries : Entries} {nId : ℕ} {entry : Option CAddrInfo} {P : ℕ → CAddrInfo → Prop}
    (new : ∀ info, entry = some info → P nId info) (old : ∀ x info, entries x = some info → P x info) :
    ∀ x info, update entries nId entry x = some info → P x info := by
  intro x info there
  by_cases same : x = nId
  · subst same
    rw [update_self] at there
    exact new info there
  · rw [update_of_ne same] at there
    exact old x info there

def randomPos (entries : Entries) (nId : ℕ) : Option ℕ := (entries nId).map fun info => info.nRandomPos.toNat

theorem randomPos_update (entries : Entries) (nId : ℕ) (entry : Option CAddrInfo) :
    randomPos (update entries nId entry) =
      update (randomPos entries) nId (entry.map fun info => info.nRandomPos.toNat) := by
  funext x
  by_cases same : x = nId
  · subst same
    simp [randomPos]
  · simp [randomPos, same]

structure Linked (nIdCount : ℕ) (entries : Entries) (mapAddr : ExtTreeMap CNetAddr ℕ)
    (vRandom : List ℕ) : Prop where
  numbered : Numbered vRandom (randomPos entries)
  positive : ∀ nId info, entries nId = some info → 0 ≤ info.nRandomPos
  inverse : ∀ (addr : CNetAddr) (nId : ℕ), mapAddr[addr]? = some nId ↔
    ∃ info, entries nId = some info ∧ info.addr = addr
  fresh : ∀ nId info, entries nId = some info → nId < nIdCount

namespace Linked
variable {nIdCount : ℕ} {entries : Entries} {mapAddr : ExtTreeMap CNetAddr ℕ} {vRandom : List ℕ} {nId : ℕ}
  {info : CAddrInfo}

theorem empty : Linked 0 (fun _ => none) ∅ [] where
  numbered := Numbered.nil
  positive := by simp
  inverse := by simp
  fresh := by simp

variable (linked : Linked nIdCount entries mapAddr vRandom)
include linked

theorem vRandom_place (here : entries nId = some info) : vRandom[info.nRandomPos.toNat]? = some nId := by
  rw [linked.numbered, randomPos, here]
  rfl

theorem exists_entry {i : ℕ} (here : vRandom[i]? = some nId) :
    ∃ info, entries nId = some info ∧ info.nRandomPos = i := by
  rw [linked.numbered, randomPos, Option.map_eq_some_iff] at here
  obtain ⟨info, entry, randomPos⟩ := here
  have positive := linked.positive nId info entry
  exact ⟨info, entry, by omega⟩

theorem modify (here : entries nId = some info) {info' : CAddrInfo} (addr : info'.addr = info.addr)
    (nRandomPos : info'.nRandomPos = info.nRandomPos) :
    Linked nIdCount (update entries nId (some info')) mapAddr vRandom where
  numbered := by
    have same : update (randomPos entries) nId (some info'.nRandomPos.toNat) = randomPos entries := by
      rw [update_eq_self_iff, nRandomPos, randomPos, here]
      rfl
    rw [randomPos_update, Option.map_some, same]
    exact linked.numbered
  positive := forall_entry_update (fun _ it => Option.some.inj it ▸ nRandomPos ▸ linked.positive nId info here)
    linked.positive
  inverse := by
    intro a x
    rw [linked.inverse]
    by_cases same : x = nId
    · subst same
      simp [here, addr]
    · simp [same]
  fresh := forall_entry_update (fun _ _ => linked.fresh nId info here) linked.fresh

theorem create (unknown : mapAddr[info.addr]? = none) (last : info.nRandomPos = vRandom.length) :
    Linked (nIdCount + 1) (update entries nIdCount (some info)) (mapAddr.insert info.addr nIdCount)
      (vRandom ++ [nIdCount]) := by
  have absent : entries nIdCount = none := by
    cases here : entries nIdCount with
    | none => rfl
    | some other => exact absurd (linked.fresh _ _ here) (lt_irrefl _)
  refine ⟨?_, ?_, ?_, ?_⟩
  · rw [randomPos_update, Option.map_some, last, Int.toNat_natCast]
    exact linked.numbered.snoc (by rw [randomPos, absent]; rfl)
  · refine forall_entry_update (fun entry it => ?_) linked.positive
    rw [← Option.some.inj it, last]
    exact Int.natCast_nonneg _
  · intro a x
    rw [ExtTreeMap.getElem?_insert]
    by_cases same : x = nIdCount
    · subst same
      by_cases address : info.addr = a
      · simp [address]
      · have elsewhere : mapAddr[a]? ≠ some x := by
          rw [Ne, linked.inverse]
          simp [absent]
        simp [address, elsewhere]
    · by_cases address : info.addr = a
      · have elsewhere := unknown
        rw [address] at elsewhere
        have nobody : ¬ ∃ info, entries x = some info ∧ info.addr = a := by
          rw [← linked.inverse, elsewhere]
          simp
        simp only [address, Std.LawfulEqCmp.compare_eq_iff_eq, if_true, Option.some.injEq, Ne.symm same, false_iff,
          update_of_ne same]
        exact nobody
      · simp [address, same, linked.inverse]
  · exact forall_entry_update (fun _ _ => Nat.lt_succ_self _) fun x entry there =>
      Nat.lt_succ_of_lt (linked.fresh x entry there)

theorem swap {i j a b : ℕ} {infoA infoB : CAddrInfo} (apart : i ≠ j) (first : vRandom[i]? = some a)
    (second : vRandom[j]? = some b) (entryA : entries a = some infoA) (entryB : entries b = some infoB) :
    Linked nIdCount (update (update entries a (some { infoA with nRandomPos := j })) b
      (some { infoB with nRandomPos := i })) mapAddr ((vRandom.set i b).set j a) := by
  have different : b ≠ a := by
    rintro rfl
    rw [linked.numbered] at first second
    rw [first] at second
    exact apart (Option.some.inj second)
  have lookup : ∀ x entry, update (update entries a (some { infoA with nRandomPos := j })) b
      (some { infoB with nRandomPos := i }) x = some entry →
      ∃ info, entries x = some info ∧ entry.addr = info.addr ∧
        (entry.nRandomPos = info.nRandomPos ∨ 0 ≤ entry.nRandomPos) := by
    intro x entry there
    rw [update_apply, update_apply] at there
    split_ifs at there with isB isA
    · cases there
      exact ⟨infoB, isB ▸ entryB, rfl, .inr (by simp)⟩
    · cases there
      exact ⟨infoA, isA ▸ entryA, rfl, .inr (by simp)⟩
    · exact ⟨entry, there, rfl, .inl rfl⟩
  refine ⟨?_, ?_, ?_, ?_⟩
  · rw [randomPos_update, randomPos_update]
    exact linked.numbered.swap first second apart
  · intro x entry there
    obtain ⟨info, old, -, same | positive⟩ := lookup x entry there
    · rw [same]
      exact linked.positive x info old
    · exact positive
  · intro addr x
    rw [linked.inverse, update_apply, update_apply]
    split_ifs with isB isA
    · simp [isB, entryB]
    · simp [isA, entryA]
    · rfl
  · intro x entry there
    obtain ⟨info, old, -, -⟩ := lookup x entry there
    exact linked.fresh x info old

theorem remove (here : entries nId = some info) (last : info.nRandomPos = vRandom.length - 1) :
    Linked nIdCount (update entries nId none) (mapAddr.erase info.addr) vRandom.dropLast := by
  have others : ∀ x entry, update entries nId none x = some entry → x ≠ nId ∧ entries x = some entry := by
    intro x entry there
    by_cases same : x = nId
    · simp [same] at there
    · rw [update_of_ne same] at there
      exact ⟨same, there⟩
  refine ⟨?_, fun x entry there => linked.positive x entry (others x entry there).2, ?_,
    fun x entry there => linked.fresh x entry (others x entry there).2⟩
  · rw [randomPos_update]
    have atEnd := linked.vRandom_place here
    rw [show info.nRandomPos.toNat = vRandom.length - 1 by omega] at atEnd
    exact linked.numbered.dropLast atEnd
  · intro a x
    have own : mapAddr[info.addr]? = some nId := (linked.inverse _ _).mpr ⟨info, here, rfl⟩
    rw [ExtTreeMap.getElem?_erase]
    by_cases address : info.addr = a
    · subst address
      simp only [Std.LawfulEqCmp.compare_eq_iff_eq, if_true, reduceCtorEq, false_iff, not_exists, not_and]
      intro entry there address
      obtain ⟨apart, there⟩ := others x entry there
      rw [(linked.inverse _ x).mpr ⟨entry, there, address⟩, Option.some.injEq] at own
      exact apart own
    · simp only [Std.LawfulEqCmp.compare_eq_iff_eq, address, if_false, linked.inverse]
      by_cases same : x = nId
      · subst same
        simp [here, address]
      · simp [same]

end Linked

def newBuckets (vvNew : NewBucket → ExtTreeSet ℕ) (nId : ℕ) : Finset NewBucket :=
  Finset.univ.filter fun b => nId ∈ vvNew b

section NewBuckets
variable {vvNew : NewBucket → ExtTreeSet ℕ} {b : NewBucket} {nId x : ℕ}

theorem mem_newBuckets : b ∈ newBuckets vvNew nId ↔ nId ∈ vvNew b := by
  simp [newBuckets]

theorem newBuckets_insert : newBuckets (update vvNew b ((vvNew b).insert nId)) x =
    if x = nId then insert b (newBuckets vvNew x) else newBuckets vvNew x := by
  ext c
  rw [mem_newBuckets, update_apply]
  by_cases bucket : c = b <;> by_cases same : x = nId <;>
    simp [bucket, same, mem_newBuckets, ExtTreeSet.mem_insert, eq_comm (a := nId)]

theorem newBuckets_erase : newBuckets (update vvNew b ((vvNew b).erase nId)) x =
    if x = nId then (newBuckets vvNew x).erase b else newBuckets vvNew x := by
  ext c
  rw [mem_newBuckets, update_apply]
  by_cases bucket : c = b <;> by_cases same : x = nId <;>
    simp [bucket, same, mem_newBuckets, ExtTreeSet.mem_erase, eq_comm (a := nId)]

theorem newBuckets_eraseAll : newBuckets (fun b => (vvNew b).erase nId) x =
    if x = nId then ∅ else newBuckets vvNew x := by
  ext c
  by_cases same : x = nId <;>
    simp [same, mem_newBuckets, ExtTreeSet.mem_erase, eq_comm (a := nId)]

end NewBuckets

structure EntryOk (info : CAddrInfo) : Prop where
  nLastTry : 0 ≤ info.nLastTry
  nLastSuccess : 0 ≤ info.nLastSuccess
  tried : info.fInTried = true → info.nRefCount = 0 ∧ info.nLastSuccess ≠ 0
  new : info.fInTried = false → 1 ≤ info.nRefCount ∧ info.nRefCount ≤ ADDRMAN_NEW_BUCKETS_PER_ADDRESS

theorem EntryOk.count {info : CAddrInfo} (ok : EntryOk info) (flag : info.fInTried = false) {n : ℤ}
    (low : 1 ≤ n) (high : n ≤ ADDRMAN_NEW_BUCKETS_PER_ADDRESS) : EntryOk { info with nRefCount := n } where
  nLastTry := ok.nLastTry
  nLastSuccess := ok.nLastSuccess
  tried := fun tried => absurd (flag.symm.trans tried) nofun
  new := fun _ => ⟨low, high⟩

/-- `due` counts references that are counted in the entries and not made yet. -/
structure Filed (bucket : CAddrInfo → TriedBucket) (entries : Entries) (vvTried : TriedBucket → List ℕ)
    (vvNew : NewBucket → ExtTreeSet ℕ) (due : ℕ → ℤ) : Prop where
  refs : ∀ nId, ((entries nId).map fun info => info.nRefCount).getD 0 = (newBuckets vvNew nId).card + due nId
  tried : ∀ b nId, nId ∈ vvTried b ↔
    ∃ info, entries nId = some info ∧ info.fInTried = true ∧ bucket info = b
  nodup : ∀ b, (vvTried b).Nodup
  entry : ∀ nId info, entries nId = some info → EntryOk info

namespace Filed
variable {bucket : CAddrInfo → TriedBucket} {entries : Entries} {vvTried : TriedBucket → List ℕ}
  {vvNew : NewBucket → ExtTreeSet ℕ} {due : ℕ → ℤ} {nId : ℕ} {info info' : CAddrInfo}

theorem empty : Filed bucket (fun _ => none) (fun _ => []) (fun _ => ∅) 0 where
  refs := by simp [newBuckets]
  tried := by simp
  nodup := by simp
  entry := by simp

variable (filed : Filed bucket entries vvTried vvNew due)
include filed

theorem refs_of_some (here : entries nId = some info) :
    info.nRefCount = (newBuckets vvNew nId).card + due nId := by
  rw [← filed.refs, here]
  rfl

theorem exists_entry {b : NewBucket} (member : nId ∈ vvNew b) (none : 0 ≤ due nId) :
    ∃ info, entries nId = some info ∧ 1 ≤ info.nRefCount := by
  have refs := filed.refs nId
  have some : 0 < (newBuckets vvNew nId).card := Finset.card_pos.mpr ⟨b, mem_newBuckets.mpr member⟩
  cases here : entries nId with
  | none =>
    rw [here] at refs
    simp only [Option.map_none, Option.getD_none] at refs
    omega
  | some info =>
    rw [here] at refs
    simp only [Option.map_some, Option.getD_some] at refs
    exact ⟨info, rfl, by omega⟩

theorem untried (here : entries nId = some info) (referred : 1 ≤ info.nRefCount) : info.fInTried = false := by
  cases flag : info.fInTried with
  | false => rfl
  | true =>
    have none := ((filed.entry nId info here).tried flag).1
    omega

theorem tried_update (before : ∀ b, nId ∉ vvTried b) {entry : Option CAddrInfo}
    (after : ∀ info, entry = some info → info.fInTried = false) (b : TriedBucket) (x : ℕ) : x ∈ vvTried b ↔
      ∃ info, update entries nId entry x = some info ∧ info.fInTried = true ∧ bucket info = b := by
  by_cases same : x = nId
  · subst same
    simp only [before b, update_self, false_iff, not_exists, not_and]
    intro info here flag
    rw [after info here] at flag
    cases flag
  · rw [filed.tried, update_of_ne same]

theorem not_mem_tried (here : entries nId = some info) (flag : info.fInTried = false) (b : TriedBucket) :
    nId ∉ vvTried b := by
  rw [filed.tried]
  rintro ⟨other, there, tried, -⟩
  rw [here, Option.some.injEq] at there
  rw [there, tried] at flag
  cases flag

theorem modify (here : entries nId = some info) (same : bucket info' = bucket info)
    (fInTried : info'.fInTried = info.fInTried) (nRefCount : info'.nRefCount = info.nRefCount) (ok : EntryOk info') :
    Filed bucket (update entries nId (some info')) vvTried vvNew due where
  refs := by
    intro x
    rw [← filed.refs]
    by_cases there : x = nId
    · subst there
      simp [here, nRefCount]
    · simp [there]
  tried := by
    intro b x
    rw [filed.tried]
    by_cases there : x = nId
    · subst there
      simp [here, same, fInTried]
    · simp [there]
  nodup := filed.nodup
  entry := forall_entry_update (fun _ it => Option.some.inj it ▸ ok) filed.entry

theorem reposition (pos : ℕ → ℤ) (same : ∀ info p, bucket { info with nRandomPos := p } = bucket info) :
    Filed bucket (fun nId => (entries nId).map fun info => { info with nRandomPos := pos nId }) vvTried vvNew
      due where
  refs := by
    intro x
    rw [← filed.refs, Option.map_map]
    rfl
  tried := by
    intro b x
    rw [filed.tried]
    cases entries x with
    | none => simp
    | some info => simp [same]
  nodup := filed.nodup
  entry := by
    intro x info there
    obtain ⟨old, here, rfl⟩ := Option.map_eq_some_iff.mp there
    have ok := filed.entry x old here
    exact ⟨ok.nLastTry, ok.nLastSuccess, ok.tried, ok.new⟩

theorem refer (here : entries nId = some info) (flag : info.fInTried = false)
    (room : info.nRefCount < ADDRMAN_NEW_BUCKETS_PER_ADDRESS) :
    Filed bucket (update entries nId (some { info with nRefCount := info.nRefCount + 1 })) vvTried vvNew
      (update due nId (due nId + 1)) where
  refs := by
    intro x
    by_cases same : x = nId
    · subst same
      have refs := filed.refs_of_some here
      simp only [update_self, Option.map_some, Option.getD_some]
      omega
    · simp [same, filed.refs]
  tried := filed.tried_update (filed.not_mem_tried here flag) fun _ it => Option.some.inj it ▸ flag
  nodup := filed.nodup
  entry := by
    have old := filed.entry nId info here
    have count := old.new flag
    exact forall_entry_update (fun _ it => Option.some.inj it ▸ old.count flag (by omega) (by omega)) filed.entry

theorem create (absent : entries nId = none) (none : due nId = 0) (flag : info.fInTried = false)
    (one : info.nRefCount = 1) (ok : EntryOk info) :
    Filed bucket (update entries nId (some info)) vvTried vvNew (update due nId 1) where
  refs := by
    intro x
    by_cases same : x = nId
    · subst same
      have refs := filed.refs x
      rw [absent, none] at refs
      simp only [Option.map_none, Option.getD_none] at refs
      simp only [update_self, Option.map_some, Option.getD_some, one]
      omega
    · simp [same, filed.refs]
  tried := by
    refine filed.tried_update (fun b => ?_) fun _ it => Option.some.inj it ▸ flag
    rw [filed.tried, absent]
    simp
  nodup := filed.nodup
  entry := forall_entry_update (fun _ it => Option.some.inj it ▸ ok) filed.entry

theorem insert {b : NewBucket} (absent : nId ∉ vvNew b) :
    Filed bucket entries vvTried (update vvNew b ((vvNew b).insert nId)) (update due nId (due nId - 1)) where
  refs := by
    intro x
    rw [filed.refs, newBuckets_insert]
    by_cases same : x = nId
    · subst same
      rw [if_pos rfl, Finset.card_insert_of_notMem (by rwa [mem_newBuckets]), update_self]
      omega
    · rw [if_neg same, update_of_ne same]
  tried := filed.tried
  nodup := filed.nodup
  entry := filed.entry

theorem release {b : NewBucket} (member : nId ∈ vvNew b) (none : due nId = 0) (here : entries nId = some info) :
    Filed bucket (update entries nId
        (if info.nRefCount - 1 = 0 then .none else some { info with nRefCount := info.nRefCount - 1 })) vvTried
      (update vvNew b ((vvNew b).erase nId)) due := by
  have count := filed.refs_of_some here
  have inside : b ∈ newBuckets vvNew nId := mem_newBuckets.mpr member
  have card := Finset.card_pos.mpr ⟨b, inside⟩
  have flag : info.fInTried = false := filed.untried here (by omega)
  have old := filed.entry nId info here
  have bounds := old.new flag
  refine ⟨fun x => ?_, ?_, filed.nodup, forall_entry_update (fun entry it => ?_) filed.entry⟩
  · rw [newBuckets_erase]
    by_cases same : x = nId
    · subst same
      rw [if_pos rfl, Finset.card_erase_of_mem inside, update_self]
      split_ifs with last
      · simp only [Option.map_none, Option.getD_none]
        omega
      · simp only [Option.map_some, Option.getD_some]
        omega
    · rw [if_neg same, update_of_ne same, filed.refs]
  · refine filed.tried_update (filed.not_mem_tried here flag) fun entry it => ?_
    split_ifs at it
    cases it
    exact flag
  · split_ifs at it
    cases it
    exact old.count flag (by omega) (by omega)

theorem promote (here : entries nId = some info) (none : due nId = 0) (flag : info.fInTried = false)
    (success : info.nLastSuccess ≠ 0) (fInTried : info'.fInTried = true) (nRefCount : info'.nRefCount = 0)
    (same : bucket info' = bucket info) (nLastSuccess : info'.nLastSuccess = info.nLastSuccess)
    (nLastTry : info'.nLastTry = info.nLastTry) {vTried : List ℕ}
    (perm : vTried.Perm (nId :: vvTried (bucket info))) :
    Filed bucket (update entries nId (some info')) (update vvTried (bucket info) vTried)
      (fun b => (vvNew b).erase nId) due where
  refs := by
    intro x
    rw [newBuckets_eraseAll]
    by_cases it : x = nId
    · subst it
      simp [nRefCount, none]
    · simp [it, filed.refs]
  tried := by
    intro b x
    have before := filed.not_mem_tried here flag
    by_cases it : x = nId
    · subst it
      by_cases own : b = bucket info
      · subst own
        simp [perm.mem_iff, fInTried, same]
      · have elsewhere : bucket info' ≠ b := fun other => own (by rw [← other, same])
        simp [own, before b, elsewhere]
    · by_cases own : b = bucket info
      · subst own
        simp [perm.mem_iff, it, filed.tried]
      · simp [own, it, filed.tried]
  nodup := by
    refine (forall_update_iff vvTried fun _ ids => ids.Nodup).mpr ⟨?_, fun b _ => filed.nodup b⟩
    rw [perm.nodup_iff, List.nodup_cons]
    exact ⟨filed.not_mem_tried here flag _, filed.nodup _⟩
  entry := by
    have old := filed.entry nId info here
    refine forall_entry_update (fun _ it => Option.some.inj it ▸ ?_) filed.entry
    exact ⟨nLastTry ▸ old.nLastTry, nLastSuccess ▸ old.nLastSuccess, fun _ => ⟨nRefCount, nLastSuccess ▸ success⟩,
      fun new => by rw [fInTried] at new; cases new⟩

theorem demote (here : entries nId = some info) (none : due nId = 0) (flag : info.fInTried = true)
    {vTried : List ℕ} (perm : (vvTried (bucket info)).Perm (nId :: vTried)) (b : NewBucket) :
    Filed bucket (update entries nId (some { info with fInTried := false, nRefCount := 1 }))
      (update vvTried (bucket info) vTried) (update vvNew b ((vvNew b).insert nId)) due := by
  have old := filed.entry nId info here
  have count := filed.refs_of_some here
  rw [(old.tried flag).1, none] at count
  have outside : newBuckets vvNew nId = ∅ := Finset.card_eq_zero.mp (by omega)
  have nodup := perm.nodup_iff.mp (filed.nodup _)
  rw [List.nodup_cons] at nodup
  refine ⟨fun x => ?_, fun c x => ?_,
    (forall_update_iff vvTried fun _ ids => ids.Nodup).mpr ⟨nodup.2, fun c _ => filed.nodup c⟩,
    forall_entry_update (fun entry it => ?_) filed.entry⟩
  · rw [newBuckets_insert]
    by_cases it : x = nId
    · subst it
      simp [outside, none]
    · simp [it, filed.refs]
  · by_cases it : x = nId
    · subst it
      by_cases own : c = bucket info
      · subst own
        simp [nodup.1]
      · have elsewhere : x ∉ vvTried c := by
          rw [filed.tried, here]
          simp [flag, Ne.symm own]
        simp [own, elsewhere]
    · by_cases own : c = bucket info
      · subst own
        have others : x ∈ vTried ↔ x ∈ vvTried (bucket info) := by simp [perm.mem_iff, it]
        simp [it, others, filed.tried]
      · simp [own, it, filed.tried]
  · cases it
    have limit : (1 : ℤ) ≤ ADDRMAN_NEW_BUCKETS_PER_ADDRESS := by decide
    exact ⟨old.nLastTry, old.nLastSuccess, nofun, fun _ => ⟨le_rfl, limit⟩⟩

end Filed

end RitCoin.Proof
