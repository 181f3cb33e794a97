import RitCoin.Model.SigCache

namespace RitCoin.Proof
open Lib Model Std

variable {C : Crypto} {nMaxCacheSize : Int64} {setValid : ExtTreeSet SigData}

/-- The cache evicts before it inserts, so it can hold one entry more than the limit. -/
structure CacheInv (C : Crypto) (nMaxCacheSize : Int64) (setValid : ExtTreeSet SigData) : Prop where
  verified : ∀ k ∈ setValid, C.verify k.pubKey k.hash k.vchSig = true
  size : (setValid.size : ℤ) ≤ if nMaxCacheSize ≤ 0 then 0 else nMaxCacheSize.toInt + 1

theorem exists_evicted (nonempty : 0 < setValid.size) (randomHash : Uint256) :
    ∃ k ∈ setValid, CSignatureCache.pick randomHash setValid = some k := by
  rw [← ExtTreeSet.length_toList] at nonempty
  rw [CSignatureCache.pick]
  cases found : setValid.toList.find? fun k => compare ⟨randomHash, [], []⟩ k != .gt with
  | some k => exact ⟨k, ExtTreeSet.mem_toList.mp (List.mem_of_find?_eq_some found), rfl⟩
  | none =>
    obtain ⟨k, rest, is⟩ := List.exists_cons_of_length_pos nonempty
    exact ⟨k, ExtTreeSet.mem_toList.mp (by simp [is]), by simp [is]⟩

theorem evict_ok (positive : 0 < nMaxCacheSize.toInt) (getRandHash : ℕ → Uint256) : ∀ (fuel i : ℕ)
    (setValid : ExtTreeSet SigData), setValid.size ≤ fuel →
    ∃ left, CSignatureCache.evict nMaxCacheSize getRandHash fuel i setValid = .ok left ∧
      (left.size : ℤ) ≤ nMaxCacheSize.toInt ∧ ∀ k ∈ left, k ∈ setValid := by
  intro fuel
  induction fuel with
  | zero => exact fun i setValid few => ⟨setValid, rfl, by omega, fun k member => member⟩
  | succ fuel ih =>
    intro i setValid few
    rw [CSignatureCache.evict]
    split_ifs with full
    · have nonempty : 0 < setValid.size := by omega
      obtain ⟨k, member, picked⟩ := exists_evicted nonempty (getRandHash i)
      have size : (setValid.erase k).size = setValid.size - 1 := by
        rw [ExtTreeSet.size_erase, if_pos (ExtTreeSet.mem_iff_contains.mp member)]
      obtain ⟨left, run, small, part⟩ := ih (i + 1) (setValid.erase k) (by omega)
      rw [picked]
      exact ⟨left, run, small, fun k' inside => ExtTreeSet.mem_of_mem_erase (part k' inside)⟩
    · exact ⟨setValid, rfl, Int.not_lt.mp full, fun k member => member⟩

theorem CacheInv.set (inv : CacheInv C nMaxCacheSize setValid) {k : SigData}
    (valid : C.verify k.pubKey k.hash k.vchSig = true) (getRandHash : ℕ → Uint256) :
    ∃ after, CSignatureCache.set nMaxCacheSize getRandHash k setValid = .ok after ∧
      CacheInv C nMaxCacheSize after := by
  rw [CSignatureCache.set]
  split_ifs with off
  · exact ⟨setValid, rfl, inv⟩
  · have positive : 0 < nMaxCacheSize.toInt := by
      rw [Int64.le_iff_toInt_le] at off
      simpa using off
    obtain ⟨left, run, small, part⟩ := evict_ok positive getRandHash _ 0 setValid le_rfl
    refine ⟨left.insert k, by rw [run]; rfl, fun k' member => ?_, ?_⟩
    · rcases ExtTreeSet.mem_insert.mp member with same | old
      · rwa [← LawfulEqCmp.eq_of_compare same]
      · exact inv.verified k' (part k' old)
    · have size := ExtTreeSet.size_insert_le (t := left) (k := k)
      rw [if_neg off]
      omega

theorem CacheInv.perform (inv : CacheInv C nMaxCacheSize setValid) (call : CheckSigCall) :
    ∃ after, call.perform C nMaxCacheSize setValid = .ok (call.answer C, after) ∧ CacheInv C nMaxCacheSize after := by
  rw [CheckSigCall.perform, CheckSigCall.answer, checkSig]
  cases signedHash C call.txTo call.nIn call.nHashType call.vchSig call.scriptCode with
  | none => exact ⟨setValid, rfl, inv⟩
  | some signed =>
    obtain ⟨vchSig, sighash⟩ := signed
    dsimp only
    by_cases cached : ⟨sighash, vchSig, call.vchPubKey⟩ ∈ setValid
    · rw [if_pos cached, inv.verified _ cached]
      exact ⟨setValid, rfl, inv⟩
    · rw [if_neg cached]
      cases valid : C.verify call.vchPubKey sighash vchSig with
      | false => exact ⟨setValid, rfl, inv⟩
      | true =>
        obtain ⟨after, run, inv'⟩ := inv.set (k := ⟨sighash, vchSig, call.vchPubKey⟩) valid call.getRandHash
        exact ⟨after, by rw [run]; rfl, inv'⟩

/-- Whatever is checked and whatever is evicted, every call returns what it would without a cache. -/
theorem checkSigs_transparent (C : Crypto) (nMaxCacheSize : Int64) (calls : List CheckSigCall) :
    ∃ setValid, checkSigs C nMaxCacheSize calls = .ok (calls.map (CheckSigCall.answer C), setValid) ∧
      (setValid.size : ℤ) ≤ if nMaxCacheSize ≤ 0 then 0 else nMaxCacheSize.toInt + 1 := by
  have start : CacheInv C nMaxCacheSize ∅ := by
    refine ⟨fun k member => absurd member ExtTreeSet.not_mem_empty, ?_⟩
    split_ifs with off
    · simp
    · rw [Int64.le_iff_toInt_le] at off
      simp at off ⊢
      omega
  obtain ⟨⟨answers, setValid⟩, run, rfl, inv⟩ := foldlM_complete (fun state call => call.append C nMaxCacheSize state)
    calls (fun done state => state.1 = done.map (CheckSigCall.answer C) ∧ CacheInv C nMaxCacheSize state.2)
    ([], ∅) ⟨rfl, start⟩ fun done call rest state split sound => by
      obtain ⟨after, run, inv⟩ := sound.2.perform call
      exact ⟨(state.1 ++ [call.answer C], after), by rw [CheckSigCall.append, run]; rfl, by simp [sound.1], inv⟩
  exact ⟨setValid, run, inv.size⟩

end RitCoin.Proof
