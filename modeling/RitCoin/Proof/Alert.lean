import RitCoin.Model.Alert

namespace RitCoin.Proof
open Lib Model Std

section Alerts
variable (C : Crypto) {now : Int64} {alert this : CAlert} {mapAlerts : AlertMap}
variable {before : Int64} {hash : Uint256} {stored : CAlert} {result : Bool} {after : AlertMap}

theorem cancels_inEffect (cancels : this.cancels now alert = true) : this.isInEffect now = true := by
  rw [CAlert.cancels] at cancels
  by_contra expired
  simp [expired] at cancels

theorem cancels_of_le (earlier : before ≤ now) (cancels : this.cancels now alert = true) :
    this.cancels before alert = true := by
  have inEffect := cancels_inEffect cancels
  have wasInEffect : this.isInEffect before = true := by
    rw [CAlert.isInEffect, decide_eq_true_eq, Int64.lt_iff_toInt_lt] at inEffect ⊢
    rw [Int64.le_iff_toInt_le] at earlier
    omega
  rw [CAlert.cancels, inEffect] at cancels
  rw [CAlert.cancels, wasInEffect]
  exact cancels

theorem cancelPrevious_getElem? (hash : Uint256) :
    (this.cancelPrevious now mapAlerts)[hash]? =
      mapAlerts[hash]?.filter fun alert => !this.cancels now alert && alert.isInEffect now := by
  rw [CAlert.cancelPrevious, ExtTreeMap.getElem?_filter]
  cases mapAlerts[hash]? <;> simp [Option.pfilter, Option.filter]

theorem kept_iff :
    (this.cancelPrevious now mapAlerts)[hash]? = some stored ↔
      mapAlerts[hash]? = some stored ∧ this.cancels now stored = false ∧ stored.isInEffect now = true := by
  rw [cancelPrevious_getElem?, Option.filter_eq_some_iff]
  simp

theorem processAlert_cases (processed : alert.processAlert C now mapAlerts = .ok (result, after)) :
    (result = false ∧ after = mapAlerts) ∨
      ∃ this : CAlert, alert.checkSignature C = .ok (some this) ∧ this.isInEffect now = true ∧
        ((result = false ∧ (∃ (hash : Uint256) (stored : CAlert),
              (this.cancelPrevious now mapAlerts)[hash]? = some stored ∧ stored.cancels now this = true) ∧
            after = this.cancelPrevious now mapAlerts) ∨
          (result = true ∧ (∀ (hash : Uint256) (stored : CAlert), (this.cancelPrevious now mapAlerts)[hash]? = some stored →
              stored.cancels now this = false) ∧
            after = (this.cancelPrevious now mapAlerts).insertIfNew (this.getHash C) this)) := by
  rw [CAlert.processAlert, bind_eq_ok] at processed
  obtain ⟨checked, signature, processed⟩ := processed
  cases checked with
  | none =>
    cases processed
    exact .inl ⟨rfl, rfl⟩
  | some this =>
    dsimp only at processed
    split at processed
    · cases processed
      exact .inl ⟨rfl, rfl⟩
    · rename_i inEffect
      refine .inr ⟨this, signature, by simpa using inEffect, ?_⟩
      split at processed
      · rename_i cancelled
        cases processed
        obtain ⟨⟨hash, stored⟩, found, cancels⟩ := List.any_eq_true.mp cancelled
        exact .inl ⟨rfl, ⟨hash, stored, ExtTreeMap.mem_toList_iff_getElem?_eq_some.mp found, cancels⟩, rfl⟩
      · rename_i uncancelled
        cases processed
        refine .inr ⟨rfl, ?_, rfl⟩
        intro hash stored found
        by_contra cancels
        apply uncancelled
        rw [List.any_eq_true]
        exact ⟨(hash, stored), ExtTreeMap.mem_toList_iff_getElem?_eq_some.mpr found, by simpa using cancels⟩

def NoneCancelled (now : Int64) (mapAlerts : AlertMap) : Prop :=
  ∀ (hash other : Uint256) (stored canceller : CAlert), hash ≠ other → mapAlerts[hash]? = some stored →
    mapAlerts[other]? = some canceller → canceller.cancels now stored = false

theorem noneCancelled_later (earlier : before ≤ now) (none : NoneCancelled before mapAlerts) :
    NoneCancelled now mapAlerts := by
  intro hash other stored canceller differ isStored isCanceller
  by_contra cancels
  have was := cancels_of_le earlier (by simpa using cancels)
  rw [none hash other stored canceller differ isStored isCanceller] at was
  cases was

theorem noneCancelled_cancelPrevious (none : NoneCancelled now mapAlerts) :
    NoneCancelled now (this.cancelPrevious now mapAlerts) := by
  intro hash other stored canceller differ isStored isCanceller
  exact none hash other stored canceller differ (kept_iff.mp isStored).1 (kept_iff.mp isCanceller).1

theorem noneCancelled_insert (none : NoneCancelled now mapAlerts) {key : Uint256}
    (byStored : ∀ (hash : Uint256) (stored : CAlert), mapAlerts[hash]? = some stored → stored.cancels now this = false)
    (ofStored : ∀ (hash : Uint256) (stored : CAlert), mapAlerts[hash]? = some stored → this.cancels now stored = false) :
    NoneCancelled now (mapAlerts.insertIfNew key this) := by
  intro hash other stored canceller differ isStored isCanceller
  rw [ExtTreeMap.getElem?_insertIfNew] at isStored isCanceller
  split at isStored
  · rename_i new
    cases isStored
    have ne : ¬ compare key other = .eq := by
      rw [Std.compare_eq_iff_eq] at new ⊢
      rintro rfl
      exact differ new.1.symm
    rw [if_neg (fun both => ne both.1)] at isCanceller
    exact byStored other canceller isCanceller
  · split at isCanceller
    · cases isCanceller
      exact ofStored hash stored isStored
    · exact none hash other stored canceller differ isStored isCanceller

theorem processAlert_noneCancelled (none : NoneCancelled now mapAlerts)
    (processed : alert.processAlert C now mapAlerts = .ok (result, after)) : NoneCancelled now after := by
  rcases processAlert_cases C processed with ⟨-, rfl⟩ | ⟨this, -, -, ⟨-, -, rfl⟩ | ⟨-, byStored, rfl⟩⟩
  · exact none
  · exact noneCancelled_cancelPrevious none
  · refine noneCancelled_insert (noneCancelled_cancelPrevious none) byStored ?_
    intro hash stored found
    exact (kept_iff.mp found).2.1

theorem alertRun_noneCancelled (calls : List (Int64 × CAlert)) :
    (calls.map Prod.fst).Pairwise (· ≤ ·) → ∀ now, (∀ call ∈ calls, call.1 ≤ now) →
      NoneCancelled now (alertRun C calls) := by
  induction calls using List.reverseRecOn with
  | nil =>
    intro _ now _ hash other stored canceller _ isStored
    simp [alertRun] at isStored
  | append_singleton calls call ih =>
    intro ordered now past
    rw [List.map_append, List.pairwise_append] at ordered
    obtain ⟨before, -, upTo⟩ := ordered
    have until_call : ∀ earlier ∈ calls, earlier.1 ≤ call.1 := fun earlier mem =>
      upTo earlier.1 (List.mem_map_of_mem mem) call.1 (by simp)
    have none := ih before call.1 until_call
    have later := past call (by simp)
    have step : alertRun C (calls ++ [call]) = alertCall C (alertRun C calls) call := by
      rw [alertRun, List.foldl_append]
      rfl
    rw [step, alertCall]
    split
    · rename_i result after processed
      exact noneCancelled_later later (processAlert_noneCancelled C none processed)
    · exact noneCancelled_later later none

theorem accepted_noneCancelled (calls : List (Int64 × CAlert))
    (ordered : ((calls ++ [(now, alert)]).map Prod.fst).Pairwise (· ≤ ·)) {after : AlertMap}
    (accepted : alert.processAlert C now (alertRun C calls) = .ok (true, after)) : NoneCancelled now after := by
  rw [List.map_append, List.pairwise_append] at ordered
  obtain ⟨before, -, upTo⟩ := ordered
  refine processAlert_noneCancelled C (alertRun_noneCancelled C calls before now ?_) accepted
  intro call mem
  exact upTo call.1 (List.mem_map_of_mem mem) now (by simp)

def sumCrypto : Crypto where
  ripemd160 _ := List.Vector.replicate 20 0
  sha1 _ := List.Vector.replicate 20 0
  sha256 bytes := bytes.sum ::ᵥ List.Vector.replicate 31 0
  verify _ _ _ := true

def toyFields (nID nCancel : Int32) (setCancel : List Int32) : CUnsignedAlert :=
  ⟨1, 0, 100, nID, nCancel, setCancel, 0, 0, [], 0, [], [], []⟩

def toyMessage (nID nCancel : UInt8) (setCancel : List UInt8) : List UInt8 :=
  [1, 0, 0, 0] ++ List.replicate 8 0 ++ [100, 0, 0, 0, 0, 0, 0, 0] ++ [nID, 0, 0, 0] ++ [nCancel, 0, 0, 0] ++
    (UInt8.ofNat setCancel.length :: setCancel.flatMap fun n => [n, 0, 0, 0]) ++ List.replicate 16 0

def toyAlert (vchMsg : List UInt8) : CAlert := ⟨toyFields 0 0 [], vchMsg, []⟩

def firstAlert : CAlert := toyAlert (toyMessage 1 0 [])

def secondAlert : CAlert := toyAlert (toyMessage 5 0 [3])

def thirdAlert : CAlert := toyAlert (toyMessage 3 1 [])

theorem secondAlert_noneCancelled : ∃ after, secondAlert.processAlert sumCrypto 10
    (alertRun sumCrypto [(7, firstAlert)]) = .ok (true, after) ∧ after.size = 2 ∧ NoneCancelled 10 after := by
  have ran : (secondAlert.processAlert sumCrypto 10 (alertRun sumCrypto [(7, firstAlert)])).toOption.map
      (fun result => (result.1, result.2.size)) = some (true, 2) := by decide +kernel
  cases accepted : secondAlert.processAlert sumCrypto 10 (alertRun sumCrypto [(7, firstAlert)]) with
  | error failure =>
    rw [accepted] at ran
    cases ran
  | ok result =>
    obtain ⟨returned, after⟩ := result
    rw [accepted] at ran
    obtain ⟨rfl, size⟩ := Prod.mk.inj (Option.some.inj ran)
    exact ⟨after, rfl, size, accepted_noneCancelled sumCrypto [(7, firstAlert)] (by decide) accepted⟩

theorem processAlert_refused (signed : alert.checkSignature C = .ok (some this))
    (inEffect : this.isInEffect now = true) (kept : (this.cancelPrevious now mapAlerts)[hash]? = some stored)
    (cancels : stored.cancels now this = true) :
    alert.processAlert C now mapAlerts = .ok (false, this.cancelPrevious now mapAlerts) := by
  have cancelled : ((this.cancelPrevious now mapAlerts).toList.any fun item => item.2.cancels now this) = true :=
    List.any_eq_true.mpr ⟨(hash, stored), ExtTreeMap.mem_toList_iff_getElem?_eq_some.mpr kept, cancels⟩
  rw [CAlert.processAlert, signed, ok_bind]
  simp only [inEffect, Bool.not_true, Bool.false_eq_true, if_false, cancelled, if_true]
  rfl

/-- Nothing in effect is lost in a refused call exactly when the alert is out of effect, cancels nothing in
effect, or is cancelled by nothing but what it cancels itself. -/
theorem refused_keeps_iff (signed : alert.checkSignature C = .ok (some this)) :
    (∀ after, alert.processAlert C now mapAlerts = .ok (false, after) → ∀ (hash : Uint256) (stored : CAlert),
        mapAlerts[hash]? = some stored → stored.isInEffect now = true → after[hash]? = some stored) ↔
      this.isInEffect now = false ∨
        (∀ (hash : Uint256) (stored : CAlert), mapAlerts[hash]? = some stored → stored.isInEffect now = true →
          this.cancels now stored = false) ∨
        ∀ (hash : Uint256) (stored : CAlert), mapAlerts[hash]? = some stored → this.cancels now stored = false →
          stored.cancels now this = false := by
  constructor
  · intro keeps
    by_contra lost
    push Not at lost
    obtain ⟨inEffect, ⟨hash, stored, isStored, storedInEffect, cancelled⟩, other, canceller, isCanceller, stays,
      cancels⟩ := lost
    rw [ne_eq, Bool.not_eq_false] at inEffect cancelled cancels
    have kept := kept_iff.mpr ⟨isCanceller, stays, cancels_inEffect cancels⟩
    have still := keeps _ (processAlert_refused C signed inEffect kept cancels) hash stored isStored storedInEffect
    rw [(kept_iff.mp still).2.1] at cancelled
    cases cancelled
  · intro harmless after refused hash stored isStored inEffect
    rcases processAlert_cases C refused with ⟨-, rfl⟩ | ⟨same, signed', thisInEffect, ⟨-, found, rfl⟩ | ⟨wrong, -⟩⟩
    · exact isStored
    · obtain rfl : this = same := by
        rw [signed, Except.ok.injEq, Option.some.injEq] at signed'
        exact signed'
      obtain ⟨other, canceller, isKept, cancels⟩ := found
      obtain ⟨isCanceller, stays, -⟩ := kept_iff.mp isKept
      rcases harmless with expired | cancelsNone | byNone
      · rw [expired] at thisInEffect
        cases thisInEffect
      · exact kept_iff.mpr ⟨isStored, cancelsNone hash stored isStored inEffect, inEffect⟩
      · rw [byNone other canceller isCanceller stays] at cancels
        cases cancels
    · cases wrong

end Alerts

theorem secondAlert_kept : ∃ this, thirdAlert.checkSignature sumCrypto = .ok (some this) ∧
    ∀ after, thirdAlert.processAlert sumCrypto 10 (alertRun sumCrypto [(7, secondAlert)]) = .ok (false, after) →
      ∀ (hash : Uint256) (stored : CAlert), (alertRun sumCrypto [(7, secondAlert)])[hash]? = some stored →
        stored.isInEffect 10 = true → after[hash]? = some stored := by
  have signed : thirdAlert.checkSignature sumCrypto =
      .ok (some { thirdAlert with toCUnsignedAlert := toyFields 3 1 [] }) := by decide +kernel
  refine ⟨_, signed, (refused_keeps_iff sumCrypto signed).mpr (.inr (.inl ?_))⟩
  have none : (alertRun sumCrypto [(7, secondAlert)]).toList.all (fun item =>
      !CAlert.cancels 10 { thirdAlert with toCUnsignedAlert := toyFields 3 1 [] } item.2) = true := by decide +kernel
  intro hash stored found _
  have := List.all_eq_true.mp none (hash, stored) (ExtTreeMap.mem_toList_iff_getElem?_eq_some.mpr found)
  simpa using this

theorem firstAlert_lost :
    (match thirdAlert.processAlert sumCrypto 10 (alertRun sumCrypto [(7, firstAlert), (8, secondAlert)]) with
      | .ok (refused, after) => (refused, after.toList.map fun item => item.2.nID)
      | .error _ => (true, [])) = (false, [5]) ∧
    ((alertRun sumCrypto [(7, firstAlert), (8, secondAlert)]).toList.map fun item =>
      (item.2.nID, item.2.isInEffect 10)) = [(1, true), (5, true)] := by decide +kernel

end RitCoin.Proof
