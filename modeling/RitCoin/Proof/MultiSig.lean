import RitCoin.Lib.Matching
import RitCoin.Proof.EvalScript

namespace RitCoin.Proof
open Lib Model

theorem stacktop_append (above : Stack) (vch : Valtype) (below : Stack) :
    stacktop (above ++ vch :: below) (above.length + 1) = .ok vch := by
  rw [stacktop, List.getElem?_append_right le_rfl, Nat.sub_self]
  rfl

theorem popstacks_append (above below : Stack) : popstacks above.length (above ++ below) = .ok below := by
  induction above with
  | nil => rfl
  | cons vch above ih => exact ih

def withoutSigs (scriptCode : CScript) (sigs : List Valtype) : CScript :=
  sigs.foldl (fun scriptCode vchSig => (findAndDelete scriptCode (pushData vchSig)).1) scriptCode

theorem dropSigs_append (below : Stack) : ∀ (sigs : List Valtype) (above : Stack) (scriptCode : CScript),
    dropSigs (above ++ (sigs ++ below)) sigs.length (above.length + 1) scriptCode =
      .ok (withoutSigs scriptCode sigs) := by
  intro sigs
  induction sigs with
  | nil => exact fun _ _ => rfl
  | cons vchSig sigs ih =>
    intro above scriptCode
    have rest := ih (above ++ [vchSig]) (findAndDelete scriptCode (pushData vchSig)).1
    rw [List.append_assoc, List.length_append] at rest
    rw [List.length_cons, dropSigs, List.cons_append, stacktop_append]
    exact rest

section
variable (checkSig : SigChecker) (scriptCode : CScript)

theorem matchSigs_succ {stack : Stack} {isig ikey nSigsCount nKeysCount : ℕ} {vchSig vchPubKey : Valtype}
    (topSig : stacktop stack isig = .ok vchSig) (topKey : stacktop stack ikey = .ok vchPubKey) :
    (matchSigs checkSig stack scriptCode isig ikey (nSigsCount + 1) (nKeysCount + 1)).result =
      if checkSig vchSig vchPubKey scriptCode then
        if nSigsCount > nKeysCount then .ok false
        else (matchSigs checkSig stack scriptCode (isig + 1) (ikey + 1) nSigsCount nKeysCount).result
      else if nSigsCount + 1 > nKeysCount then .ok false
        else (matchSigs checkSig stack scriptCode isig (ikey + 1) (nSigsCount + 1) nKeysCount).result := by
  rw [matchSigs, topSig, topKey]
  simp only [Metered.result_bind, Metered.result_lift, Metered.result_pay]
  change Metered.result (if _ then _ else _) = _
  cases checkSig vchSig vchPubKey scriptCode with
  | true =>
    simp only [if_true]
    split_ifs <;> rfl
  | false =>
    simp only [Bool.false_eq_true, if_false]
    split_ifs <;> rfl

theorem matchSigs_append (stack : Stack) : ∀ (keys sigs aboveSigs belowSigs aboveKeys belowKeys : List Valtype),
    sigs.length ≤ keys.length → stack = aboveSigs ++ (sigs ++ belowSigs) →
    stack = aboveKeys ++ (keys ++ belowKeys) →
    (matchSigs checkSig stack scriptCode (aboveSigs.length + 1) (aboveKeys.length + 1) sigs.length
        keys.length).result =
      .ok (matchGreedily (fun vchSig vchPubKey => checkSig vchSig vchPubKey scriptCode) sigs keys) := by
  intro keys
  induction keys with
  | nil =>
    intro sigs _ _ _ _ few _ _
    obtain rfl : sigs = [] := List.eq_nil_of_length_eq_zero (Nat.le_zero.mp few)
    rw [List.length_nil, matchSigs, matchGreedily]
    rfl
  | cons vchPubKey keys ih =>
    intro sigs aboveSigs belowSigs aboveKeys belowKeys few splitSigs splitKeys
    cases sigs with
    | nil =>
      rw [List.length_nil, matchSigs, matchGreedily]
      rfl
    | cons vchSig sigs =>
      have topSig : stacktop stack (aboveSigs.length + 1) = .ok vchSig := by
        rw [splitSigs, List.cons_append, stacktop_append]
      have topKey : stacktop stack (aboveKeys.length + 1) = .ok vchPubKey := by
        rw [splitKeys, List.cons_append, stacktop_append]
      have nextKeys : stack = (aboveKeys ++ [vchPubKey]) ++ (keys ++ belowKeys) := by simp [splitKeys]
      rw [List.length_cons, List.length_cons, matchSigs_succ checkSig scriptCode topSig topKey, matchGreedily]
      -- what is left of the signatures is matched with the other keys, unless they are too few
      split_ifs with valid more more
      · rw [matchGreedily_of_length_lt more]
      · have nextSigs : stack = (aboveSigs ++ [vchSig]) ++ (sigs ++ belowSigs) := by simp [splitSigs]
        have rest := ih sigs _ _ _ _ (Nat.not_lt.mp more) nextSigs nextKeys
        rwa [List.length_append, List.length_append] at rest
      · rw [matchGreedily_of_length_lt more]
      · have rest := ih (vchSig :: sigs) _ _ _ _ (Nat.not_lt.mp more) splitSigs nextKeys
        rwa [List.length_append] at rest

end

theorem getint_natCast {n : ℕ} (small : n ≤ 20) : getint n = n := by
  rw [getint, if_pos (Int.natCast_nonneg n), if_neg (by rw [INT_MAX]; omega)]

section
variable (checkSig : SigChecker)

theorem opCheckMultiSig_eq (m : Machine) (fVerify : Bool) (keys sigs : List Valtype) {vchKeys vchSigs : Valtype}
    {below : List Valtype} (keyCount : castToBigNum vchKeys = .ok keys.length)
    (sigCount : castToBigNum vchSigs = .ok sigs.length) (keyLimit : keys.length ≤ 20)
    (few : sigs.length ≤ keys.length)
    (stack : m.stack = vchKeys :: (keys ++ vchSigs :: (sigs ++ below))) {fSuccess : Bool}
    (greedy : matchGreedily (fun vchSig vchPubKey =>
      checkSig vchSig vchPubKey (withoutSigs m.pbegincodehash sigs)) sigs keys = fSuccess) :
    (m.opCheckMultiSig checkSig fVerify).result =
      if m.nOpCount + keys.length > 201 ∨ below = [] then .error .fail
      else (verifyTop fVerify fSuccess (vchBool fSuccess :: below.tail)).map fun stack =>
        { m with stack := stack, nOpCount := m.nOpCount + keys.length } := by
  have top : stacktop m.stack 1 = .ok vchKeys := by rw [stack]; rfl
  have length : m.stack.length = 2 + keys.length + sigs.length + below.length := by
    simp only [stack, List.length_cons, List.length_append]
    omega
  have second : stacktop m.stack (2 + keys.length) = .ok vchSigs := by
    have := stacktop_append (vchKeys :: keys) vchSigs (sigs ++ below)
    rw [List.cons_append, List.length_cons, ← stack] at this
    rw [← this]
    congr 1
    omega
  have code : dropSigs m.stack sigs.length (2 + keys.length + 1) m.pbegincodehash =
      .ok (withoutSigs m.pbegincodehash sigs) := by
    have := dropSigs_append below sigs (vchKeys :: (keys ++ [vchSigs])) m.pbegincodehash
    simp only [List.cons_append, List.append_assoc, List.nil_append, List.length_cons, List.length_append,
      List.length_nil, ← stack] at this
    rw [← this]
    congr 1
    omega
  have loop : (matchSigs checkSig m.stack (withoutSigs m.pbegincodehash sigs) (2 + keys.length + 1) 2
      sigs.length keys.length).result = .ok fSuccess := by
    have := matchSigs_append checkSig (withoutSigs m.pbegincodehash sigs) m.stack keys sigs
      (vchKeys :: (keys ++ [vchSigs])) below [vchKeys] (vchSigs :: (sigs ++ below)) few
      (by simp [stack]) (by simp [stack])
    rw [← greedy, ← this]
    congr 2
    simp only [List.length_cons, List.length_append, List.length_nil]
    omega
  simp only [Machine.opCheckMultiSig, Metered.result_bind, Metered.result_lift]
  rw [need, failIf_of_not (by omega), ok_bind, top, ok_bind, keyCount, ok_bind, getint_natCast keyLimit,
    failIf_of_not (by omega), ok_bind, Int.toNat_natCast]
  by_cases limit : m.nOpCount + keys.length > 201
  · rw [failIf, if_pos limit, error_bind, if_pos (.inl limit)]
  · rw [failIf_of_not limit, ok_bind, need, failIf_of_not (by omega), ok_bind, second, ok_bind, sigCount, ok_bind,
      getint_natCast (by omega), failIf_of_not (by omega), ok_bind, Int.toNat_natCast, need]
    cases below with
    | nil =>
      rw [List.length_nil] at length
      rw [failIf, if_pos (by omega), error_bind, if_pos (.inr rfl)]
    | cons dummy rest =>
      have popped : popstacks (2 + keys.length + 1 + sigs.length) m.stack = .ok rest := by
        have := popstacks_append (vchKeys :: (keys ++ vchSigs :: (sigs ++ [dummy]))) rest
        simp only [List.cons_append, List.append_assoc, List.nil_append, List.length_cons, List.length_append,
          List.length_nil, ← stack] at this
        rw [← this]
        congr 1
        omega
      rw [List.length_cons] at length
      rw [failIf_of_not (by omega), ok_bind, code, ok_bind]
      rw [loop, ok_bind, popped, ok_bind, if_neg (by simp [limit]), List.tail_cons]
      cases verifyTop fVerify fSuccess (vchBool fSuccess :: rest) <;> rfl

/-- `OP_CHECKMULTISIG` with the signatures and keys in the order in which they were pushed: unless the
count of operations is exhausted or the extra element below is missing, it pushes whether the
signatures can be matched to the keys in order. -/
theorem opCheckMultiSig_iff (m : Machine) {vchKeys vchSigs : Valtype} {keys sigs below : List Valtype}
    (keyCount : castToBigNum vchKeys = .ok keys.length) (sigCount : castToBigNum vchSigs = .ok sigs.length)
    (keyLimit : keys.length ≤ 20) (few : sigs.length ≤ keys.length)
    (stack : m.stack = vchKeys :: (keys.reverse ++ vchSigs :: (sigs.reverse ++ below))) :
    ∃ fSuccess : Bool,
      (m.opCheckMultiSig checkSig false).result =
        (if m.nOpCount + keys.length > 201 ∨ below = [] then .error .fail
        else .ok { m with
          stack := vchBool fSuccess :: below.tail
          nOpCount := m.nOpCount + keys.length }) ∧
      (fSuccess = true ↔ MatchesInOrder (fun vchSig vchPubKey =>
        checkSig vchSig vchPubKey (withoutSigs m.pbegincodehash sigs.reverse) = true) sigs keys) := by
  refine ⟨_, ?_, (matchGreedily_iff _ _ _).trans matchesInOrder_reverse⟩
  have opcode := opCheckMultiSig_eq checkSig m false keys.reverse sigs.reverse
    (by rwa [List.length_reverse]) (by rwa [List.length_reverse]) (by rwa [List.length_reverse])
    (by rwa [List.length_reverse, List.length_reverse]) stack rfl
  rw [List.length_reverse] at opcode
  exact opcode

theorem opCheckMultiSig_two_of_three :
    ∃ fSuccess : Bool,
      (Machine.opCheckMultiSig (fun vchSig vchPubKey _ => vchSig == vchPubKey)
          (.start [[3], [7], [6], [5], [2], [7], [5], []] []) false).result =
        .ok { Machine.start [vchBool fSuccess] [] with nOpCount := 3 } ∧
      (fSuccess = true ↔
        MatchesInOrder (fun vchSig vchPubKey : Valtype => (vchSig == vchPubKey) = true) [[5], [7]] [[5], [6], [7]]) :=
  have keyCount : castToBigNum [3] = .ok ([[5], [6], [7]] : List Valtype).length := by decide
  have sigCount : castToBigNum [2] = .ok ([[5], [7]] : List Valtype).length := by decide
  opCheckMultiSig_iff _ (.start [[3], [7], [6], [5], [2], [7], [5], []] []) keyCount sigCount (by decide) (by decide)
    rfl

end

end RitCoin.Proof
