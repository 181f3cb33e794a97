import RitCoin.Proof.EvalScript

namespace RitCoin.Proof
open Lib Model

theorem isPayToScriptHash_iff {script : CScript} :
    isPayToScriptHash script = true ↔
      ∃ hash : List UInt8, hash.length = 20 ∧ script = OP_HASH160 :: 0x14 :: (hash ++ [OP_EQUAL]) := by
  constructor
  · intro matched
    simp only [isPayToScriptHash, Bool.and_eq_true, beq_iff_eq] at matched
    obtain ⟨⟨⟨length, first⟩, second⟩, last⟩ := matched
    obtain ⟨op, count, rest, rfl⟩ : ∃ op count rest, script = op :: count :: rest := by
      match script, length with
      | op :: count :: rest, _ => exact ⟨op, count, rest, rfl⟩
    have nonempty : rest ≠ [] := by
      rintro rfl
      simp at length
    simp only [List.length_cons] at length
    simp only [List.getElem?_cons_zero, Option.some.injEq, List.getElem?_cons_succ] at first second last
    have final : rest.getLast nonempty = OP_EQUAL := by
      rw [List.getLast_eq_getElem, ← Option.some_inj, ← List.getElem?_eq_getElem]
      have : rest.length - 1 = 20 := by omega
      rw [this, last]
    refine ⟨rest.dropLast, by rw [List.length_dropLast]; omega, ?_⟩
    rw [first, second, ← final, List.dropLast_append_getLast]
  · rintro ⟨hash, length, rfl⟩
    simp [isPayToScriptHash, length]

section Verify
variable (C : Crypto) (checkSig : SigChecker) (scriptSig scriptPubKey : CScript)

inductive Evaluates (fValidatePayToScriptHash : Bool) : Stack → CScript → Prop
  | scriptSig : Evaluates fValidatePayToScriptHash [] scriptSig
  | scriptPubKey {stack : Stack} :
      (callEvalScript C checkSig [] scriptSig).result = .ok (some stack) →
      Evaluates fValidatePayToScriptHash stack scriptPubKey
  | redeem {pubKeySerialized : Valtype} {stack : Stack} : fValidatePayToScriptHash = true →
      isPayToScriptHash scriptPubKey = true → isPushOnly scriptSig = true →
      (verifyPubKey C checkSig scriptSig scriptPubKey).result = .ok (some (pubKeySerialized :: stack)) →
      Evaluates fValidatePayToScriptHash stack pubKeySerialized

theorem evalScript_hash160_nil (rest : CScript) (after : Stack) :
    (evalScript C checkSig [] (OP_HASH160 :: rest)).result ≠ .ok after := by
  have first : ((Machine.start [] (OP_HASH160 :: rest)).step C checkSig).result = .error .fail := rfl
  exact evalScript_ne_ok C checkSig (List.cons_ne_nil _ _) (by simp [first]) after

theorem verifyPubKey_eq_some {stackCopy : Stack} :
    (verifyPubKey C checkSig scriptSig scriptPubKey).result = .ok (some stackCopy) ↔
      (evalScript C checkSig [] scriptSig).result = .ok stackCopy ∧
      ∃ back rest, (evalScript C checkSig stackCopy scriptPubKey).result = .ok (back :: rest) ∧
        castToBool back = true := by
  rw [verifyPubKey, Metered.result_bind, bind_eq_ok]
  constructor
  · rintro ⟨_ | stack, first, ended⟩
    · cases ended
    · simp only [Metered.result_bind, bind_eq_ok] at ended
      obtain ⟨_ | _ | ⟨back, rest⟩, second, ended⟩ := ended
      · cases ended
      · cases ended
      · simp only [Metered.result_pure, Except.ok.injEq] at ended
        split_ifs at ended with valid
        obtain rfl : stack = stackCopy := Option.some.inj ended
        rw [callEvalScript_eq_some] at first second
        exact ⟨first, back, rest, second, valid⟩
  · rintro ⟨first, back, rest, second, valid⟩
    rw [← callEvalScript_eq_some] at first second
    refine ⟨some stackCopy, first, ?_⟩
    simp only [Metered.result_bind, bind_eq_ok]
    refine ⟨some (back :: rest), second, ?_⟩
    simp [valid]

variable {scriptSig scriptPubKey} {stackCopy : Stack}

theorem limited_nil : Limited [] := ⟨Nat.zero_le _, nofun⟩

theorem verifyPubKey_limited
    (verified : (verifyPubKey C checkSig scriptSig scriptPubKey).result = .ok (some stackCopy)) :
    Limited stackCopy :=
  (safe_evalScript C checkSig scriptSig limited_nil).ok _ ((verifyPubKey_eq_some C checkSig _ _).mp verified).1

theorem verifyPubKey_ne_nil (payToScriptHash : isPayToScriptHash scriptPubKey = true)
    (verified : (verifyPubKey C checkSig scriptSig scriptPubKey).result = .ok (some stackCopy)) :
    stackCopy ≠ [] := by
  rintro rfl
  obtain ⟨-, back, rest, ended, -⟩ := (verifyPubKey_eq_some C checkSig _ _).mp verified
  obtain ⟨hash, -, rfl⟩ := isPayToScriptHash_iff.mp payToScriptHash
  exact evalScript_hash160_nil C checkSig _ _ ended

theorem Evaluates.limited {fValidatePayToScriptHash : Bool} {stack : Stack} {script : CScript}
    (evaluates : Evaluates C checkSig scriptSig scriptPubKey fValidatePayToScriptHash stack script) :
    Limited stack := by
  cases evaluates with
  | scriptSig => exact limited_nil
  | scriptPubKey ended =>
    rw [callEvalScript_eq_some] at ended
    exact (safe_evalScript C checkSig scriptSig limited_nil).ok _ ended
  | redeem _ _ _ verified =>
    have whole := verifyPubKey_limited C checkSig verified
    exact ⟨Nat.le_of_succ_le whole.depth, fun vch member => whole.small vch (List.mem_cons_of_mem _ member)⟩

theorem callEvalScript_returns {stack : Stack} (limited : Limited stack) (script : CScript) :
    ∃ after, (callEvalScript C checkSig stack script).result = .ok after := by
  have safe := safe_evalScript C checkSig script limited
  rw [callEvalScript, Metered.result_attempt]
  cases ended : (evalScript C checkSig stack script).result with
  | ok after => exact ⟨_, rfl⟩
  | error halt =>
    rcases safe.fails halt ended with rfl | rfl
    · exact ⟨_, rfl⟩
    · exact ⟨_, rfl⟩

variable (scriptSig scriptPubKey)

theorem verifyPubKey_returns :
    ∃ stackCopy, (verifyPubKey C checkSig scriptSig scriptPubKey).result = .ok stackCopy := by
  obtain ⟨after, first⟩ := callEvalScript_returns C checkSig limited_nil scriptSig
  rw [verifyPubKey, Metered.result_bind, first]
  cases after with
  | none => exact ⟨none, rfl⟩
  | some stackCopy =>
    have evaluates : Evaluates C checkSig scriptSig scriptPubKey true stackCopy scriptPubKey := .scriptPubKey first
    have limited := evaluates.limited
    obtain ⟨after, second⟩ := callEvalScript_returns C checkSig limited scriptPubKey
    change ∃ _, (callEvalScript C checkSig stackCopy scriptPubKey >>= _).result = _
    rw [Metered.result_bind, second]
    rcases after with _ | _ | ⟨back, rest⟩
    · exact ⟨none, rfl⟩
    · exact ⟨none, rfl⟩
    · exact ⟨_, rfl⟩

theorem verifyScriptWith_returns (fValidatePayToScriptHash : Bool) :
    ∃ verified, (verifyScriptWith C checkSig scriptSig scriptPubKey fValidatePayToScriptHash).result =
      .ok verified := by
  obtain ⟨after, first⟩ := verifyPubKey_returns C checkSig scriptSig scriptPubKey
  rw [verifyScriptWith, Metered.result_bind, first]
  rcases after with _ | stackCopy
  · exact ⟨false, rfl⟩
  · change ∃ verified, Metered.result (if fValidatePayToScriptHash && isPayToScriptHash scriptPubKey then
      if isPushOnly scriptSig then verifyRedeem C checkSig stackCopy else pure false
      else pure true) = .ok verified
    split_ifs with payToScriptHash pushOnly
    · rw [Bool.and_eq_true] at payToScriptHash
      cases stackCopy with
      | nil => exact absurd rfl (verifyPubKey_ne_nil C checkSig payToScriptHash.2 first)
      | cons pubKeySerialized stack =>
        have limited := (Evaluates.redeem payToScriptHash.1 payToScriptHash.2 pushOnly first).limited
        obtain ⟨after, third⟩ := callEvalScript_returns C checkSig limited pubKeySerialized
        rw [verifyRedeem, Metered.result_bind, third]
        rcases after with _ | _ | ⟨back, rest⟩
        · exact ⟨false, rfl⟩
        · exact ⟨false, rfl⟩
        · exact ⟨_, rfl⟩
    · exact ⟨false, rfl⟩
    · exact ⟨true, rfl⟩

variable {scriptSig scriptPubKey}

theorem verifyScriptWith_plain (plain : isPayToScriptHash scriptPubKey = false)
    (verified : (verifyPubKey C checkSig scriptSig scriptPubKey).result = .ok (some stackCopy))
    (fValidatePayToScriptHash : Bool) :
    (verifyScriptWith C checkSig scriptSig scriptPubKey fValidatePayToScriptHash).result = .ok true := by
  rw [verifyScriptWith, Metered.result_bind, verified, ok_bind]
  simp [plain]

theorem verifyScriptWith_redeem (payToScriptHash : isPayToScriptHash scriptPubKey = true)
    (pushOnly : isPushOnly scriptSig = true) {pubKeySerialized back : Valtype} {stack rest : Stack}
    (verified : (verifyPubKey C checkSig scriptSig scriptPubKey).result = .ok (some (pubKeySerialized :: stack)))
    (redeemed : (evalScript C checkSig stack pubKeySerialized).result = .ok (back :: rest))
    (valid : castToBool back = true) :
    (verifyScriptWith C checkSig scriptSig scriptPubKey true).result = .ok true := by
  rw [← callEvalScript_eq_some] at redeemed
  rw [verifyScriptWith, Metered.result_bind, verified, ok_bind]
  simp only [payToScriptHash, pushOnly, Bool.and_self, if_true, verifyRedeem, Metered.result_bind, redeemed, ok_bind]
  rw [valid]
  rfl

variable (scriptSig scriptPubKey)

/-- What `VerifyScript` keeps to: at every round of its evaluations the stacks are within their limits,
no element is longer even where the round then finds too many of them, and a round that stops does so
by a check or by a number that is too long, never by reading below a stack. -/
structure KeepsWithin (fValidatePayToScriptHash : Bool) : Prop where
  round : ∀ stack script m,
    Evaluates C checkSig scriptSig scriptPubKey fValidatePayToScriptHash stack script →
    Reaches C checkSig (.start stack script) m → Within m
  element : ∀ stack script m opcode vchPushValue nOpCount pc after,
    Evaluates C checkSig scriptSig scriptPubKey fValidatePayToScriptHash stack script →
    Reaches C checkSig (.start stack script) m →
    vchPushValue.length ≤ 520 →
    ({ m with pc := pc, nOpCount := nOpCount }.dispatch C checkSig opcode vchPushValue).result = .ok after →
    ∀ vch ∈ after.stack ++ after.altstack, vch.length ≤ 520
  stops : ∀ stack script m halt,
    Evaluates C checkSig scriptSig scriptPubKey fValidatePayToScriptHash stack script →
    Reaches C checkSig (.start stack script) m →
    (m.step C checkSig).result = .error halt → halt = .fail ∨ halt = .overflow
  redeem : isPayToScriptHash scriptPubKey = true →
    (verifyPubKey C checkSig scriptSig scriptPubKey).result ≠ .ok (some [])
  returns : ∃ verified,
    (verifyScriptWith C checkSig scriptSig scriptPubKey fValidatePayToScriptHash).result = .ok verified

end Verify

theorem verifyScript_keepsWithin (C : Crypto) (scriptSig scriptPubKey : CScript) (txTo : CTransaction)
    (nIn : ℕ) (fValidatePayToScriptHash : Bool) (nHashType : Int32) :
    KeepsWithin C (checkSig C txTo nIn nHashType) scriptSig scriptPubKey fValidatePayToScriptHash where
  round stack script m evaluates reaches := reaches.within _ _ (evaluates.limited.start script)
  element stack script m opcode vchPushValue nOpCount pc after evaluates reaches short dispatched := by
    have within := reaches.within _ _ (evaluates.limited.start script)
    have moved : Within { m with pc := pc, nOpCount := nOpCount } := ⟨within.depth, within.small⟩
    intro vch member
    rcases ((safe_dispatch _ _ moved opcode short).ok after dispatched).small vch member with old | short
    · exact within.small vch old
    · exact short
  stops stack script m halt evaluates reaches stopped :=
    (safe_step _ _ (reaches.within _ _ (evaluates.limited.start script))).fails halt stopped
  redeem payToScriptHash empty := verifyPubKey_ne_nil _ _ payToScriptHash empty rfl
  returns := verifyScriptWith_returns _ _ _ _ _

end RitCoin.Proof
