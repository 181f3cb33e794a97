import RitCoin.Proof.VerifyScript

namespace RitCoin.Proof
open Lib Model
variable {opcode : UInt8}

def opSigOps (fAccurate : Bool) (lastOpcode opcode : UInt8) : ℕ :=
  if opcode = OP_CHECKSIG ∨ opcode = OP_CHECKSIGVERIFY then 1
  else if opcode = OP_CHECKMULTISIG ∨ opcode = OP_CHECKMULTISIGVERIFY then
    if fAccurate ∧ OP_1 ≤ lastOpcode ∧ lastOpcode ≤ OP_16 then decodeOpN lastOpcode else 20
  else 0

theorem opSigOps_le (lastOpcode opcode : UInt8) :
    opSigOps true lastOpcode opcode ≤ opSigOps false lastOpcode opcode := by
  simp only [opSigOps, true_and, Bool.false_eq_true, false_and, if_false]
  split_ifs with one several number
  · exact le_rfl
  · exact (decodeOpN_le number.2).trans (by decide)
  · exact le_rfl
  · exact le_rfl

theorem countSigOps_le : ∀ (opcodes : List UInt8) (lastOpcode : UInt8),
    countSigOps true lastOpcode opcodes ≤ countSigOps false lastOpcode opcodes := by
  intro opcodes
  induction opcodes with
  | nil => exact fun _ => le_rfl
  | cons opcode opcodes ih => exact fun lastOpcode => Nat.add_le_add (opSigOps_le lastOpcode opcode) (ih opcode)

section Cost
variable (C : Crypto) (checkSig : SigChecker)
variable {lastOpcode : UInt8} {m : Machine}

/-- If the opcode before was a small number and is being executed, the number is on top. -/
def Follows (lastOpcode : UInt8) (m : Machine) : Prop :=
  OP_1 ≤ lastOpcode → lastOpcode ≤ OP_16 → m.fExec = true →
    m.stack.head? = some (getvch (decodeOpN lastOpcode))

theorem castToBigNum_number (low : OP_1 ≤ opcode) (high : opcode ≤ OP_16) :
    castToBigNum (getvch (decodeOpN opcode)) = .ok (decodeOpN opcode) := by
  revert opcode
  decide +kernel

theorem cost_multiSig (follows : Follows lastOpcode m) (exec : m.fExec = true) (fVerify : Bool) :
    (m.opCheckMultiSig checkSig fVerify).cost ≤
      if OP_1 ≤ lastOpcode ∧ lastOpcode ≤ OP_16 then decodeOpN lastOpcode else 20 := by
  refine cost_opCheckMultiSig checkSig m fVerify fun vch bn top number nonneg few => ?_
  split_ifs with small
  · have head := follows small.1 small.2 exec
    obtain ⟨rest, stack⟩ : ∃ rest, m.stack = getvch (decodeOpN lastOpcode) :: rest := by
      cases split : m.stack with
      | nil => rw [split] at head; cases head
      | cons first rest =>
        rw [split] at head
        exact ⟨rest, by rw [Option.some.inj head]⟩
    rw [stack] at top
    obtain rfl : getvch (decodeOpN lastOpcode) = vch := Except.ok.inj top
    rw [castToBigNum_number small.1 small.2] at number
    obtain rfl : (decodeOpN lastOpcode : ℤ) = bn := Except.ok.inj number
    have bound := decodeOpN_le small.2
    have : getint (decodeOpN lastOpcode) = decodeOpN lastOpcode := by
      rw [getint, if_pos (Int.natCast_nonneg _), if_neg (by rw [INT_MAX]; omega)]
    omega
  · omega

theorem cost_dispatch (follows : Follows lastOpcode m) (opcode : UInt8) (vchPushValue : Valtype) :
    (m.dispatch C checkSig opcode vchPushValue).cost ≤ opSigOps true lastOpcode opcode := by
  rw [Machine.dispatch]
  split_ifs with push executed
  · exact Nat.zero_le _
  · cases found : instruction opcode with
    | none => exact Nat.zero_le _
    | some instr =>
      cases instr with
      | OP_CHECKSIG fVerify =>
        rw [opSigOps, if_pos (instruction_checkSig found)]
        exact cost_opCheckSig checkSig m fVerify
      | OP_CHECKMULTISIG fVerify =>
        have multi := instruction_checkMultiSig found
        have exec : m.fExec = true := by
          have plain : (0x63 ≤ opcode && opcode ≤ 0x68) = false := by rcases multi with rfl | rfl <;> decide
          rwa [plain, Bool.or_false] at executed
        have bound := cost_multiSig checkSig follows exec fVerify
        rw [opSigOps, if_neg (by rcases multi with rfl | rfl <;> decide), if_pos multi]
        simp only [true_and, Machine.execute]
        exact bound
      | stack op => exact Metered.cost_lift_bind_le fun _ _ => Nat.zero_le _
      | OP_NOP => exact Nat.zero_le _
      | OP_IF fNot =>
        simp only [Machine.execute]
        split_ifs
        · refine Metered.cost_lift_bind_le fun _ _ => ?_
          refine Metered.cost_lift_bind_le fun _ _ => ?_
          exact Metered.cost_lift_bind_le fun _ _ => Nat.zero_le _
        · exact Nat.zero_le _
      | OP_ELSE | OP_ENDIF =>
        simp only [Machine.execute]
        cases m.vfExec <;> exact Nat.zero_le _
      | OP_RETURN => exact Nat.zero_le _
      | OP_TOALTSTACK | OP_FROMALTSTACK =>
        refine Metered.cost_lift_bind_le fun _ _ => ?_
        refine Metered.cost_lift_bind_le fun _ _ => ?_
        exact Metered.cost_lift_bind_le fun _ _ => Nat.zero_le _
      | OP_CODESEPARATOR => exact Nat.zero_le _
  · exact Nat.zero_le _

def pushValue (op : UInt8 × List UInt8) : Valtype :=
  if op.1 ≤ OP_PUSHDATA4 then op.2 else getvch (op.1.toNat - 0x50)

theorem dispatch_push {after : Machine} (exec : m.fExec = true) (small : opcode ≤ OP_16) {data : Valtype}
    (ended : (m.dispatch C checkSig opcode data).result = .ok after) :
    after = { m with stack := pushValue (opcode, data) :: m.stack } := by
  rw [Machine.dispatch, pushValue] at *
  by_cases push : opcode ≤ OP_PUSHDATA4
  · rw [if_pos (by simp [exec, push])] at ended
    rw [if_pos push]
    exact (Except.ok.inj ended).symm
  · rw [if_neg (by simp [push]), if_pos (by simp [exec])] at ended
    rw [if_neg push]
    rcases instruction_small small with none | number
    · rw [none] at ended
      cases ended
    · rw [number] at ended
      exact (Except.ok.inj ended).symm

theorem follows_dispatch {after : Machine} {vchPushValue : Valtype}
    (ended : (m.dispatch C checkSig opcode vchPushValue).result = .ok after) : Follows opcode after := by
  intro low high exec
  obtain ⟨above, number, -⟩ := number_opcode low high
  have plain : (0x63 ≤ opcode && opcode ≤ 0x68) = false := by
    have notIf : ¬ (0x63 : UInt8) ≤ opcode := fun above => absurd (UInt8.le_trans above high) (by decide)
    simp [notIf]
  cases before : m.fExec with
  | true =>
    rw [dispatch_push C checkSig before high ended, pushValue, if_neg above, number]
    rfl
  | false =>
    -- nothing was executed, so nothing is being executed
    rw [Machine.dispatch, if_neg (by simp [before]), if_neg (by simp [before, plain])] at ended
    obtain rfl : m = after := Except.ok.inj ended
    rw [before] at exec
    cases exec

theorem cost_step (follows : Follows lastOpcode m) {vchPushValue : Valtype} {pc : CScript}
    (read : getOp2 m.pc = some (opcode, vchPushValue, pc)) :
    (m.step C checkSig).cost ≤ opSigOps true lastOpcode opcode := by
  have moved : ∀ nOpCount, Follows lastOpcode { m with pc := pc, nOpCount := nOpCount } := fun _ => follows
  rw [Machine.step, read]
  refine Metered.cost_lift_bind_le fun _ _ => ?_
  refine Metered.cost_lift_bind_le fun _ _ => ?_
  refine Metered.cost_lift_bind_le fun _ _ => ?_
  refine Metered.cost_bind_le (m := opSigOps true lastOpcode opcode) (n := 0)
    (cost_dispatch C checkSig (moved _) opcode vchPushValue) fun _ _ => ?_
  exact Metered.cost_lift_bind_le fun _ _ => le_rfl

theorem cost_loop : ∀ (fuel : ℕ) {m : Machine} {lastOpcode : UInt8}, Follows lastOpcode m →
    (m.loop C checkSig fuel).cost ≤
      countSigOps true lastOpcode ((scanOpcodes fuel m.pc).1.map Prod.fst) := by
  intro fuel
  induction fuel with
  | zero => exact fun _ => Nat.zero_le _
  | succ fuel ih =>
    intro m lastOpcode follows
    rw [Machine.loop]
    split_ifs with done
    · exact Nat.zero_le _
    · cases read : getOp2 m.pc with
      | none =>
        have stopped : m.step C checkSig = liftM (Except.error Halt.fail) := by rw [Machine.step, read]
        rw [stopped]
        exact Metered.cost_lift_bind_le (by simp)
      | some op =>
        obtain ⟨opcode, vchPushValue, pc⟩ := op
        rw [scanOpcodes_succ fuel read]
        refine Metered.cost_bind_le (cost_step C checkSig follows read) fun after step => ?_
        obtain ⟨opcode', vchPushValue', nOpCount, read', -, -, dispatched⟩ := step_eq_ok C checkSig step
        rw [read, Option.some.injEq, Prod.mk.injEq, Prod.mk.injEq] at read'
        obtain ⟨rfl, rfl, rfl⟩ := read'
        exact ih (follows_dispatch C checkSig dispatched)

theorem cost_evalScript (stack : Stack) (script : CScript) :
    (evalScript C checkSig stack script).cost ≤ getSigOpCount true script := by
  have start : Follows OP_INVALIDOPCODE (.start stack script) := fun _ high => absurd high (by decide)
  refine Metered.cost_lift_bind_le fun _ _ => ?_
  refine Metered.cost_bind_le (n := 0) (cost_loop C checkSig script.length start) fun _ _ => ?_
  exact Metered.cost_lift_bind_le fun _ _ => le_rfl

theorem loop_pushOnly : ∀ (fuel : ℕ) {m after : Machine}, m.vfExec = [] →
    (∀ op ∈ (scanOpcodes fuel m.pc).1, op.1 ≤ OP_16) → (m.loop C checkSig fuel).result = .ok after →
    after.stack = ((scanOpcodes fuel m.pc).1.map pushValue).reverse ++ m.stack := by
  intro fuel
  induction fuel with
  | zero =>
    rintro m after - - ⟨⟩
    rfl
  | succ fuel ih =>
    intro m after closed small ended
    rw [Machine.loop] at ended
    split_ifs at ended with done
    · obtain rfl : m = after := Except.ok.inj ended
      rw [done]
      rfl
    · rw [Metered.result_bind] at ended
      obtain ⟨next, step, ended⟩ := bind_eq_ok.mp ended
      obtain ⟨opcode, vchPushValue, nOpCount, read, -, -, dispatched⟩ := step_eq_ok C checkSig step
      rw [scanOpcodes_succ fuel read] at small ⊢
      rw [List.forall_mem_cons] at small
      have exec : Machine.fExec { m with pc := next.pc, nOpCount := nOpCount } = true := by
        simp [Machine.fExec, closed]
      have pushed := dispatch_push C checkSig exec small.1 dispatched
      have rest := ih (by rw [pushed]; exact closed) small.2 ended
      rw [rest, pushed]
      simp

end Cost

def countedScript (scriptSig : CScript) : CScript :=
  ((parseScript scriptSig).1.getLast?.map Prod.snd).getD []

theorem isPushOnly_iff {script : CScript} :
    isPushOnly script = true ↔ (parseScript script).2 = true ∧ ∀ op ∈ (parseScript script).1, op.1 ≤ OP_16 := by
  simp [isPushOnly]

theorem getSigOpCountFor_eq {scriptSig scriptPubKey : CScript}
    (payToScriptHash : isPayToScriptHash scriptPubKey = true) (pushOnly : isPushOnly scriptSig = true) :
    getSigOpCountFor scriptPubKey scriptSig = getSigOpCount true (countedScript scriptSig) := by
  obtain ⟨complete, small⟩ := isPushOnly_iff.mp pushOnly
  have counted : ¬ (¬ (parseScript scriptSig).2 = true ∨
      (parseScript scriptSig).1.any (fun op => decide (OP_16 < op.1)) = true) := by
    simpa [complete] using small
  rw [getSigOpCountFor, if_pos payToScriptHash]
  exact if_neg counted

section Redeem
variable (C : Crypto) (checkSig : SigChecker) {scriptSig scriptPubKey : CScript} {pubKeySerialized : Valtype}
  {stack : Stack}

theorem redeem_eq_pushValue (pushOnly : isPushOnly scriptSig = true)
    (verified : (verifyPubKey C checkSig scriptSig scriptPubKey).result = .ok (some (pubKeySerialized :: stack))) :
    ∃ op, (parseScript scriptSig).1.getLast? = some op ∧ op.1 ≤ OP_16 ∧ pubKeySerialized = pushValue op := by
  obtain ⟨-, small⟩ := isPushOnly_iff.mp pushOnly
  obtain ⟨ended, -⟩ := (verifyPubKey_eq_some C checkSig scriptSig scriptPubKey).mp verified
  simp only [evalScript, Metered.result_bind, Metered.result_lift] at ended
  obtain ⟨_, -, ended⟩ := bind_eq_ok.mp ended
  obtain ⟨m, run, ended⟩ := bind_eq_ok.mp ended
  obtain ⟨_, -, ended⟩ := bind_eq_ok.mp ended
  have left := loop_pushOnly C checkSig scriptSig.length (m := .start [] scriptSig) rfl small run
  change m.stack = ((parseScript scriptSig).1.map pushValue).reverse ++ [] at left
  rw [Except.ok.inj ended, List.append_nil, ← List.map_reverse] at left
  cases split : (parseScript scriptSig).1.reverse with
  | nil =>
    rw [split] at left
    cases left
  | cons op rest =>
    rw [split, List.map_cons, List.cons.injEq] at left
    have last : (parseScript scriptSig).1.getLast? = some op := by
      rw [List.getLast?_eq_head?_reverse, split]
      rfl
    exact ⟨op, last, small op (List.mem_of_getLast? last), left.1⟩

theorem number_script (above : ¬ opcode ≤ OP_PUSHDATA4) (small : opcode ≤ OP_16) :
    getSigOpCount true (getvch (opcode.toNat - 0x50)) = 0 ∧
      (getvch (opcode.toNat - 0x50) = [] ∨ ∃ byte, getvch (opcode.toNat - 0x50) = [byte] ∧
        (getOp2 [byte] = none ∨ getOp2 [byte] = some (byte, [], []) ∧ isDisabled byte = true)) := by
  revert opcode
  decide +kernel

theorem number_script_fails {byte : UInt8}
    (invalid : getOp2 [byte] = none ∨ getOp2 [byte] = some (byte, [], []) ∧ isDisabled byte = true)
    (stack after : Stack) : (evalScript C checkSig stack [byte]).result ≠ .ok after := by
  refine evalScript_ne_ok C checkSig (List.cons_ne_nil _ _) (fun next step => ?_) after
  obtain ⟨opcode, vchPushValue, -, read, -, enabled, -⟩ := step_eq_ok C checkSig step
  change getOp2 [byte] = _ at read
  rcases invalid with unread | ⟨other, disabled⟩
  · rw [unread] at read
    cases read
  · rw [other, Option.some.injEq, Prod.mk.injEq] at read
    rw [← read.1, disabled] at enabled
    cases enabled

end Redeem

theorem checkSigs_le_getSigOpCount (C : Crypto) (txTo : CTransaction) (nIn : ℕ) (nHashType : Int32) :
    (∀ stack script,
      (evalScript C (checkSig C txTo nIn nHashType) stack script).cost ≤ getSigOpCount true script ∧
        getSigOpCount true script ≤ getSigOpCount false script) ∧
    ∀ scriptSig scriptPubKey pubKeySerialized stack,
      isPayToScriptHash scriptPubKey = true → isPushOnly scriptSig = true →
      (verifyPubKey C (checkSig C txTo nIn nHashType) scriptSig scriptPubKey).result =
        .ok (some (pubKeySerialized :: stack)) →
      getSigOpCountFor scriptPubKey scriptSig = getSigOpCount true pubKeySerialized ∧
        (pubKeySerialized = countedScript scriptSig ∨
          (∃ op, (parseScript scriptSig).1.getLast? = some op ∧ OP_PUSHDATA4 < op.1 ∧ op.1 ≤ OP_16 ∧
            pubKeySerialized = getvch (op.1.toNat - 0x50)) ∧
          ∀ after, (evalScript C (checkSig C txTo nIn nHashType) stack pubKeySerialized).result ≠ .ok after) := by
  refine ⟨fun stack script => ⟨cost_evalScript _ _ stack script, countSigOps_le _ _⟩, ?_⟩
  intro scriptSig scriptPubKey pubKeySerialized stack payToScriptHash pushOnly verified
  obtain ⟨op, last, small, rfl⟩ := redeem_eq_pushValue _ _ pushOnly verified
  have counted : countedScript scriptSig = op.2 := by rw [countedScript, last]; rfl
  rw [getSigOpCountFor_eq payToScriptHash pushOnly, counted, pushValue]
  split_ifs with push
  · exact ⟨rfl, .inl rfl⟩
  · have plain : op.2 = [] := scanOpcodes_plain op (List.mem_of_getLast? last) push
    obtain ⟨count, shape⟩ := number_script push small
    rw [plain, count]
    refine ⟨rfl, shape.imp_right ?_⟩
    rintro ⟨byte, number, invalid⟩
    refine ⟨⟨op, last, by simpa using push, small, rfl⟩, ?_⟩
    rw [number]
    exact number_script_fails _ _ invalid stack

def zeroCrypto : Crypto where
  ripemd160 _ := List.Vector.replicate 20 0
  sha1 _ := List.Vector.replicate 20 0
  sha256 _ := List.Vector.replicate 32 0
  verify _ _ _ := true

theorem redeem_not_counted :
    let scriptPubKey := OP_HASH160 :: 20 :: (List.replicate 20 0 ++ [OP_EQUAL])
    isPayToScriptHash scriptPubKey = true ∧ isPushOnly [OP_1] = true ∧
      (verifyPubKey zeroCrypto (checkSig zeroCrypto ⟨1, 0, [], [], 0⟩ 0 0) [OP_1] scriptPubKey).result =
        .ok (some [[1]]) ∧
      countedScript [OP_1] = [] := by
  decide +kernel

end RitCoin.Proof
