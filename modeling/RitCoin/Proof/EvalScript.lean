import RitCoin.Model.SignatureHash
import RitCoin.Proof.Script
import RitCoin.Proof.Stack

namespace RitCoin.Proof
open Lib Model
variable {stack : Stack}

theorem safe_dropSigs : ∀ {k isig : ℕ} {scriptCode : CScript}, 1 ≤ isig →
    isig + k ≤ stack.length + 1 → Safe (fun _ => True) (dropSigs stack k isig scriptCode) := by
  intro k
  induction k with
  | zero => exact fun _ _ => Meets.pure trivial
  | succ k ih =>
    intro isig scriptCode pos low
    refine (safe_stacktop (by omega)).bind fun vchSig _ => ?_
    exact ih (by omega) (by omega)

theorem safe_matchSigs (checkSig : SigChecker) {scriptCode : CScript} :
    ∀ {nKeysCount nSigsCount isig ikey : ℕ}, nSigsCount ≤ nKeysCount → 1 ≤ isig → 1 ≤ ikey →
      isig + nSigsCount ≤ stack.length + 1 → ikey + nKeysCount ≤ stack.length + 1 →
      Safe (fun _ => True) (matchSigs checkSig stack scriptCode isig ikey nSigsCount nKeysCount).result := by
  intro nKeysCount
  induction nKeysCount with
  | zero =>
    intro nSigsCount isig ikey few _ _ _ _
    obtain rfl : nSigsCount = 0 := by omega
    rw [matchSigs]
    exact Meets.pure trivial
  | succ nKeysCount ih =>
    intro nSigsCount isig ikey few posSig posKey lowSig lowKey
    cases nSigsCount with
    | zero =>
      rw [matchSigs]
      exact Meets.pure trivial
    | succ nSigsCount =>
      rw [matchSigs]
      simp only [Metered.result_bind, Metered.result_lift]
      refine (safe_stacktop (by omega)).bind fun vchSig _ => ?_
      refine (safe_stacktop (by omega)).bind fun vchPubKey _ => ?_
      refine Meets.bind (R := fun _ => True) (Meets.pure trivial) fun valid _ => ?_
      have left : (if valid then isig + 1 else isig) + (if valid then nSigsCount else nSigsCount + 1) =
          isig + nSigsCount + 1 ∧ isig ≤ if valid then isig + 1 else isig := by split_ifs <;> omega
      generalize (if valid then isig + 1 else isig) = isig', (if valid then nSigsCount else nSigsCount + 1) = nSigsCount'
        at left ⊢
      split_ifs with more
      · exact Meets.pure trivial
      · exact ih (Nat.not_lt.mp more) (by omega) (by omega) (by omega) (by omega)

theorem cost_matchSigs (checkSig : SigChecker) {scriptCode : CScript} :
    ∀ {nKeysCount nSigsCount isig ikey : ℕ}, nSigsCount ≤ nKeysCount →
      (matchSigs checkSig stack scriptCode isig ikey nSigsCount nKeysCount).cost ≤ nKeysCount := by
  intro nKeysCount
  induction nKeysCount with
  | zero =>
    intro nSigsCount isig ikey few
    obtain rfl : nSigsCount = 0 := by omega
    rw [matchSigs]
    exact Nat.zero_le _
  | succ nKeysCount ih =>
    intro nSigsCount isig ikey few
    cases nSigsCount with
    | zero =>
      rw [matchSigs]
      exact Nat.zero_le _
    | succ nSigsCount =>
      rw [matchSigs]
      refine Metered.cost_lift_bind_le fun vchSig _ => ?_
      refine Metered.cost_lift_bind_le fun vchPubKey _ => ?_
      refine (Metered.cost_bind_le (m := 1) (n := nKeysCount) le_rfl fun valid _ => ?_).trans (by omega)
      dsimp only
      generalize (if valid then isig + 1 else isig) = isig', (if valid then nSigsCount else nSigsCount + 1) = nSigsCount'
      split_ifs with more
      · exact Nat.zero_le _
      · exact ih (Nat.not_lt.mp more)

section Step
variable (C : Crypto) (checkSig : SigChecker)
variable {m after : Machine} {opcode : UInt8} {pc script : CScript}

/-- What an opcode leaves of a machine: the stacks with at most three elements more, each from before
or short. -/
structure Moves (m after : Machine) : Prop where
  depth : after.stack.length + after.altstack.length ≤ m.stack.length + m.altstack.length + 3
  small : ∀ vch ∈ after.stack ++ after.altstack, vch ∈ m.stack ++ m.altstack ∨ vch.length ≤ 520

theorem Moves.of_leaves (leaves : Leaves m.stack stack) (nOpCount : ℕ) :
    Moves m { m with stack := stack, nOpCount := nOpCount } where
  depth := by
    have := leaves.depth
    simp only
    omega
  small vch member := by
    rcases List.mem_append.mp member with main | alt
    · exact (leaves.small vch main).imp_left (List.mem_append_left _)
    · exact .inl (List.mem_append_right _ alt)

theorem safe_opCheckSig (m : Machine) (fVerify : Bool) :
    Safe (Moves m) (m.opCheckSig checkSig fVerify).result := by
  simp only [Machine.opCheckSig, Metered.result_bind, Metered.result_lift]
  refine (safe_need 2 m.stack).bind fun _ deep => ?_
  refine (safe_stacktop (by omega)).bind fun vchSig _ => ?_
  refine (safe_stacktop (by omega)).bind fun vchPubKey _ => ?_
  refine Meets.bind (R := fun _ => True) (Meets.pure trivial) fun fSuccess _ => ?_
  refine (safe_popstacks deep).bind ?_
  rintro rest ⟨length, subset⟩
  refine (safe_verifyTop fVerify fSuccess (by omega) subset ((length_vchBool _).trans (by decide))).bind ?_
  exact fun stack leaves => Meets.pure (Moves.of_leaves leaves m.nOpCount)

theorem cost_opCheckSig (m : Machine) (fVerify : Bool) : (m.opCheckSig checkSig fVerify).cost ≤ 1 := by
  refine Metered.cost_lift_bind_le fun _ _ => ?_
  refine Metered.cost_lift_bind_le fun vchSig _ => ?_
  refine Metered.cost_lift_bind_le fun vchPubKey _ => ?_
  refine Metered.cost_bind_le (n := 0) le_rfl fun fSuccess _ => ?_
  refine Metered.cost_lift_bind_le fun rest _ => ?_
  exact Metered.cost_lift_bind_le fun stack _ => le_rfl

theorem safe_opCheckMultiSig (m : Machine) (fVerify : Bool) :
    Safe (Moves m) (m.opCheckMultiSig checkSig fVerify).result := by
  simp only [Machine.opCheckMultiSig, Metered.result_bind, Metered.result_lift]
  refine (safe_need 1 m.stack).bind fun _ deep => ?_
  refine (safe_stacktop ⟨le_rfl, deep⟩).bind fun vch _ => ?_
  refine (safe_castToBigNum vch).bind fun bn _ => ?_
  refine (Meets.failIf (.inl rfl)).bind fun _ keys => ?_
  refine (Meets.failIf (.inl rfl)).bind fun _ _ => ?_
  refine (safe_need _ m.stack).bind fun _ deepKeys => ?_
  refine (safe_stacktop (by omega)).bind fun vch _ => ?_
  refine (safe_castToBigNum vch).bind fun bn' _ => ?_
  refine (Meets.failIf (.inl rfl)).bind fun _ sigs => ?_
  refine (safe_need _ m.stack).bind fun _ deepSigs => ?_
  refine (safe_dropSigs (by omega) (by omega)).bind fun scriptCode _ => ?_
  refine (safe_matchSigs checkSig (by omega) (by omega) (by omega) (by omega) (by omega)).bind
    fun fSuccess _ => ?_
  refine (safe_popstacks deepSigs).bind ?_
  rintro rest ⟨length, subset⟩
  refine (safe_verifyTop fVerify fSuccess (by omega) subset ((length_vchBool _).trans (by decide))).bind ?_
  exact fun stack leaves => Meets.pure (Moves.of_leaves leaves _)

theorem cost_opCheckMultiSig (m : Machine) (fVerify : Bool) {n : ℕ}
    (keys : ∀ vch bn, stacktop m.stack 1 = .ok vch → castToBigNum vch = .ok bn → 0 ≤ getint bn →
      getint bn ≤ 20 → (getint bn).toNat ≤ n) :
    (m.opCheckMultiSig checkSig fVerify).cost ≤ n := by
  refine Metered.cost_lift_bind_le fun _ _ => ?_
  refine Metered.cost_lift_bind_le fun vch top => ?_
  refine Metered.cost_lift_bind_le fun bn number => ?_
  refine Metered.cost_lift_bind_le fun _ few => ?_
  have count := keys vch bn top number
  rw [failIf_eq_ok] at few
  refine Metered.cost_lift_bind_le fun _ _ => ?_
  refine Metered.cost_lift_bind_le fun _ _ => ?_
  refine Metered.cost_lift_bind_le fun vch _ => ?_
  refine Metered.cost_lift_bind_le fun bn' _ => ?_
  refine Metered.cost_lift_bind_le fun _ fewSigs => ?_
  rw [failIf_eq_ok] at fewSigs
  refine Metered.cost_lift_bind_le fun _ _ => ?_
  refine Metered.cost_lift_bind_le fun scriptCode _ => ?_
  refine (Metered.cost_bind_le (n := 0) (cost_matchSigs checkSig (by omega)) fun fSuccess _ => ?_).trans
    (count (by omega) (by omega))
  refine Metered.cost_lift_bind_le fun rest _ => ?_
  exact Metered.cost_lift_bind_le fun stack _ => le_rfl

structure Within (m : Machine) : Prop where
  depth : m.stack.length + m.altstack.length ≤ 1000
  small : ∀ vch ∈ m.stack ++ m.altstack, vch.length ≤ 520

def classified (opcode : UInt8) : Option Instruction → Bool
  | some (.stack (.OP_N n)) => opcode ≤ OP_16 && n == (opcode.toNat - 0x50 : Int) && n.natAbs ≤ 16
  | some (.OP_CHECKSIG _) => opcode == OP_CHECKSIG || opcode == OP_CHECKSIGVERIFY
  | some (.OP_CHECKMULTISIG _) => opcode == OP_CHECKMULTISIG || opcode == OP_CHECKMULTISIGVERIFY
  | some _ => OP_16 < opcode
  | none => !(OP_1 ≤ opcode && opcode ≤ OP_16)

theorem classified_instruction (opcode : UInt8) : classified opcode (instruction opcode) = true := by
  revert opcode
  decide +kernel

theorem instruction_number {n : Int} (found : instruction opcode = some (.stack (.OP_N n))) : n.natAbs ≤ 16 := by
  have facts := classified_instruction opcode
  rw [found] at facts
  simp only [classified, Bool.and_eq_true, decide_eq_true_eq] at facts
  exact facts.2

theorem instruction_checkSig {fVerify : Bool} (found : instruction opcode = some (.OP_CHECKSIG fVerify)) :
    opcode = OP_CHECKSIG ∨ opcode = OP_CHECKSIGVERIFY := by
  have facts := classified_instruction opcode
  rw [found] at facts
  simpa [classified] using facts

theorem instruction_checkMultiSig {fVerify : Bool}
    (found : instruction opcode = some (.OP_CHECKMULTISIG fVerify)) :
    opcode = OP_CHECKMULTISIG ∨ opcode = OP_CHECKMULTISIGVERIFY := by
  have facts := classified_instruction opcode
  rw [found] at facts
  simpa [classified] using facts

theorem instruction_small (small : opcode ≤ OP_16) :
    instruction opcode = none ∨ instruction opcode = some (.stack (.OP_N (opcode.toNat - 0x50))) := by
  have facts := classified_instruction opcode
  cases found : instruction opcode with
  | none => exact .inl rfl
  | some instr =>
    right
    rw [found] at facts
    -- every other instruction has an opcode above the numbers
    have below : ∀ {bound : UInt8}, OP_16 < bound → ¬ opcode = bound := by
      rintro _ above rfl
      exact absurd small (UInt8.not_le.mpr above)
    cases instr with
    | stack op =>
      cases op with
      | OP_N n =>
        simp only [classified, Bool.and_eq_true, beq_iff_eq] at facts
        rw [facts.1.2]
      | _ => exact absurd (of_decide_eq_true facts) (UInt8.not_lt.mpr small)
    | OP_CHECKSIG fVerify =>
      rcases instruction_checkSig found with same | same
      · exact absurd same (below (by decide))
      · exact absurd same (below (by decide))
    | OP_CHECKMULTISIG fVerify =>
      rcases instruction_checkMultiSig found with same | same
      · exact absurd same (below (by decide))
      · exact absurd same (below (by decide))
    | _ => exact absurd (of_decide_eq_true facts) (UInt8.not_lt.mpr small)

theorem number_opcode (low : OP_1 ≤ opcode) (high : opcode ≤ OP_16) :
    ¬ opcode ≤ OP_PUSHDATA4 ∧ (opcode.toNat - 0x50 : ℤ) = decodeOpN opcode ∧
      instruction opcode = some (.stack (.OP_N (decodeOpN opcode))) := by
  have bound : 81 ≤ opcode.toNat := UInt8.le_iff_toNat_le.mp low
  have number : (opcode.toNat - 0x50 : ℤ) = decodeOpN opcode := by
    change (opcode.toNat - 80 : ℤ) = ((opcode.toNat - 80 : ℕ) : ℤ)
    omega
  refine ⟨fun push => absurd (UInt8.le_trans low push) (by decide), number, ?_⟩
  rcases instruction_small high with unread | found
  · have facts := classified_instruction opcode
    rw [unread] at facts
    simp [classified, low, high] at facts
  · rw [found, number]

theorem safe_execute (within : Within m) (fExec : Bool) {instr : Instruction}
    (found : instruction opcode = some instr) : Safe (Moves m) (m.execute C checkSig fExec instr).result := by
  have depth := within.depth
  cases instr with
  | stack op =>
    simp only [Machine.execute, Metered.result_bind, Metered.result_lift]
    refine (safe_run C op (by omega) (fun vch member => within.small vch (List.mem_append_left _ member))
      ?_).bind fun stack leaves => Meets.pure (Moves.of_leaves leaves m.nOpCount)
    rintro n rfl
    exact instruction_number found
  | OP_NOP => exact Meets.pure ⟨by omega, fun vch member => .inl member⟩
  | OP_IF fNot =>
    rw [Machine.execute]
    split_ifs
    · simp only [Metered.result_bind, Metered.result_lift]
      refine (safe_need 1 m.stack).bind fun _ deep => ?_
      refine (safe_stacktop ⟨le_rfl, deep⟩).bind fun vch _ => ?_
      refine (safe_popstack deep).bind ?_
      rintro rest ⟨length, subset⟩
      have moves := Moves.of_leaves (Leaves.of_subset (by omega) subset) m.nOpCount
      exact Meets.pure ⟨moves.depth, moves.small⟩
    · exact Meets.pure ⟨by simp only; omega, fun vch member => .inl member⟩
  | OP_ELSE | OP_ENDIF =>
    rw [Machine.execute]
    cases m.vfExec with
    | nil => exact Meets.error (.inl rfl)
    | cons fExec outer => exact Meets.pure ⟨by simp only; omega, fun vch member => .inl member⟩
  | OP_RETURN => exact Meets.error (.inl rfl)
  | OP_TOALTSTACK =>
    simp only [Machine.execute, Metered.result_bind, Metered.result_lift]
    refine (safe_need 1 m.stack).bind fun _ deep => ?_
    refine (safe_stacktop ⟨le_rfl, deep⟩).bind fun vch member => ?_
    refine (safe_popstack deep).bind ?_
    rintro rest ⟨length, subset⟩
    refine Meets.pure ⟨by simp only [List.length_cons]; omega, ?_⟩
    intro v moved
    simp only [List.mem_append, List.mem_cons] at moved ⊢
    rcases moved with main | rfl | alt
    · exact .inl (.inl (subset main))
    · exact .inl (.inl member)
    · exact .inl (.inr alt)
  | OP_FROMALTSTACK =>
    simp only [Machine.execute, Metered.result_bind, Metered.result_lift]
    refine (safe_need 1 m.altstack).bind fun _ deep => ?_
    refine (safe_stacktop ⟨le_rfl, deep⟩).bind fun vch member => ?_
    refine (safe_popstack deep).bind ?_
    rintro rest ⟨length, subset⟩
    refine Meets.pure ⟨by simp only [List.length_cons]; omega, ?_⟩
    intro v moved
    simp only [List.mem_append, List.mem_cons] at moved ⊢
    rcases moved with (rfl | main) | alt
    · exact .inl (.inr member)
    · exact .inl (.inl main)
    · exact .inl (.inr (subset alt))
  | OP_CODESEPARATOR => exact Meets.pure ⟨by simp only; omega, fun vch member => .inl member⟩
  | OP_CHECKSIG fVerify => exact safe_opCheckSig checkSig m fVerify
  | OP_CHECKMULTISIG fVerify => exact safe_opCheckMultiSig checkSig m fVerify

theorem safe_dispatch (within : Within m) (opcode : UInt8) {vchPushValue : Valtype}
    (short : vchPushValue.length ≤ 520) : Safe (Moves m) (m.dispatch C checkSig opcode vchPushValue).result := by
  rw [Machine.dispatch]
  split_ifs
  · have leaves : Leaves m.stack (vchPushValue :: m.stack) := .cons_short (by omega) (List.Subset.refl _) short
    exact Meets.pure (Moves.of_leaves leaves m.nOpCount)
  · cases found : instruction opcode with
    | none => exact Meets.error (.inl rfl)
    | some instr => exact safe_execute C checkSig within m.fExec found
  · exact Meets.pure ⟨by omega, fun vch member => .inl member⟩

theorem safe_step (within : Within m) : Safe Within (m.step C checkSig).result := by
  rw [Machine.step]
  cases read : getOp2 m.pc with
  | none => exact Meets.error (.inl rfl)
  | some op =>
    obtain ⟨opcode, vchPushValue, pc⟩ := op
    simp only [Metered.result_bind, Metered.result_lift]
    refine (Meets.failIf (.inl rfl)).bind fun _ short => ?_
    refine (Meets.failIf (.inl rfl)).bind fun _ _ => ?_
    refine (Meets.failIf (.inl rfl)).bind fun _ _ => ?_
    have moved : ∀ nOpCount, Within { m with pc := pc, nOpCount := nOpCount } :=
      fun _ => ⟨within.depth, within.small⟩
    refine (safe_dispatch C checkSig (moved _) opcode (Nat.not_lt.mp short)).bind ?_
    intro after moves
    refine (Meets.failIf (.inl rfl)).bind fun _ limit => ?_
    refine Meets.pure ⟨Nat.not_lt.mp limit, ?_⟩
    intro vch member
    rcases moves.small vch member with old | short
    · exact within.small vch old
    · exact short

def Keeps (pc : CScript) (x : Metered Halt Machine) : Prop := ∀ after, x.result = .ok after → after.pc = pc

omit C checkSig in
theorem Keeps.pure (same : m.pc = pc) : Keeps pc (Pure.pure m) := by
  rintro _ ⟨⟩
  exact same

omit C checkSig in
theorem Keeps.error {halt : Halt} : Keeps pc (liftM (Except.error halt)) := nofun

omit C checkSig in
theorem Keeps.bind {α : Type} {x : Metered Halt α} {f : α → Metered Halt Machine} (rest : ∀ a, Keeps pc (f a)) :
    Keeps pc (x >>= f) := by
  intro after ended
  rw [Metered.result_bind] at ended
  obtain ⟨a, -, ended⟩ := bind_eq_ok.mp ended
  exact rest a after ended

theorem keeps_execute (m : Machine) (fExec : Bool) (instr : Instruction) :
    Keeps m.pc (m.execute C checkSig fExec instr) := by
  cases instr with
  | stack op => exact .bind fun _ => .pure rfl
  | OP_NOP | OP_CODESEPARATOR => exact .pure rfl
  | OP_IF fNot =>
    rw [Machine.execute]
    split_ifs
    · exact .bind fun _ => .bind fun _ => .bind fun _ => .pure rfl
    · exact .pure rfl
  | OP_ELSE | OP_ENDIF =>
    rw [Machine.execute]
    cases m.vfExec with
    | nil => exact .error
    | cons fExec outer => exact .pure rfl
  | OP_RETURN => exact .error
  | OP_TOALTSTACK | OP_FROMALTSTACK => exact .bind fun _ => .bind fun _ => .bind fun _ => .pure rfl
  | OP_CHECKSIG fVerify | OP_CHECKMULTISIG fVerify =>
    simp only [Machine.execute, Machine.opCheckSig, Machine.opCheckMultiSig]
    repeat refine .bind fun _ => ?_
    exact .pure rfl

theorem keeps_dispatch (m : Machine) (opcode : UInt8) (vchPushValue : Valtype) :
    Keeps m.pc (m.dispatch C checkSig opcode vchPushValue) := by
  rw [Machine.dispatch]
  split_ifs
  · exact .pure rfl
  · cases instruction opcode with
    | none => exact .error
    | some instr => exact keeps_execute C checkSig m m.fExec instr
  · exact .pure rfl

theorem step_eq_ok (ended : (m.step C checkSig).result = .ok after) :
    ∃ opcode vchPushValue nOpCount, getOp2 m.pc = some (opcode, vchPushValue, after.pc) ∧
      vchPushValue.length ≤ 520 ∧ isDisabled opcode = false ∧
      ({ m with pc := after.pc, nOpCount := nOpCount }.dispatch C checkSig opcode vchPushValue).result =
        .ok after := by
  rw [Machine.step] at ended
  cases read : getOp2 m.pc with
  | none =>
    rw [read] at ended
    cases ended
  | some op =>
    obtain ⟨opcode, vchPushValue, pc⟩ := op
    simp only [read, Metered.result_bind, Metered.result_lift] at ended
    obtain ⟨_, short, ended⟩ := bind_eq_ok.mp ended
    obtain ⟨_, -, ended⟩ := bind_eq_ok.mp ended
    obtain ⟨_, enabled, ended⟩ := bind_eq_ok.mp ended
    rw [failIf_eq_ok, Bool.not_eq_true] at enabled
    obtain ⟨moved, dispatched, ended⟩ := bind_eq_ok.mp ended
    obtain ⟨_, -, ⟨⟩⟩ := bind_eq_ok.mp ended
    obtain rfl : after.pc = pc := keeps_dispatch C checkSig _ _ _ after dispatched
    exact ⟨opcode, vchPushValue, _, rfl, Nat.not_lt.mp (failIf_eq_ok.mp short), enabled, dispatched⟩

def StepsTo (m after : Machine) : Prop := m.pc ≠ [] ∧ (m.step C checkSig).result = .ok after

abbrev Reaches : Machine → Machine → Prop := Relation.ReflTransGen (StepsTo C checkSig)

theorem StepsTo.within (step : StepsTo C checkSig m after) (within : Within m) : Within after :=
  (safe_step C checkSig within).ok _ step.2

theorem Reaches.within (reaches : Reaches C checkSig m after) (within : Within m) : Within after := by
  induction reaches with
  | refl => exact within
  | tail _ step ih => exact step.within C checkSig ih

theorem StepsTo.length_lt (step : StepsTo C checkSig m after) : after.pc.length < m.pc.length := by
  obtain ⟨opcode, vchPushValue, nOpCount, read, -⟩ := step_eq_ok C checkSig step.2
  exact getOp2_length_lt read

theorem reaches_of_empty (empty : m.pc = []) : Reaches C checkSig m after ∧ after.pc = [] ↔ m = after := by
  constructor
  · rintro ⟨reaches, -⟩
    rcases reaches.cases_head with same | ⟨_, step, -⟩
    · exact same
    · exact absurd empty step.1
  · rintro rfl
    exact ⟨.refl, empty⟩

theorem loop_eq_ok : ∀ {fuel : ℕ} {m : Machine}, m.pc.length ≤ fuel →
    ((m.loop C checkSig fuel).result = .ok after ↔ Reaches C checkSig m after ∧ after.pc = []) := by
  intro fuel
  induction fuel with
  | zero =>
    intro m short
    rw [reaches_of_empty C checkSig (List.eq_nil_of_length_eq_zero (Nat.le_zero.mp short))]
    exact pure_eq_ok
  | succ fuel ih =>
    intro m short
    rw [Machine.loop]
    split_ifs with empty
    · rw [reaches_of_empty C checkSig empty]
      exact pure_eq_ok
    · rw [Metered.result_bind, bind_eq_ok]
      constructor
      · rintro ⟨next, step, ended⟩
        have steps : StepsTo C checkSig m next := ⟨empty, step⟩
        have shorter := steps.length_lt
        obtain ⟨reaches, done⟩ := (ih (by omega)).mp ended
        exact ⟨.head steps reaches, done⟩
      · rintro ⟨reaches, done⟩
        cases reaches.cases_head with
        | inl same =>
          rw [same] at empty
          exact absurd done empty
        | inr next =>
          obtain ⟨next, steps, reaches⟩ := next
          have shorter := steps.length_lt
          exact ⟨next, steps.2, (ih (by omega)).mpr ⟨reaches, done⟩⟩

theorem evalScript_eq_ok {after : Stack} :
    (evalScript C checkSig stack script).result = .ok after ↔ script.length ≤ 10000 ∧
      ∃ m, Reaches C checkSig (.start stack script) m ∧ m.pc = [] ∧ m.vfExec = [] ∧ m.stack = after := by
  have run : ∀ m, ((Machine.start stack script).loop C checkSig script.length).result = .ok m ↔
      Reaches C checkSig (.start stack script) m ∧ m.pc = [] := fun m => loop_eq_ok C checkSig le_rfl
  simp only [evalScript, Metered.result_bind, Metered.result_lift, bind_eq_ok, failIf_eq_ok, run,
    Metered.result_pure, not_not, Except.ok.injEq]
  constructor
  · rintro ⟨_, small, m, ⟨reaches, done⟩, _, closed, rfl⟩
    exact ⟨Nat.not_lt.mp small, m, reaches, done, closed, rfl⟩
  · rintro ⟨small, m, reaches, done, closed, rfl⟩
    exact ⟨⟨⟩, Nat.not_lt.mpr small, m, ⟨reaches, done⟩, ⟨⟩, closed, rfl⟩

theorem evalScript_ne_ok (nonempty : script ≠ [])
    (stops : ∀ next, ((Machine.start stack script).step C checkSig).result ≠ .ok next) (after : Stack) :
    (evalScript C checkSig stack script).result ≠ .ok after := by
  intro ended
  obtain ⟨-, m, reaches, done, -⟩ := (evalScript_eq_ok C checkSig).mp ended
  cases reaches.cases_head with
  | inl same =>
    rw [← same] at done
    exact nonempty done
  | inr next =>
    obtain ⟨next, step, -⟩ := next
    exact stops next step.2

theorem safe_loop (fuel : ℕ) : ∀ {m : Machine}, Within m →
    Safe (fun after => Within after) (m.loop C checkSig fuel).result := by
  induction fuel with
  | zero => exact fun within => Meets.pure within
  | succ fuel ih =>
    intro m within
    rw [Machine.loop]
    split_ifs
    · exact Meets.pure within
    · rw [Metered.result_bind]
      exact (safe_step C checkSig within).bind fun after => ih

structure Limited (stack : Stack) : Prop where
  depth : stack.length ≤ 1000
  small : ∀ vch ∈ stack, vch.length ≤ 520

theorem Limited.start (limited : Limited stack) (script : CScript) : Within (.start stack script) :=
  ⟨by simpa [Machine.start] using limited.depth, by simpa [Machine.start] using limited.small⟩

theorem safe_evalScript (script : CScript) (limited : Limited stack) :
    Safe Limited (evalScript C checkSig stack script).result := by
  simp only [evalScript, Metered.result_bind, Metered.result_lift]
  refine (Meets.failIf (.inl rfl)).bind fun _ _ => ?_
  refine (safe_loop C checkSig _ (limited.start script)).bind fun m within => ?_
  refine (Meets.failIf (.inl rfl)).bind fun _ _ => ?_
  have := within.depth
  exact Meets.pure ⟨by omega, fun vch member => within.small vch (List.mem_append_left _ member)⟩

theorem callEvalScript_eq_some {after : Stack} :
    (callEvalScript C checkSig stack script).result = .ok (some after) ↔
      (evalScript C checkSig stack script).result = .ok after := by
  rw [callEvalScript, Metered.result_attempt]
  cases (evalScript C checkSig stack script).result with
  | ok a => simp
  | error halt => cases halt <;> simp [Halt.caught]

end Step

end RitCoin.Proof
