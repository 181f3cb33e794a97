import RitCoin.Proof.VerifyScript

namespace RitCoin.Proof
open Lib Model
variable {opcode : UInt8} {value : Valtype} {values : List Valtype}

def running (script pc : CScript) (stack : Stack) (nOpCount : ℕ) : Machine := ⟨pc, script, stack, [], [], nOpCount⟩

theorem small_opcode (small : opcode ≤ OP_16) : ¬ opcode > OP_16 ∧ isDisabled opcode = false := by
  have bound : opcode.toNat ≤ 96 := UInt8.le_iff_toNat_le.mp small
  have above : ∀ other : UInt8, 96 < other.toNat → ¬ other ≤ opcode ∧ ¬ opcode = other := fun other large =>
    ⟨fun below => by have := UInt8.le_iff_toNat_le.mp below; omega, by rintro rfl; omega⟩
  refine ⟨UInt8.not_lt.mpr small, ?_⟩
  simp [isDisabled, above]

section Rounds
variable (C : Crypto) (checkSig : SigChecker)
variable {after : Machine} {data : Valtype}

theorem step_of_dispatch {m : Machine} {pc : CScript} {nOpCount : ℕ} (read : getOp2 m.pc = some (opcode, data, pc))
    (short : data.length ≤ 520) (count : (if opcode > OP_16 then m.nOpCount + 1 else m.nOpCount) = nOpCount)
    (few : nOpCount ≤ 201) (enabled : isDisabled opcode = false)
    (dispatched : ({ m with pc := pc, nOpCount := nOpCount }.dispatch C checkSig opcode data).result = .ok after)
    (room : after.stack.length + after.altstack.length ≤ 1000) : StepsTo C checkSig m after := by
  constructor
  · intro empty
    rw [empty] at read
    cases read
  · simp only [Machine.step, read, Metered.result_bind, Metered.result_lift, count]
    rw [failIf_of_not (Nat.not_lt.mpr short), ok_bind, failIf_of_not (by omega), ok_bind,
      failIf_of_not (by simp [enabled]), ok_bind, dispatched, ok_bind, failIf_of_not (Nat.not_lt.mpr room), ok_bind]
    rfl

variable (script : CScript) (stack : Stack) (nOpCount : ℕ) {pc rest : CScript} {opcode : UInt8}

theorem steps_push (read : getOp2 pc = some (opcode, data, rest)) (push : opcode ≤ OP_PUSHDATA4)
    (short : data.length ≤ 520) (few : nOpCount ≤ 201) (room : stack.length < 1000) :
    StepsTo C checkSig (running script pc stack nOpCount) (running script rest (data :: stack) nOpCount) := by
  obtain ⟨plain, enabled⟩ := small_opcode (UInt8.le_trans push (by decide))
  refine step_of_dispatch C checkSig read short (if_neg plain) few enabled ?_ ?_
  · rw [Machine.dispatch, if_pos (by simpa [running, Machine.fExec] using push)]
    rfl
  · simpa [running] using room

theorem steps_execute (instr : Instruction) (read : getOp2 pc = some (opcode, [], rest))
    (above : ¬ opcode ≤ OP_PUSHDATA4) (enabled : isDisabled opcode = false)
    (found : instruction opcode = some instr) (few : nOpCount < 201)
    (executed : ((running script rest stack (if opcode > OP_16 then nOpCount + 1 else nOpCount)).execute
      C checkSig true instr).result = .ok after)
    (room : after.stack.length + after.altstack.length ≤ 1000) :
    StepsTo C checkSig (running script pc stack nOpCount) after := by
  refine step_of_dispatch C checkSig read (Nat.zero_le _) rfl ?_ enabled ?_ room
  · change (if opcode > OP_16 then nOpCount + 1 else nOpCount) ≤ 201
    split_ifs <;> omega
  · rw [Machine.dispatch, if_neg (by simp [above]), if_pos (by simp [running, Machine.fExec]), found]
    exact executed

theorem steps_stackOp (op : StackOp) {after : Stack} (read : getOp2 pc = some (opcode, [], rest))
    (above : opcode > OP_16) (enabled : isDisabled opcode = false)
    (found : instruction opcode = some (.stack op)) (few : nOpCount < 201) (run : op.run C stack = .ok after)
    (room : after.length ≤ 1000) :
    StepsTo C checkSig (running script pc stack nOpCount) (running script rest after (nOpCount + 1)) := by
  have plain : ¬ opcode ≤ OP_PUSHDATA4 := fun push => (small_opcode (UInt8.le_trans push (by decide))).1 above
  refine steps_execute C checkSig script stack nOpCount _ read plain enabled found few ?_ (by simpa [running] using room)
  rw [if_pos above, Machine.execute, Metered.result_bind, Metered.result_lift]
  change (op.run C stack >>= _) = _
  rw [run]
  rfl

theorem steps_number {n : ℕ} (read : getOp2 pc = some (opcode, [], rest)) (low : OP_1 ≤ opcode)
    (high : opcode ≤ OP_16) (number : decodeOpN opcode = n) (few : nOpCount < 201) (room : stack.length < 1000) :
    StepsTo C checkSig (running script pc stack nOpCount) (running script rest (getvch n :: stack) nOpCount) := by
  obtain ⟨plain, -, found⟩ := number_opcode low high
  obtain ⟨small, enabled⟩ := small_opcode high
  rw [number] at found
  refine steps_execute C checkSig script stack nOpCount _ read plain enabled found few ?_ (by simpa [running] using room)
  rw [if_neg small]
  rfl

end Rounds

def pushes (values : List Valtype) : CScript := values.flatMap pushData

theorem getOp2_pushes (short : value.length ≤ 520) (values : List Valtype) :
    ∃ opcode, opcode ≤ OP_PUSHDATA4 ∧ getOp2 (pushes (value :: values)) = some (opcode, value, pushes values) := by
  obtain ⟨opcode, push, reads⟩ := readsAs_pushData (b := value) (by omega)
  refine ⟨opcode, push, ?_⟩
  rw [pushes, List.flatMap_cons]
  exact reads.getOp2 _

theorem reaches_pushes (C : Crypto) (checkSig : SigChecker) {script : CScript} :
    ∀ {values : List Valtype} (stack : Stack), (∀ value ∈ values, value.length ≤ 520) →
      stack.length + values.length ≤ 1000 →
      Reaches C checkSig (running script (pushes values) stack 0)
        (running script [] (values.reverse ++ stack) 0) := by
  intro values
  induction values with
  | nil => exact fun _ _ _ => .refl
  | cons value values ih =>
    intro stack short room
    rw [List.forall_mem_cons] at short
    rw [List.length_cons] at room
    obtain ⟨opcode, push, read⟩ := getOp2_pushes short.1 values
    have step := steps_push C checkSig script stack 0 read push short.1 (Nat.zero_le 201) (by omega)
    have others := ih (value :: stack) short.2 (by rw [List.length_cons]; omega)
    rw [List.reverse_cons, List.append_assoc]
    exact .head step others

theorem length_pushData_le (short : value.length ≤ 520) : (pushData value).length ≤ 523 := by
  rw [pushData]
  split_ifs <;> simp only [List.length_cons, List.length_append, length_leBytes] <;> omega

theorem length_pushes_le (short : ∀ value ∈ values, value.length ≤ 520) :
    (pushes values).length ≤ 523 * values.length := by
  induction values with
  | nil => exact le_rfl
  | cons value values ih =>
    rw [List.forall_mem_cons] at short
    have first := length_pushData_le short.1
    have others := ih short.2
    rw [pushes] at others
    rw [pushes, List.flatMap_cons, List.length_append, List.length_cons]
    omega

theorem evalScript_pushes (C : Crypto) (checkSig : SigChecker) (short : ∀ value ∈ values, value.length ≤ 520)
    (few : values.length ≤ 19) : (evalScript C checkSig [] (pushes values)).result = .ok values.reverse := by
  have length := length_pushes_le short
  refine (evalScript_eq_ok C checkSig).mpr ⟨by omega, _, reaches_pushes C checkSig [] short ?_, rfl, rfl, ?_⟩
  · rw [List.length_nil]
    omega
  · exact List.append_nil _

theorem isPushOnly_pushes (short : ∀ value ∈ values, value.length ≤ 520) : isPushOnly (pushes values) = true := by
  have scan : ∀ (values : List Valtype) (fuel : ℕ), (∀ value ∈ values, value.length ≤ 520) →
      (pushes values).length ≤ fuel → (scanOpcodes fuel (pushes values)).2 = true ∧
        ∀ op ∈ (scanOpcodes fuel (pushes values)).1, op.1 ≤ OP_16 := by
    intro values
    induction values with
    | nil =>
      intro fuel _ _
      cases fuel <;> exact ⟨rfl, nofun⟩
    | cons value values ih =>
      intro fuel short enough
      rw [List.forall_mem_cons] at short
      obtain ⟨opcode, push, read⟩ := getOp2_pushes short.1 values
      have shorter := getOp2_length_lt read
      obtain ⟨fuel, rfl⟩ : ∃ rest, fuel = rest + 1 := ⟨fuel - 1, by omega⟩
      rw [scanOpcodes_succ fuel read, List.forall_mem_cons]
      obtain ⟨complete, others⟩ := ih fuel short.2 (by omega)
      refine ⟨complete, ?_, others⟩
      simpa using (small_opcode (UInt8.le_trans push (by decide))).1
  have all := scan values _ short le_rfl
  simpa [isPushOnly, parseScript] using all

end RitCoin.Proof
