import RitCoin.Proof.Script

namespace RitCoin.Proof
open Lib Model

def IsOperation (b : CScript) : Prop := ∃ opcode data, getOp2 b = some (opcode, data, [])

theorem isOperation_iff {b : CScript} : IsOperation b ↔ ∃ opcode data, ReadsAs b opcode data := by
  constructor
  · rintro ⟨opcode, data, read⟩
    obtain ⟨front, reads, rfl⟩ := getOp2_eq_some.mp read
    rw [List.append_nil]
    exact ⟨opcode, data, reads⟩
  · rintro ⟨opcode, data, reads⟩
    have read := reads.getOp2 []
    rw [List.append_nil] at read
    exact ⟨opcode, data, read⟩

/-- The operations that repeated calls of `GetOp` read, as bytes, and what is left when it returns false. -/
def readOperations : ℕ → CScript → List CScript × CScript
  | 0, script => ([], script)
  | fuel + 1, script =>
    match getOp2 script with
    | none => ([], script)
    | some (_, _, rest) =>
      let (operations, tail) := readOperations fuel rest
      (script.take (script.length - rest.length) :: operations, tail)

def operations (script : CScript) : List CScript × CScript := readOperations (script.length + 1) script

theorem readOperations_spec : ∀ (fuel : ℕ) (script : CScript), script.length < fuel →
    script = (readOperations fuel script).1.flatten ++ (readOperations fuel script).2 ∧
    (∀ operation ∈ (readOperations fuel script).1, IsOperation operation) ∧
    getOp2 (readOperations fuel script).2 = none := by
  intro fuel
  induction fuel with
  | zero => exact fun script enough => absurd enough (Nat.not_lt_zero _)
  | succ fuel ih =>
    intro script enough
    cases read : getOp2 script with
    | none =>
      simp only [readOperations, read]
      exact ⟨rfl, nofun, trivial⟩
    | some op =>
      obtain ⟨opcode, data, rest⟩ := op
      have shorter := getOp2_length_lt read
      obtain ⟨front, reads, rfl⟩ := getOp2_eq_some.mp read
      obtain ⟨split, complete, stuck⟩ := ih rest (by omega)
      simp only [readOperations, read, List.length_append, Nat.add_sub_cancel, List.take_left,
        List.flatten_cons, List.append_assoc, List.forall_mem_cons]
      refine ⟨congrArg (front ++ ·) split, ⟨isOperation_iff.mpr ⟨opcode, data, reads⟩, complete⟩, stuck⟩

theorem operations_spec (script : CScript) :
    script = (operations script).1.flatten ++ (operations script).2 ∧
    (∀ operation ∈ (operations script).1, IsOperation operation) ∧ getOp2 (operations script).2 = none :=
  readOperations_spec (script.length + 1) script (Nat.lt_succ_self _)

theorem eq_of_take {operation b rest : CScript} (first : IsOperation operation) (single : IsOperation b)
    (found : (operation ++ rest).take b.length = b) : operation = b := by
  obtain ⟨opcode, data, reads⟩ := isOperation_iff.mp first
  obtain ⟨opcode', data', reads'⟩ := isOperation_iff.mp single
  have split : operation ++ rest = b ++ (operation ++ rest).drop b.length := by
    conv_lhs => rw [← List.take_append_drop b.length (operation ++ rest), found]
  have read := reads.getOp2 rest
  have read' := reads'.getOp2 ((operation ++ rest).drop b.length)
  rw [← split, read, Option.some.injEq, Prod.mk.injEq, Prod.mk.injEq] at read'
  rw [← read'.2.2] at split
  exact List.append_cancel_right split

theorem deleteFrom_operations {b tail : CScript} (single : IsOperation b) (stuck : getOp2 tail = none) :
    ∀ (operations : List CScript), (∀ operation ∈ operations, IsOperation operation) → ∀ (fuel : ℕ),
      (operations.flatten ++ tail).length < fuel →
      deleteFrom b fuel (operations.flatten ++ tail) =
        ((operations.filter (· ≠ b)).flatten ++ tail, operations.count b) := by
  intro operations
  induction operations with
  | nil =>
    intro _ fuel enough
    obtain ⟨fuel, rfl⟩ : ∃ k, fuel = k + 1 := ⟨fuel - 1, by omega⟩
    have notFound : ¬ (b.length ≤ tail.length ∧ tail.take b.length = b) := by
      rintro ⟨-, found⟩
      obtain ⟨opcode, data, reads⟩ := isOperation_iff.mp single
      have read := reads.getOp2 (tail.drop b.length)
      have split : b ++ tail.drop b.length = tail := by
        conv_rhs => rw [← List.take_append_drop b.length tail, found]
      rw [split, stuck] at read
      cases read
    simp only [List.flatten_nil, List.nil_append, List.filter_nil, List.count_nil]
    rw [deleteFrom, if_neg notFound, stuck]
  | cons operation operations ih =>
    intro complete fuel enough
    obtain ⟨fuel, rfl⟩ : ∃ k, fuel = k + 1 := ⟨fuel - 1, by omega⟩
    rw [List.forall_mem_cons] at complete
    obtain ⟨opcode, data, reads⟩ := isOperation_iff.mp complete.1
    have nonempty := List.length_pos_iff.mpr reads.ne_nil
    rw [List.flatten_cons, List.append_assoc, List.length_append] at enough
    have rest := ih complete.2 fuel (by omega)
    rw [List.flatten_cons, List.append_assoc]
    by_cases same : operation = b
    · subst same
      rw [deleteFrom, if_pos ⟨by rw [List.length_append]; omega, List.take_left⟩, List.drop_left, rest]
      simp
    · have notFound : ¬ (b.length ≤ (operation ++ (operations.flatten ++ tail)).length ∧
          (operation ++ (operations.flatten ++ tail)).take b.length = b) :=
        fun found => same (eq_of_take complete.1 single found.2)
      rw [deleteFrom, if_neg notFound, reads.getOp2]
      simp only [rest]
      simp [same]

theorem findAndDelete_flatten {b tail : CScript} (single : IsOperation b) (stuck : getOp2 tail = none)
    {operations : List CScript} (complete : ∀ operation ∈ operations, IsOperation operation) :
    findAndDelete (operations.flatten ++ tail) b =
      ((operations.filter (· ≠ b)).flatten ++ tail, operations.count b) := by
  obtain ⟨opcode, data, reads⟩ := isOperation_iff.mp single
  have nonempty : ¬ b.isEmpty = true := by
    rw [List.isEmpty_iff]
    exact reads.ne_nil
  rw [findAndDelete, if_neg nonempty]
  exact deleteFrom_operations single stuck operations complete _ (Nat.lt_succ_self _)

/-- `FindAndDelete` of one operation deletes the operations that are equal to it, and nothing else. -/
theorem findAndDelete_operation (script b : CScript) (single : IsOperation b) :
    script = (operations script).1.flatten ++ (operations script).2 ∧
    (∀ operation ∈ (operations script).1, IsOperation operation) ∧ getOp2 (operations script).2 = none ∧
    findAndDelete script b =
      (((operations script).1.filter (· ≠ b)).flatten ++ (operations script).2,
        (operations script).1.count b) ∧
    findAndDelete (findAndDelete script b).1 b = ((findAndDelete script b).1, 0) := by
  obtain ⟨split, complete, stuck⟩ := operations_spec script
  have first : findAndDelete script b =
      (((operations script).1.filter (· ≠ b)).flatten ++ (operations script).2,
        (operations script).1.count b) := by
    conv_lhs => rw [split]
    exact findAndDelete_flatten single stuck complete
  refine ⟨split, complete, stuck, first, ?_⟩
  have kept : ∀ operation ∈ (operations script).1.filter (· ≠ b), IsOperation operation :=
    fun operation member => complete operation (List.mem_of_mem_filter member)
  have none : ((operations script).1.filter (· ≠ b)).count b = 0 := by
    rw [List.count_eq_zero]
    exact fun member => by simpa using List.of_mem_filter member
  rw [first, findAndDelete_flatten single stuck kept, List.filter_filter, none]
  simp only [Bool.and_self]

theorem findAndDelete_separators :
    operations [0xab, 2, 0xab, 0xab, 0xab, 3, 0xab] = ([[0xab], [2, 0xab, 0xab], [0xab]], [3, 0xab]) ∧
    findAndDelete [0xab, 2, 0xab, 0xab, 0xab, 3, 0xab] [0xab] = ([2, 0xab, 0xab, 3, 0xab], 2) := by
  have spec := findAndDelete_operation [0xab, 2, 0xab, 0xab, 0xab, 3, 0xab] [0xab] ⟨0xab, [], rfl⟩
  exact ⟨by decide, spec.2.2.2.1⟩

def ScriptItem.Readable : ScriptItem → Prop
  | .data b => b.length < 2 ^ 32
  | .opcode opcode => (OP_PUSHDATA4.toNat : Int) < opcode ∧ opcode ≤ 0xff

def ScriptItem.readBack : ScriptItem → UInt8 × List UInt8
  | .data b => (opcodeOf b, b)
  | .opcode opcode => (UInt8.ofNat opcode.toNat, [])

def ScriptItem.bytes : ScriptItem → CScript
  | .data b => pushData b
  | .opcode opcode => [UInt8.ofNat opcode.toNat]

theorem ScriptItem.Readable.readsAs {item : ScriptItem} (readable : Readable item) :
    ReadsAs (bytes item) (readBack item).1 (readBack item).2 := by
  cases item with
  | data b => exact (readsAs_opcodeOf readable).2
  | opcode opcode =>
    obtain ⟨above, below⟩ := readable
    change (78 : Int) < opcode at above
    refine .plain ?_
    rw [UInt8.lt_iff_toNat_lt, UInt8.toNat_ofNat_of_lt' (by change _ < 256; omega)]
    change 78 < opcode.toNat
    omega

theorem appendAll_eq_ok : ∀ (items : List ScriptItem) (script : CScript),
    (∀ item ∈ items, ScriptItem.Readable item) →
    appendAll script items = .ok (script ++ (items.map ScriptItem.bytes).flatten) := by
  intro items
  induction items with
  | nil =>
    intro script _
    rw [List.map_nil, List.flatten_nil, List.append_nil]
    rfl
  | cons item items ih =>
    intro script readable
    rw [List.forall_mem_cons] at readable
    rw [List.map_cons, List.flatten_cons, ← List.append_assoc, ← ih _ readable.2]
    cases item with
    | data b => rfl
    | opcode opcode =>
      obtain ⟨above, below⟩ := readable.1
      change (78 : Int) < opcode at above
      have valid : ¬ (opcode < 0 ∨ 0xff < opcode) := by omega
      simp only [appendAll, List.foldlM_cons, pushOpcode, failIf_of_not valid]
      rfl

theorem scanOpcodes_flatten : ∀ (items : List ScriptItem), (∀ item ∈ items, ScriptItem.Readable item) →
    ∀ (fuel : ℕ), (items.map ScriptItem.bytes).flatten.length ≤ fuel →
      scanOpcodes fuel (items.map ScriptItem.bytes).flatten = (items.map ScriptItem.readBack, true) := by
  intro items
  induction items with
  | nil =>
    intro _ fuel _
    cases fuel <;> rfl
  | cons item items ih =>
    intro readable fuel enough
    rw [List.forall_mem_cons] at readable
    have reads := readable.1.readsAs
    have nonempty := List.length_pos_iff.mpr reads.ne_nil
    rw [List.map_cons, List.flatten_cons] at enough ⊢
    rw [List.length_append] at enough
    obtain ⟨fuel, rfl⟩ : ∃ k, fuel = k + 1 := ⟨fuel - 1, by omega⟩
    rw [scanOpcodes_succ fuel (reads.getOp2 _), ih readable.2 fuel (by omega)]
    rfl

theorem parseScript_appendAll (items : List ScriptItem) (readable : ∀ item ∈ items, ScriptItem.Readable item) :
    ∃ script, appendAll [] items = .ok script ∧
      parseScript script = (items.map ScriptItem.readBack, true) := by
  refine ⟨(items.map ScriptItem.bytes).flatten, ?_, ?_⟩
  · rw [appendAll_eq_ok items [] readable, List.nil_append]
  · exact scanOpcodes_flatten items readable _ le_rfl

theorem parseScript_appendAll_short :
    ∃ script, appendAll [] [.data [1, 2], .opcode 0xac, .data []] = .ok script ∧
      parseScript script = ([(2, [1, 2]), (0xac, []), (0, [])], true) :=
  parseScript_appendAll [.data [1, 2], .opcode 0xac, .data []] (by
    simp only [List.forall_mem_cons, ScriptItem.Readable, List.not_mem_nil, false_implies, implies_true, and_true]
    decide)

end RitCoin.Proof
