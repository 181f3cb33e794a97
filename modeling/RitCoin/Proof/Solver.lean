import RitCoin.Model.Solver
import RitCoin.Proof.Script

namespace RitCoin.Proof
open Lib Model TxnOutType
variable {script rest : CScript} {opcode opcode1 : UInt8} {vSolutions : List Valtype} {data : List UInt8}
  {matched : Bool} {typeRet : TxnOutType} {vch1 : Valtype}

theorem getOp2_plain (read : getOp2 script = some (opcode, data, rest)) (above : ¬ opcode ≤ OP_PUSHDATA4) :
    data = [] := by
  obtain ⟨front, reads, -⟩ := getOp2_eq_some.mp read
  cases reads with
  | push push => exact absurd push above
  | plain => rfl

theorem getOp2_data (read : getOp2 script = some (opcode, data, rest)) (nonempty : data ≠ []) :
    opcode ≤ OP_PUSHDATA4 := by
  by_contra above
  exact nonempty (getOp2_plain read above)

theorem getOp2_template (above : ¬ opcode ≤ OP_PUSHDATA4) (rest : CScript) :
    getOp2 (opcode :: rest) = some (opcode, [], rest) := by
  rw [getOp2, if_neg above]

section Templates
variable {fuel : ℕ} {pc1 pc2 : CScript} {opcode2 : UInt8} {vSolutions matched : List Valtype}

theorem matchTemplate_nil (found : matchTemplate (fuel + 1) pc1 [] vSolutions = some matched) :
    pc1 = [] ∧ vSolutions = matched := by
  rw [matchTemplate] at found
  split_ifs at found with done
  · exact ⟨done.1, Option.some.inj found⟩
  · obtain ⟨op, -, found⟩ := Option.bind_eq_some_iff.mp found
    cases found

theorem matchTemplate_cons (above : ¬ opcode2 ≤ OP_PUSHDATA4) (single : opcode2 ≠ OP_PUBKEYS)
    (found : matchTemplate (fuel + 1) pc1 (opcode2 :: pc2) vSolutions = some matched) :
    ∃ opcode1 vch1 rest vSolutions', getOp2 pc1 = some (opcode1, vch1, rest) ∧
      matchOp opcode1 vch1 opcode2 [] vSolutions = some vSolutions' ∧
      matchTemplate fuel rest pc2 vSolutions' = some matched := by
  rw [matchTemplate, if_neg (by simp)] at found
  obtain ⟨⟨opcode1, vch1, rest⟩, read, found⟩ := Option.bind_eq_some_iff.mp found
  rw [getOp2_template above] at found
  change (if opcode2 = OP_PUBKEYS then _ else _) = _ at found
  rw [if_neg single] at found
  obtain ⟨vSolutions', matchedOp, found⟩ := Option.bind_eq_some_iff.mp found
  exact ⟨opcode1, vch1, rest, vSolutions', read, matchedOp, found⟩

inductive ReadsKeys : CScript → List Valtype → CScript → Prop
  | nil (pc : CScript) : ReadsKeys pc [] pc
  | cons {pc next rest : CScript} {opcode : UInt8} {key : Valtype} {keys : List Valtype} :
      getOp2 pc = some (opcode, key, next) → isKeySized key = true → ReadsKeys next keys rest →
      ReadsKeys pc (key :: keys) rest

theorem takeKeys_reads : ∀ (fuel : ℕ) {pc : CScript} {op : UInt8 × Valtype × CScript} (vSolutions : List Valtype),
    getOp2 pc = some op →
    ∃ keys rest, (takeKeys fuel op vSolutions).2 = vSolutions ++ keys ∧ ReadsKeys pc keys rest ∧
      (getOp2 rest = some (takeKeys fuel op vSolutions).1 ∨ (takeKeys fuel op vSolutions).1.1 = OP_INVALIDOPCODE) := by
  intro fuel
  induction fuel with
  | zero =>
    intro pc op vSolutions read
    exact ⟨[], pc, (List.append_nil _).symm, .nil pc, .inl read⟩
  | succ fuel ih =>
    intro pc op vSolutions read
    obtain ⟨opcode1, vch1, pc1⟩ := op
    rw [takeKeys]
    split_ifs with sized
    · cases next : getOp2 pc1 with
      | none => exact ⟨[vch1], pc1, rfl, .cons read sized (.nil pc1), .inr rfl⟩
      | some op =>
        obtain ⟨keys, rest, found, reads, last⟩ := ih (vSolutions ++ [vch1]) next
        rw [List.append_assoc] at found
        exact ⟨vch1 :: keys, rest, found, .cons read sized reads, last⟩
    · exact ⟨[], pc, (List.append_nil _).symm, .nil pc, .inl read⟩

theorem matchTemplate_takeKeys :
    matchTemplate (fuel + 1) pc1 (OP_PUBKEYS :: pc2) vSolutions =
      (getOp2 pc1).bind fun op => (getOp2 pc2).bind fun op2 =>
        let taken := takeKeys (op.2.2.length + 1) op vSolutions
        (matchOp taken.1.1 taken.1.2.1 op2.1 op2.2.1 taken.2).bind fun vSolutions =>
          matchTemplate fuel taken.1.2.2 op2.2.2 vSolutions := by
  rw [matchTemplate, if_neg (by simp)]
  rfl

theorem matchTemplate_pubKeys (above : ¬ opcode ≤ OP_PUSHDATA4)
    (found : matchTemplate (fuel + 1) pc1 (OP_PUBKEYS :: opcode :: pc2) vSolutions = some matched) :
    ∃ keys next opcode1 vch1 rest vSolutions', ReadsKeys pc1 keys next ∧
      (getOp2 next = some (opcode1, vch1, rest) ∨ opcode1 = OP_INVALIDOPCODE) ∧
      matchOp opcode1 vch1 opcode [] (vSolutions ++ keys) = some vSolutions' ∧
      matchTemplate fuel rest pc2 vSolutions' = some matched := by
  rw [matchTemplate_takeKeys, getOp2_template above] at found
  obtain ⟨op, read, found⟩ := Option.bind_eq_some_iff.mp found
  obtain ⟨_, ⟨⟩, found⟩ := Option.bind_eq_some_iff.mp found
  obtain ⟨vSolutions', matchedOp, found⟩ := Option.bind_eq_some_iff.mp found
  obtain ⟨keys, next, same, reads, last⟩ := takeKeys_reads (op.2.2.length + 1) vSolutions read
  rw [same] at matchedOp
  exact ⟨keys, next, _, _, _, vSolutions', reads, last, matchedOp, found⟩

end Templates

theorem scanTemplates_eq (standard : typeRet ≠ TX_NONSTANDARD) :
    ∀ {templates : List (TxnOutType × CScript)},
    scanTemplates script templates = ⟨matched, typeRet, vSolutions⟩ →
    ∃ template, (typeRet, template) ∈ templates ∧
      matchTemplate (template.length + 1) script template [] = some vSolutions ∧
      matched = (typeRet != TX_MULTISIG || multisigIsValid vSolutions) := by
  intro templates
  induction templates with
  | nil =>
    intro scan
    cases scan
    exact absurd rfl standard
  | cons first templates ih =>
    intro scan
    obtain ⟨typeRet', template⟩ := first
    rw [scanTemplates] at scan
    cases found : matchTemplate (template.length + 1) script template [] with
    | none =>
      rw [found] at scan
      obtain ⟨template, member, rest⟩ := ih scan
      exact ⟨template, List.mem_cons_of_mem _ member, rest⟩
    | some vSolutions' =>
      rw [found] at scan
      cases scan
      exact ⟨template, List.mem_cons_self, found, rfl⟩

theorem solver_template (solved : solver script = ⟨matched, typeRet, vSolutions⟩)
    (standard : typeRet ≠ TX_NONSTANDARD) (plain : typeRet ≠ TX_SCRIPTHASH) :
    isPayToScriptHash script = false ∧ ∃ template, (typeRet, template) ∈ mTemplates ∧
      matchTemplate (template.length + 1) script template [] = some vSolutions ∧
      matched = (typeRet != TX_MULTISIG || multisigIsValid vSolutions) := by
  rw [solver] at solved
  split_ifs at solved with payToScriptHash
  · cases solved
    exact absurd rfl plain
  · exact ⟨by simpa using payToScriptHash, scanTemplates_eq standard solved⟩

theorem matchOp_plain {opcode2 : UInt8} {matched : List Valtype}
    (plain : opcode2 ≠ OP_PUBKEY ∧ opcode2 ≠ OP_PUBKEYHASH ∧ opcode2 ≠ OP_SMALLINTEGER ∧ opcode2 ≠ OP_SMALLDATA)
    (found : matchOp opcode1 vch1 opcode2 [] vSolutions = some matched) :
    opcode1 = opcode2 ∧ vch1 = [] ∧ vSolutions = matched := by
  obtain ⟨key, hash, integer, data⟩ := plain
  rw [matchOp, if_neg key, if_neg hash, if_neg integer, if_neg data] at found
  split_ifs at found with different
  rw [not_or, not_not, not_not] at different
  exact ⟨different.1, different.2, Option.some.inj found⟩

section Standard
variable {script : CScript} {vSolutions keys : List Valtype} {m n : UInt8}

theorem solver_pubKey (solved : solver script = ⟨true, TX_PUBKEY, vSolutions⟩) :
    ∃ opcode vchPubKey rest, vSolutions = [vchPubKey] ∧ isKeySized vchPubKey = true ∧
      getOp2 script = some (opcode, vchPubKey, rest) ∧ getOp2 rest = some (OP_CHECKSIG, [], []) := by
  obtain ⟨-, template, member, found, -⟩ := solver_template solved (by decide) (by decide)
  obtain rfl : template = [OP_PUBKEY, OP_CHECKSIG] := by simpa [mTemplates] using member
  obtain ⟨opcode, vchPubKey, rest, _, read, key, found⟩ := matchTemplate_cons (by decide) (by decide) found
  rw [matchOp, if_pos rfl] at key
  split_ifs at key with sized
  cases key
  obtain ⟨opcode', vch, rest', _, read', plain, found⟩ := matchTemplate_cons (by decide) (by decide) found
  obtain ⟨rfl, rfl, rfl⟩ := matchOp_plain (by decide) plain
  obtain ⟨rfl, rfl⟩ := matchTemplate_nil found
  exact ⟨opcode, vchPubKey, rest, rfl, sized, read, read'⟩

theorem solver_pubKeyHash (solved : solver script = ⟨true, TX_PUBKEYHASH, vSolutions⟩) :
    ∃ opcode hash pc1 pc2 pc3 pc4, vSolutions = [hash] ∧ hash.length = 20 ∧
      getOp2 script = some (OP_DUP, [], pc1) ∧ getOp2 pc1 = some (OP_HASH160, [], pc2) ∧
      getOp2 pc2 = some (opcode, hash, pc3) ∧ getOp2 pc3 = some (OP_EQUALVERIFY, [], pc4) ∧
      getOp2 pc4 = some (OP_CHECKSIG, [], []) := by
  obtain ⟨-, template, member, found, -⟩ := solver_template solved (by decide) (by decide)
  obtain rfl : template = [OP_DUP, OP_HASH160, OP_PUBKEYHASH, OP_EQUALVERIFY, OP_CHECKSIG] := by
    simpa [mTemplates] using member
  obtain ⟨_, _, pc1, _, read1, plain, found⟩ := matchTemplate_cons (by decide) (by decide) found
  obtain ⟨rfl, rfl, rfl⟩ := matchOp_plain (by decide) plain
  obtain ⟨_, _, pc2, _, read2, plain, found⟩ := matchTemplate_cons (by decide) (by decide) found
  obtain ⟨rfl, rfl, rfl⟩ := matchOp_plain (by decide) plain
  obtain ⟨opcode, hash, pc3, _, read3, key, found⟩ := matchTemplate_cons (by decide) (by decide) found
  rw [matchOp, if_neg (by decide), if_pos rfl] at key
  split_ifs at key with sized
  cases key
  obtain ⟨_, _, pc4, _, read4, plain, found⟩ := matchTemplate_cons (by decide) (by decide) found
  obtain ⟨rfl, rfl, rfl⟩ := matchOp_plain (by decide) plain
  obtain ⟨_, _, pc5, _, read5, plain, found⟩ := matchTemplate_cons (by decide) (by decide) found
  obtain ⟨rfl, rfl, rfl⟩ := matchOp_plain (by decide) plain
  obtain ⟨rfl, rfl⟩ := matchTemplate_nil found
  exact ⟨opcode, hash, pc1, pc2, pc3, pc4, rfl, sized, read1, read2, read3, read4, read5⟩

theorem matchOp_number {matched : List Valtype}
    (found : matchOp opcode1 vch1 OP_SMALLINTEGER [] vSolutions = some matched) :
    matched = vSolutions ++ [[UInt8.ofNat (decodeOpN opcode1)]] ∧ opcode1 ≤ OP_16 ∧
      (1 ≤ UInt8.ofNat (decodeOpN opcode1) → OP_1 ≤ opcode1 ∧
        (UInt8.ofNat (decodeOpN opcode1)).toNat = decodeOpN opcode1) := by
  rw [matchOp, if_neg (by decide), if_neg (by decide), if_pos rfl] at found
  split_ifs at found with small
  cases found
  have high : opcode1 ≤ OP_16 := by
    rcases small with rfl | small
    · decide
    · exact small.2
  refine ⟨rfl, high, fun positive => ⟨?_, toNat_decodeOpN opcode1⟩⟩
  rw [UInt8.le_iff_toNat_le, toNat_decodeOpN, decodeOpN] at positive
  exact UInt8.le_iff_toNat_le.mpr (Nat.lt_of_sub_pos positive)

theorem multisigIsValid_iff :
    multisigIsValid ([m] :: (keys ++ [[n]])) = true ↔ 1 ≤ m ∧ 1 ≤ n ∧ m ≤ n ∧ keys.length = n.toNat := by
  have last : solutionByte ([m] :: (keys ++ [[n]])).getLast? = n := by
    rw [← List.cons_append, List.getLast?_concat]
    rfl
  have first : solutionByte ([m] :: (keys ++ [[n]])).head? = m := rfl
  have positive : ∀ byte : UInt8, 1 ≤ byte ↔ ¬ byte = 0 := fun byte => by
    rw [UInt8.le_iff_toNat_le, ← UInt8.toNat_inj]
    exact Nat.one_le_iff_ne_zero
  simp only [multisigIsValid, last, first]
  simp [and_assoc, positive]

theorem solver_multisig (solved : solver script = ⟨true, TX_MULTISIG, vSolutions⟩) :
    ∃ opcodeM opcodeN keys pc1 pc2 pc3,
      vSolutions = [UInt8.ofNat (decodeOpN opcodeM)] :: (keys ++ [[UInt8.ofNat (decodeOpN opcodeN)]]) ∧
      (OP_1 ≤ opcodeM ∧ opcodeM ≤ OP_16) ∧ (OP_1 ≤ opcodeN ∧ opcodeN ≤ OP_16) ∧
      keys.length = decodeOpN opcodeN ∧ decodeOpN opcodeM ≤ decodeOpN opcodeN ∧
      getOp2 script = some (opcodeM, [], pc1) ∧ ReadsKeys pc1 keys pc2 ∧
      getOp2 pc2 = some (opcodeN, [], pc3) ∧ getOp2 pc3 = some (OP_CHECKMULTISIG, [], []) := by
  obtain ⟨-, template, member, found, valid⟩ := solver_template solved (by decide) (by decide)
  obtain rfl : template = [OP_SMALLINTEGER, OP_PUBKEYS, OP_SMALLINTEGER, OP_CHECKMULTISIG] := by
    simpa [mTemplates] using member
  obtain ⟨opcodeM, vchM, pc1, _, readM, numberM, found⟩ := matchTemplate_cons (by decide) (by decide) found
  obtain ⟨rfl, highM, lowM⟩ := matchOp_number numberM
  obtain ⟨keys, pc2, opcodeN, vchN, pc3, _, readsKeys, readN, numberN, found⟩ :=
    matchTemplate_pubKeys (by decide) found
  obtain ⟨rfl, highN, lowN⟩ := matchOp_number numberN
  obtain ⟨_, _, pc4, _, readC, plain, found⟩ := matchTemplate_cons (by decide) (by decide) found
  obtain ⟨rfl, rfl, rfl⟩ := matchOp_plain (by decide) plain
  obtain ⟨rfl, rfl⟩ := matchTemplate_nil found
  have readN : getOp2 pc2 = some (opcodeN, vchN, pc3) := by
    rcases readN with read | rfl
    · exact read
    · exact absurd highN (by decide)
  have bytes := multisigIsValid_iff.mp valid.symm
  obtain ⟨positiveM, positiveN, order, length⟩ := bytes
  obtain ⟨lowM, valueM⟩ := lowM positiveM
  obtain ⟨lowN, valueN⟩ := lowN positiveN
  have number : ∀ {opcode : UInt8}, OP_1 ≤ opcode → ¬ opcode ≤ OP_PUSHDATA4 := fun low high =>
    absurd (UInt8.le_trans low high) (by decide)
  rw [getOp2_plain readM (number lowM)] at readM
  rw [getOp2_plain readN (number lowN)] at readN
  rw [UInt8.le_iff_toNat_le, valueM, valueN] at order
  rw [valueN] at length
  exact ⟨opcodeM, opcodeN, keys, pc1, pc2, pc3, rfl, ⟨lowM, highM⟩, ⟨lowN, highN⟩, length, order, readM, readsKeys,
    readN, readC⟩

theorem solver_multisig_keys (solved : solver script = ⟨true, TX_MULTISIG, [m] :: (keys ++ [[n]])⟩) :
    ∃ opcodeM opcodeN pc1 pc2 pc3, m.toNat = decodeOpN opcodeM ∧
      (OP_1 ≤ opcodeM ∧ opcodeM ≤ OP_16) ∧ (OP_1 ≤ opcodeN ∧ opcodeN ≤ OP_16) ∧
      keys.length = decodeOpN opcodeN ∧ decodeOpN opcodeM ≤ decodeOpN opcodeN ∧
      1 ≤ decodeOpN opcodeM ∧ decodeOpN opcodeN ≤ 16 ∧
      getOp2 script = some (opcodeM, [], pc1) ∧ ReadsKeys pc1 keys pc2 ∧
      getOp2 pc2 = some (opcodeN, [], pc3) ∧ getOp2 pc3 = some (OP_CHECKMULTISIG, [], []) := by
  obtain ⟨opcodeM, opcodeN, _, pc1, pc2, pc3, same, numberM, numberN, keyCount, order, reads⟩ := solver_multisig solved
  obtain ⟨sameM, same⟩ := List.cons.inj same
  obtain ⟨rfl, -⟩ := List.append_inj' same rfl
  refine ⟨opcodeM, opcodeN, pc1, pc2, pc3, ?_, numberM, numberN, keyCount, order, decodeOpN_pos numberM.1,
    decodeOpN_le numberN.2, reads⟩
  rw [(List.cons.inj sameM).1, toNat_decodeOpN]

end Standard

end RitCoin.Proof
