import RitCoin.Model.Multisig
import RitCoin.Model.Wallet
import RitCoin.Proof.Solver
import RitCoin.Proof.VerifyScript

namespace RitCoin.Proof
open Lib Model TxnOutType
variable {opcode : UInt8} {keys : List Valtype}

theorem eq_cons_of_getOp2 {script rest : CScript} (read : getOp2 script = some (opcode, [], rest))
    (above : ¬ opcode ≤ OP_PUSHDATA4) : script = opcode :: rest := by
  obtain ⟨front, reads, rfl⟩ := getOp2_eq_some.mp read
  cases reads with
  | push push => exact absurd push above
  | plain => rfl

section Forward
variable {fuel : ℕ} {pc1 pc2 rest : CScript} {opcode1 opcode2 : UInt8} {vch1 : Valtype} {vSolutions : List Valtype}

theorem matchTemplate_end : matchTemplate (fuel + 1) [] [] vSolutions = some vSolutions := by
  rw [matchTemplate, if_pos ⟨rfl, rfl⟩]

theorem matchTemplate_step (above : ¬ opcode2 ≤ OP_PUSHDATA4) (single : opcode2 ≠ OP_PUBKEYS)
    (read : getOp2 pc1 = some (opcode1, vch1, rest)) :
    matchTemplate (fuel + 1) pc1 (opcode2 :: pc2) vSolutions =
      (matchOp opcode1 vch1 opcode2 [] vSolutions).bind fun vSolutions => matchTemplate fuel rest pc2 vSolutions := by
  rw [matchTemplate, if_neg (by simp), read, getOp2_template above]
  change (if opcode2 = OP_PUBKEYS then _ else _) = _
  rw [if_neg single]
  rfl

theorem matchTemplate_same (above : ¬ opcode2 ≤ OP_PUSHDATA4)
    (plain : opcode2 ≠ OP_PUBKEY ∧ opcode2 ≠ OP_PUBKEYHASH ∧ opcode2 ≠ OP_SMALLINTEGER ∧ opcode2 ≠ OP_SMALLDATA)
    (single : opcode2 ≠ OP_PUBKEYS) :
    matchTemplate (fuel + 1) (opcode2 :: pc1) (opcode2 :: pc2) vSolutions = matchTemplate fuel pc1 pc2 vSolutions := by
  obtain ⟨key, hash, integer, data⟩ := plain
  rw [matchTemplate_step above single (getOp2_template above pc1), matchOp, if_neg key, if_neg hash, if_neg integer,
    if_neg data, if_neg (by simp), Option.bind_some]

theorem ReadsKeys.length_keys_le (reads : ReadsKeys pc1 keys rest) : keys.length ≤ pc1.length := by
  induction reads with
  | nil => exact Nat.zero_le _
  | cons read _ _ ih =>
    have shorter := getOp2_length_lt read
    rw [List.length_cons]
    omega

theorem takeKeys_eq {last : UInt8 × Valtype × CScript} (reads : ReadsKeys pc1 keys rest)
    (stops : getOp2 rest = some last) (unsized : isKeySized last.2.1 = false) :
    ∀ (fuel : ℕ) (vSolutions : List Valtype), keys.length ≤ fuel →
      ∃ op, getOp2 pc1 = some op ∧ takeKeys fuel op vSolutions = (last, vSolutions ++ keys) := by
  induction reads with
  | nil =>
    intro fuel vSolutions _
    obtain ⟨opcode, vch, behind⟩ := last
    refine ⟨_, stops, ?_⟩
    cases fuel with
    | zero => rw [takeKeys, List.append_nil]
    | succ fuel => simp [takeKeys, unsized]
  | cons read sized reads ih =>
    rename_i opcode key keys
    intro fuel vSolutions enough
    obtain ⟨fuel, rfl⟩ := Nat.exists_eq_add_of_le' (Nat.le_trans (Nat.succ_le_succ (Nat.zero_le _)) enough)
    rw [List.length_cons] at enough
    obtain ⟨op, next, taken⟩ := ih stops fuel (vSolutions ++ [key]) (by omega)
    refine ⟨_, read, ?_⟩
    rw [takeKeys, if_pos sized, next]
    simp [taken]

theorem takeKeys_all {last : UInt8 × Valtype × CScript} (reads : ReadsKeys pc1 keys rest)
    (stops : getOp2 rest = some last) (unsized : isKeySized last.2.1 = false) (vSolutions : List Valtype) :
    ∃ op, getOp2 pc1 = some op ∧ takeKeys (op.2.2.length + 1) op vSolutions = (last, vSolutions ++ keys) := by
  obtain ⟨op, read, -⟩ := takeKeys_eq reads stops unsized keys.length vSolutions le_rfl
  have enough : keys.length ≤ op.2.2.length + 1 := by
    cases reads with
    | nil => exact Nat.zero_le _
    | cons first _ others =>
      rw [first] at read
      cases read
      exact Nat.succ_le_succ others.length_keys_le
  obtain ⟨op', read', taken⟩ := takeKeys_eq reads stops unsized (op.2.2.length + 1) vSolutions enough
  rw [read] at read'
  cases read'
  exact ⟨op, read, taken⟩

end Forward

theorem scanTemplates_skip {script pc template : CScript} {first : UInt8} {typeRet : TxnOutType}
    {templates : List (TxnOutType × CScript)} {vch : Valtype} (read : getOp2 script = some (opcode, vch, pc))
    (above : ¬ first ≤ OP_PUSHDATA4) (single : first ≠ OP_PUBKEYS)
    (differs : matchOp opcode vch first [] [] = none) :
    scanTemplates script ((typeRet, first :: template) :: templates) = scanTemplates script templates := by
  rw [scanTemplates, List.length_cons, matchTemplate_step above single read, differs]
  rfl

theorem not_isPayToScriptHash {rest : CScript} (differs : opcode ≠ OP_HASH160) :
    isPayToScriptHash (opcode :: rest) = false := by
  have first : (some opcode == some OP_HASH160) = false := by simpa using differs
  simp [isPayToScriptHash, first]

theorem solver_return (rest : CScript) : solver (OP_RETURN :: rest) =
    scanTemplates (OP_RETURN :: rest) [(TX_NULL_DATA, [OP_RETURN, OP_SMALLDATA]), (TX_NULL_DATA, [OP_RETURN])] := by
  have read : getOp2 (OP_RETURN :: rest) = some (OP_RETURN, [], rest) := getOp2_template (by decide) rest
  rw [solver, not_isPayToScriptHash (by decide), if_neg (by decide), mTemplates,
    scanTemplates_skip read (by decide) (by decide) (by decide),
    scanTemplates_skip read (by decide) (by decide) (by decide),
    scanTemplates_skip read (by decide) (by decide) (by decide)]

theorem solver_nullData_iff (script : CScript) :
    (solver script).matched = true ∧ (solver script).typeRet = TX_NULL_DATA ↔
      script = [OP_RETURN] ∨ ∃ opcode data rest, script = OP_RETURN :: rest ∧
        getOp2 rest = some (opcode, data, []) ∧ data.length ≤ 80 := by
  constructor
  · rintro ⟨-, type⟩
    cases solved : solver script with
    | mk matched typeRet vSolutions =>
      rw [solved] at type
      change typeRet = TX_NULL_DATA at type
      subst type
      obtain ⟨-, template, member, found, -⟩ := solver_template solved (by decide) (by decide)
      have which : template = [OP_RETURN, OP_SMALLDATA] ∨ template = [OP_RETURN] := by simpa [mTemplates] using member
      rcases which with rfl | rfl
      · obtain ⟨_, _, rest, _, read, plain, found⟩ := matchTemplate_cons (by decide) (by decide) found
        obtain ⟨rfl, rfl, rfl⟩ := matchOp_plain (by decide) plain
        obtain ⟨opcode, data, _, _, read', small, found⟩ := matchTemplate_cons (by decide) (by decide) found
        obtain ⟨rfl, -⟩ := matchTemplate_nil found
        rw [matchOp, if_neg (by decide), if_neg (by decide), if_neg (by decide), if_pos rfl] at small
        split_ifs at small with long
        exact .inr ⟨opcode, data, rest, eq_cons_of_getOp2 read (by decide), read', Nat.not_lt.mp long⟩
      · obtain ⟨_, _, rest, _, read, plain, found⟩ := matchTemplate_cons (by decide) (by decide) found
        obtain ⟨rfl, rfl, rfl⟩ := matchOp_plain (by decide) plain
        obtain ⟨rfl, -⟩ := matchTemplate_nil found
        exact .inl (eq_cons_of_getOp2 read (by decide))
  · rintro (rfl | ⟨opcode, data, rest, rfl, read, short⟩)
    · decide
    · have first : getOp2 (OP_RETURN :: rest) = some (OP_RETURN, [], rest) := getOp2_template (by decide) rest
      have same : matchOp OP_RETURN [] OP_RETURN [] [] = some [] := by decide
      have small : matchOp opcode data OP_SMALLDATA [] [] = some [] := by
        rw [matchOp, if_neg (by decide), if_neg (by decide), if_neg (by decide), if_pos rfl,
          if_neg (Nat.not_lt.mpr short)]
      rw [solver_return, scanTemplates, List.length_cons, matchTemplate_step (by decide) (by decide) first, same,
        Option.bind_some, List.length_cons, matchTemplate_step (by decide) (by decide) read, small, Option.bind_some,
        matchTemplate_end]
      exact ⟨rfl, rfl⟩

def CarriesData (script : CScript) : Prop :=
  script = [OP_RETURN] ∨ ∃ opcode data rest, script = OP_RETURN :: rest ∧
    getOp2 rest = some (opcode, data, []) ∧ opcode ≤ OP_PUSHDATA4 ∧ data.length ≤ 80

theorem nullData_iff_carriesData_iff (script : CScript) :
    ((solver script).matched = true ∧ (solver script).typeRet = TX_NULL_DATA ↔ CarriesData script) ↔
      ¬ ∃ opcode, OP_PUSHDATA4 < opcode ∧ script = [OP_RETURN, opcode] := by
  rw [solver_nullData_iff]
  constructor
  · rintro same ⟨opcode, above, rfl⟩
    have read : getOp2 [opcode] = some (opcode, [], []) := getOp2_template (UInt8.not_le.mpr above) []
    rcases same.mp (.inr ⟨opcode, [], [opcode], rfl, read, Nat.zero_le _⟩) with wrong |
      ⟨opcode', data, rest, split, read', push, -⟩
    · cases wrong
    · cases split
      rw [read] at read'
      cases read'
      exact absurd push (UInt8.not_le.mpr above)
  · intro pushes
    constructor
    · rintro (rfl | ⟨opcode, data, rest, rfl, read, short⟩)
      · exact .inl rfl
      · by_cases push : opcode ≤ OP_PUSHDATA4
        · exact .inr ⟨opcode, data, rest, rfl, read, push, short⟩
        · have plain := getOp2_plain read push
          subst plain
          exact absurd ⟨opcode, UInt8.not_le.mp push, by rw [eq_cons_of_getOp2 read push]⟩ pushes
    · rintro (rfl | ⟨opcode, data, rest, rfl, read, -, short⟩)
      · exact .inl rfl
      · exact .inr ⟨opcode, data, rest, rfl, read, short⟩

theorem returnDup_nullData : (solver [OP_RETURN, OP_DUP]).matched = true ∧
    (solver [OP_RETURN, OP_DUP]).typeRet = TX_NULL_DATA ∧ ¬ CarriesData [OP_RETURN, OP_DUP] := by
  refine ⟨by decide, by decide, ?_⟩
  rintro (wrong | ⟨opcode, data, rest, split, read, push, -⟩)
  · cases wrong
  · cases split
    cases read
    exact absurd push (by decide)

open Wallet (setDestination extractDestination)

theorem pushData_hash (id : Digest 20) : pushData id.toList = 20 :: id.toList := by
  rw [pushData, id.toList_length, if_pos (by decide)]
  rfl

theorem uint160OfVch_toList (id : Digest 20) : uint160OfVch id.toList = id := by
  unfold uint160OfVch
  exact dif_pos id.toList_length

theorem solver_keyID (id : Digest 20) :
    solver (setDestination (.keyID id)) = ⟨true, TX_PUBKEYHASH, [id.toList]⟩ := by
  let tail : CScript := pushData id.toList ++ [OP_EQUALVERIFY, OP_CHECKSIG]
  have script : setDestination (.keyID id) = OP_DUP :: OP_HASH160 :: tail := by
    simp [setDestination, tail]
  obtain ⟨opcode, -, reads⟩ := readsAs_pushData (b := id.toList) (by rw [id.toList_length]; norm_num)
  have readHash : getOp2 tail = some (opcode, id.toList, [OP_EQUALVERIFY, OP_CHECKSIG]) := reads.getOp2 _
  have hash : matchOp opcode id.toList OP_PUBKEYHASH [] [] = some [id.toList] := by
    rw [matchOp, if_neg (by decide), if_pos rfl, if_pos id.toList_length]
    rfl
  have found : matchTemplate 6 (OP_DUP :: OP_HASH160 :: tail)
      [OP_DUP, OP_HASH160, OP_PUBKEYHASH, OP_EQUALVERIFY, OP_CHECKSIG] [] = some [id.toList] := by
    rw [matchTemplate_same (by decide) (by decide) (by decide), matchTemplate_same (by decide) (by decide) (by decide),
      matchTemplate_step (by decide) (by decide) readHash, hash, Option.bind_some,
      matchTemplate_same (by decide) (by decide) (by decide), matchTemplate_same (by decide) (by decide) (by decide),
      matchTemplate_end]
  rw [script, solver, not_isPayToScriptHash (by decide), if_neg (by decide), mTemplates,
    scanTemplates_skip (getOp2_template (by decide) _) (by decide) (by decide) (by decide), scanTemplates]
  simp only [List.length_cons, List.length_nil]
  rw [found]
  rfl

theorem solver_scriptID (id : Digest 20) :
    solver (setDestination (.scriptID id)) = ⟨true, TX_SCRIPTHASH, [id.toList]⟩ := by
  have script : setDestination (.scriptID id) = OP_HASH160 :: 20 :: (id.toList ++ [OP_EQUAL]) := by
    simp [setDestination, pushData_hash]
  have taken : ((OP_HASH160 :: 20 :: (id.toList ++ [OP_EQUAL])).drop 2).take 20 = id.toList := by
    change (id.toList ++ [OP_EQUAL]).take 20 = id.toList
    exact List.take_left' id.toList_length
  rw [script, solver, if_pos (isPayToScriptHash_iff.mpr ⟨id.toList, id.toList_length, rfl⟩), taken]

theorem extractDestination_keyID (C : Crypto) (id : Digest 20) :
    extractDestination C (setDestination (.keyID id)) = some (.keyID id) := by
  simp [extractDestination, solver_keyID, uint160OfVch_toList]

theorem extractDestination_scriptID (C : Crypto) (id : Digest 20) :
    extractDestination C (setDestination (.scriptID id)) = some (.scriptID id) := by
  simp [extractDestination, solver_scriptID, uint160OfVch_toList]

theorem encodeOpN_eq {n : Nat} (positive : 1 ≤ n) (small : n ≤ 16) :
    ∃ opcode, encodeOpN n = .ok opcode ∧ OP_1 ≤ opcode ∧ opcode ≤ OP_16 ∧ decodeOpN opcode = n := by
  interval_cases n <;> exact ⟨_, rfl, by decide, by decide, by decide⟩

theorem readsKeys_pushes (sized : ∀ key ∈ keys, isKeySized key = true) (rest : CScript) :
    ReadsKeys (keys.flatMap pushData ++ rest) keys rest := by
  induction keys with
  | nil => exact .nil rest
  | cons key keys ih =>
    rw [List.forall_mem_cons] at sized
    have length : key.length ≤ 120 := by
      have := sized.1
      simp [isKeySized] at this
      exact this.2
    obtain ⟨opcode, -, reads⟩ := readsAs_pushData (b := key) (by omega)
    refine @ReadsKeys.cons _ _ _ opcode _ _ ?_ sized.1 (ih sized.2)
    rw [List.flatMap_cons, List.append_assoc]
    exact reads.getOp2 _

theorem matchOp_smallInteger {vch : Valtype} {vSolutions : List Valtype} (low : OP_1 ≤ opcode)
    (high : opcode ≤ OP_16) : matchOp opcode vch OP_SMALLINTEGER [] vSolutions =
      some (vSolutions ++ [[UInt8.ofNat (decodeOpN opcode)]]) := by
  rw [matchOp, if_neg (by decide), if_neg (by decide), if_pos rfl, if_pos (.inr ⟨low, high⟩)]

theorem solver_multisigScript {opcodeM opcodeN : UInt8} (numberM : OP_1 ≤ opcodeM ∧ opcodeM ≤ OP_16)
    (numberN : OP_1 ≤ opcodeN ∧ opcodeN ≤ OP_16) (sized : ∀ key ∈ keys, isKeySized key = true)
    (keyCount : keys.length = decodeOpN opcodeN) (order : decodeOpN opcodeM ≤ decodeOpN opcodeN) :
    solver (opcodeM :: (keys.flatMap pushData ++ [opcodeN, OP_CHECKMULTISIG])) =
      ⟨true, TX_MULTISIG, [UInt8.ofNat (decodeOpN opcodeM)] :: (keys ++ [[UInt8.ofNat (decodeOpN opcodeN)]])⟩ := by
  let tail : CScript := keys.flatMap pushData ++ [opcodeN, OP_CHECKMULTISIG]
  have above : ∀ {opcode : UInt8}, OP_1 ≤ opcode → ¬ opcode ≤ OP_PUSHDATA4 := fun low high =>
    absurd (UInt8.le_trans low high) (by decide)
  have differs : ∀ {other : UInt8}, OP_16 < other → opcodeM ≠ other := by
    rintro other high rfl
    exact absurd numberM.2 (UInt8.not_le.mpr high)
  have readM : getOp2 (opcodeM :: tail) = some (opcodeM, [], tail) := getOp2_template (above numberM.1) tail
  have readN : getOp2 [opcodeN, OP_CHECKMULTISIG] = some (opcodeN, [], [OP_CHECKMULTISIG]) :=
    getOp2_template (above numberN.1) _
  have reads : ReadsKeys tail keys [opcodeN, OP_CHECKMULTISIG] := readsKeys_pushes sized _
  have found : matchTemplate 5 (opcodeM :: tail) [OP_SMALLINTEGER, OP_PUBKEYS, OP_SMALLINTEGER, OP_CHECKMULTISIG] [] =
      some ([UInt8.ofNat (decodeOpN opcodeM)] :: (keys ++ [[UInt8.ofNat (decodeOpN opcodeN)]])) := by
    obtain ⟨op, read, taken⟩ := takeKeys_all reads readN rfl [[UInt8.ofNat (decodeOpN opcodeM)]]
    rw [matchTemplate_step (by decide) (by decide) readM, matchOp_smallInteger numberM.1 numberM.2, Option.bind_some,
      List.nil_append, matchTemplate_takeKeys, read, getOp2_template (by decide)]
    simp only [Option.bind_some, taken, matchOp_smallInteger numberN.1 numberN.2]
    rw [matchTemplate_same (by decide) (by decide) (by decide), matchTemplate_end]
    simp
  have valid : multisigIsValid ([UInt8.ofNat (decodeOpN opcodeM)] ::
      (keys ++ [[UInt8.ofNat (decodeOpN opcodeN)]])) = true := by
    simp only [multisigIsValid_iff, UInt8.le_iff_toNat_le, toNat_decodeOpN]
    exact ⟨decodeOpN_pos numberM.1, decodeOpN_pos numberN.1, order, keyCount⟩
  rw [solver, not_isPayToScriptHash (differs (by decide)), if_neg (by decide), mTemplates,
    scanTemplates_skip readM (by decide) (by decide) (by rfl),
    scanTemplates_skip readM (by decide) (by decide) ?_, scanTemplates]
  · simp only [List.length_cons, List.length_nil]
    rw [found]
    simp only [valid, Bool.or_true]
  · rw [matchOp, if_neg (by decide), if_neg (by decide), if_neg (by decide), if_neg (by decide),
      if_pos (.inl (differs (by decide)))]

theorem isKeySized_of_isValid {vchPubKey : Valtype} (valid : isValidPubKey vchPubKey = true) :
    isKeySized vchPubKey = true := by
  rw [isValidPubKey, Bool.or_eq_true, beq_iff_eq, beq_iff_eq] at valid
  rcases valid with length | length <;> simp [isKeySized, length]

theorem setMultisig_solved {keys : List CKey} {m : Nat} (valid : ∀ key ∈ keys, isValidPubKey key.getPubKey = true)
    (positive : 1 ≤ m) (order : m ≤ keys.length) (small : keys.length ≤ 16) :
    ∃ script, setMultisig m keys = .ok script ∧ solver script = ⟨true, TX_MULTISIG,
      [UInt8.ofNat m] :: (keys.map CKey.getPubKey ++ [[UInt8.ofNat keys.length]])⟩ := by
  obtain ⟨opcodeM, encodedM, lowM, highM, valueM⟩ := encodeOpN_eq positive (order.trans small)
  obtain ⟨opcodeN, encodedN, lowN, highN, valueN⟩ := encodeOpN_eq (positive.trans order) small
  have sized : ∀ vchPubKey ∈ keys.map CKey.getPubKey, isKeySized vchPubKey = true := by
    intro vchPubKey mem
    obtain ⟨key, inKeys, rfl⟩ := List.mem_map.mp mem
    exact isKeySized_of_isValid (valid key inKeys)
  have solved := solver_multisigScript ⟨lowM, highM⟩ ⟨lowN, highN⟩ sized (by rw [List.length_map, valueN])
    (by omega)
  rw [valueM, valueN, List.flatMap_map] at solved
  refine ⟨_, ?_, solved⟩
  rw [setMultisig, encodedM, ok_bind, encodedN, ok_bind]
  rfl

/-- What `SetDestination` and `SetMultisig` build is recognised as what it is. -/
theorem built_recognised :
    (∀ (C : Crypto) (id : Digest 20), extractDestination C (setDestination (.keyID id)) = some (.keyID id) ∧
      extractDestination C (setDestination (.scriptID id)) = some (.scriptID id)) ∧
    ∀ (keys : List CKey) (m : Nat), (∀ key ∈ keys, isValidPubKey key.getPubKey = true) → 1 ≤ m → m ≤ keys.length →
      keys.length ≤ 16 → ∃ script, setMultisig m keys = .ok script ∧ solver script = ⟨true, TX_MULTISIG,
        [UInt8.ofNat m] :: (keys.map CKey.getPubKey ++ [[UInt8.ofNat keys.length]])⟩ :=
  ⟨fun C id => ⟨extractDestination_keyID C id, extractDestination_scriptID C id⟩,
    fun _ _ valid positive order small => setMultisig_solved valid positive order small⟩

def idleKey (length : ℕ) : CKey := ⟨List.replicate length 2, fun _ => none⟩

theorem oneOfTwo_recognised : ∃ script, setMultisig 1 [idleKey 33, idleKey 65] = .ok script ∧
    solver script = ⟨true, TX_MULTISIG, [[1], List.replicate 33 2, List.replicate 65 2, [2]]⟩ :=
  built_recognised.2 [idleKey 33, idleKey 65] 1 (by simp [idleKey, isValidPubKey]) (by decide) (by decide)
    (by decide)

end RitCoin.Proof
