import RitCoin.Proof.MultiSig
import RitCoin.Proof.ScriptRules
import RitCoin.Proof.SigOps
import RitCoin.Proof.SignatureHash
import RitCoin.Proof.Solver

namespace RitCoin.Proof
open Lib Model TxnOutType
variable {vchPubKey hash160 : Valtype}

structure ValidSig (C : Crypto) (script : CScript) (byte : UInt8) (hash : Uint256) (vchSig vchPubKey : Valtype) :
    Prop where
  signed : ∃ signature, vchSig = signature ++ [byte] ∧ C.verify vchPubKey hash signature = true
  short : vchSig.length ≤ 520
  foreign : ∀ op ∈ (parseScript script).1, op.2 ≠ vchSig

def Checks (C : Crypto) (checkSig : SigChecker) (script : CScript) (byte : UInt8) (hash : Uint256) : Prop :=
  ∀ signature vchPubKey, checkSig (signature ++ [byte]) vchPubKey script = C.verify vchPubKey hash signature

section Evaluation
variable {C : Crypto} {checkSig : SigChecker} {script pc : CScript} {byte : UInt8} {hash : Uint256}
  {vchSig : Valtype} {keys sigs : List Valtype}

namespace ValidSig
variable {vchSig vchPubKey : Valtype}

theorem kept (valid : ValidSig C script byte hash vchSig vchPubKey) :
    (findAndDelete script (pushData vchSig)).1 = script :=
  findAndDelete_of_ne (Nat.lt_of_le_of_lt valid.short (by norm_num)) fun op member _ => valid.foreign op member

theorem checked (valid : ValidSig C script byte hash vchSig vchPubKey)
    (checks : Checks C checkSig script byte hash) : checkSig vchSig vchPubKey script = true := by
  obtain ⟨signature, rfl, verified⟩ := valid.signed
  rw [checks, verified]

end ValidSig

theorem steps_checkSig (nOpCount : ℕ) (few : nOpCount < 201) (read : getOp2 pc = some (OP_CHECKSIG, [], []))
    (valid : ValidSig C script byte hash vchSig vchPubKey) (checks : Checks C checkSig script byte hash) :
    StepsTo C checkSig (running script pc [vchPubKey, vchSig] nOpCount)
      (running script [] [[1]] (nOpCount + 1)) := by
  refine steps_execute C checkSig script _ nOpCount (.OP_CHECKSIG false) read (by decide) (by decide) rfl few ?_
    (by simp [running])
  have result : ((running script [] [vchPubKey, vchSig] (nOpCount + 1)).opCheckSig checkSig false).result =
      .ok (running script [] [vchBool (checkSig vchSig vchPubKey (findAndDelete script (pushData vchSig)).1)]
        (nOpCount + 1)) := rfl
  rw [valid.kept, valid.checked checks] at result
  exact result

theorem evalScript_of_reaches {stack after : Stack} {nOpCount : ℕ} (small : script.length ≤ 10000)
    (reaches : Reaches C checkSig (running script script stack 0) (running script [] after nOpCount)) :
    (evalScript C checkSig stack script).result = .ok after :=
  (evalScript_eq_ok C checkSig).mpr ⟨small, _, reaches, rfl, rfl, rfl⟩

theorem length_of_isKeySized {vch : Valtype} (sized : isKeySized vch = true) :
    33 ≤ vch.length ∧ vch.length ≤ 120 := by
  simpa [isKeySized] using sized

theorem eval_pubKey (solved : solver script = ⟨true, TX_PUBKEY, [vchPubKey]⟩)
    (valid : ValidSig C script byte hash vchSig vchPubKey) (checks : Checks C checkSig script byte hash) :
    (evalScript C checkSig [vchSig] script).result = .ok [[1]] := by
  obtain ⟨opcode, _, rest, ⟨⟩, sized, readKey, readSig⟩ := solver_pubKey solved
  have size := length_of_isKeySized sized
  have push : opcode ≤ OP_PUSHDATA4 := getOp2_data readKey (by rintro rfl; simp at size)
  have short : script.length ≤ 10000 := by
    have first := getOp2_length_le readKey
    have second := getOp2_length_le readSig
    simp only [List.length_nil] at second
    omega
  have pushing := steps_push C checkSig script [vchSig] 0 readKey push (by omega) (by omega) (by simp)
  have checking := steps_checkSig 0 (by omega) readSig valid checks
  exact evalScript_of_reaches short (.head pushing (.single checking))

theorem eval_pubKeyHash (solved : solver script = ⟨true, TX_PUBKEYHASH, [hash160]⟩)
    (hashed : (C.hash160 vchPubKey).toList = hash160) (valid : ValidSig C script byte hash vchSig vchPubKey)
    (checks : Checks C checkSig script byte hash) :
    (evalScript C checkSig [vchPubKey, vchSig] script).result = .ok [[1]] := by
  obtain ⟨opcode, _, pc1, pc2, pc3, pc4, ⟨⟩, size, readDup, readHash, readPush, readEqual, readSig⟩ :=
    solver_pubKeyHash solved
  have push : opcode ≤ OP_PUSHDATA4 := getOp2_data readPush (by rintro rfl; simp at size)
  have short : script.length ≤ 10000 := by
    have first := getOp2_length_le readDup
    have second := getOp2_length_le readHash
    have third := getOp2_length_le readPush
    have fourth := getOp2_length_le readEqual
    have fifth := getOp2_length_le readSig
    simp only [List.length_nil] at first second fourth fifth
    omega
  have equal : StackOp.run C [hash160, (C.hash160 vchPubKey).toList, vchPubKey, vchSig] (.OP_EQUAL true) =
      .ok [vchPubKey, vchSig] := by
    rw [hashed]
    simp [StackOp.run, need, failIf, stacktop, popstacks, popstack, verifyTop, bind, Except.bind]
  have dup := steps_stackOp C checkSig script [vchPubKey, vchSig] 0 .OP_DUP readDup (by decide) (by decide) rfl
    (by omega) rfl (by simp)
  have hashing := steps_stackOp C checkSig script [vchPubKey, vchPubKey, vchSig] 1 (.hash .OP_HASH160) readHash
    (by decide) (by decide) rfl (by omega) rfl (by simp)
  have pushing := steps_push C checkSig script [(C.hash160 vchPubKey).toList, vchPubKey, vchSig] 2 readPush push
    (by omega) (by omega) (by simp)
  have comparing := steps_stackOp C checkSig script _ 2 (.OP_EQUAL true) readEqual (by decide) (by decide) rfl (by omega) equal
    (by simp)
  have checking := steps_checkSig 3 (by omega) readSig valid checks
  exact evalScript_of_reaches short (.head dup (.head hashing (.head pushing (.head comparing (.single checking)))))

theorem reaches_keys (C : Crypto) (checkSig : SigChecker) (script : CScript) {nOpCount : ℕ} (few : nOpCount ≤ 201)
    {rest : CScript} (reads : ReadsKeys pc keys rest) : ∀ (stack : Stack), stack.length + keys.length ≤ 1000 →
    Reaches C checkSig (running script pc stack nOpCount) (running script rest (keys.reverse ++ stack) nOpCount) := by
  induction reads with
  | nil => exact fun _ _ => .refl
  | cons read sized _ ih =>
    rename_i opcode key keys _
    intro stack room
    have size := length_of_isKeySized sized
    rw [List.length_cons] at room
    have push : opcode ≤ OP_PUSHDATA4 := getOp2_data read (by rintro rfl; simp at size)
    have others := ih (key :: stack) (by rw [List.length_cons]; omega)
    rw [List.reverse_cons, List.append_assoc]
    exact .head (steps_push C checkSig script stack nOpCount read push (by omega) few (by omega)) others

theorem ReadsKeys.length_le {rest : CScript} (reads : ReadsKeys pc keys rest) :
    pc.length ≤ rest.length + 125 * keys.length := by
  induction reads with
  | nil => omega
  | cons read sized _ ih =>
    have size := length_of_isKeySized sized
    have first := getOp2_length_le read
    rw [List.length_cons]
    omega

theorem withoutSigs_eq (kept : ∀ vchSig ∈ sigs, (findAndDelete script (pushData vchSig)).1 = script) :
    withoutSigs script sigs = script := by
  induction sigs with
  | nil => rfl
  | cons vchSig sigs ih =>
    rw [List.forall_mem_cons] at kept
    rw [withoutSigs, List.foldl_cons, kept.1]
    exact ih kept.2

theorem opCheckMultiSig_numbers {opcodeM opcodeN : UInt8} (numberM : OP_1 ≤ opcodeM ∧ opcodeM ≤ OP_16)
    (numberN : OP_1 ≤ opcodeN ∧ opcodeN ≤ OP_16) (keyCount : keys.length = decodeOpN opcodeN)
    (sigCount : sigs.length = decodeOpN opcodeM) (order : decodeOpN opcodeM ≤ decodeOpN opcodeN)
    (kept : withoutSigs script sigs.reverse = script) {fSuccess : Bool}
    (greedy : matchGreedily (fun vchSig vchPubKey => checkSig vchSig vchPubKey script) sigs.reverse
      keys.reverse = fSuccess) :
    ((running script [] (getvch (decodeOpN opcodeN) :: (keys.reverse ++ getvch (decodeOpN opcodeM) ::
      (sigs.reverse ++ [[]]))) 1).opCheckMultiSig checkSig false).result =
        .ok (running script [] [vchBool fSuccess] (1 + keys.length)) := by
  have few := decodeOpN_le numberN.2
  rw [← kept] at greedy
  have opcode := opCheckMultiSig_eq checkSig (running script [] (getvch (decodeOpN opcodeN) :: (keys.reverse ++
    getvch (decodeOpN opcodeM) :: (sigs.reverse ++ [[]]))) 1) false keys.reverse sigs.reverse
    (by rw [List.length_reverse, keyCount]; exact castToBigNum_number numberN.1 numberN.2)
    (by rw [List.length_reverse, sigCount]; exact castToBigNum_number numberM.1 numberM.2)
    (by rw [List.length_reverse]; omega) (by rw [List.length_reverse, List.length_reverse]; omega) rfl greedy
  rw [opcode, List.length_reverse, if_neg (by simp [running]; omega)]
  rfl

theorem eval_multisig_greedy {m n : UInt8} (solved : solver script = ⟨true, TX_MULTISIG, [m] :: (keys ++ [[n]])⟩)
    (count : sigs.length = m.toNat) (kept : withoutSigs script sigs.reverse = script) {fSuccess : Bool}
    (greedy : matchGreedily (fun vchSig vchPubKey => checkSig vchSig vchPubKey script) sigs.reverse
      keys.reverse = fSuccess) :
    (evalScript C checkSig (sigs.reverse ++ [[]]) script).result = .ok [vchBool fSuccess] := by
  obtain ⟨opcodeM, opcodeN, pc1, pc2, pc3, value, numberM, numberN, keyCount, order, -, few, readM, readsKeys, readN,
    readSig⟩ := solver_multisig_keys solved
  rw [value] at count
  have small : script.length ≤ 10000 := by
    have first := getOp2_length_le readM
    have second := readsKeys.length_le
    have third := getOp2_length_le readN
    have fourth := getOp2_length_le readSig
    simp only [List.length_nil] at first third fourth
    omega
  have room : (sigs.reverse ++ [[]] : Stack).length ≤ 17 := by
    simp only [List.length_append, List.length_reverse, List.length_cons, List.length_nil]
    omega
  have required := steps_number C checkSig script (sigs.reverse ++ [[]]) 0 readM numberM.1 numberM.2 rfl (by omega)
    (by omega)
  have pushing := reaches_keys C checkSig script (Nat.zero_le 201) readsKeys
    (getvch (decodeOpN opcodeM) :: (sigs.reverse ++ [[]])) (by rw [List.length_cons]; omega)
  have number := steps_number C checkSig script
    (keys.reverse ++ getvch (decodeOpN opcodeM) :: (sigs.reverse ++ [[]])) 0 readN numberN.1 numberN.2 rfl (by omega)
    (by rw [List.length_append, List.length_cons, List.length_reverse]; omega)
  have checking := steps_execute C checkSig script _ 0 (.OP_CHECKMULTISIG false) readSig (by decide) (by decide) rfl (by omega)
    (opCheckMultiSig_numbers numberM numberN keyCount count order kept greedy) (by simp [running])
  exact evalScript_of_reaches small (.head required (pushing.trans (.head number (.single checking))))

theorem eval_multisig {m n : UInt8} {signers : List Valtype}
    (solved : solver script = ⟨true, TX_MULTISIG, [m] :: (keys ++ [[n]])⟩) (count : sigs.length = m.toNat)
    (signing : signers.Sublist keys) (valid : List.Forall₂ (ValidSig C script byte hash) sigs signers)
    (checks : Checks C checkSig script byte hash) :
    (evalScript C checkSig (sigs.reverse ++ [[]]) script).result = .ok [[1]] := by
  have kept : withoutSigs script sigs.reverse = script := by
    have each := (List.forall₂_and_left (p := fun vchSig => (findAndDelete script (pushData vchSig)).1 = script) sigs
      signers).mp (valid.imp fun _ _ sig => ⟨sig.kept, sig⟩)
    exact withoutSigs_eq fun vchSig member => each.1 vchSig (List.mem_reverse.mp member)
  have matched : matchGreedily (fun vchSig vchPubKey => checkSig vchSig vchPubKey script) sigs.reverse keys.reverse =
      true := by
    rw [matchGreedily_iff, matchesInOrder_reverse, matchesInOrder_iff_sublist]
    exact ⟨signers, signing, valid.imp fun _ _ sig => sig.checked checks⟩
  exact eval_multisig_greedy solved count kept matched

end Evaluation

section Producing
variable {C : Crypto} {keystore : CKeyStore} {script : CScript} {byte : UInt8}

structure SignsFor (C : Crypto) (script : CScript) (byte : UInt8) (key : CKey) (vchPubKey : Valtype) : Prop where
  getPubKey : key.getPubKey = vchPubKey
  sign : ∀ hash, ∃ signature, key.sign hash = some signature ∧ signature.length < 520 ∧
    C.verify vchPubKey hash signature = true ∧ ∀ op ∈ (parseScript script).1, op.2 ≠ signature ++ [byte]

theorem byteHashType_byte (byte : UInt8) : (byteHashType byte).toUInt32.toUInt8 = byte := by
  revert byte
  decide +kernel

theorem sign1_eq {address : CKeyID} {key : CKey} (found : keystore.getKey address = some key)
    (signs : SignsFor C script byte key vchPubKey) (hash : Uint256) :
    ∃ vchSig, ValidSig C script byte hash vchSig vchPubKey ∧ ∀ scriptSig,
      sign1 keystore hash (byteHashType byte) address scriptSig = (true, scriptSig ++ pushData vchSig) := by
  obtain ⟨signature, signed, short, verified, foreign⟩ := signs.sign hash
  refine ⟨signature ++ [byte], ⟨⟨signature, rfl, verified⟩, ?_, foreign⟩, fun scriptSig => ?_⟩
  · rw [List.length_append]
    exact short
  · rw [sign1, found, Option.bind_some, signed, byteHashType_byte]

def heldKeys (C : Crypto) (keystore : CKeyStore) (keys : List Valtype) : List Valtype :=
  keys.filter fun vchPubKey => (keystore.getKey (C.hash160 vchPubKey)).isSome

theorem signKeys_eq (hash : Uint256) (nRequired : ℕ) : ∀ {keys : List Valtype} (nSigned : ℕ) (scriptSig : CScript),
    (∀ vchPubKey ∈ keys, ∀ key, keystore.getKey (C.hash160 vchPubKey) = some key →
      SignsFor C script byte key vchPubKey) →
    nSigned < nRequired → nRequired ≤ nSigned + (heldKeys C keystore keys).length →
    ∃ sigs signers, signKeys C keystore hash (byteHashType byte) nRequired keys nSigned scriptSig =
        (nRequired, scriptSig ++ pushes sigs) ∧
      nSigned + sigs.length = nRequired ∧ signers.Sublist keys ∧
      List.Forall₂ (ValidSig C script byte hash) sigs signers := by
  intro keys
  induction keys with
  | nil =>
    intro nSigned scriptSig _ more enough
    change nRequired ≤ nSigned + 0 at enough
    omega
  | cons vchPubKey keys ih =>
    intro nSigned scriptSig signs more enough
    rw [List.forall_mem_cons] at signs
    rw [signKeys]
    cases found : keystore.getKey (C.hash160 vchPubKey) with
    | none =>
      have unsigned : sign1 keystore hash (byteHashType byte) (C.hash160 vchPubKey) scriptSig = (false, scriptSig) := by
        rw [sign1, found]
        rfl
      rw [heldKeys, List.filter_cons_of_neg (by simp [found])] at enough
      rw [unsigned]
      obtain ⟨sigs, signers, run, count, signing, valid⟩ := ih nSigned scriptSig signs.2 more enough
      exact ⟨sigs, signers, run, count, signing.cons _, valid⟩
    | some key =>
      obtain ⟨vchSig, valid, signed⟩ := sign1_eq found (signs.1 key found) hash
      rw [heldKeys, List.filter_cons_of_pos (by simp [found]), List.length_cons] at enough
      rw [signed]
      by_cases last : nSigned + 1 = nRequired
      · refine ⟨[vchSig], [vchPubKey], ?_, last, ?_, .cons valid .nil⟩
        · simp [last, pushes]
        · simp
      · obtain ⟨sigs, signers, run, count, signing, others⟩ := ih (nSigned + 1)
          (scriptSig ++ pushData vchSig) signs.2 (by omega) (by rw [heldKeys]; omega)
        refine ⟨vchSig :: sigs, vchPubKey :: signers, ?_, ?_, signing.cons_cons _, .cons valid others⟩
        · simp only [last, if_false]
          rw [run, List.append_assoc]
          rfl
        · rw [List.length_cons]
          omega

/-- The keystore has the keys that a script asks for: the one of a public key, the one behind a hash, or
as many of several as are required. -/
inductive HoldsKeys (C : Crypto) (keystore : CKeyStore) (byte : UInt8) (script : CScript) : Prop
  | pubKey {vchPubKey : Valtype} {key : CKey} : solver script = ⟨true, TX_PUBKEY, [vchPubKey]⟩ →
      keystore.getKey (C.hash160 vchPubKey) = some key → SignsFor C script byte key vchPubKey →
      HoldsKeys C keystore byte script
  | pubKeyHash {hash160 vchPubKey : Valtype} {key : CKey} : solver script = ⟨true, TX_PUBKEYHASH, [hash160]⟩ →
      keystore.getKey (uint160OfVch hash160) = some key →
      keystore.getPubKey (uint160OfVch hash160) = some vchPubKey →
      (C.hash160 vchPubKey).toList = hash160 → vchPubKey.length ≤ 520 → SignsFor C script byte key vchPubKey →
      HoldsKeys C keystore byte script
  | multisig {m n : UInt8} {keys : List Valtype} :
      solver script = ⟨true, TX_MULTISIG, [m] :: (keys ++ [[n]])⟩ →
      (∀ vchPubKey ∈ keys, ∀ key, keystore.getKey (C.hash160 vchPubKey) = some key →
        SignsFor C script byte key vchPubKey) →
      m.toNat ≤ (heldKeys C keystore keys).length → HoldsKeys C keystore byte script

theorem HoldsKeys.solverSign (holds : HoldsKeys C keystore byte script) (hash : Uint256) :
    ∃ values typeRet, solverSign C keystore hash (byteHashType byte) script = (true, pushes values, typeRet) ∧
      typeRet ≠ TX_SCRIPTHASH ∧ isPayToScriptHash script = false ∧ (∀ value ∈ values, value.length ≤ 520) ∧
      values.length ≤ 17 ∧
      ∀ checkSig, Checks C checkSig script byte hash →
        (evalScript C checkSig values.reverse script).result = .ok [[1]] := by
  cases holds with
  | pubKey solved found signs =>
    rename_i vchPubKey key
    obtain ⟨vchSig, valid, signed⟩ := sign1_eq found signs hash
    refine ⟨[vchSig], TX_PUBKEY, ?_, by decide, (solver_template solved (by decide) (by decide)).1, ?_, by simp, ?_⟩
    · simp [Model.solverSign, solved, signed, pushes]
    · simpa using valid.short
    · exact fun checkSig checks => eval_pubKey solved valid checks
  | pubKeyHash solved found foundPubKey hashed size signs =>
    rename_i hash160 vchPubKey key
    obtain ⟨vchSig, valid, signed⟩ := sign1_eq found signs hash
    refine ⟨[vchSig, vchPubKey], TX_PUBKEYHASH, ?_, by decide,
      (solver_template solved (by decide) (by decide)).1, ?_, by simp, ?_⟩
    · simp [Model.solverSign, solved, signed, foundPubKey, pushes]
    · simpa using ⟨valid.short, size⟩
    · exact fun checkSig checks => eval_pubKeyHash solved hashed valid checks
  | multisig solved signs enough =>
    rename_i m n keys
    obtain ⟨_, _, _, _, _, value, -, -, -, order, positive, few, -⟩ := solver_multisig_keys solved
    obtain ⟨sigs, signers, run, count, signing, valid⟩ := signKeys_eq hash m.toNat 0 [0] signs (by omega)
      (by omega)
    have each := (List.forall₂_and_left (p := fun vchSig => vchSig.length ≤ 520) sigs signers).mp
      (valid.imp fun _ _ sig => ⟨sig.short, sig⟩)
    refine ⟨[] :: sigs, TX_MULTISIG, ?_, by decide, (solver_template solved (by decide) (by decide)).1, ?_, ?_, ?_⟩
    · have required : (solutionByte ([m] :: (keys ++ [[n]])).head?).toNat = m.toNat := rfl
      have between : ([m] :: (keys ++ [[n]])).tail.dropLast = keys := by simp
      simp only [Model.solverSign, solved, signN, required, between, run]
      simp [pushes]
      rfl
    · rw [List.forall_mem_cons]
      exact ⟨Nat.zero_le _, each.1⟩
    · rw [List.length_cons]
      omega
    · intro checkSig checks
      rw [List.reverse_cons]
      exact eval_multisig solved (by omega) signing valid checks

end Producing

section Input
variable {C : Crypto} {keystore : CKeyStore} {byte : UInt8} {txTo : CTransaction} {nIn : ℕ}

theorem signatureHash_setScriptSig (scriptCode scriptSig : CScript) (nHashType : Int32) :
    signatureHash C scriptCode (txTo.setScriptSig nIn scriptSig) nIn nHashType =
      signatureHash C scriptCode txTo nIn nHashType := by
  have blank : ∀ code : CScript, blankSignatures code
      (txTo.vin.modify nIn fun txin => { txin with scriptSig := scriptSig }) nIn = blankSignatures code txTo.vin nIn := by
    intro code
    refine List.ext_getElem? fun i => ?_
    rw [blankSignatures, blankSignatures, List.getElem?_mapIdx, List.getElem?_mapIdx, List.getElem?_modify]
    cases txTo.vin[i]? with
    | none => rfl
    | some txin => split_ifs <;> rfl
  simp only [signatureHash, signatureTx, CTransaction.setScriptSig, blank, List.length_modify]

theorem checks_checkSig (txTo : CTransaction) (nIn : ℕ) (script scriptSig : CScript) :
    Checks C (checkSig C (txTo.setScriptSig nIn scriptSig) nIn 0) script byte
      (signatureHash C script txTo nIn (byteHashType byte)) := by
  intro signature vchPubKey
  simp [checkSig, signedHash, signatureHash_setScriptSig]

/-- The output script can be signed for: it asks for keys that the keystore has, or is the hash of a
script that it has and that does. -/
inductive CanSign (C : Crypto) (keystore : CKeyStore) (byte : UInt8) (scriptPubKey : CScript) : Prop
  | direct : HoldsKeys C keystore byte scriptPubKey → CanSign C keystore byte scriptPubKey
  | scriptHash {hash160 : Valtype} {redeemScript : CScript} :
      solver scriptPubKey = ⟨true, TX_SCRIPTHASH, [hash160]⟩ →
      keystore.getCScript (uint160OfVch hash160) = some redeemScript →
      (C.hash160 redeemScript).toList = hash160 → redeemScript.length ≤ 520 →
      HoldsKeys C keystore byte redeemScript → CanSign C keystore byte scriptPubKey

theorem solver_scriptHash {scriptPubKey : CScript}
    (solved : solver scriptPubKey = ⟨true, TX_SCRIPTHASH, [hash160]⟩) :
    isPayToScriptHash scriptPubKey = true ∧ hash160.length = 20 ∧
      scriptPubKey = OP_HASH160 :: 0x14 :: (hash160 ++ [OP_EQUAL]) := by
  rw [solver] at solved
  split_ifs at solved with payToScriptHash
  · obtain ⟨hash, length, rfl⟩ := isPayToScriptHash_iff.mp payToScriptHash
    obtain rfl : hash = hash160 := by
      have taken : ((OP_HASH160 :: 0x14 :: (hash ++ [OP_EQUAL])).drop 2).take 20 = hash := by
        change (hash ++ [OP_EQUAL]).take 20 = hash
        rw [← length, List.take_left]
      rw [taken] at solved
      cases solved
      rfl
    exact ⟨payToScriptHash, length, rfl⟩
  · obtain ⟨template, member, -⟩ := scanTemplates_eq (by decide) solved
    simp [mTemplates] at member

theorem eval_scriptHash (checkSig : SigChecker) (stack : Stack) {scriptPubKey redeemScript : CScript}
    (solved : solver scriptPubKey = ⟨true, TX_SCRIPTHASH, [hash160]⟩)
    (hashed : (C.hash160 redeemScript).toList = hash160) (room : stack.length ≤ 900) :
    (evalScript C checkSig (redeemScript :: stack) scriptPubKey).result = .ok ([1] :: stack) := by
  obtain ⟨-, length, rfl⟩ := solver_scriptHash solved
  generalize whole : OP_HASH160 :: 0x14 :: (hash160 ++ [OP_EQUAL]) = script
  have small : script.length ≤ 10000 := by
    rw [← whole]
    simp only [List.length_cons, List.length_append, List.length_nil]
    omega
  have readHash : getOp2 script = some (OP_HASH160, [], 0x14 :: (hash160 ++ [OP_EQUAL])) := by
    rw [← whole]
    exact getOp2_template (by decide) _
  have push : ReadsAs (0x14 :: ([] ++ hash160)) 0x14 hash160 := .push (by decide) (by decide) (by rw [length]; rfl)
  have readPush : getOp2 (0x14 :: (hash160 ++ [OP_EQUAL])) = some (0x14, hash160, [OP_EQUAL]) :=
    push.getOp2 [OP_EQUAL]
  have hash : StackOp.run C (redeemScript :: stack) (.hash .OP_HASH160) = .ok (hash160 :: stack) := by
    simp [StackOp.run, need, failIf, stacktop, popstack, HashOp.eval, hashed, bind, Except.bind, pure, Except.pure]
  have equal : StackOp.run C (hash160 :: hash160 :: stack) (.OP_EQUAL false) = .ok ([1] :: stack) := by
    simp [StackOp.run, need, failIf, stacktop, popstacks, popstack, verifyTop, vchBool, bind, Except.bind]
  have hashing := steps_stackOp C checkSig script _ 0 _ readHash (by decide) (by decide) rfl (by omega) hash
    (by rw [List.length_cons]; omega)
  have pushing := steps_push C checkSig script (hash160 :: stack) 1 readPush (by decide) (by omega) (by omega)
    (by rw [List.length_cons]; omega)
  have readEqual : getOp2 [OP_EQUAL] = some (OP_EQUAL, [], []) := getOp2_template (by decide) []
  have comparing := steps_stackOp C checkSig script _ 1 _ readEqual (by decide) (by decide) rfl (by omega) equal
    (by rw [List.length_cons]; omega)
  exact evalScript_of_reaches small (.head hashing (.head pushing (.single comparing)))

theorem produceScriptSig_verifies (txTo : CTransaction) (nIn : ℕ) {fromPubKey : CScript}
    (canSign : CanSign C keystore byte fromPubKey) :
    ∃ scriptSig, produceScriptSig C keystore fromPubKey txTo nIn (byteHashType byte) = (true, scriptSig) ∧
      (verifyScript C scriptSig fromPubKey (txTo.setScriptSig nIn scriptSig) nIn true 0).result = .ok true := by
  cases canSign with
  | direct holds =>
    obtain ⟨values, typeRet, signed, direct, plain, short, few, eval⟩ :=
      holds.solverSign (signatureHash C fromPubKey txTo nIn (byteHashType byte))
    refine ⟨pushes values, ?_, ?_⟩
    · rw [produceScriptSig]
      simp only [signed]
    · have evaluated := eval _ (checks_checkSig txTo nIn fromPubKey (pushes values))
      refine verifyScriptWith_plain C _ plain ((verifyPubKey_eq_some C _ _ _).mpr ⟨?_, _, _, evaluated, rfl⟩) true
      exact evalScript_pushes C _ short (by omega)
  | scriptHash solved known hashed size holds =>
    rename_i hash160 redeemScript
    obtain ⟨values, typeRet, signed, direct, -, short, few, eval⟩ :=
      holds.solverSign (signatureHash C redeemScript txTo nIn (byteHashType byte))
    have payToScriptHash := (solver_scriptHash solved).1
    have shorter : ∀ value ∈ values ++ [redeemScript], value.length ≤ 520 := by
      simpa [or_imp, forall_and] using ⟨short, size⟩
    refine ⟨pushes (values ++ [redeemScript]), ?_, ?_⟩
    · have first : Model.solverSign C keystore (signatureHash C fromPubKey txTo nIn (byteHashType byte))
          (byteHashType byte) fromPubKey = (true, redeemScript, TX_SCRIPTHASH) := by
        simp [Model.solverSign, solved, known]
      rw [produceScriptSig, first]
      simp [signatureHash_setScriptSig, signed, direct, pushes]
    · have evaluated := eval _ (checks_checkSig txTo nIn redeemScript (pushes (values ++ [redeemScript])))
      have pushed := evalScript_pushes C
        (checkSig C (txTo.setScriptSig nIn (pushes (values ++ [redeemScript]))) nIn 0) shorter
        (by rw [List.length_append, List.length_singleton]; omega)
      rw [List.reverse_append, List.reverse_singleton] at pushed
      have hash := eval_scriptHash (checkSig C (txTo.setScriptSig nIn (pushes (values ++ [redeemScript]))) nIn 0)
        values.reverse solved hashed
        (by rw [List.length_reverse]; omega)
      exact verifyScriptWith_redeem C _ payToScriptHash (isPushOnly_pushes shorter)
        ((verifyPubKey_eq_some C _ _ _).mpr ⟨pushed, _, _, hash, rfl⟩) evaluated rfl

/-- `SignSignature` returns true, and the script it leaves in the input verifies. -/
theorem signSignature_verifies {fromPubKey : CScript} (input : nIn < txTo.vin.length)
    (canSign : CanSign C keystore byte fromPubKey) :
    ∃ signed txin, signSignature C keystore fromPubKey txTo nIn (byteHashType byte) = .ok (true, signed) ∧
      signed.vin[nIn]? = some txin ∧
      (verifyScript C txin.scriptSig fromPubKey signed nIn true 0).result = .ok true := by
  obtain ⟨scriptSig, produced, verified⟩ := produceScriptSig_verifies txTo nIn canSign
  refine ⟨txTo.setScriptSig nIn scriptSig, { txTo.vin[nIn] with scriptSig := scriptSig }, ?_, ?_, verified⟩
  · rw [signSignature, failIf_of_not (Nat.not_le.mpr input), ok_bind, produced]
    simp only [if_true, verified]
    rfl
  · rw [CTransaction.setScriptSig, List.getElem?_modify, List.getElem?_eq_getElem input]
    simp

end Input

def headCrypto : Crypto := { zeroCrypto with verify := fun vchPubKey _ vchSig => vchSig == vchPubKey.take 1 }

def headKey : CKey := ⟨List.replicate 33 2, fun _ => some [2]⟩

def headScript : CScript := pushData headKey.getPubKey ++ [OP_CHECKSIG]

def headKeystore : CKeyStore := ⟨fun _ => some headKey, fun _ => some headKey.getPubKey, fun _ => some headScript⟩

theorem headKeystore_signs :
    ∃ signed txin, signSignature headCrypto headKeystore
        (OP_HASH160 :: 0x14 :: (List.replicate 20 0 ++ [OP_EQUAL])) (twoInputs 0) 1 (byteHashType 1) =
        .ok (true, signed) ∧
      signed.vin[1]? = some txin ∧
      (verifyScript headCrypto txin.scriptSig (OP_HASH160 :: 0x14 :: (List.replicate 20 0 ++ [OP_EQUAL])) signed 1
        true 0).result = .ok true := by
  have solved : solver headScript = ⟨true, TX_PUBKEY, [headKey.getPubKey]⟩ := by decide +kernel
  have signs : SignsFor headCrypto headScript 1 headKey headKey.getPubKey :=
    ⟨rfl, fun hash => ⟨[2], rfl, by decide, rfl, by decide +kernel⟩⟩
  exact signSignature_verifies (by decide)
    (.scriptHash (by decide) rfl rfl (by decide) (.pubKey solved rfl signs))

end RitCoin.Proof
