import RitCoin.Proof.Signing
import RitCoin.Proof.Standard

namespace RitCoin.Proof
open Lib Model TxnOutType Std
variable {sigs1 sigs2 : List Valtype} {sig : Valtype}

theorem mem_foldl_insertNonempty (sig : Valtype) : ∀ (sigs : List Valtype) (allsigs : ExtTreeSet Valtype),
    sig ∈ sigs.foldl (fun allsigs v => if v.isEmpty then allsigs else allsigs.insert v) allsigs ↔
      sig ∈ allsigs ∨ sig ≠ [] ∧ sig ∈ sigs
  | [], allsigs => by simp
  | v :: sigs, allsigs => by
    rw [List.foldl_cons, mem_foldl_insertNonempty sig sigs]
    by_cases empty : v = []
    · subst empty
      simp only [List.isEmpty_nil, if_true, List.mem_cons]
      tauto
    · simp only [List.isEmpty_iff, empty, if_false, ExtTreeSet.mem_insert, Std.compare_eq_iff_eq, List.mem_cons]
      constructor
      · rintro ((rfl | stored) | rest)
        · exact .inr ⟨empty, .inl rfl⟩
        · exact .inl stored
        · exact .inr ⟨rest.1, .inr rest.2⟩
      · rintro (stored | ⟨nonempty, rfl | rest⟩)
        · exact .inl (.inr stored)
        · exact .inl (.inl rfl)
        · exact .inr ⟨nonempty, rest⟩

theorem mem_allSigs : sig ∈ (allSigs sigs1 sigs2).toList ↔ sig ≠ [] ∧ sig ∈ sigs1 ++ sigs2 := by
  rw [ExtTreeSet.mem_toList, allSigs, mem_foldl_insertNonempty]
  simp

theorem allSigs_comm (sigs1 sigs2 : List Valtype) : allSigs sigs1 sigs2 = allSigs sigs2 sigs1 := by
  apply ExtTreeSet.ext_mem
  intro sig
  rw [allSigs, allSigs, mem_foldl_insertNonempty, mem_foldl_insertNonempty, List.mem_append, List.mem_append,
    or_comm (a := sig ∈ sigs1)]

section Given
variable {C : Crypto} {script : CScript} {txTo : CTransaction} {nIn : Nat} {keys : List Valtype}

theorem givenSigs_getElem? (sigs : List Valtype) (single : ∀ sig ∈ sigs, ∀ key ∈ keys, ∀ key' ∈ keys,
      checkSig C txTo nIn 0 sig key script = true → checkSig C txTo nIn 0 sig key' script = true → key = key')
    {key : Valtype} (mem : key ∈ keys) :
    (sigs.foldl (giveSig C script txTo nIn keys) ∅)[key]? =
      sigs.find? fun sig => checkSig C txTo nIn 0 sig key script := by
  induction sigs using List.reverseRecOn generalizing key with
  | nil => simp
  | append_singleton sigs sig ih =>
    have before := fun {key : Valtype} (mem : key ∈ keys) =>
      ih (fun sig' mem' => single sig' (List.mem_append_left _ mem')) mem
    have one := single sig (by simp)
    rw [List.foldl_append, List.foldl_cons, List.foldl_nil, List.find?_append]
    generalize sigs.foldl (giveSig C script txTo nIn keys) ∅ = given at before
    rw [← before mem, giveSig]
    cases chosen : keys.find? fun pubkey => !given.contains pubkey && checkSig C txTo nIn 0 sig pubkey script with
    | none =>
      cases has : given[key]? with
      | some first => rfl
      | none =>
        have refused := List.find?_eq_none.mp chosen key mem
        have absent : given.contains key = false := by
          rw [ExtTreeMap.contains_eq_isSome_getElem?, has]
          rfl
        simp only [absent, Bool.not_false, Bool.true_and] at refused
        simp [refused]
    | some pubkey =>
      have right := List.find?_some chosen
      simp only [Bool.and_eq_true, Bool.not_eq_true'] at right
      simp only [ExtTreeMap.getElem?_insert, Std.compare_eq_iff_eq]
      by_cases same : pubkey = key
      · subst same
        have absent : given[pubkey]? = none := ExtTreeMap.getElem?_eq_none_of_contains_eq_false right.1
        simp [absent, right.2]
      · have wrong : ¬ checkSig C txTo nIn 0 sig key script = true := fun right' =>
          same (one pubkey (List.mem_of_find?_eq_some chosen) key mem right.2 right')
        simp [same, wrong]

theorem mergeSigs_eq (sigs : ExtTreeMap Valtype Valtype) (nSigsRequired : Nat) : ∀ (pubkeys : List Valtype)
    (nSigsHave : Nat) (result : CScript), nSigsHave ≤ nSigsRequired →
    mergeSigs sigs nSigsRequired pubkeys nSigsHave result =
      (nSigsHave + ((pubkeys.filterMap fun pubkey => sigs[pubkey]?).take (nSigsRequired - nSigsHave)).length,
        result ++ pushes ((pubkeys.filterMap fun pubkey => sigs[pubkey]?).take (nSigsRequired - nSigsHave)))
  | [], nSigsHave, result, _ => by simp [mergeSigs, pushes]
  | pubkey :: pubkeys, nSigsHave, result, enough => by
    rw [mergeSigs]
    by_cases more : nSigsHave < nSigsRequired
    · obtain ⟨missing, rfl⟩ := Nat.exists_eq_add_of_lt more
      rw [if_pos more]
      cases has : sigs[pubkey]? with
      | none =>
        rw [List.filterMap_cons_none has]
        exact mergeSigs_eq sigs _ pubkeys nSigsHave result enough
      | some sig =>
        have left : nSigsHave + missing + 1 - nSigsHave = (nSigsHave + missing + 1 - (nSigsHave + 1)) + 1 := by omega
        have first : (pubkey :: pubkeys).filterMap (fun pubkey => sigs[pubkey]?) =
            sig :: pubkeys.filterMap fun pubkey => sigs[pubkey]? := List.filterMap_cons_some has
        rw [first, left, List.take_succ_cons]
        dsimp only
        rw [mergeSigs_eq sigs _ pubkeys (nSigsHave + 1) _ (by omega), List.length_cons]
        congr 1
        · omega
        · rw [List.append_assoc]
          rfl
    · rw [if_neg more, Nat.sub_eq_zero_of_le (Nat.not_lt.mp more)]
      simp [pushes]

def rightSigs (C : Crypto) (script : CScript) (txTo : CTransaction) (nIn : Nat) (keys sigs1 sigs2 : List Valtype) :
    List Valtype :=
  keys.filterMap fun key => (allSigs sigs1 sigs2).toList.find? fun sig => checkSig C txTo nIn 0 sig key script

def mergedSigs (required : Nat) (sigs : List Valtype) : List Valtype :=
  sigs.take required ++ List.replicate (required - (sigs.take required).length) []

theorem pushes_replicate_nil : ∀ k : Nat, pushes (List.replicate k []) = List.replicate k 0
  | 0 => rfl
  | k + 1 => congrArg (0 :: ·) (pushes_replicate_nil k)

theorem combineMultisig_eq (m n : UInt8)
    (single : ∀ sig ∈ sigs1 ++ sigs2, ∀ key ∈ keys, ∀ key' ∈ keys, checkSig C txTo nIn 0 sig key script = true →
      checkSig C txTo nIn 0 sig key' script = true → key = key') :
    combineMultisig C script txTo nIn ([m] :: (keys ++ [[n]])) sigs1 sigs2 =
      .ok (pushes ([] :: mergedSigs m.toNat (rightSigs C script txTo nIn keys sigs1 sigs2))) := by
  let given := (allSigs sigs1 sigs2).toList.foldl (giveSig C script txTo nIn keys) ∅
  have lookups : (keys.filterMap fun key => given[key]?) = rightSigs C script txTo nIn keys sigs1 sigs2 := by
    apply List.filterMap_congr
    intro key mem
    exact givenSigs_getElem? _ (fun sig mem => single sig (mem_allSigs.mp mem).2) mem
  have pubkeys : ([m] :: (keys ++ [[n]])).tail.dropLast = keys := List.dropLast_concat
  have required : (solutionByte ([m] :: (keys ++ [[n]])).head?).toNat = m.toNat := rfl
  rw [combineMultisig, failIf_of_not (by simp), ok_bind, pubkeys, required]
  dsimp only
  rw [mergeSigs_eq given _ _ 0 [0] (Nat.zero_le _), lookups, Nat.sub_zero, Nat.zero_add, pure_eq_ok, mergedSigs]
  have parts : ∀ values others : List Valtype, pushes (values ++ others) = pushes values ++ pushes others :=
    fun _ _ => List.flatMap_append
  change _ = 0 :: pushes (_ ++ _)
  rw [parts, pushes_replicate_nil]
  rfl

theorem forall₂_filterMap {α β : Type} (g : α → Option β) : ∀ xs : List α,
    List.Forall₂ (fun b a => g a = some b) (xs.filterMap g) (xs.filter fun a => (g a).isSome)
  | [] => .nil
  | a :: xs => by
    cases found : g a with
    | none => simpa [found] using forall₂_filterMap g xs
    | some b => simpa [found] using forall₂_filterMap g xs

def signedKeys (C : Crypto) (script : CScript) (txTo : CTransaction) (nIn : Nat) (keys sigs1 sigs2 : List Valtype) :
    List Valtype :=
  keys.filter fun key => (sigs1 ++ sigs2).any fun sig => checkSig C txTo nIn 0 sig key script

theorem checkSig_nil (key : Valtype) : checkSig C txTo nIn 0 [] key script = false := rfl

theorem mem_rightSigs (mem : sig ∈ rightSigs C script txTo nIn keys sigs1 sigs2) : sig ∈ sigs1 ++ sigs2 := by
  obtain ⟨key, -, first⟩ := List.mem_filterMap.mp mem
  exact (mem_allSigs.mp (List.mem_of_find?_eq_some first)).2

theorem rightSigs_signedKeys (sigs1 sigs2 : List Valtype) :
    List.Forall₂ (fun sig key => sig ∈ sigs1 ++ sigs2 ∧ checkSig C txTo nIn 0 sig key script = true)
      (rightSigs C script txTo nIn keys sigs1 sigs2) (signedKeys C script txTo nIn keys sigs1 sigs2) := by
  have found : (fun key => ((allSigs sigs1 sigs2).toList.find? fun sig => checkSig C txTo nIn 0 sig key script).isSome) =
      fun key => (sigs1 ++ sigs2).any fun sig => checkSig C txTo nIn 0 sig key script := by
    funext key
    rw [Bool.eq_iff_iff, List.find?_isSome, List.any_eq_true]
    constructor
    · rintro ⟨sig, mem, right⟩
      exact ⟨sig, (mem_allSigs.mp mem).2, right⟩
    · rintro ⟨sig, mem, right⟩
      refine ⟨sig, mem_allSigs.mpr ⟨?_, mem⟩, right⟩
      rintro rfl
      rw [checkSig_nil] at right
      cases right
  rw [signedKeys, ← found]
  refine (forall₂_filterMap _ keys).imp ?_
  intro sig key first
  have right := List.find?_some first
  exact ⟨(mem_allSigs.mp (List.mem_of_find?_eq_some first)).2, right⟩

def PushesKeys (pc : CScript) : Prop :=
  ∀ fuel, ∀ op ∈ (scanOpcodes fuel pc).1, op.1 ≤ OP_PUSHDATA4 → isKeySized op.2 = true

theorem pushesKeys_nil : PushesKeys [] := by
  intro fuel op mem
  cases fuel <;> simp [scanOpcodes] at mem

theorem pushesKeys_of_read {pc rest : CScript} {opcode : UInt8} {data : Valtype}
    (read : getOp2 pc = some (opcode, data, rest)) (first : opcode ≤ OP_PUSHDATA4 → isKeySized data = true)
    (others : PushesKeys rest) : PushesKeys pc := by
  intro fuel op mem
  cases fuel with
  | zero => simp [scanOpcodes] at mem
  | succ fuel =>
    rw [scanOpcodes_succ fuel read, List.mem_cons] at mem
    rcases mem with rfl | mem
    · exact first
    · exact others fuel op mem

theorem pushesKeys_readsKeys {pc rest : CScript} (reads : ReadsKeys pc keys rest) (others : PushesKeys rest) :
    PushesKeys pc := by
  induction reads with
  | nil => exact others
  | cons read sized _ ih => exact pushesKeys_of_read read (fun _ => sized) (ih others)

theorem pushesKeys_multisig {m n : UInt8} (solved : solver script = ⟨true, TX_MULTISIG, [m] :: (keys ++ [[n]])⟩) :
    PushesKeys script := by
  obtain ⟨opcodeM, opcodeN, pc1, pc2, pc3, -, numberM, numberN, -, -, -, -, readM, readsKeys, readN, readSig⟩ :=
    solver_multisig_keys solved
  have number : ∀ {opcode : UInt8} {data : Valtype}, OP_1 ≤ opcode → opcode ≤ OP_PUSHDATA4 → isKeySized data = true :=
    fun low high => absurd (UInt8.le_trans low high) (by decide)
  apply pushesKeys_of_read readM (number numberM.1)
  apply pushesKeys_readsKeys readsKeys
  apply pushesKeys_of_read readN (number numberN.1)
  exact pushesKeys_of_read readSig (number (by decide)) pushesKeys_nil

theorem mergedSigs_length (required : Nat) (sigs : List Valtype) : (mergedSigs required sigs).length = required := by
  rw [mergedSigs, List.length_append, List.length_replicate, List.length_take]
  omega

theorem mem_mergedSigs {required : Nat} {sigs : List Valtype} (mem : sig ∈ mergedSigs required sigs) :
    sig ∈ sigs ∨ sig = [] := by
  rcases List.mem_append.mp mem with taken | missing
  · exact .inl (List.mem_of_mem_take taken)
  · exact .inr (List.mem_replicate.mp missing).2

theorem greedy_mergedSigs {required : Nat} (sigs1 sigs2 : List Valtype) :
    matchGreedily (fun vchSig vchPubKey => checkSig C txTo nIn 0 vchSig vchPubKey script)
        (mergedSigs required (rightSigs C script txTo nIn keys sigs1 sigs2)).reverse keys.reverse =
      decide (required ≤ (signedKeys C script txTo nIn keys sigs1 sigs2).length) := by
  have pairs : List.Forall₂ _ (rightSigs C script txTo nIn keys sigs1 sigs2) _ := rightSigs_signedKeys sigs1 sigs2
  have length := pairs.length_eq
  rw [Bool.eq_iff_iff, decide_eq_true_eq, matchGreedily_iff, matchesInOrder_reverse, matchesInOrder_iff_sublist]
  constructor
  · rintro ⟨signers, -, each⟩
    by_contra missing
    -- An empty signature is right for no key.
    have empty : [] ∈ mergedSigs required (rightSigs C script txTo nIn keys sigs1 sigs2) := by
      refine List.mem_append_right _ (List.mem_replicate.mpr ⟨?_, rfl⟩)
      rw [List.length_take]
      omega
    have nonempty := (List.forall₂_and_left (p := fun vchSig : Valtype => vchSig ≠ []) _ _).mp (each.imp (by
      rintro sig key right
      refine ⟨?_, right⟩
      rintro rfl
      rw [checkSig_nil] at right
      cases right))
    exact nonempty.1 [] empty rfl
  · intro enough
    have complete : mergedSigs required (rightSigs C script txTo nIn keys sigs1 sigs2) =
        (rightSigs C script txTo nIn keys sigs1 sigs2).take required := by
      rw [mergedSigs, List.length_take, Nat.min_eq_left (by omega), Nat.sub_self, List.replicate_zero, List.append_nil]
    rw [complete]
    exact ⟨(signedKeys C script txTo nIn keys sigs1 sigs2).take required,
      (List.take_sublist _ _).trans List.filter_sublist, (List.forall₂_take required pairs).imp fun _ _ pair => pair.2⟩

/-- Merging gives the signatures in the order of the keys, whichever list comes first, and they satisfy the script
exactly when enough keys have one. -/
theorem combineMultisig_merges {m n : UInt8} (solved : solver script = ⟨true, TX_MULTISIG, [m] :: (keys ++ [[n]])⟩)
    (sigs1 sigs2 : List Valtype)
    (single : ∀ sig ∈ sigs1 ++ sigs2, ∀ key ∈ keys, ∀ key' ∈ keys,
      checkSig C txTo nIn 0 sig key script = true → checkSig C txTo nIn 0 sig key' script = true → key = key')
    (foreign : ∀ sig ∈ sigs1 ++ sigs2, ∀ op ∈ (parseScript script).1, op.1 ≤ OP_PUSHDATA4 → op.2 ≠ sig)
    (short : ∀ sig ∈ sigs1 ++ sigs2, sig.length ≤ 520) :
    ∃ sigs signers result stack,
      result = pushes ([] :: (sigs ++ List.replicate (m.toNat - sigs.length) [])) ∧
      combineMultisig C script txTo nIn ([m] :: (keys ++ [[n]])) sigs1 sigs2 = .ok result ∧
      combineMultisig C script txTo nIn ([m] :: (keys ++ [[n]])) sigs2 sigs1 = .ok result ∧
      signers.Sublist keys ∧
      List.Forall₂ (fun sig key => sig ∈ sigs1 ++ sigs2 ∧ checkSig C txTo nIn 0 sig key script = true) sigs signers ∧
      (evalScript C (checkSig C txTo nIn 0) [] result).result = .ok stack ∧
      (evalScript C (checkSig C txTo nIn 0) stack script).result =
        .ok [vchBool (decide (m.toNat ≤ (signedKeys C script txTo nIn keys sigs1 sigs2).length))] := by
  let right := rightSigs C script txTo nIn keys sigs1 sigs2
  have pairs : List.Forall₂ _ right _ := rightSigs_signedKeys sigs1 sigs2
  have swapped : rightSigs C script txTo nIn keys sigs2 sigs1 = right := by
    rw [rightSigs, allSigs_comm]
    rfl
  have other := combineMultisig_eq m n fun sig mem => single sig (List.mem_append.mpr (List.mem_append.mp mem).symm)
  rw [swapped] at other
  have members : ∀ sig ∈ mergedSigs m.toNat right, sig ∈ sigs1 ++ sigs2 ∨ sig = [] := fun sig mem =>
    (mem_mergedSigs mem).imp_left mem_rightSigs
  have shortMerged : ∀ sig ∈ mergedSigs m.toNat right, sig.length ≤ 520 := by
    intro sig mem
    rcases members sig mem with listed | rfl
    · exact short sig listed
    · exact Nat.zero_le _
  have kept : withoutSigs script (mergedSigs m.toNat right).reverse = script := by
    apply withoutSigs_eq
    intro sig mem
    have mem := List.mem_reverse.mp mem
    apply findAndDelete_of_ne ((shortMerged sig mem).trans_lt (by norm_num))
    intro op inScript push
    rcases members sig mem with listed | rfl
    · exact foreign sig listed op inScript push
    · intro empty
      have sized := pushesKeys_multisig solved _ op inScript push
      rw [empty] at sized
      cases sized
  have few : m.toNat ≤ 16 := by
    obtain ⟨_, _, _, _, _, value, -, -, -, order, -, small, -⟩ := solver_multisig_keys solved
    omega
  have pushed : (evalScript C (checkSig C txTo nIn 0) [] (pushes ([] :: mergedSigs m.toNat right))).result = _ :=
    evalScript_pushes C (checkSig C txTo nIn 0) (List.forall_mem_cons.mpr ⟨Nat.zero_le _, shortMerged⟩)
      (by rw [List.length_cons, mergedSigs_length]; omega)
  rw [List.reverse_cons] at pushed
  exact ⟨right.take m.toNat, (signedKeys C script txTo nIn keys sigs1 sigs2).take m.toNat, _, _, rfl,
    combineMultisig_eq m n single, other, (List.take_sublist _ _).trans List.filter_sublist,
    List.forall₂_take _ pairs, pushed,
    eval_multisig_greedy solved (mergedSigs_length _ _) kept (greedy_mergedSigs sigs1 sigs2)⟩

end Given

def bothScript : CScript :=
  [0x52, 33] ++ List.replicate 33 2 ++ [33] ++ List.replicate 33 3 ++ [0x52, OP_CHECKMULTISIG]

def emptyTx : CTransaction := ⟨1, 0, [], [], 0⟩

theorem bothScript_merges : ∃ sigs signers result stack,
    result = pushes ([] :: (sigs ++ List.replicate (2 - sigs.length) [])) ∧
    combineMultisig headCrypto bothScript emptyTx 0 [[2], List.replicate 33 2, List.replicate 33 3, [2]]
      [[3, 1]] [[2, 1]] = .ok result ∧
    combineMultisig headCrypto bothScript emptyTx 0 [[2], List.replicate 33 2, List.replicate 33 3, [2]]
      [[2, 1]] [[3, 1]] = .ok result ∧
    signers.Sublist [List.replicate 33 2, List.replicate 33 3] ∧
    List.Forall₂ (fun sig key => sig ∈ [[3, 1], [2, 1]] ∧ checkSig headCrypto emptyTx 0 0 sig key bothScript = true)
      sigs signers ∧
    (evalScript headCrypto (checkSig headCrypto emptyTx 0 0) [] result).result = .ok stack ∧
    (evalScript headCrypto (checkSig headCrypto emptyTx 0 0) stack bothScript).result = .ok [vchBool true] :=
  @combineMultisig_merges headCrypto bothScript emptyTx 0 [List.replicate 33 2, List.replicate 33 3] 2 2
    (by decide +kernel) [[3, 1]] [[2, 1]] (by decide +kernel) (by decide +kernel) (by decide +kernel)

def easyScript : CScript := [0x51, 33] ++ List.replicate 33 2 ++ [0x51, OP_CHECKMULTISIG]

theorem longSig_unsatisfied :
    solver easyScript = ⟨true, TX_MULTISIG, [[1], List.replicate 33 2, [1]]⟩ ∧
    (∀ op ∈ (parseScript easyScript).1, op.2 ≠ List.replicate 521 7) ∧
    (signedKeys zeroCrypto easyScript emptyTx 0 [List.replicate 33 2] [List.replicate 521 7] []).length = 1 ∧
    (match combineMultisig zeroCrypto easyScript emptyTx 0 [[1], List.replicate 33 2, [1]] [List.replicate 521 7] [] with
      | .ok result => (evalScript zeroCrypto (checkSig zeroCrypto emptyTx 0 0) [] result).result
      | .error _ => .ok []) = .error .fail := by
  decide +kernel

end RitCoin.Proof
