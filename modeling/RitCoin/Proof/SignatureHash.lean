import RitCoin.Model.SignatureHash
import RitCoin.Proof.Script

namespace RitCoin.Proof
open Lib Model

def sizeMarker (nSize : ℕ) : UInt8 :=
  if nSize < 253 then UInt8.ofNat nSize else if nSize ≤ 0xffff then 253 else if nSize ≤ 0xffffffff then 254 else 255

def markedWidth (marker : UInt8) : ℕ :=
  if marker < 253 then 0 else if marker = 253 then 2 else if marker = 254 then 4 else 8

theorem sizeMarker_lt_iff {nSize : ℕ} : sizeMarker nSize < 253 ↔ nSize < 253 := by
  rw [sizeMarker]
  split_ifs with small two four
  · simp only [small, iff_true]
    rw [UInt8.lt_iff_toNat_lt, UInt8.toNat_ofNat_of_lt' (by change _ < 256; omega)]
    exact small
  · exact iff_of_false (by decide) small
  · exact iff_of_false (by decide) small
  · exact iff_of_false (by decide) small

theorem writeCompactSize_eq (nSize : ℕ) :
    writeCompactSize nSize = sizeMarker nSize :: leBytes (markedWidth (sizeMarker nSize)) nSize := by
  rw [writeCompactSize]
  split_ifs with small two four
  · have none : markedWidth (sizeMarker nSize) = 0 := if_pos (sizeMarker_lt_iff.mpr small)
    rw [none, sizeMarker, if_pos small]
    rfl
  · have marker : sizeMarker nSize = 253 := by rw [sizeMarker, if_neg small, if_pos two]
    rw [marker]
    rfl
  · have marker : sizeMarker nSize = 254 := by rw [sizeMarker, if_neg small, if_neg two, if_pos four]
    rw [marker]
    rfl
  · have marker : sizeMarker nSize = 255 := by rw [sizeMarker, if_neg small, if_neg two, if_neg four]
    rw [marker]
    rfl

theorem lt_markedWidth {nSize : ℕ} (large : ¬ nSize < 253) (bounded : nSize < 2 ^ 64) :
    nSize < 256 ^ markedWidth (sizeMarker nSize) := by
  rw [sizeMarker, if_neg large]
  split_ifs with two four
  · exact Nat.lt_succ_of_le two
  · exact Nat.lt_succ_of_le four
  · exact bounded

theorem delimits_compactSize : Delimits (· < 2 ^ 64) writeCompactSize := by
  constructor
  intro a b r s boundA boundB same
  rw [writeCompactSize_eq, writeCompactSize_eq, List.cons_append, List.cons_append, List.cons.injEq] at same
  obtain ⟨marker, same⟩ := same
  by_cases small : a < 253
  · -- the marker is the size
    have smallB : b < 253 := by rwa [← sizeMarker_lt_iff, ← marker, sizeMarker_lt_iff]
    have none : markedWidth (sizeMarker b) = 0 := if_pos (sizeMarker_lt_iff.mpr smallB)
    rw [marker, none] at same
    refine ⟨?_, same⟩
    rw [sizeMarker, sizeMarker, if_pos small, if_pos smallB, ← UInt8.toNat_inj,
      UInt8.toNat_ofNat_of_lt' (by change _ < 256; omega), UInt8.toNat_ofNat_of_lt' (by change _ < 256; omega)] at marker
    exact marker
  · have largeB : ¬ b < 253 := by rwa [← sizeMarker_lt_iff, ← marker, sizeMarker_lt_iff]
    have wide := lt_markedWidth small boundA
    rw [marker] at same wide
    exact (delimits_leBytes _).split wide (lt_markedWidth largeB boundB) same

theorem delimits_uint32 : Delimits (fun _ : UInt32 => True) fun x => leBytes 4 x.toNat :=
  ((delimits_leBytes 4).comp fun _ _ => UInt32.toNat_inj.mp).mono fun x _ => x.toNat_lt

theorem delimits_int32 : Delimits (fun _ : Int32 => True) fun x => leBytes 4 x.toUInt32.toNat :=
  delimits_uint32.comp fun _ _ same => Int32.toBitVec_inj.mp (congrArg UInt32.toBitVec same)

theorem delimits_int64 : Delimits (fun _ : Int64 => True) fun x => leBytes 8 x.toUInt64.toNat :=
  ((delimits_leBytes 8).comp fun _ _ same =>
    Int64.toBitVec_inj.mp (congrArg UInt64.toBitVec (UInt64.toNat_inj.mp same))).mono fun x _ => x.toUInt64.toNat_lt

theorem delimits_uint256 : Delimits (fun _ : Uint256 => True) fun x => leBytes 32 x.toNat :=
  ((delimits_leBytes 32).comp fun _ _ => BitVec.eq_of_toNat_eq).mono fun x _ => x.isLt

theorem delimits_bytes : Delimits (fun v : List UInt8 => v.length < 2 ^ 64) serializeBytes := by
  have byte : Delimits (fun _ : UInt8 => True) fun byte => [byte] := ⟨fun _ _ same => List.cons.inj same⟩
  have bytes := (delimits_compactSize.vector byte).mono fun v (bound : v.length < 2 ^ 64) =>
    ⟨bound, fun _ _ => trivial⟩
  simp only [List.flatMap_singleton'] at bytes
  exact bytes

theorem delimits_outPoint : Delimits (fun _ : COutPoint => True) COutPoint.serialize := by
  refine ((delimits_uint256.append delimits_uint32).comp (f := fun o : COutPoint => (o.hash, o.n)) ?_).mono
    fun _ _ => ⟨trivial, trivial⟩
  rintro ⟨⟩ ⟨⟩ ⟨⟩
  rfl

theorem delimits_txIn : Delimits (fun txin : CTxIn => txin.scriptSig.length < 2 ^ 64) CTxIn.serialize := by
  refine ((delimits_outPoint.append (delimits_bytes.append delimits_uint32)).comp
    (f := fun txin : CTxIn => (txin.prevout, txin.scriptSig, txin.nSequence)) ?_).mono
    fun _ bound => ⟨trivial, bound, trivial⟩
  rintro ⟨⟩ ⟨⟩ ⟨⟩
  rfl

theorem delimits_txOut : Delimits (fun txout : CTxOut => txout.scriptPubKey.length < 2 ^ 64) CTxOut.serialize := by
  refine ((delimits_int64.append delimits_bytes).comp
    (f := fun txout : CTxOut => (txout.nValue, txout.scriptPubKey)) ?_).mono fun _ bound => ⟨trivial, bound⟩
  rintro ⟨⟩ ⟨⟩ ⟨⟩
  rfl

structure Sized (tx : CTransaction) : Prop where
  vin : tx.vin.length < 2 ^ 64
  scriptSig : ∀ txin ∈ tx.vin, txin.scriptSig.length < 2 ^ 64
  vout : tx.vout.length < 2 ^ 64
  scriptPubKey : ∀ txout ∈ tx.vout, txout.scriptPubKey.length < 2 ^ 64

theorem delimits_tx : Delimits Sized CTransaction.serialize := by
  refine ((delimits_int32.append (delimits_uint32.append ((delimits_compactSize.vector delimits_txIn).append
    ((delimits_compactSize.vector delimits_txOut).append delimits_uint32)))).comp
    (f := fun tx : CTransaction => (tx.nVersion, tx.nTime, tx.vin, tx.vout, tx.nLockTime)) ?_).mono
    fun _ sized => ⟨trivial, trivial, ⟨sized.vin, sized.scriptSig⟩, ⟨sized.vout, sized.scriptPubKey⟩, trivial⟩
  rintro ⟨⟩ ⟨⟩ ⟨⟩
  rfl

theorem signatureBytes_inj {tx tx' : CTransaction} {nHashType nHashType' : Int32} (sized : Sized tx)
    (sized' : Sized tx') :
    signatureBytes tx nHashType = signatureBytes tx' nHashType' ↔ tx = tx' ∧ nHashType = nHashType' := by
  constructor
  · intro same
    obtain ⟨txs, types⟩ := delimits_tx.split sized sized' same
    refine ⟨txs, (delimits_int32.split (r := []) (s := []) trivial trivial ?_).1⟩
    simpa only [List.append_nil] using types
  · rintro ⟨rfl, rfl⟩
    rfl

def keepsSequences (nHashType : Int32) : Bool :=
  baseType nHashType != SIGHASH_NONE && baseType nHashType != SIGHASH_SINGLE

def maskInputs (keep : Bool) (scriptCode : CScript) (vin : List CTxIn) (nIn : ℕ) : List CTxIn :=
  vin.mapIdx fun i txin =>
    ⟨txin.prevout, if i = nIn then scriptCode else [], if keep ∨ i = nIn then txin.nSequence else 0⟩

def maskSingle (vout : List CTxOut) (nIn : ℕ) : List CTxOut :=
  (vout.take (nIn + 1)).mapIdx fun i txout => if i < nIn then .null else txout

def maskOutputs (nHashType : Int32) (vout : List CTxOut) (nIn : ℕ) : List CTxOut :=
  if baseType nHashType = SIGHASH_NONE then []
  else if baseType nHashType = SIGHASH_SINGLE then maskSingle vout nIn else vout

def signedCode (scriptCode : CScript) : CScript := (findAndDelete scriptCode [OP_CODESEPARATOR]).1

theorem freeSequences_blankSignatures (scriptCode : CScript) (vin : List CTxIn) (nIn : ℕ) :
    freeSequences (blankSignatures scriptCode vin nIn) nIn = maskInputs false scriptCode vin nIn := by
  rw [freeSequences, blankSignatures, maskInputs, List.mapIdx_mapIdx]
  refine congrArg (List.mapIdx · vin) (funext fun i => funext fun txin => ?_)
  by_cases own : i = nIn <;> simp [own]

theorem blankSignatures_eq (scriptCode : CScript) (vin : List CTxIn) (nIn : ℕ) :
    blankSignatures scriptCode vin nIn = maskInputs true scriptCode vin nIn := by
  rw [blankSignatures, maskInputs]
  refine congrArg (List.mapIdx · vin) (funext fun i => funext fun txin => ?_)
  simp

theorem signatureTx_eq (scriptCode : CScript) {txTo : CTransaction} {nIn : ℕ} {nHashType : Int32}
    (input : nIn < txTo.vin.length)
    (output : baseType nHashType = SIGHASH_SINGLE → nIn < txTo.vout.length) :
    signatureTx scriptCode txTo nIn nHashType =
      let vin := maskInputs (keepsSequences nHashType) (signedCode scriptCode) txTo.vin nIn
      some { txTo with
        vin := if anyoneCanPay nHashType then vin[nIn]?.toList else vin
        vout := maskOutputs nHashType txTo.vout nIn } := by
  have own : ∀ vin : List CTxIn, (vin.drop nIn).take 1 = vin[nIn]?.toList := by
    intro vin
    rw [List.take_one, List.head?_drop]
  rw [signatureTx, if_neg (Nat.not_le.mpr input), if_neg (by simpa using output), maskOutputs]
  simp only [own]
  by_cases none : baseType nHashType = SIGHASH_NONE
  · have free : keepsSequences nHashType = false := by simp [keepsSequences, none]
    simp only [none, free, if_true, freeSequences_blankSignatures]
    split_ifs <;> rfl
  · by_cases single : baseType nHashType = SIGHASH_SINGLE
    · have free : keepsSequences nHashType = false := by simp [keepsSequences, single]
      have different : ¬ SIGHASH_SINGLE = SIGHASH_NONE := by decide
      simp only [single, different, free, if_true, if_false, freeSequences_blankSignatures]
      split_ifs <;> rfl
    · have kept : keepsSequences nHashType = true := by simp [keepsSequences, none, single]
      simp only [none, single, kept, if_false, blankSignatures_eq]
      split_ifs <;> rfl

section Inputs
variable {keep : Bool} {code code' : CScript} {vin vin' : List CTxIn} {n n' : ℕ}

theorem getElem?_maskInputs (keep : Bool) (code : CScript) (vin : List CTxIn) (n i : ℕ) :
    (maskInputs keep code vin n)[i]? = vin[i]?.map fun txin =>
      ⟨txin.prevout, if i = n then code else [], if keep ∨ i = n then txin.nSequence else 0⟩ :=
  List.getElem?_mapIdx

theorem map_prevout_maskInputs : (maskInputs keep code vin n).map CTxIn.prevout = vin.map CTxIn.prevout := by
  refine List.ext_getElem? fun i => ?_
  rw [List.getElem?_map, getElem?_maskInputs, Option.map_map, List.getElem?_map]
  rfl

theorem map_nSequence_maskInputs :
    (maskInputs true code vin n).map CTxIn.nSequence = vin.map CTxIn.nSequence := by
  refine List.ext_getElem? fun i => ?_
  rw [List.getElem?_map, getElem?_maskInputs, Option.map_map, List.getElem?_map]
  simp [Function.comp_def]

theorem maskInputs_at (input : n < vin.length) (same : maskInputs keep code vin n = maskInputs keep code' vin' n') :
    ∃ txin', vin'[n]? = some txin' ∧ code = (if n = n' then code' else []) ∧
      vin[n]?.map CTxIn.nSequence = some (if keep ∨ n = n' then txin'.nSequence else 0) := by
  have at_n := congrArg (·[n]?) same
  simp only [getElem?_maskInputs, List.getElem?_eq_getElem input, Option.map_some, if_true, or_true] at at_n
  cases found : vin'[n]? with
  | none =>
    rw [found] at at_n
    cases at_n
  | some txin' =>
    rw [found, Option.map_some, Option.some.injEq, CTxIn.mk.injEq] at at_n
    refine ⟨txin', rfl, at_n.2.1, ?_⟩
    rw [List.getElem?_eq_getElem input, Option.map_some, at_n.2.2]

theorem maskInputs_eq_iff (input : n < vin.length) (input' : n' < vin'.length) :
    maskInputs keep code vin n = maskInputs keep code' vin' n' ↔
      vin.map CTxIn.prevout = vin'.map CTxIn.prevout ∧ code = code' ∧
      (if keep then vin.map CTxIn.nSequence = vin'.map CTxIn.nSequence
        else vin[n]?.map CTxIn.nSequence = vin'[n']?.map CTxIn.nSequence) ∧
      (code ≠ [] ∨ keep = false ∧ vin[n]?.map CTxIn.nSequence ≠ some 0 → n = n') := by
  constructor
  · intro same
    have prevouts := congrArg (List.map CTxIn.prevout) same
    rw [map_prevout_maskInputs, map_prevout_maskInputs] at prevouts
    obtain ⟨txin', found, codeAt, sequenceAt⟩ := maskInputs_at input same
    obtain ⟨txin, found', codeAt', sequenceAt'⟩ := maskInputs_at input' same.symm
    have sequences : keep = true → vin.map CTxIn.nSequence = vin'.map CTxIn.nSequence := by
      rintro rfl
      have := congrArg (List.map CTxIn.nSequence) same
      rwa [map_nSequence_maskInputs, map_nSequence_maskInputs] at this
    by_cases position : n = n'
    · subst position
      rw [if_pos rfl] at codeAt
      refine ⟨prevouts, codeAt, ?_, fun _ => rfl⟩
      split_ifs with kept
      · exact sequences kept
      · rw [sequenceAt, found]
        simp
    · rw [if_neg position] at codeAt
      rw [if_neg (Ne.symm position)] at codeAt'
      refine ⟨prevouts, codeAt.trans codeAt'.symm, ?_, ?_⟩
      · split_ifs with kept
        · exact sequences kept
        · rw [sequenceAt, sequenceAt']
          simp [kept, position, Ne.symm position]
      · rintro (nonempty | ⟨free, nonzero⟩)
        · exact absurd codeAt nonempty
        · rw [sequenceAt] at nonzero
          simp [free, position] at nonzero
  · rintro ⟨prevouts, rfl, sequences, position⟩
    refine List.ext_getElem? fun i => ?_
    rw [getElem?_maskInputs, getElem?_maskInputs]
    have prevoutAt := congrArg (·[i]?) prevouts
    simp only [List.getElem?_map] at prevoutAt
    cases found : vin[i]? with
    | none =>
      rw [found, Option.map_none, eq_comm, Option.map_eq_none_iff] at prevoutAt
      rw [prevoutAt]
      rfl
    | some txin =>
      rw [found, Option.map_some] at prevoutAt
      obtain ⟨txin', found', prevout⟩ := Option.map_eq_some_iff.mp prevoutAt.symm
      rw [found', Option.map_some, Option.map_some, Option.some.injEq, CTxIn.mk.injEq]
      refine ⟨prevout.symm, ?_, ?_⟩
      · by_cases same : n = n'
        · rw [same]
        · have empty : code = [] := by
            by_contra nonempty
            exact same (position (.inl nonempty))
          rw [empty, ite_self, ite_self]
      · cases keep with
        | true =>
          have sequenceAt := congrArg (·[i]?) sequences
          simpa [found, found'] using sequenceAt
        | false =>
          simp only [Bool.false_eq_true, if_false, false_or] at sequences ⊢
          by_cases same : n = n'
          · subst same
            split_ifs with own
            · subst own
              simpa [found, found'] using sequences
            · rfl
          · -- neither of the two sequence numbers that are kept is seen
            have zero : vin[n]?.map CTxIn.nSequence = some 0 := by
              by_contra nonzero
              exact same (position (.inr ⟨rfl, nonzero⟩))
            have left : (if i = n then txin.nSequence else 0) = 0 := by
              split_ifs with own
              · subst own
                simpa [found] using zero
              · rfl
            have right : (if i = n' then txin'.nSequence else 0) = 0 := by
              split_ifs with own
              · subst own
                rw [zero] at sequences
                simpa [found'] using sequences.symm
              · rfl
            rw [left, right]

end Inputs

theorem maskSingle_eq_iff {vout vout' : List CTxOut} {n n' : ℕ} (output : n < vout.length)
    (output' : n' < vout'.length) :
    maskSingle vout n = maskSingle vout' n' ↔ n = n' ∧ vout[n]? = vout'[n']? := by
  have at_index : ∀ (vout : List CTxOut) (n i : ℕ), (maskSingle vout n)[i]? =
      if i < n + 1 then vout[i]?.map fun txout => if i < n then .null else txout else none := by
    intro vout n i
    rw [maskSingle, List.getElem?_mapIdx, List.getElem?_take]
    split_ifs <;> rfl
  constructor
  · intro same
    have length := congrArg List.length same
    simp only [maskSingle, List.length_mapIdx, List.length_take] at length
    obtain rfl : n = n' := by omega
    have at_n := congrArg (·[n]?) same
    simp only [at_index, Nat.lt_succ_self, if_true, Nat.lt_irrefl, if_false, Option.map_id'] at at_n
    exact ⟨rfl, at_n⟩
  · rintro ⟨rfl, same⟩
    refine List.ext_getElem? fun i => ?_
    rw [at_index, at_index]
    rcases Nat.lt_trichotomy i n with before | rfl | after
    · rw [List.getElem?_eq_getElem (before.trans output), List.getElem?_eq_getElem (before.trans output')]
      simp [before]
    · rw [same]
    · rw [if_neg (by omega), if_neg (by omega)]

def signedInputs (nHashType : Int32) (txTo : CTransaction) (nIn : ℕ) : List CTxIn :=
  if anyoneCanPay nHashType then txTo.vin[nIn]?.toList else txTo.vin

/-- The inputs whose sequence numbers are signed: only its own if any hash type but `SIGHASH_ALL`
lets the others change theirs. -/
def sequencedInputs (nHashType : Int32) (txTo : CTransaction) (nIn : ℕ) : List CTxIn :=
  if anyoneCanPay nHashType ∨ keepsSequences nHashType = false then txTo.vin[nIn]?.toList else txTo.vin

def signedOutputs (nHashType : Int32) (txTo : CTransaction) (nIn : ℕ) : List CTxOut :=
  if baseType nHashType = SIGHASH_NONE then []
  else if baseType nHashType = SIGHASH_SINGLE then txTo.vout[nIn]?.toList
  else txTo.vout

/-- When the number of the input is signed: with `SIGHASH_SINGLE`, and where the other inputs are
signed too, as far as the script code or a sequence number that is kept shows the place. -/
def signsIndex (nHashType : Int32) (scriptCode : CScript) (txTo : CTransaction) (nIn : ℕ) : Prop :=
  baseType nHashType = SIGHASH_SINGLE ∨
    anyoneCanPay nHashType = false ∧ (signedCode scriptCode ≠ [] ∨
      baseType nHashType = SIGHASH_NONE ∧ txTo.vin[nIn]?.map CTxIn.nSequence ≠ some 0)

structure AgreeOn (nHashType : Int32) (scriptCode scriptCode' : CScript) (txTo txTo' : CTransaction)
    (nIn nIn' : ℕ) : Prop where
  nVersion : txTo.nVersion = txTo'.nVersion
  nTime : txTo.nTime = txTo'.nTime
  nLockTime : txTo.nLockTime = txTo'.nLockTime
  code : signedCode scriptCode = signedCode scriptCode'
  prevouts : (signedInputs nHashType txTo nIn).map CTxIn.prevout =
    (signedInputs nHashType txTo' nIn').map CTxIn.prevout
  sequences : (sequencedInputs nHashType txTo nIn).map CTxIn.nSequence =
    (sequencedInputs nHashType txTo' nIn').map CTxIn.nSequence
  outputs : signedOutputs nHashType txTo nIn = signedOutputs nHashType txTo' nIn'
  index : signsIndex nHashType scriptCode txTo nIn → nIn = nIn'

section
variable {nHashType : Int32} {scriptCode scriptCode' : CScript} {txTo txTo' : CTransaction} {nIn nIn' : ℕ}

theorem signedInputs_eq_iff (input : nIn < txTo.vin.length) (input' : nIn' < txTo'.vin.length)
    {code code' : CScript} :
    (if anyoneCanPay nHashType then (maskInputs (keepsSequences nHashType) code txTo.vin nIn)[nIn]?.toList
        else maskInputs (keepsSequences nHashType) code txTo.vin nIn) =
      (if anyoneCanPay nHashType then (maskInputs (keepsSequences nHashType) code' txTo'.vin nIn')[nIn']?.toList
        else maskInputs (keepsSequences nHashType) code' txTo'.vin nIn') ↔
    (signedInputs nHashType txTo nIn).map CTxIn.prevout = (signedInputs nHashType txTo' nIn').map CTxIn.prevout ∧
      code = code' ∧
      (sequencedInputs nHashType txTo nIn).map CTxIn.nSequence =
        (sequencedInputs nHashType txTo' nIn').map CTxIn.nSequence ∧
      (anyoneCanPay nHashType = false →
        code ≠ [] ∨ keepsSequences nHashType = false ∧ txTo.vin[nIn]?.map CTxIn.nSequence ≠ some 0 →
        nIn = nIn') := by
  rw [signedInputs, signedInputs, sequencedInputs, sequencedInputs]
  cases pays : anyoneCanPay nHashType with
  | true =>
    simp only [if_true, true_or, getElem?_maskInputs, List.getElem?_eq_getElem input,
      List.getElem?_eq_getElem input', or_true, Option.map_some, Option.toList_some, List.map_cons, List.map_nil,
      List.cons.injEq, and_true, CTxIn.mk.injEq, Bool.true_eq_false, false_implies]
  | false =>
    simp only [Bool.false_eq_true, if_false, false_or, true_implies, maskInputs_eq_iff input input']
    cases keepsSequences nHashType with
    | true => simp
    | false => simp [List.getElem?_eq_getElem input, List.getElem?_eq_getElem input']

theorem maskOutputs_eq_iff (output : baseType nHashType = SIGHASH_SINGLE → nIn < txTo.vout.length)
    (output' : baseType nHashType = SIGHASH_SINGLE → nIn' < txTo'.vout.length) :
    maskOutputs nHashType txTo.vout nIn = maskOutputs nHashType txTo'.vout nIn' ↔
      signedOutputs nHashType txTo nIn = signedOutputs nHashType txTo' nIn' ∧
      (baseType nHashType = SIGHASH_SINGLE → nIn = nIn') := by
  rw [maskOutputs, maskOutputs, signedOutputs, signedOutputs]
  by_cases none : baseType nHashType = SIGHASH_NONE
  · have different : baseType nHashType ≠ SIGHASH_SINGLE := by rw [none]; decide
    simp only [if_pos none, true_and, true_iff]
    exact fun single => absurd single different
  · by_cases single : baseType nHashType = SIGHASH_SINGLE
    · rw [if_neg none, if_pos single, if_neg none, if_pos single, if_neg none, if_pos single, if_neg none,
        if_pos single, maskSingle_eq_iff (output single) (output' single),
        List.getElem?_eq_getElem (output single), List.getElem?_eq_getElem (output' single)]
      simp only [Option.some.injEq, Option.toList_some, List.cons.injEq, and_true, single, true_implies]
      exact and_comm
    · simp [none, single]

theorem signatureTx_eq_iff (input : nIn < txTo.vin.length) (input' : nIn' < txTo'.vin.length)
    (output : baseType nHashType = SIGHASH_SINGLE → nIn < txTo.vout.length)
    (output' : baseType nHashType = SIGHASH_SINGLE → nIn' < txTo'.vout.length) :
    signatureTx scriptCode txTo nIn nHashType = signatureTx scriptCode' txTo' nIn' nHashType ↔
      AgreeOn nHashType scriptCode scriptCode' txTo txTo' nIn nIn' := by
  rw [signatureTx_eq scriptCode input output, signatureTx_eq scriptCode' input' output']
  simp only [Option.some.injEq, CTransaction.mk.injEq, signedInputs_eq_iff input input',
    maskOutputs_eq_iff output output']
  constructor
  · rintro ⟨version, time, ⟨prevouts, code, sequences, place⟩, ⟨outputs, single⟩, lockTime⟩
    refine ⟨version, time, lockTime, code, prevouts, sequences, outputs, ?_⟩
    rintro (base | ⟨pays, nonempty | ⟨none, nonzero⟩⟩)
    · exact single base
    · exact place pays (.inl nonempty)
    · exact place pays (.inr ⟨by simp [keepsSequences, none], nonzero⟩)
  · intro agree
    refine ⟨agree.nVersion, agree.nTime, ⟨agree.prevouts, agree.code, agree.sequences, ?_⟩,
      ⟨agree.outputs, fun base => agree.index (.inl base)⟩, agree.nLockTime⟩
    rintro pays (nonempty | ⟨free, nonzero⟩)
    · exact agree.index (.inr ⟨pays, .inl nonempty⟩)
    · by_cases base : baseType nHashType = SIGHASH_SINGLE
      · exact agree.index (.inl base)
      · have none : baseType nHashType = SIGHASH_NONE := by simpa [keepsSequences, base] using free
        exact agree.index (.inr ⟨pays, .inr ⟨none, nonzero⟩⟩)

def signaturePreimage (scriptCode : CScript) (txTo : CTransaction) (nIn : ℕ) (nHashType : Int32) : List UInt8 :=
  ((signatureTx scriptCode txTo nIn nHashType).map (signatureBytes · nHashType)).getD []

theorem sized_copy (sized : Sized txTo) {code : CScript} (codeSize : code.length < 2 ^ 64) {keep : Bool} :
    Sized { txTo with
      vin := if anyoneCanPay nHashType then (maskInputs keep code txTo.vin nIn)[nIn]?.toList
        else maskInputs keep code txTo.vin nIn
      vout := maskOutputs nHashType txTo.vout nIn } := by
  have scripts : ∀ txin ∈ maskInputs keep code txTo.vin nIn, txin.scriptSig.length < 2 ^ 64 := by
    intro txin member
    obtain ⟨i, _, rfl⟩ := List.mem_mapIdx.mp member
    change (if i = nIn then code else []).length < 2 ^ 64
    split_ifs
    · exact codeSize
    · exact Nat.two_pow_pos 64
  refine ⟨?_, ?_, ?_, ?_⟩
  · change (if _ then _ else _ : List CTxIn).length < 2 ^ 64
    split_ifs
    · exact (Option.length_toList_le).trans_lt (by norm_num)
    · rw [maskInputs, List.length_mapIdx]
      exact sized.vin
  · intro txin member
    change txin ∈ (if _ then _ else _ : List CTxIn) at member
    split_ifs at member
    · exact scripts txin (List.mem_of_getElem? (Option.mem_toList.mp member))
    · exact scripts txin member
  · change (maskOutputs nHashType txTo.vout nIn).length < 2 ^ 64
    rw [maskOutputs]
    split_ifs
    · exact Nat.two_pow_pos 64
    · rw [maskSingle, List.length_mapIdx]
      exact (List.length_take_le' _ _).trans_lt sized.vout
    · exact sized.vout
  · intro txout member
    change txout ∈ maskOutputs nHashType txTo.vout nIn at member
    rw [maskOutputs] at member
    split_ifs at member
    · cases member
    · obtain ⟨i, bound, rfl⟩ := List.mem_mapIdx.mp member
      split_ifs
      · exact Nat.two_pow_pos 64
      · exact sized.scriptPubKey _ (List.mem_of_mem_take (List.getElem_mem bound))
    · exact sized.scriptPubKey txout member

theorem signatureTx_scriptSigs (scriptSigs : ℕ → CScript) :
    signatureTx scriptCode
        { txTo with vin := txTo.vin.mapIdx fun i txin => { txin with scriptSig := scriptSigs i } } nIn nHashType =
      signatureTx scriptCode txTo nIn nHashType := by
  have blank : ∀ code : CScript,
      blankSignatures code (txTo.vin.mapIdx fun i txin => { txin with scriptSig := scriptSigs i }) nIn =
        blankSignatures code txTo.vin nIn := by
    intro code
    rw [blankSignatures, List.mapIdx_mapIdx]
    rfl
  simp only [signatureTx, blank, List.length_mapIdx]

/-- Two signature hashes are equal exactly if their hash types are and what these commit to, which is
nothing of the signatures that are there already. -/
theorem signatureHash_eq_iff (C : Crypto) {nHashType' : Int32} (input : nIn < txTo.vin.length)
    (input' : nIn' < txTo'.vin.length)
    (output : baseType nHashType = SIGHASH_SINGLE → nIn < txTo.vout.length)
    (output' : baseType nHashType' = SIGHASH_SINGLE → nIn' < txTo'.vout.length)
    (sized : Sized txTo) (sized' : Sized txTo') (codeSize : scriptCode.length < 2 ^ 64)
    (codeSize' : scriptCode'.length < 2 ^ 64)
    (injective : C.hash256 (signaturePreimage scriptCode txTo nIn nHashType) =
      C.hash256 (signaturePreimage scriptCode' txTo' nIn' nHashType') →
      signaturePreimage scriptCode txTo nIn nHashType = signaturePreimage scriptCode' txTo' nIn' nHashType') :
    (signatureHash C scriptCode txTo nIn nHashType = signatureHash C scriptCode' txTo' nIn' nHashType' ↔
      nHashType = nHashType' ∧ AgreeOn nHashType scriptCode scriptCode' txTo txTo' nIn nIn') ∧
    ∀ scriptSigs : ℕ → CScript,
      signatureHash C scriptCode
          { txTo with vin := txTo.vin.mapIdx fun i txin => { txin with scriptSig := scriptSigs i } } nIn nHashType =
        signatureHash C scriptCode txTo nIn nHashType := by
  refine ⟨?_, fun scriptSigs => by rw [signatureHash, signatureHash, signatureTx_scriptSigs]⟩
  have copied := signatureTx_eq scriptCode input output
  have copied' := signatureTx_eq scriptCode' input' output'
  have preimages : signatureHash C scriptCode txTo nIn nHashType = signatureHash C scriptCode' txTo' nIn' nHashType' ↔
      signaturePreimage scriptCode txTo nIn nHashType = signaturePreimage scriptCode' txTo' nIn' nHashType' := by
    have hashed : ∀ {scriptCode : CScript} {txTo copy : CTransaction} {nIn : ℕ} {nHashType : Int32},
        signatureTx scriptCode txTo nIn nHashType = some copy →
        signatureHash C scriptCode txTo nIn nHashType =
          C.hash256 (signaturePreimage scriptCode txTo nIn nHashType) := by
      intro scriptCode txTo copy nIn nHashType copied
      rw [signatureHash, signaturePreimage, copied]
      rfl
    rw [hashed copied, hashed copied']
    exact ⟨injective, congrArg C.hash256⟩
  have sizes : ∀ {scriptCode : CScript}, scriptCode.length < 2 ^ 64 → (signedCode scriptCode).length < 2 ^ 64 :=
    fun size => (length_findAndDelete_le _ _).trans_lt size
  rw [preimages, signaturePreimage, signaturePreimage, copied, copied', Option.map_some, Option.map_some,
    Option.getD_some, Option.getD_some,
    signatureBytes_inj (sized_copy sized (sizes codeSize)) (sized_copy sized' (sizes codeSize')), and_comm]
  refine and_congr_right ?_
  rintro rfl
  rw [← signatureTx_eq_iff input input' output output', copied, copied', Option.some.injEq]

def rollingHash (bytes : List UInt8) : UInt8 := bytes.foldl (fun h byte => 31 * h + byte) 0

def rollingCrypto : Crypto where
  ripemd160 bytes := .cons (rollingHash bytes) (List.Vector.replicate 19 0)
  sha1 bytes := .cons (rollingHash bytes) (List.Vector.replicate 19 0)
  sha256 bytes := .cons (rollingHash bytes) (List.Vector.replicate 31 0)
  verify _ _ _ := true

def twoInputs (nLockTime : UInt32) : CTransaction :=
  ⟨1, 0, [⟨⟨1, 0⟩, [], 0xffffffff⟩, ⟨⟨2, 0⟩, [], 0xffffffff⟩], [⟨5, []⟩], nLockTime⟩

theorem twoInputs_hashes :
    (signatureHash rollingCrypto [OP_1] (twoInputs 0) 0 1 = signatureHash rollingCrypto [OP_1] (twoInputs 1) 0 1 ↔
      (1 : Int32) = 1 ∧ AgreeOn 1 [OP_1] [OP_1] (twoInputs 0) (twoInputs 1) 0 0) ∧
    ∀ scriptSigs : ℕ → CScript,
      signatureHash rollingCrypto [OP_1]
          { twoInputs 0 with
            vin := (twoInputs 0).vin.mapIdx fun i txin => { txin with scriptSig := scriptSigs i } } 0 1 =
        signatureHash rollingCrypto [OP_1] (twoInputs 0) 0 1 := by
  refine signatureHash_eq_iff rollingCrypto (by decide) (by decide) (by decide) (by decide)
    ⟨by decide, by decide, by decide, by decide⟩ ⟨by decide, by decide, by decide, by decide⟩
    (by decide) (by decide) ?_
  intro same
  exact absurd same (by decide +kernel)

/-- The hashes for the two inputs of one transaction, with one script code and one hash type, differ
where something is left of the script code, and only there. -/
theorem twoInputs_indices :
    signatureHash rollingCrypto [OP_1] (twoInputs 0) 0 1 ≠ signatureHash rollingCrypto [OP_1] (twoInputs 0) 1 1 ∧
      signatureHash rollingCrypto [OP_CODESEPARATOR] (twoInputs 0) 0 1 =
        signatureHash rollingCrypto [OP_CODESEPARATOR] (twoInputs 0) 1 1 := by
  decide +kernel

end

end RitCoin.Proof
