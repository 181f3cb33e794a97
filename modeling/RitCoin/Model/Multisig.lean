import RitCoin.Model.Solver

/-!
# Scripts for several signatures

`CScript::SetMultisig` and `CombineMultisig` of `script.cpp`.
-/

namespace RitCoin.Model
open Lib Std

def isValidPubKey (vchPubKey : Valtype) : Bool := vchPubKey.length == 33 || vchPubKey.length == 65

def encodeOpN (n : Int) : Check UInt8 := do
  failIf (¬ (0 ≤ n ∧ n ≤ 16)) (.stop .assertion)
  pure (if n = 0 then 0 else UInt8.ofNat (OP_1.toNat + n.toNat - 1))

def setMultisig (nRequired : Int) (keys : List CKey) : Check CScript := do
  let required ← encodeOpN nRequired
  let count ← encodeOpN keys.length
  pure (required :: (keys.flatMap fun key => pushData key.getPubKey) ++ [count, OP_CHECKMULTISIG])

section Combine
variable (C : Crypto) (scriptPubKey : CScript) (txTo : CTransaction) (nIn : Nat)

def allSigs (sigs1 sigs2 : List Valtype) : ExtTreeSet Valtype :=
  (sigs1 ++ sigs2).foldl (fun allsigs v => if v.isEmpty then allsigs else allsigs.insert v) ∅

def giveSig (pubkeys : List Valtype) (sigs : ExtTreeMap Valtype Valtype) (sig : Valtype) : ExtTreeMap Valtype Valtype :=
  match pubkeys.find? fun pubkey => !sigs.contains pubkey && checkSig C txTo nIn 0 sig pubkey scriptPubKey with
  | none => sigs
  | some pubkey => sigs.insert pubkey sig

def mergeSigs (sigs : ExtTreeMap Valtype Valtype) (nSigsRequired : Nat) : List Valtype → Nat → CScript → Nat × CScript
  | [], nSigsHave, result => (nSigsHave, result)
  | pubkey :: pubkeys, nSigsHave, result =>
    if nSigsHave < nSigsRequired then
      match sigs[pubkey]? with
      | some sig => mergeSigs sigs nSigsRequired pubkeys (nSigsHave + 1) (result ++ pushData sig)
      | none => mergeSigs sigs nSigsRequired pubkeys nSigsHave result
    else (nSigsHave, result)

def combineMultisig (vSolutions sigs1 sigs2 : List Valtype) : Check CScript := do
  failIf (¬ vSolutions.length > 1) (.stop .assertion)
  let nSigsRequired := (solutionByte vSolutions.head?).toNat
  let pubkeys := vSolutions.tail.dropLast
  let sigs := (allSigs sigs1 sigs2).toList.foldl (giveSig C scriptPubKey txTo nIn pubkeys) ∅
  let (nSigsHave, result) := mergeSigs sigs nSigsRequired pubkeys 0 [0]
  pure (result ++ List.replicate (nSigsRequired - nSigsHave) 0)

end Combine

end RitCoin.Model
