import RitCoin.Model.SignatureHash

/-!
# The signature cache

`CSignatureCache` of `script.cpp`, and `CheckSig` with the one cache it keeps.
-/

namespace RitCoin.Model
open Lib Std

structure SigData where
  hash : Uint256
  vchSig : Valtype
  pubKey : Valtype
deriving DecidableEq

namespace SigData

def order : SigData → SigData → Ordering :=
  compareLex (compareOn hash) (compareLex (compareOn vchSig) (compareOn pubKey))

instance : Ord SigData := ⟨order⟩

instance : TransOrd SigData :=
  inferInstanceAs (TransCmp (compareLex (compareOn hash) (compareLex (compareOn vchSig) (compareOn pubKey))))

instance : LawfulEqOrd SigData where
  eq_of_compare {a b} h := by
    change compareLex _ (compareLex _ _) a b = .eq at h
    rw [compareLex_eq_eq, compareLex_eq_eq] at h
    cases a
    cases b
    simp_all [compareOn]

end SigData

namespace CSignatureCache
variable (nMaxCacheSize : Int64) (getRandHash : Nat → Uint256)

def pick (randomHash : Uint256) (setValid : ExtTreeSet SigData) : Option SigData :=
  (setValid.toList.find? fun k => compare ⟨randomHash, [], []⟩ k != .gt).or setValid.toList.head?

/-- Each round evicts an entry, so their number bounds the rounds. -/
def evict : Nat → Nat → ExtTreeSet SigData → Check (ExtTreeSet SigData)
  | 0, _, setValid => pure setValid
  | fuel + 1, i, setValid =>
    if (setValid.size : Int) > nMaxCacheSize.toInt then
      match pick (getRandHash i) setValid with
      | none => throw (.stop .nullPointer)
      | some k => evict fuel (i + 1) (setValid.erase k)
    else pure setValid

def set (k : SigData) (setValid : ExtTreeSet SigData) : Check (ExtTreeSet SigData) :=
  if nMaxCacheSize ≤ 0 then pure setValid
  else do
    let setValid ← evict nMaxCacheSize getRandHash setValid.size 0 setValid
    pure (setValid.insert k)

end CSignatureCache

structure CheckSigCall where
  vchSig : Valtype
  vchPubKey : Valtype
  scriptCode : CScript
  txTo : CTransaction
  nIn : Nat
  nHashType : Int32
  getRandHash : Nat → Uint256

namespace CheckSigCall
variable (C : Crypto) (call : CheckSigCall)

def answer : Bool := checkSig C call.txTo call.nIn call.nHashType call.vchSig call.vchPubKey call.scriptCode

def perform (nMaxCacheSize : Int64) (setValid : ExtTreeSet SigData) : Check (Bool × ExtTreeSet SigData) :=
  match signedHash C call.txTo call.nIn call.nHashType call.vchSig call.scriptCode with
  | none => pure (false, setValid)
  | some (vchSig, sighash) =>
    if ⟨sighash, vchSig, call.vchPubKey⟩ ∈ setValid then pure (true, setValid)
    else if ¬ C.verify call.vchPubKey sighash vchSig then pure (false, setValid)
    else do
      let setValid ← CSignatureCache.set nMaxCacheSize call.getRandHash ⟨sighash, vchSig, call.vchPubKey⟩ setValid
      pure (true, setValid)

def append (nMaxCacheSize : Int64) (state : List Bool × ExtTreeSet SigData) :
    Check (List Bool × ExtTreeSet SigData) := do
  let (answer, setValid) ← call.perform C nMaxCacheSize state.2
  pure (state.1 ++ [answer], setValid)

end CheckSigCall

def checkSigs (C : Crypto) (nMaxCacheSize : Int64) (calls : List CheckSigCall) :
    Check (List Bool × ExtTreeSet SigData) :=
  calls.foldlM (fun state call => call.append C nMaxCacheSize state) ([], ∅)

end RitCoin.Model
