import RitCoin.Lib.Session
import RitCoin.Model.WalletTx

/-!
# The wallet

`CWallet` of `wallet.cpp`: the key pool, what belongs to the wallet, the balances that its transactions
remember, and how transactions get into it. A function that may throw keeps what it has done so far.
-/

namespace RitCoin.Model.Wallet
open Lib Std TxnOutType

inductive CTxDestination
  | noDestination
  | keyID (id : CKeyID)
  | scriptID (id : CKeyID)
deriving DecidableEq

def CTxDestination.sortKey : CTxDestination → List UInt8
  | .noDestination => [0]
  | .keyID id => 1 :: id.toList.reverse
  | .scriptID id => 2 :: id.toList.reverse

theorem CTxDestination.sortKey_injective : Function.Injective CTxDestination.sortKey := by
  intro a b same
  cases a <;> cases b <;> simp only [sortKey, List.cons.injEq, List.reverse_inj] at same <;>
    first
    | rfl
    | exact absurd same.1 (by decide)
    | exact congrArg _ (Subtype.ext same.2)

instance : Ord CTxDestination := ⟨compareOn CTxDestination.sortKey⟩

instance : TransOrd CTxDestination := inferInstanceAs (TransCmp (compareOn CTxDestination.sortKey))

instance : LawfulEqOrd CTxDestination where
  eq_of_compare h := CTxDestination.sortKey_injective (LawfulEqCmp.eq_of_compare h)

def setDestination : CTxDestination → CScript
  | .noDestination => []
  | .keyID id => [OP_DUP, OP_HASH160] ++ pushData id.toList ++ [OP_EQUALVERIFY, OP_CHECKSIG]
  | .scriptID id => [OP_HASH160] ++ pushData id.toList ++ [OP_EQUAL]

def extractDestination (C : Crypto) (scriptPubKey : CScript) : Option CTxDestination :=
  let solved := solver scriptPubKey
  let first := solved.vSolutionsRet.head?.getD []
  if ¬ solved.matched then none
  else if solved.typeRet = TX_PUBKEY then some (.keyID (C.hash160 first))
  else if solved.typeRet = TX_PUBKEYHASH then some (.keyID (uint160OfVch first))
  else if solved.typeRet = TX_SCRIPTHASH then some (.scriptID (uint160OfVch first))
  else none

/-- `::IsMine` of a script. A chain of script hashes that is longer than `mapScripts` would come back to one of
them and never end. -/
def isMineScript (C : Crypto) (haveKey : CKeyID → Bool) (getCScript : CKeyID → Option CScript) :
    Nat → CScript → Bool
  | 0, _ => false
  | fuel + 1, scriptPubKey =>
    let solved := solver scriptPubKey
    let first := solved.vSolutionsRet.head?.getD []
    if ¬ solved.matched then false
    else
      match solved.typeRet with
      | TX_NONSTANDARD | TX_NULL_DATA => false
      | TX_PUBKEY => haveKey (C.hash160 first)
      | TX_PUBKEYHASH => haveKey (uint160OfVch first)
      | TX_SCRIPTHASH =>
        match getCScript (uint160OfVch first) with
        | none => false
        | some subscript => isMineScript C haveKey getCScript fuel subscript
      | TX_MULTISIG => solved.vSolutionsRet.tail.dropLast.all fun pubkey => haveKey (C.hash160 pubkey)

structure CWallet where
  keystore : CCryptoKeyStore
  mapWallet : ExtTreeMap Uint256 CWalletTx
  mapAddressBook : ExtTreeMap CTxDestination CString
  vchDefaultKey : CPubKey
  setKeyPool : ExtTreeSet Int
  fFileBacked : Bool
  /-- The records of the wallet file under `pool`. -/
  pool : ExtTreeMap Int CPubKey
  /-- How many keys `MakeNewKey` has made so far. -/
  nMade : Nat

/-- What a wallet gets from outside: the functions of OpenSSL, the keys that `MakeNewKey` makes, and the
argument `-keypool`. -/
structure Surroundings (Point : Type) where
  P : Primitives
  ssl : OpenSSL Point
  makeNewKey : Nat → CKey Point
  keypool : Nat

abbrev WalletM := Session CWallet Failure

namespace CWallet
variable {Point : Type} (env : Surroundings Point)

def generateNewKey : WalletM CPubKey := fun wallet =>
  let key := env.makeNewKey wallet.nMade
  let (added, keystore) := wallet.keystore.addKey env.ssl key
  let wallet := { wallet with keystore := keystore, nMade := wallet.nMade + 1 }
  match added with
  | .error failure => (.error failure, wallet)
  | .ok false => (.error (.throw "CWallet::GenerateNewKey() : AddKey failed"), wallet)
  | .ok true => (key.getPubKey env.ssl.toCurve, wallet)

def addToPool : WalletM Unit := do
  let nEnd ← .ask fun wallet => pure (wallet.setKeyPool.max?.getD 0 + 1)
  let vchPubKey ← generateNewKey env
  .modify fun wallet => { wallet with
    pool := wallet.pool.insert nEnd vchPubKey
    setKeyPool := wallet.setKeyPool.insert nEnd }

/-- Every round adds an index, so the size that is missing bounds the rounds. -/
def topUpLoop : Nat → WalletM Unit
  | 0 => pure ()
  | fuel + 1 => do
      addToPool env
      topUpLoop fuel

def topUpKeyPool : WalletM Bool := fun wallet =>
  if wallet.keystore.isLocked then (.ok false, wallet)
  else
    (do
      topUpLoop env ((env.keypool + 1) % 2 ^ 32 - wallet.setKeyPool.size)
      pure true : WalletM Bool) wallet

def eraseOldest (wallet : CWallet) (nIndex : Int) : CWallet :=
  { wallet with setKeyPool := wallet.setKeyPool.erase nIndex }

def readPool (wallet : CWallet) (nIndex : Int) : Check CPubKey :=
  match wallet.pool[nIndex]? with
  | none => throw (.throw "ReserveKeyFromKeyPool() : read failed")
  | some vchPubKey =>
    if ¬ wallet.keystore.haveKey (env.ssl.hash160 vchPubKey) then
      throw (.throw "ReserveKeyFromKeyPool() : unknown key in key pool")
    else if vchPubKey.length = 33 ∨ vchPubKey.length = 65 then pure vchPubKey
    else throw (.stop .assertion)

/-- The index is in the caller's variable when reading the record throws, so both are returned. -/
def reserveKeyFromKeyPool : WalletM (Int × Check CPubKey) := do
  let isLocked ← .ask fun wallet => pure wallet.keystore.isLocked
  if ¬ isLocked then
    let _ ← topUpKeyPool env
  let oldest ← .ask fun wallet => pure wallet.setKeyPool.min?
  match oldest with
  | none => pure (-1, pure [])
  | some nIndex =>
    .modify fun wallet => eraseOldest wallet nIndex
    let keypool ← .ask fun wallet => pure (readPool env wallet nIndex)
    pure (nIndex, keypool)

def keepKey (wallet : CWallet) (nIndex : Int) : CWallet :=
  if wallet.fFileBacked then { wallet with pool := wallet.pool.erase nIndex } else wallet

def getKeyFromPool (fAllowReuse : Bool) : WalletM (Option CPubKey) := do
  let (nIndex, keypool) ← reserveKeyFromKeyPool env
  let vchPubKey ← .ask fun _ => keypool
  if nIndex = -1 then
    let vchDefaultKey ← .ask fun wallet => pure wallet.vchDefaultKey
    let isLocked ← .ask fun wallet => pure wallet.keystore.isLocked
    if fAllowReuse ∧ (vchDefaultKey.length = 33 ∨ vchDefaultKey.length = 65) then pure (some vchDefaultKey)
    else if isLocked then pure none
    else
      let result ← generateNewKey env
      pure (some result)
  else
    .modify fun wallet => keepKey wallet nIndex
    pure (some vchPubKey)

variable (wallet : CWallet)

def isMineDestination : CTxDestination → Bool
  | .noDestination => false
  | .keyID id => wallet.keystore.haveKey id
  | .scriptID id => wallet.keystore.mapScripts.contains id

def isMine (txout : CTxOut) : Bool :=
  isMineScript env.ssl.toCrypto wallet.keystore.haveKey (fun id => wallet.keystore.mapScripts[id]?)
    (wallet.keystore.mapScripts.size + 1) txout.scriptPubKey

def isChange (txout : CTxOut) : Bool :=
  match extractDestination env.ssl.toCrypto txout.scriptPubKey with
  | none => false
  | some address => wallet.isMineDestination address && !wallet.mapAddressBook.contains address

def prevOut (txin : CTxIn) : Option CTxOut := do
  let prev ← wallet.mapWallet[txin.prevout.hash]?
  let txout ← prev.vout[txin.prevout.n.toNat]?
  if wallet.isMine env txout then some txout else none

def debitOf (txin : CTxIn) : Int64 :=
  match wallet.prevOut env txin with
  | none => 0
  | some txout => txout.nValue

/-- The sums of `GetDebit`, `GetCredit` and `GetChange`: each tests the range after every summand. -/
def sumInRange {α : Type} (what : String) (amount : α → Check Int64) (items : List α) : Check Int64 :=
  items.foldlM (fun nSum item => do
    let nValue ← amount item
    failIf (¬ moneyRange (nSum + nValue)) (.throw what)
    pure (nSum + nValue)) 0

def getDebit (tx : CTransaction) : Check Int64 :=
  sumInRange "CWallet::GetDebit() : value out of range" (fun txin => pure (wallet.debitOf env txin)) tx.vin

def creditOf (txout : CTxOut) : Check Int64 := do
  failIf (¬ moneyRange txout.nValue) (.throw "CWallet::GetCredit() : value out of range")
  pure (if wallet.isMine env txout then txout.nValue else 0)

def getCredit (tx : CTransaction) : Check Int64 :=
  sumInRange "CWallet::GetCredit() : value out of range" (wallet.creditOf env) tx.vout

def changeOf (txout : CTxOut) : Check Int64 := do
  failIf (¬ moneyRange txout.nValue) (.throw "CWallet::GetChange() : value out of range")
  pure (if wallet.isChange env txout then txout.nValue else 0)

def getChange (tx : CTransaction) : Check Int64 :=
  sumInRange "CWallet::GetChange() : value out of range" (wallet.changeOf env) tx.vout

def availableCredit (wtx : CWalletTx) : Check Int64 :=
  sumInRange "CWalletTx::GetAvailableCredit() : value out of range" (fun (txout, i) =>
    if wtx.vfSpent.getD i false then pure 0 else wallet.creditOf env txout) wtx.vout.zipIdx

end CWallet

namespace CWalletTx
variable {Point : Type} (env : Surroundings Point) (node : Node) (wallet : CWallet)

def getDepthInMainChain (wtx : CWalletTx) : Check (CWalletTx × Int) := do
  let (tx, nDepth) ← wtx.toCMerkleTx.getDepthInMainChain env.P node
  pure ({ wtx with toCMerkleTx := tx }, nDepth)

def getBlocksToMaturity (wtx : CWalletTx) : Check (CWalletTx × Int) :=
  if ¬ wtx.isCoinBase then pure (wtx, 0)
  else do
    let (wtx, nDepth) ← wtx.getDepthInMainChain env node
    pure (wtx, max 0 (nCoinbaseMaturity * 2 - nDepth))

def getDebit (wtx : CWalletTx) : Check (Int64 × CWalletTx) :=
  if wtx.vin = [] then pure (0, wtx)
  else
    match wtx.nDebitCached with
    | some nDebit => pure (nDebit, wtx)
    | none => do
        let nDebit ← wallet.getDebit env wtx.toCTransaction
        pure (nDebit, { wtx with nDebitCached := some nDebit })

def unlessImmature (wtx : CWalletTx) (rest : CWalletTx → Check (Int64 × CWalletTx)) :
    Check (Int64 × CWalletTx) := do
  let (wtx, nBlocksToMaturity) ← wtx.getBlocksToMaturity env node
  if nBlocksToMaturity > 0 then pure (0, wtx) else rest wtx

def getCredit (wtx : CWalletTx) (fUseCache : Bool) : Check (Int64 × CWalletTx) :=
  wtx.unlessImmature env node fun wtx =>
    match wtx.nCreditCached, fUseCache with
    | some nCredit, true => pure (nCredit, wtx)
    | _, _ => do
        let nCredit ← wallet.getCredit env wtx.toCTransaction
        pure (nCredit, { wtx with nCreditCached := some nCredit })

def getAvailableCredit (wtx : CWalletTx) (fUseCache : Bool) : Check (Int64 × CWalletTx) :=
  wtx.unlessImmature env node fun wtx =>
    match wtx.nAvailableCreditCached, fUseCache with
    | some nCredit, true => pure (nCredit, wtx)
    | _, _ => do
        let nCredit ← wallet.availableCredit env wtx
        pure (nCredit, { wtx with nAvailableCreditCached := some nCredit })

def getChange (wtx : CWalletTx) : Check (Int64 × CWalletTx) :=
  match wtx.nChangeCached with
  | some nChange => pure (nChange, wtx)
  | none => do
      let nChange ← wallet.getChange env wtx.toCTransaction
      pure (nChange, { wtx with nChangeCached := some nChange })

end CWalletTx

namespace CWallet
variable {Point : Type} (env : Surroundings Point) (node : Node)

def onRecord {α : Type} (hash : Uint256) (f : CWallet → CWalletTx → Check (α × CWalletTx)) : WalletM (Option α) :=
  fun wallet =>
    match wallet.mapWallet[hash]? with
    | none => (.ok none, wallet)
    | some wtx =>
      match f wallet wtx with
      | .error failure => (.error failure, wallet)
      | .ok (a, wtx) => (.ok (some a), { wallet with mapWallet := wallet.mapWallet.insert hash wtx })

/-- A round of `WalletUpdateSpent`. The message it prints has the credit in it, which is remembered. -/
def spendOutput (nOut : Nat) (wallet : CWallet) (wtx : CWalletTx) : Check (Unit × CWalletTx) := do
  let isSpent ← wtx.isSpent nOut
  if ¬ isSpent ∧ (wtx.vout[nOut]?).any (wallet.isMine env) then
    let (_, wtx) ← wtx.getCredit env node wallet true
    let wtx ← wtx.markSpent nOut
    pure ((), wtx)
  else pure ((), wtx)

def walletUpdateSpent (tx : CTransaction) : WalletM Unit :=
  tx.vin.forM fun txin => do
    let _ ← onRecord txin.prevout.hash (spendOutput env node txin.prevout.n.toNat)

def insertOrMerge (wallet : CWallet) (wtxIn : CWalletTx) (now : UInt32) : CWallet :=
  let hash := env.P.hashTx wtxIn.toCTransaction
  let wtx :=
    match wallet.mapWallet[hash]? with
    | none => { wtxIn.markDirty with nTimeReceived := now }
    | some wtx => (wtx.markDirty.merge wtxIn).1
  { wallet with mapWallet := wallet.mapWallet.insert hash wtx }

def setAddressBookName (wallet : CWallet) (address : CTxDestination) (strName : CString) : CWallet :=
  { wallet with mapAddressBook := wallet.mapAddressBook.insert address strName }

def delAddressBookName (wallet : CWallet) (address : CTxDestination) : CWallet :=
  { wallet with mapAddressBook := wallet.mapAddressBook.erase address }

def replaceDefaultKey : WalletM Unit := do
  let newDefaultKey ← getKeyFromPool env false
  match newDefaultKey with
  | none => pure ()
  | some newDefaultKey =>
    .modify fun wallet =>
      { wallet with vchDefaultKey := newDefaultKey }.setAddressBookName
        (.keyID (env.ssl.hash160 newDefaultKey)) []

def addToWallet (wtxIn : CWalletTx) (now : UInt32) : WalletM Bool := do
  .modify fun wallet => wallet.insertOrMerge env wtxIn now
  let wtx ← .ask fun wallet => pure ((wallet.mapWallet[env.P.hashTx wtxIn.toCTransaction]?).getD wtxIn)
  let scriptDefaultKey ← .ask fun wallet => pure (setDestination (.keyID (env.ssl.hash160 wallet.vchDefaultKey)))
  wtx.vout.forM fun txout =>
    if txout.scriptPubKey = scriptDefaultKey then replaceDefaultKey env else pure ()
  walletUpdateSpent env node wtx.toCTransaction
  pure true

def eraseFromWallet (wallet : CWallet) (hash : Uint256) : Bool × CWallet :=
  if ¬ wallet.fFileBacked then (false, wallet)
  else (true, { wallet with mapWallet := wallet.mapWallet.erase hash })

end CWallet

/-- The calls that change records, names or what is remembered. A query is one about a record; the balances of the
wallet are made of such queries. -/
inductive WalletCall
  | addToWallet (node : Node) (wtxIn : CWalletTx) (now : UInt32)
  | eraseFromWallet (hash : Uint256)
  | walletUpdateSpent (node : Node) (tx : CTransaction)
  | setAddressBookName (address : CTxDestination) (strName : CString)
  | delAddressBookName (address : CTxDestination)
  | getDebit (hash : Uint256)
  | getCredit (node : Node) (hash : Uint256) (fUseCache : Bool)
  | getAvailableCredit (node : Node) (hash : Uint256) (fUseCache : Bool)
  | getChange (hash : Uint256)

def CWallet.call {Point : Type} (env : Surroundings Point) (wallet : CWallet) : WalletCall → CWallet
  | .addToWallet node wtxIn now => (CWallet.addToWallet env node wtxIn now wallet).2
  | .eraseFromWallet hash => (wallet.eraseFromWallet hash).2
  | .walletUpdateSpent node tx => (CWallet.walletUpdateSpent env node tx wallet).2
  | .setAddressBookName address strName => wallet.setAddressBookName address strName
  | .delAddressBookName address => wallet.delAddressBookName address
  | .getDebit hash => (CWallet.onRecord hash (fun wallet wtx => wtx.getDebit env wallet) wallet).2
  | .getCredit node hash fUseCache =>
    (CWallet.onRecord hash (fun wallet wtx => wtx.getCredit env node wallet fUseCache) wallet).2
  | .getAvailableCredit node hash fUseCache =>
    (CWallet.onRecord hash (fun wallet wtx => wtx.getAvailableCredit env node wallet fUseCache) wallet).2
  | .getChange hash => (CWallet.onRecord hash (fun wallet wtx => wtx.getChange env wallet) wallet).2

end RitCoin.Model.Wallet
