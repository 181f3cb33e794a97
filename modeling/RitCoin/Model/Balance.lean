import RitCoin.Model.Wallet

/-!
# Coins to spend

What the wallet offers to spend and the repair of its spent flags. A query may leave a checked branch in the
record; that changes no later answer, so these functions return their answers only.
-/

namespace RitCoin.Model.Wallet
open Lib Std

section Queries
variable {Point : Type} (env : Surroundings Point) (node : Node) (now : Int) (wallet : CWallet)

def isFinalNow (tx : CTransaction) : Bool := tx.isFinal node.nBestHeight now 0 0

def confirmedRound (mapPrev : ExtTreeMap Uint256 CMerkleTx) (ptx : CMerkleTx) :
    Check (Option (List CMerkleTx)) :=
  if ¬ isFinalNow node now ptx.toCTransaction then pure none
  else do
    let (_, nDepth) ← ptx.getDepthInMainChain env.P node
    if nDepth ≥ 1 then pure (some [])
    else
      let nDebit ← wallet.getDebit env ptx.toCTransaction
      if ¬ nDebit > 0 then pure none
      else pure (ptx.vin.mapM fun txin => mapPrev[txin.prevout.hash]?)

def confirmedRounds (mapPrev : ExtTreeMap Uint256 CMerkleTx) : List CMerkleTx → Check (Option (List CMerkleTx))
  | [] => pure (some [])
  | ptx :: rest => do
      let pushed ← confirmedRound env node now wallet mapPrev ptx
      match pushed with
      | none => pure none
      | some pushed =>
        let later ← confirmedRounds mapPrev rest
        pure (later.map (pushed ++ ·))

/-- The queue, one generation of parents after the other. With more generations than `vtxPrev` has transactions
one of them would be its own ancestor, and the queue would never end. -/
def confirmedQueue (mapPrev : ExtTreeMap Uint256 CMerkleTx) : Nat → List CMerkleTx → Check Bool
  | 0, _ => pure false
  | fuel + 1, vWorkQueue =>
    if vWorkQueue.isEmpty then pure true
    else do
      let pushed ← confirmedRounds env node now wallet mapPrev vWorkQueue
      match pushed with
      | none => pure false
      | some pushed => confirmedQueue mapPrev fuel pushed

def CWalletTx.isConfirmed (wtx : CWalletTx) : Check Bool :=
  if ¬ isFinalNow node now wtx.toCTransaction then pure false
  else do
    let (wtx, nDepth) ← wtx.getDepthInMainChain env node
    if nDepth ≥ 1 then pure true
    else
      let (nDebit, wtx) ← wtx.getDebit env wallet
      if ¬ nDebit > 0 then pure false
      else
        -- a later transaction replaces an earlier one of the same hash
        let mapPrev := wtx.vtxPrev.foldl (fun mapPrev tx => mapPrev.insert (env.P.hashTx tx.toCTransaction) tx) ∅
        confirmedQueue env node now wallet mapPrev (wtx.vtxPrev.length + 2) [wtx.toCMerkleTx]

namespace CWallet

structure AvailableCoin where
  hash : Uint256
  i : Nat
  nDepth : Int
deriving DecidableEq

def offersOutputs (fOnlyConfirmed : Bool) (pcoin : CWalletTx) : Check Bool := do
  if ¬ isFinalNow node now pcoin.toCTransaction then pure false
  else
    let isConfirmed ← if fOnlyConfirmed then pcoin.isConfirmed env node now wallet else pure true
    if ¬ isConfirmed then pure false
    else
      let (_, nBlocksToMaturity) ← pcoin.getBlocksToMaturity env node
      pure (decide (¬ nBlocksToMaturity > 0))

def offersOutput (nSpendTime : UInt32) (pcoin : CWalletTx) (txout : CTxOut) (i : Nat) : Bool :=
  !decide (pcoin.nTime > nSpendTime) && !pcoin.vfSpent.getD i false && wallet.isMine env txout &&
    decide (txout.nValue > 0)

def coinsOf (nSpendTime : UInt32) (fOnlyConfirmed : Bool) (hash : Uint256) (pcoin : CWalletTx) :
    Check (List AvailableCoin) := do
  let offers ← wallet.offersOutputs env node now fOnlyConfirmed pcoin
  if ¬ offers then pure []
  else
    let outputs := pcoin.vout.zipIdx.filter fun (txout, i) => wallet.offersOutput env nSpendTime pcoin txout i
    outputs.mapM fun (_, i) => do
      let (_, nDepth) ← pcoin.getDepthInMainChain env node
      pure ⟨hash, i, nDepth⟩

def availableCoins (nSpendTime : UInt32) (fOnlyConfirmed : Bool) : Check (List AvailableCoin) := do
  let vCoins ← wallet.mapWallet.toList.mapM fun (hash, pcoin) =>
    wallet.coinsOf env node now nSpendTime fOnlyConfirmed hash pcoin
  pure vCoins.flatten

end CWallet

end Queries

structure Mismatches where
  nMismatchFound : Int32
  nBalanceInQuestion : Int64

namespace CWallet
variable {Point : Type} (env : Surroundings Point) (wallet : CWallet) (txindex : CTxIndex) (fCheckOnly : Bool)

def spentInIndex (n : Nat) : Bool := ((txindex.vSpent[n]?).getD none).isSome

def fixOutput (found : Mismatches) (pcoin : CWalletTx) (txout : CTxOut) (n : Nat) : Mismatches × CWalletTx :=
  let isSpent := pcoin.vfSpent.getD n false
  let counted : Mismatches := ⟨found.nMismatchFound + 1, found.nBalanceInQuestion + txout.nValue⟩
  if wallet.isMine env txout ∧ isSpent ∧ ¬ spentInIndex txindex n then
    (counted, if fCheckOnly then pcoin else pcoin.setSpent n false)
  else if wallet.isMine env txout ∧ ¬ isSpent ∧ spentInIndex txindex n then
    (counted, if fCheckOnly then pcoin else pcoin.setSpent n true)
  else (found, pcoin)

def fixOutputs (found : Mismatches) (pcoin : CWalletTx) : List (CTxOut × Nat) → Mismatches × CWalletTx
  | [] => (found, pcoin)
  | (txout, n) :: rest =>
    let (found, pcoin) := fixOutput env wallet txindex fCheckOnly found pcoin txout n
    fixOutputs found pcoin rest

def fixCoin (node : Node) (found : Mismatches) (wallet : CWallet) (hash : Uint256) (pcoin : CWalletTx) :
    Mismatches × CWallet :=
  match node.pdb.open.readTxIndex (env.P.hashTx pcoin.toCTransaction) with
  | none => (found, wallet)
  | some txindex =>
    let (found, pcoin) := fixOutputs env wallet txindex fCheckOnly found pcoin pcoin.vout.zipIdx
    (found, { wallet with mapWallet := wallet.mapWallet.insert hash pcoin })

def fixSpentCoins (node : Node) : Mismatches × CWallet :=
  wallet.mapWallet.toList.foldl (fun (found, wallet) (hash, pcoin) =>
    fixCoin env fCheckOnly node found wallet hash pcoin) (⟨0, 0⟩, wallet)

end CWallet

end RitCoin.Model.Wallet
