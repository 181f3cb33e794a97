import RitCoin.Model.Wallet
import RitCoin.Proof.KeyStore
import RitCoin.Proof.Runs

namespace RitCoin.Proof
open Lib Model Model.Wallet

theorem mergeSpent_getD : ∀ (vfSpent vfNewSpent : List Bool) (n : ℕ),
    (CWalletTx.mergeSpent vfSpent vfNewSpent).1.getD n false =
      (vfSpent.getD n false || (decide (n < vfSpent.length) && vfNewSpent.getD n false)) := by
  intro vfSpent
  induction vfSpent with
  | nil => exact fun _ _ => by simp [CWalletTx.mergeSpent]
  | cons fSpent vfSpent ih =>
    intro vfNewSpent n
    cases vfNewSpent with
    | nil => simp [CWalletTx.mergeSpent]
    | cons fNewSpent vfNewSpent =>
      rw [CWalletTx.mergeSpent]
      cases n with
      | zero => simp
      | succ n => simpa using ih vfNewSpent n

theorem merge_toCTransaction (wtx wtxIn : Wallet.CWalletTx) :
    (wtx.merge wtxIn).1.toCTransaction = wtx.toCTransaction := by
  simp only [CWalletTx.merge, CWalletTx.updateSpent]
  split_ifs <;> rfl

theorem merge_vfSpent (wtx wtxIn : Wallet.CWalletTx) :
    (wtx.merge wtxIn).1.vfSpent = (CWalletTx.mergeSpent wtx.vfSpent wtxIn.vfSpent).1 := by
  simp only [CWalletTx.merge, CWalletTx.updateSpent]
  split_ifs <;> rfl

def MarkedSpent (wtx : Wallet.CWalletTx) (nOut : ℕ) : Prop := wtx.isSpent nOut = .ok true

theorem markedSpent_iff {wtx : Wallet.CWalletTx} {nOut : ℕ} :
    MarkedSpent wtx nOut ↔ nOut < wtx.vout.length ∧ wtx.vfSpent.getD nOut false = true := by
  rw [MarkedSpent, CWalletTx.isSpent, seq_eq_ok, failIf_eq_ok, pure_eq_ok, Nat.not_le]

/-- After the merge an output is marked as spent if one of the records had it so, exactly if the incoming one
marks no output for which the stored one has no flag. -/
theorem merge_markedSpent_iff {Point : Type} (env : Surroundings Point) (wallet : CWallet)
    (stored wtxIn merged : Wallet.CWalletTx) (now : UInt32) (copy : wtxIn.toCTransaction = stored.toCTransaction)
    (known : wallet.mapWallet[env.P.hashTx stored.toCTransaction]? = some stored)
    (after : (wallet.insertOrMerge env wtxIn now).mapWallet[env.P.hashTx stored.toCTransaction]? = some merged) :
    (∀ nOut, MarkedSpent merged nOut ↔ MarkedSpent stored nOut ∨ MarkedSpent wtxIn nOut) ↔
      ∀ nOut, stored.vfSpent.length ≤ nOut → ¬ MarkedSpent wtxIn nOut := by
  have vout : wtxIn.vout = stored.vout := congrArg CTransaction.vout copy
  obtain rfl : (stored.markDirty.merge wtxIn).1 = merged := by
    rw [CWallet.insertOrMerge, copy, known] at after
    simpa using after
  have spent : ∀ nOut, (MarkedSpent (stored.markDirty.merge wtxIn).1 nOut ↔
      MarkedSpent stored nOut ∨ (nOut < stored.vfSpent.length ∧ MarkedSpent wtxIn nOut)) := by
    intro nOut
    simp only [markedSpent_iff, merge_vfSpent, merge_toCTransaction, mergeSpent_getD, vout, Bool.or_eq_true,
      Bool.and_eq_true, decide_eq_true_eq]
    change (nOut < stored.vout.length ∧ _) ↔ _
    tauto
  simp only [spent]
  refine forall_congr' fun nOut => ?_
  have kept : MarkedSpent stored nOut → nOut < stored.vfSpent.length := by
    rw [markedSpent_iff]
    rintro ⟨-, set⟩
    by_contra beyond
    rw [List.getD_eq_default _ _ (Nat.not_lt.mp beyond)] at set
    cases set
  rw [← Nat.not_lt]
  tauto

def toyEnv : Surroundings UInt8 where
  P := toy
  ssl := toySsl
  makeNewKey n := keyOf (n + 2) (UInt8.ofNat (n + 2)) false
  keypool := 0

def bareWallet : CWallet where
  keystore := storeOfOne
  mapWallet := ∅
  mapAddressBook := ∅
  vchDefaultKey := []
  setKeyPool := ∅
  fFileBacked := true
  pool := ∅
  nMade := 0

def paysOne (nTime : UInt32) (prevout : COutPoint) : CTransaction where
  nVersion := 1
  nTime := nTime
  vin := [⟨prevout, [], 0xffffffff⟩]
  vout := [⟨5, setDestination (.keyID idOfOne)⟩]
  nLockTime := 0

def receivedTx : Wallet.CWalletTx := .init (.init (paysOne 7 ⟨1, 0⟩))

def receivingWallet : CWallet := bareWallet.insertOrMerge toyEnv receivedTx 0

def spentCopy : Wallet.CWalletTx := { receivedTx with vfSpent := [true] }

theorem spentCopy_merged :
    ∃ merged, ((bareWallet.insertOrMerge toyEnv spentCopy 0).insertOrMerge toyEnv spentCopy
        0).mapWallet[(7 : Uint256)]? = some merged ∧ ∀ nOut, MarkedSpent merged nOut ↔
        MarkedSpent { spentCopy.markDirty with nTimeReceived := 0 } nOut ∨ MarkedSpent spentCopy nOut := by
  refine ⟨_, rfl, (merge_markedSpent_iff toyEnv (bareWallet.insertOrMerge toyEnv spentCopy 0)
    { spentCopy.markDirty with nTimeReceived := 0 } spentCopy _ 0 rfl rfl rfl).mpr fun nOut beyond marked => ?_⟩
  rw [markedSpent_iff] at marked
  exact absurd marked.1 (Nat.not_lt.mpr beyond)

theorem received_flag_dropped :
    MarkedSpent spentCopy 0 ∧
    ((receivingWallet.insertOrMerge toyEnv spentCopy 0).mapWallet[(7 : Uint256)]?).map (fun merged =>
      merged.isSpent 0) = some (.ok false) :=
  ⟨rfl, by decide⟩

end RitCoin.Proof
