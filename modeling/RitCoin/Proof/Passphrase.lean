import RitCoin.Model.Passphrase
import RitCoin.Proof.Unlock

/-!
# Changing the passphrase

`ChangeWalletPassphrase` locks the store before it tries the old passphrase. It remembers whether the store
was locked, but only to lock it again after a change: a wallet that was open is locked by a wrong passphrase.
-/

namespace RitCoin.Proof
open Lib Model Model.Wallet Std

section Passphrase
variable {Point : Type} (ssl : OpenSSL Point)
variable {store : CCryptoKeyStore} {strWalletPassphrase vMasterKey strOldWalletPassphrase : List UInt8}
  {pMasterKey : UInt32 × CMasterKey} {wallet : EncryptedWallet}

/-- What is taken for granted of OpenSSL: `EVP_BytesToKey` returns the size of the key, and the encryption of a
master key goes through. -/
structure CipherLaws : Prop where
  derives : ∀ chSalt data nRounds, (ssl.bytesToKey chSalt data nRounds).1 = WALLET_CRYPTO_KEY_SIZE
  encrypts : ∀ chKey chIV vchPlaintext, ∃ vchCiphertext,
    ssl.encrypt chKey chIV vchPlaintext = some vchCiphertext

def lockedWallet (wallet : EncryptedWallet) : EncryptedWallet :=
  { wallet with keystore := wallet.keystore.lock.2 }

def UnlockedBy (wallet : EncryptedWallet) (strWalletPassphrase : List UInt8) : Prop :=
  ((lockedWallet wallet).unlock ssl strWalletPassphrase).1 = .ok true

def FailsCleanly (wallet : EncryptedWallet) (strOldWalletPassphrase strNewWalletPassphrase : List UInt8)
    (timed : UInt32) : Prop :=
  let change := wallet.changeWalletPassphrase ssl strOldWalletPassphrase strNewWalletPassphrase timed
  change.1 = .ok false →
    change.2.keystore.isLocked = wallet.keystore.isLocked ∧
    change.2.mapMasterKeys = wallet.mapMasterKeys ∧ change.2.mkeys = wallet.mkeys ∧
    (UnlockedBy ssl wallet strOldWalletPassphrase → UnlockedBy ssl change.2 strOldWalletPassphrase)

def ModeSet (store : CCryptoKeyStore) : Prop := store.fUseCrypto = true ∨ store.mapKeys ≠ ∅

variable {ssl}

theorem lock_cases (store : CCryptoKeyStore) :
    (store.lock.2 = { store with fUseCrypto := true, vMasterKey := [] } ∧
      ¬ (store.fUseCrypto = false ∧ store.mapKeys ≠ ∅)) ∨
    (store.lock.2 = store ∧ store.fUseCrypto = false ∧ store.mapKeys ≠ ∅) := by
  rw [CCryptoKeyStore.lock, CCryptoKeyStore.setCrypted]
  cases flag : store.fUseCrypto with
  | true =>
    rw [if_pos rfl]
    exact .inl ⟨by simp [flag], fun plain => Bool.false_ne_true plain.1.symm⟩
  | false =>
    rw [if_neg Bool.false_ne_true]
    by_cases empty : store.mapKeys = ∅
    · rw [if_neg (by rw [empty]; decide)]
      exact .inl ⟨rfl, fun plain => plain.2 empty⟩
    · rw [if_pos (by rwa [← ExtTreeMap.isEmpty_iff] at empty)]
      exact .inr ⟨rfl, rfl, empty⟩

theorem modeSet_lock (store : CCryptoKeyStore) : ModeSet store.lock.2 := by
  obtain ⟨locked, -⟩ | ⟨unchanged, -, keys⟩ := lock_cases store
  · rw [locked]
    exact .inl rfl
  · rw [unchanged]
    exact .inr keys

theorem lock_lock (store : CCryptoKeyStore) : store.lock.2.lock.2 = store.lock.2 := by
  obtain ⟨locked, -⟩ | ⟨unchanged, -, -⟩ := lock_cases store
  · rw [locked]
    rfl
  · rw [unchanged, unchanged]

theorem ModeSet.unlock_failed (mode : ModeSet store) {vMasterKeyIn : List UInt8}
    (failed : (store.unlock ssl vMasterKeyIn).1 ≠ .ok true) : (store.unlock ssl vMasterKeyIn).2 = store := by
  cases flag : store.fUseCrypto with
  | true =>
    refine (unlock_of_not_opens store flag fun opened => failed ?_).2
    rw [unlock_of_opens store flag opened]
  | false =>
    have keys : ¬ store.mapKeys.isEmpty = true := by
      rw [ExtTreeMap.isEmpty_iff]
      exact mode.resolve_left (by rw [flag]; exact Bool.false_ne_true)
    rw [CCryptoKeyStore.unlock, CCryptoKeyStore.setCrypted, if_neg (by rw [flag]; exact Bool.false_ne_true),
      if_pos keys]

theorem ModeSet.findMasterKey_none (mode : ModeSet store) : ∀ {records : List (UInt32 × CMasterKey)},
      (EncryptedWallet.findMasterKey ssl strWalletPassphrase records store).1 = .ok none →
      (EncryptedWallet.findMasterKey ssl strWalletPassphrase records store).2 = store := by
  intro records
  induction records with
  | nil => exact fun _ => rfl
  | cons record records ih =>
    cases made : EncryptedWallet.masterKey ssl strWalletPassphrase record.2 with
    | none => simp only [EncryptedWallet.findMasterKey, made, implies_true]
    | some vMasterKey =>
      rcases tried : store.unlock ssl vMasterKey with ⟨failure | fits, after⟩
      · simp only [EncryptedWallet.findMasterKey, made, tried, reduceCtorEq, false_implies]
      · cases fits with
        | true =>
          simp only [EncryptedWallet.findMasterKey, made, tried]
          exact fun stops => (nomatch stops)
        | false =>
          have unchanged : (store.unlock ssl vMasterKey).1 ≠ .ok true →
              (store.unlock ssl vMasterKey).2 = store := mode.unlock_failed
          rw [tried] at unchanged
          obtain rfl : after = store := unchanged nofun
          simp only [EncryptedWallet.findMasterKey, made, tried]
          exact ih

theorem findMasterKey_some :
    ∀ {records : List (UInt32 × CMasterKey)} {store : CCryptoKeyStore},
      (EncryptedWallet.findMasterKey ssl strWalletPassphrase records store).1 =
        .ok (some (pMasterKey, vMasterKey)) →
      EncryptedWallet.masterKey ssl strWalletPassphrase pMasterKey.2 = some vMasterKey := by
  intro records
  induction records with
  | nil => exact fun found => (nomatch found)
  | cons record records ih =>
    intro store found
    cases made : EncryptedWallet.masterKey ssl strWalletPassphrase record.2 with
    | none =>
      simp only [EncryptedWallet.findMasterKey, made] at found
      cases found
    | some master =>
      rcases tried : store.unlock ssl master with ⟨failure | fits, after⟩
      · simp only [EncryptedWallet.findMasterKey, made, tried] at found
        cases found
      · simp only [EncryptedWallet.findMasterKey, made, tried] at found
        cases fits with
        | true =>
          obtain ⟨rfl, rfl⟩ := Prod.mk.inj (Option.some.inj (Except.ok.inj found))
          exact made
        | false => exact ih found

theorem CipherLaws.setKeyFromPassphrase_iff (laws : CipherLaws ssl) {strKeyData chSalt : List UInt8}
    {nRounds nDerivationMethod : UInt32} :
    (∃ crypter, CCrypter.setKeyFromPassphrase ssl.toCipher strKeyData chSalt nRounds nDerivationMethod =
      some crypter) ↔ ¬ nRounds < 1 ∧ chSalt.length = WALLET_CRYPTO_SALT_SIZE ∧ nDerivationMethod = 0 := by
  rw [CCrypter.setKeyFromPassphrase]
  by_cases refused : nRounds < 1 ∨ chSalt.length ≠ WALLET_CRYPTO_SALT_SIZE
  · rw [if_pos refused]
    refine iff_of_false (fun ⟨_, nothing⟩ => (nomatch nothing)) fun accepted => ?_
    exact refused.elim accepted.1 fun short => short accepted.2.1
  · rw [if_neg refused]
    rw [not_or, not_ne_iff] at refused
    by_cases method : nDerivationMethod = 0
    · have size : (ssl.bytesToKey chSalt strKeyData nRounds).1 = WALLET_CRYPTO_KEY_SIZE := laws.derives _ _ _
      simp only [if_pos method, ne_eq, size, not_true_eq_false, if_false]
      exact iff_of_true ⟨_, rfl⟩ ⟨refused.1, refused.2, method⟩
    · simp only [if_neg method]
      rw [if_pos (by decide)]
      exact iff_of_false (fun ⟨_, nothing⟩ => (nomatch nothing)) fun accepted => method accepted.2.2

theorem CipherLaws.reencrypt (laws : CipherLaws ssl)
    (made : EncryptedWallet.masterKey ssl strOldWalletPassphrase pMasterKey.2 = some vMasterKey)
    (wallet : EncryptedWallet) (fWasLocked : Bool) (strNewWalletPassphrase : List UInt8) (timed : UInt32) :
    (wallet.reencrypt ssl fWasLocked strNewWalletPassphrase timed pMasterKey vMasterKey).1 = true := by
  obtain ⟨oldCrypter, derived, -⟩ := Option.bind_eq_some_iff.mp made
  obtain ⟨-, salt, method⟩ := laws.setKeyFromPassphrase_iff.mp ⟨oldCrypter, derived⟩
  have rounds : ¬ (pMasterKey.2.calibrate timed).nDeriveIterations < 1 := by
    rw [CMasterKey.calibrate]
    split_ifs with few
    · exact (by decide : ¬ (25000 : UInt32) < 1)
    · exact fun zero => few (UInt32.lt_trans zero (by decide))
  obtain ⟨crypter, derived⟩ : ∃ crypter, CCrypter.setKeyFromPassphrase ssl.toCipher strNewWalletPassphrase
      (pMasterKey.2.calibrate timed).vchSalt (pMasterKey.2.calibrate timed).nDeriveIterations
      (pMasterKey.2.calibrate timed).nDerivationMethod = some crypter :=
    laws.setKeyFromPassphrase_iff.mpr ⟨rounds, salt, method⟩
  obtain ⟨vchCryptedKey, crypts⟩ := laws.encrypts crypter.chKey crypter.chIV vMasterKey
  have encrypted : crypter.encrypt ssl.toCipher vMasterKey = some vchCryptedKey := crypts
  simp only [EncryptedWallet.reencrypt, derived, encrypted]

theorem CipherLaws.change_false_iff (laws : CipherLaws ssl) (wallet : EncryptedWallet)
    (strOldWalletPassphrase strNewWalletPassphrase : List UInt8) (timed : UInt32) :
    (wallet.changeWalletPassphrase ssl strOldWalletPassphrase strNewWalletPassphrase timed).1 = .ok false ↔
      (EncryptedWallet.findMasterKey ssl strOldWalletPassphrase wallet.mapMasterKeys.toList
        wallet.keystore.lock.2).1 = .ok none := by
  rcases found : EncryptedWallet.findMasterKey ssl strOldWalletPassphrase wallet.mapMasterKeys.toList
    wallet.keystore.lock.2 with ⟨failure | none | ⟨pMasterKey, vMasterKey⟩, after⟩
  · simp only [EncryptedWallet.changeWalletPassphrase, found, reduceCtorEq]
  · simp only [EncryptedWallet.changeWalletPassphrase, found, iff_true]
    rfl
  · have changed := laws.reencrypt (findMasterKey_some (congrArg Prod.fst found)) { wallet with keystore := after }
      wallet.keystore.isLocked strNewWalletPassphrase timed
    simp only [EncryptedWallet.changeWalletPassphrase, found, changed]
    exact iff_of_false nofun nofun

theorem changeWalletPassphrase_of_none
    (none : (EncryptedWallet.findMasterKey ssl strOldWalletPassphrase wallet.mapMasterKeys.toList
      wallet.keystore.lock.2).1 = .ok none)
    (strNewWalletPassphrase : List UInt8) (timed : UInt32) :
    (wallet.changeWalletPassphrase ssl strOldWalletPassphrase strNewWalletPassphrase timed).2 =
      lockedWallet wallet := by
  have unchanged := (modeSet_lock wallet.keystore).findMasterKey_none none
  rcases found : EncryptedWallet.findMasterKey ssl strOldWalletPassphrase wallet.mapMasterKeys.toList
    wallet.keystore.lock.2 with ⟨result, after⟩
  rw [found] at none unchanged
  obtain rfl : result = .ok .none := none
  obtain rfl : after = wallet.keystore.lock.2 := unchanged
  simp only [EncryptedWallet.changeWalletPassphrase, found]
  rfl

theorem unlock_lockedWallet (isLocked : wallet.keystore.lock.2.isLocked = true)
    (strWalletPassphrase : List UInt8) :
    ((lockedWallet wallet).unlock ssl strWalletPassphrase).1 = .ok false ↔
      (EncryptedWallet.findMasterKey ssl strWalletPassphrase wallet.mapMasterKeys.toList
        wallet.keystore.lock.2).1 = .ok none := by
  rw [EncryptedWallet.unlock, lockedWallet, if_neg (not_not_intro isLocked)]
  change Except.map Option.isSome (EncryptedWallet.findMasterKey ssl strWalletPassphrase
    wallet.mapMasterKeys.toList wallet.keystore.lock.2).1 = .ok false ↔ _
  rcases (EncryptedWallet.findMasterKey ssl strWalletPassphrase wallet.mapMasterKeys.toList
    wallet.keystore.lock.2).1 with failure | none | found
  · simp [Except.map]
  · simp [Except.map]
  · simp [Except.map]

/-- A change of the passphrase that returns false has changed nothing, exactly if the wallet was locked before,
or it is not encrypted and has keys, or the old passphrase is not refused. -/
theorem change_failsCleanly_iff (laws : CipherLaws ssl) (wallet : EncryptedWallet)
    (strOldWalletPassphrase strNewWalletPassphrase : List UInt8) (timed : UInt32) :
    FailsCleanly ssl wallet strOldWalletPassphrase strNewWalletPassphrase timed ↔
      wallet.keystore.isLocked = true ∨
      (wallet.keystore.fUseCrypto = false ∧ wallet.keystore.mapKeys ≠ ∅) ∨
      ((lockedWallet wallet).unlock ssl strOldWalletPassphrase).1 ≠ .ok false := by
  have clean : wallet.keystore.lock.2.isLocked = wallet.keystore.isLocked →
      FailsCleanly ssl wallet strOldWalletPassphrase strNewWalletPassphrase timed := by
    intro same returned
    rw [changeWalletPassphrase_of_none ((laws.change_false_iff _ _ _ _).mp returned)]
    refine ⟨same, rfl, rfl, fun unlocked => ?_⟩
    rw [UnlockedBy, lockedWallet, lockedWallet, lock_lock]
    exact unlocked
  obtain ⟨locked, encrypted⟩ | ⟨unchanged, plain⟩ := lock_cases wallet.keystore
  · have isLocked : wallet.keystore.lock.2.isLocked = true := by
      rw [locked]
      rfl
    rw [or_iff_right encrypted, ne_eq, unlock_lockedWallet isLocked, ← laws.change_false_iff wallet
      strOldWalletPassphrase strNewWalletPassphrase timed]
    constructor
    · intro cleanly
      rw [or_iff_not_imp_right, not_not]
      intro returned
      rw [← (cleanly returned).1, changeWalletPassphrase_of_none ((laws.change_false_iff _ _ _ _).mp returned)]
      exact isLocked
    · rintro (before | kept)
      · exact clean (isLocked.trans before.symm)
      · exact fun returned => absurd returned kept
  · exact iff_of_true (clean (by rw [unchanged])) (.inr (.inl plain))

end Passphrase

theorem toySsl_cipherLaws : CipherLaws toySsl :=
  ⟨fun _ _ _ => rfl, fun _ _ _ => ⟨_, rfl⟩⟩

def toyMasterKey : CMasterKey := ⟨1 :: List.replicate 32 7, List.replicate 8 0, 0, 25000⟩

def lockedToyWallet : EncryptedWallet where
  keystore := (storeOfOne.encryptKeys toySsl (List.replicate 32 7)).2
  mapMasterKeys := (∅ : ExtTreeMap UInt32 CMasterKey).insert 1 toyMasterKey
  mkeys := (∅ : ExtTreeMap UInt32 CMasterKey).insert 1 toyMasterKey

def toyWallet : EncryptedWallet := (lockedToyWallet.unlock toySsl [1]).2

theorem lockedToyWallet_failsCleanly : FailsCleanly toySsl lockedToyWallet [2] [3] 25000 :=
  (change_failsCleanly_iff toySsl_cipherLaws lockedToyWallet [2] [3] 25000).mpr (.inl (by decide))

theorem toyWallet_locked_by_failure :
    toyWallet.keystore.isLocked = false ∧
    (toyWallet.changeWalletPassphrase toySsl [2] [3] 25000).1 = .ok false ∧
    (toyWallet.changeWalletPassphrase toySsl [2] [3] 25000).2.keystore.isLocked = true ∧
    ¬ FailsCleanly toySsl toyWallet [2] [3] 25000 := by
  have before : toyWallet.keystore.isLocked = false := by decide
  have returned : (toyWallet.changeWalletPassphrase toySsl [2] [3] 25000).1 = .ok false := by decide
  have after : (toyWallet.changeWalletPassphrase toySsl [2] [3] 25000).2.keystore.isLocked = true := by decide
  refine ⟨before, returned, after, fun cleanly => ?_⟩
  exact Bool.false_ne_true ((before.symm.trans (cleanly returned).1.symm).trans after)

end RitCoin.Proof
