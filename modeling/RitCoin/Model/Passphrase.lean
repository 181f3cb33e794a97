import RitCoin.Model.KeyStore

/-!
# Passphrases

`Unlock` and `ChangeWalletPassphrase` of `wallet.cpp`, on the key store, the master keys in memory and the ones
in the wallet file.
-/

namespace RitCoin.Model.Wallet
open Lib Std

structure CMasterKey where
  vchCryptedKey : List UInt8
  vchSalt : List UInt8
  nDerivationMethod : UInt32
  nDeriveIterations : UInt32
deriving DecidableEq, Repr

/-- The record with `nDeriveIterations` as two timed derivations with the new passphrase leave it; what they
come to is up to the clock. -/
def CMasterKey.calibrate (kMasterKey : CMasterKey) (timed : UInt32) : CMasterKey :=
  { kMasterKey with nDeriveIterations := if timed < 25000 then 25000 else timed }

structure EncryptedWallet where
  keystore : CCryptoKeyStore
  mapMasterKeys : ExtTreeMap UInt32 CMasterKey
  /-- The records that `WriteMasterKey` has written. -/
  mkeys : ExtTreeMap UInt32 CMasterKey

namespace EncryptedWallet
variable {Point : Type} (ssl : OpenSSL Point)

def masterKey (strWalletPassphrase : List UInt8) (kMasterKey : CMasterKey) : Option (List UInt8) := do
  let crypter ← CCrypter.setKeyFromPassphrase ssl.toCipher strWalletPassphrase kMasterKey.vchSalt
    kMasterKey.nDeriveIterations kMasterKey.nDerivationMethod
  crypter.decrypt ssl.toCipher kMasterKey.vchCryptedKey

/-- The loop over the master keys, which `Unlock` and `ChangeWalletPassphrase` share: the record whose master
key unlocks the store and that master key, unless they return false before. -/
def findMasterKey (strWalletPassphrase : List UInt8) :
    List (UInt32 × CMasterKey) → CCryptoKeyStore →
      Check (Option ((UInt32 × CMasterKey) × List UInt8)) × CCryptoKeyStore
  | [], keystore => (pure none, keystore)
  | pMasterKey :: rest, keystore =>
    match masterKey ssl strWalletPassphrase pMasterKey.2 with
    | none => (pure none, keystore)
    | some vMasterKey =>
      match keystore.unlock ssl vMasterKey with
      | (.error failure, keystore) => (.error failure, keystore)
      | (.ok true, keystore) => (pure (some (pMasterKey, vMasterKey)), keystore)
      | (.ok false, keystore) => findMasterKey strWalletPassphrase rest keystore

def unlock (wallet : EncryptedWallet) (strWalletPassphrase : List UInt8) : Check Bool × EncryptedWallet :=
  if ¬ wallet.keystore.isLocked then (pure false, wallet)
  else
    let (found, keystore) := findMasterKey ssl strWalletPassphrase wallet.mapMasterKeys.toList wallet.keystore
    (found.map Option.isSome, { wallet with keystore := keystore })

/-- What `ChangeWalletPassphrase` does with the record it has found. The record is changed in place before the
new passphrase is used, and `Encrypt` clears the vector it writes to before it starts. -/
def reencrypt (wallet : EncryptedWallet) (fWasLocked : Bool) (strNewWalletPassphrase : List UInt8) (timed : UInt32)
    (pMasterKey : UInt32 × CMasterKey) (vMasterKey : List UInt8) : Bool × EncryptedWallet :=
  let kMasterKey := pMasterKey.2.calibrate timed
  let put (kMasterKey : CMasterKey) : EncryptedWallet :=
    { wallet with mapMasterKeys := wallet.mapMasterKeys.insert pMasterKey.1 kMasterKey }
  match CCrypter.setKeyFromPassphrase ssl.toCipher strNewWalletPassphrase kMasterKey.vchSalt
      kMasterKey.nDeriveIterations kMasterKey.nDerivationMethod with
  | none => (false, put kMasterKey)
  | some crypter =>
    match crypter.encrypt ssl.toCipher vMasterKey with
    | none => (false, put { kMasterKey with vchCryptedKey := List.replicate (vMasterKey.length + 16) 0 })
    | some vchCryptedKey =>
      let kMasterKey := { kMasterKey with vchCryptedKey := vchCryptedKey }
      let wallet := put kMasterKey
      (true, { wallet with
        mkeys := wallet.mkeys.insert pMasterKey.1 kMasterKey
        keystore := if fWasLocked then wallet.keystore.lock.2 else wallet.keystore })

def changeWalletPassphrase (wallet : EncryptedWallet) (strOldWalletPassphrase strNewWalletPassphrase : List UInt8)
    (timed : UInt32) : Check Bool × EncryptedWallet :=
  let fWasLocked := wallet.keystore.isLocked
  let keystore := wallet.keystore.lock.2
  match findMasterKey ssl strOldWalletPassphrase wallet.mapMasterKeys.toList keystore with
  | (.error failure, keystore) => (.error failure, { wallet with keystore := keystore })
  | (.ok none, keystore) => (pure false, { wallet with keystore := keystore })
  | (.ok (some (pMasterKey, vMasterKey)), keystore) =>
    let (changed, wallet) := reencrypt ssl { wallet with keystore := keystore } fWasLocked
      strNewWalletPassphrase timed pMasterKey vMasterKey
    (pure changed, wallet)

end EncryptedWallet

end RitCoin.Model.Wallet
