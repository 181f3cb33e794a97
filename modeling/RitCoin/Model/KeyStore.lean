import RitCoin.Model.Key
import RitCoin.Model.Solver

/-!
# The key store

`CCryptoKeyStore` of `keystore.cpp` on `CBasicKeyStore`, and the encryption of `crypter.cpp`. A function that
changes the store returns it beside what it returns itself, so that it is there when the function fails too.
-/

namespace RitCoin.Model.Wallet
open Lib Std

/-- OpenSSL's functions, as `CCrypter` calls them: `bytesToKey` is `EVP_BytesToKey` on a salt, the data and the
number of rounds, with what it returns, the key and the initialisation vector; `encrypt` and `decrypt` are the
three calls of each, on a key and an initialisation vector. -/
structure Cipher where
  bytesToKey : List UInt8 → List UInt8 → UInt32 → Nat × List UInt8 × List UInt8
  encrypt : List UInt8 → List UInt8 → List UInt8 → Option (List UInt8)
  decrypt : List UInt8 → List UInt8 → List UInt8 → Option (List UInt8)

structure OpenSSL (Point : Type) extends Crypto, Curve Point, Cipher

def WALLET_CRYPTO_KEY_SIZE : Nat := 32
def WALLET_CRYPTO_SALT_SIZE : Nat := 8

structure CCrypter where
  chKey : List UInt8
  chIV : List UInt8
deriving DecidableEq, Repr

namespace CCrypter
variable (cipher : Cipher)

def setKeyFromPassphrase (strKeyData chSalt : List UInt8) (nRounds nDerivationMethod : UInt32) :
    Option CCrypter :=
  if nRounds < 1 ∨ chSalt.length ≠ WALLET_CRYPTO_SALT_SIZE then none
  else
    let (i, chKey, chIV) :=
      if nDerivationMethod = 0 then cipher.bytesToKey chSalt strKeyData nRounds else (0, [], [])
    if i ≠ WALLET_CRYPTO_KEY_SIZE then none else some ⟨chKey, chIV⟩

def setKey (chNewKey chNewIV : List UInt8) : Option CCrypter :=
  if chNewKey.length ≠ WALLET_CRYPTO_KEY_SIZE ∨ chNewIV.length ≠ WALLET_CRYPTO_KEY_SIZE then none
  else some ⟨chNewKey, chNewIV⟩

def encrypt (crypter : CCrypter) (vchPlaintext : List UInt8) : Option (List UInt8) :=
  cipher.encrypt crypter.chKey crypter.chIV vchPlaintext

def decrypt (crypter : CCrypter) (vchCiphertext : List UInt8) : Option (List UInt8) :=
  cipher.decrypt crypter.chKey crypter.chIV vchCiphertext

end CCrypter

def encryptSecret (cipher : Cipher) (vMasterKey vchPlaintext : List UInt8) (nIV : Digest 32) :
    Option (List UInt8) := do
  let cKeyCrypter ← CCrypter.setKey vMasterKey nIV.toList
  cKeyCrypter.encrypt cipher vchPlaintext

def decryptSecret (cipher : Cipher) (vMasterKey vchCiphertext : List UInt8) (nIV : Digest 32) :
    Option (List UInt8) := do
  let cKeyCrypter ← CCrypter.setKey vMasterKey nIV.toList
  cKeyCrypter.decrypt cipher vchCiphertext

/-- The most significant byte comes first. -/
instance : Ord CKeyID := ⟨compareOn fun id => id.toList.reverse⟩

instance : TransOrd CKeyID := inferInstanceAs (TransCmp (compareOn fun id : CKeyID => id.toList.reverse))

instance : LawfulEqOrd CKeyID where
  eq_of_compare {a b} h := by
    have same : a.toList.reverse = b.toList.reverse := LawfulEqCmp.eq_of_compare h
    exact Subtype.ext (List.reverse_inj.mp same)

structure CCryptoKeyStore where
  mapKeys : ExtTreeMap CKeyID (CSecret × Bool)
  mapScripts : ExtTreeMap CKeyID CScript
  mapCryptedKeys : ExtTreeMap CKeyID (CPubKey × List UInt8)
  vMasterKey : List UInt8
  fUseCrypto : Bool

namespace CCryptoKeyStore
variable {Point : Type} (ssl : OpenSSL Point) (store : CCryptoKeyStore)

def new : CCryptoKeyStore := ⟨∅, ∅, ∅, [], false⟩

def isCrypted : Bool := store.fUseCrypto

def isLocked : Bool := store.isCrypted && store.vMasterKey.isEmpty

def haveKey (address : CKeyID) : Bool :=
  if store.isCrypted then store.mapCryptedKeys.contains address else store.mapKeys.contains address

def setCrypted : Bool × CCryptoKeyStore :=
  if store.fUseCrypto then (true, store)
  else if ¬ store.mapKeys.isEmpty then (false, store)
  else (true, { store with fUseCrypto := true })

def lock : Bool × CCryptoKeyStore :=
  match store.setCrypted with
  | (false, store) => (false, store)
  | (true, store) => (true, { store with vMasterKey := [] })

def decryptKey (vMasterKey : List UInt8) (vchPubKey : CPubKey) (vchCryptedSecret : List UInt8) :
    Option CSecret :=
  (decryptSecret ssl.toCipher vMasterKey vchCryptedSecret (ssl.hash vchPubKey)).filter
    fun vchSecret => vchSecret.length = 32

def opens (vMasterKeyIn : List UInt8) : Check Bool :=
  match store.mapCryptedKeys.toList.head? with
  | none => pure true
  | some (_, vchPubKey, vchCryptedSecret) =>
    match decryptKey ssl vMasterKeyIn vchPubKey vchCryptedSecret with
    | none => pure false
    | some vchSecret => do
        let key := CKey.new.setPubKey ssl.toCurve vchPubKey
        let key ← key.setSecret ssl.toCurve vchSecret false
        let pubKey ← key.getPubKey ssl.toCurve
        pure (pubKey == vchPubKey)

def unlock (vMasterKeyIn : List UInt8) : Check Bool × CCryptoKeyStore :=
  match store.setCrypted with
  | (false, store) => (pure false, store)
  | (true, store) =>
    match store.opens ssl vMasterKeyIn with
    | .ok true => (pure true, { store with vMasterKey := vMasterKeyIn })
    | failed => (failed, store)

def addCryptedKey (vchPubKey : CPubKey) (vchCryptedSecret : List UInt8) : Bool × CCryptoKeyStore :=
  match store.setCrypted with
  | (false, store) => (false, store)
  | (true, store) =>
    (true, { store with
      mapCryptedKeys := store.mapCryptedKeys.insert (ssl.hash160 vchPubKey) (vchPubKey, vchCryptedSecret) })

def addKeyBasic (key : CKey Point) : Check Bool × CCryptoKeyStore :=
  match key.getSecret, key.getPubKey ssl.toCurve with
  | .error failure, _ | .ok _, .error failure => (.error failure, store)
  | .ok secret, .ok pubKey =>
    (pure true, { store with mapKeys := store.mapKeys.insert (ssl.hash160 pubKey) secret })

def cryptKey (vMasterKey : List UInt8) (key : CKey Point) : Check (Option (CPubKey × List UInt8)) := do
  let vchPubKey ← key.getPubKey ssl.toCurve
  let (vchSecret, _) ← key.getSecret
  pure ((encryptSecret ssl.toCipher vMasterKey vchSecret (ssl.hash vchPubKey)).map fun vchCryptedSecret =>
    (vchPubKey, vchCryptedSecret))

def addKey (key : CKey Point) : Check Bool × CCryptoKeyStore :=
  if ¬ store.isCrypted then store.addKeyBasic ssl key
  else if store.isLocked then (pure false, store)
  else
    match cryptKey ssl store.vMasterKey key with
    | .error failure => (.error failure, store)
    | .ok none => (pure false, store)
    | .ok (some (vchPubKey, vchCryptedSecret)) =>
      let (added, store) := store.addCryptedKey ssl vchPubKey vchCryptedSecret
      (pure added, store)

/-- The key that is put into `keyOut`. With encryption, `keyOut` is not reset before. -/
def getKey (address : CKeyID) (keyOut : CKey Point) : Check (Option (CKey Point)) :=
  if store.isCrypted then
    match store.mapCryptedKeys[address]? with
    | none => pure none
    | some (vchPubKey, vchCryptedSecret) =>
      match decryptKey ssl store.vMasterKey vchPubKey vchCryptedSecret with
      | none => pure none
      | some vchSecret => do
          let key ← (keyOut.setPubKey ssl.toCurve vchPubKey).setSecret ssl.toCurve vchSecret false
          pure (some key)
  else
    match store.mapKeys[address]? with
    | none => pure none
    | some (vchSecret, fCompressed) => do
        let key ← CKey.new.setSecret ssl.toCurve vchSecret fCompressed
        pure (some key)

def encryptKey (vMasterKeyIn : List UInt8) (vchSecret : CSecret) (fCompressed : Bool) :
    Check (Option (CPubKey × List UInt8)) := do
  let key ← CKey.new.setSecret ssl.toCurve vchSecret fCompressed
  cryptKey ssl vMasterKeyIn key

def encryptLoop (vMasterKeyIn : List UInt8) :
    List (CKeyID × CSecret × Bool) → CCryptoKeyStore → Check Bool × CCryptoKeyStore
  | [], store => (pure true, { store with mapKeys := ∅ })
  | (_, vchSecret, fCompressed) :: rest, store =>
    match encryptKey ssl vMasterKeyIn vchSecret fCompressed with
    | .error failure => (.error failure, store)
    | .ok none => (pure false, store)
    | .ok (some (vchPubKey, vchCryptedSecret)) =>
      match store.addCryptedKey ssl vchPubKey vchCryptedSecret with
      | (false, store) => (pure false, store)
      | (true, store) => encryptLoop vMasterKeyIn rest store

def encryptKeys (vMasterKeyIn : List UInt8) : Check Bool × CCryptoKeyStore :=
  if ¬ store.mapCryptedKeys.isEmpty ∨ store.isCrypted then (pure false, store)
  else encryptLoop ssl vMasterKeyIn store.mapKeys.toList { store with fUseCrypto := true }

end CCryptoKeyStore

inductive StoreCall (Point : Type)
  | addKey (key : CKey Point)
  | addCryptedKey (vchPubKey : CPubKey) (vchCryptedSecret : List UInt8)
  | lock
  | unlock (vMasterKeyIn : List UInt8)
  | encryptKeys (vMasterKeyIn : List UInt8)

def CCryptoKeyStore.call {Point : Type} (ssl : OpenSSL Point) (store : CCryptoKeyStore) :
    StoreCall Point → Check Bool × CCryptoKeyStore
  | .addKey key => store.addKey ssl key
  | .addCryptedKey vchPubKey vchCryptedSecret =>
    let (added, store) := store.addCryptedKey ssl vchPubKey vchCryptedSecret
    (pure added, store)
  | .lock =>
    let (locked, store) := store.lock
    (pure locked, store)
  | .unlock vMasterKeyIn => store.unlock ssl vMasterKeyIn
  | .encryptKeys vMasterKeyIn => store.encryptKeys ssl vMasterKeyIn

end RitCoin.Model.Wallet
