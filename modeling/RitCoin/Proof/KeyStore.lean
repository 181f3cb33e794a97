import RitCoin.Model.KeyStore
import RitCoin.Proof.Key

/-!
# The invariant of the key store

`keystore.h` asks that a store with `fUseCrypto` has no plain keys and one without it has no master key. Every
call keeps this but one: `EncryptKeys` raises the flag first, and a key that cannot be encrypted then leaves
the plain keys behind a flag that hides them.
-/

namespace RitCoin.Proof
open Lib Model Model.Wallet Std

section Store
variable {Point : Type} (ssl : OpenSSL Point)
variable {vchSecret : CSecret} {vMasterKey : List UInt8} {store : CCryptoKeyStore} {call : StoreCall Point}

structure StoreInv (store : CCryptoKeyStore) : Prop where
  crypted : store.fUseCrypto = true → store.mapKeys = ∅
  plain : store.fUseCrypto = false → store.vMasterKey = []

theorem storeInv_new : StoreInv CCryptoKeyStore.new :=
  ⟨fun _ => rfl, fun _ => rfl⟩

def Gettable (store : CCryptoKeyStore) (address : CKeyID) : Prop :=
  ∃ key, store.getKey ssl address .new = .ok (some key)

def Survives (store : CCryptoKeyStore) (call : StoreCall Point) : Prop :=
  StoreInv (store.call ssl call).2 ∧
  ((store.call ssl call).1 ≠ .ok true → ∀ address, Gettable ssl store address →
    Gettable ssl (store.call ssl call).2 address)

structure CanEncrypt (vMasterKey : List UInt8) (vchSecret : CSecret) (fCompressed : Bool) : Prop where
  masterKey : vMasterKey.length = WALLET_CRYPTO_KEY_SIZE
  secret : vchSecret.length = 32
  crypts : ∃ point, ssl.multiply (numberOfSecret vchSecret) = some point ∧
    (ssl.encrypt vMasterKey (ssl.hash (ssl.encode (formOf fCompressed) point)).toList vchSecret).isSome

theorem secretOfNumber_numberOfSecret (length : vchSecret.length = 32) :
    secretOfNumber (numberOfSecret vchSecret) = vchSecret := by
  have bytes := leBytes_ofLe vchSecret.reverse
  rw [List.length_reverse, length] at bytes
  rw [secretOfNumber, numberOfSecret, bytes, List.reverse_reverse]

theorem numberOfSecret_lt (length : vchSecret.length = 32) : numberOfSecret vchSecret < 256 ^ 32 := by
  have bound := ofLe_lt vchSecret.reverse
  rwa [List.length_reverse, length] at bound

theorem getSecret_keyOf (length : vchSecret.length = 32) (point : Point) (fCompressed : Bool) :
    (keyOf (numberOfSecret vchSecret) point fCompressed).getSecret = .ok (vchSecret, fCompressed) :=
  getSecret_eq_ok_iff.mpr
    ⟨_, rfl, numberOfSecret_lt length, (secretOfNumber_numberOfSecret length).symm, rfl⟩

theorem setKey_eq_some {chKey : List UInt8} (length : chKey.length = WALLET_CRYPTO_KEY_SIZE) (nIV : Digest 32) :
    CCrypter.setKey chKey nIV.toList = some ⟨chKey, nIV.toList⟩ := by
  rw [CCrypter.setKey, if_neg]
  rintro (short | short)
  · exact short length
  · exact short nIV.toList_length

theorem setKey_eq_none {chKey : List UInt8} (length : chKey.length ≠ WALLET_CRYPTO_KEY_SIZE) (chIV : List UInt8) :
    CCrypter.setKey chKey chIV = none :=
  if_pos (.inl length)

theorem encryptSecret_eq_some_iff {vchSecret crypted : List UInt8} {nIV : Digest 32} :
    encryptSecret ssl.toCipher vMasterKey vchSecret nIV = some crypted ↔
      vMasterKey.length = WALLET_CRYPTO_KEY_SIZE ∧ ssl.encrypt vMasterKey nIV.toList vchSecret = some crypted := by
  by_cases length : vMasterKey.length = WALLET_CRYPTO_KEY_SIZE
  · rw [encryptSecret, setKey_eq_some length, and_iff_right length]
    rfl
  · rw [encryptSecret, setKey_eq_none length]
    exact ⟨fun crypts => (nomatch crypts), fun crypts => absurd crypts.1 length⟩

theorem cryptKey_keyOf (length : vchSecret.length = 32) (vMasterKey : List UInt8) (point : Point)
    (fCompressed : Bool) :
    CCryptoKeyStore.cryptKey ssl vMasterKey (keyOf (numberOfSecret vchSecret) point fCompressed) =
      .ok ((encryptSecret ssl.toCipher vMasterKey vchSecret (ssl.hash (ssl.encode (formOf fCompressed) point))).map
        fun vchCryptedSecret => (ssl.encode (formOf fCompressed) point, vchCryptedSecret)) := by
  rw [CCryptoKeyStore.cryptKey, getPubKey_keyOf, ok_bind, getSecret_keyOf length, ok_bind]
  rfl

structure Sealed (vMasterKey : List UInt8) (vchSecret : CSecret) (fCompressed : Bool)
    (crypted : CPubKey × List UInt8) : Prop where
  masterKey : vMasterKey.length = WALLET_CRYPTO_KEY_SIZE
  secret : vchSecret.length = 32
  pubKey : ∃ point, ssl.multiply (numberOfSecret vchSecret) = some point ∧
    crypted.1 = ssl.encode (formOf fCompressed) point
  crypts : ssl.encrypt vMasterKey (ssl.hash crypted.1).toList vchSecret = some crypted.2

theorem encryptKey_eq_ok_iff {fCompressed : Bool} {crypted : CPubKey × List UInt8} :
    CCryptoKeyStore.encryptKey ssl vMasterKey vchSecret fCompressed = .ok (some crypted) ↔
      Sealed ssl vMasterKey vchSecret fCompressed crypted := by
  simp only [CCryptoKeyStore.encryptKey, bind_eq_ok, setSecret_eq_ok_iff, Wallet.CKey.new, Bool.or_false]
  constructor
  · rintro ⟨key, ⟨secret, point, multiplied, rfl⟩, crypts⟩
    rw [cryptKey_keyOf ssl secret, Except.ok.injEq, Option.map_eq_some_iff] at crypts
    obtain ⟨vchCryptedSecret, crypts, rfl⟩ := crypts
    obtain ⟨masterKey, crypts⟩ := (encryptSecret_eq_some_iff ssl).mp crypts
    exact ⟨masterKey, secret, ⟨point, multiplied, rfl⟩, crypts⟩
  · rintro ⟨masterKey, secret, ⟨point, multiplied, pubKey⟩, crypts⟩
    obtain ⟨vchPubKey, vchCryptedSecret⟩ := crypted
    obtain rfl : vchPubKey = ssl.encode (formOf fCompressed) point := pubKey
    refine ⟨_, ⟨secret, point, multiplied, rfl⟩, ?_⟩
    rw [cryptKey_keyOf ssl secret, (encryptSecret_eq_some_iff ssl).mpr ⟨masterKey, crypts⟩]
    rfl

theorem canEncrypt_iff {fCompressed : Bool} :
    CanEncrypt ssl vMasterKey vchSecret fCompressed ↔
      ∃ crypted, Sealed ssl vMasterKey vchSecret fCompressed crypted := by
  constructor
  · rintro ⟨masterKey, secret, point, multiplied, crypts⟩
    obtain ⟨vchCryptedSecret, crypts⟩ := Option.isSome_iff_exists.mp crypts
    exact ⟨(_, vchCryptedSecret), masterKey, secret, ⟨point, multiplied, rfl⟩, crypts⟩
  · rintro ⟨⟨vchPubKey, vchCryptedSecret⟩, masterKey, secret, ⟨point, multiplied, rfl⟩, crypts⟩
    exact ⟨masterKey, secret, point, multiplied, Option.isSome_of_eq_some crypts⟩

theorem setCrypted_cases (inv : StoreInv store) :
    (store.mapKeys = ∅ ∧ store.setCrypted = (true, { store with fUseCrypto := true })) ∨
    (store.mapKeys ≠ ∅ ∧ store.fUseCrypto = false ∧ store.setCrypted = (false, store)) := by
  rw [CCryptoKeyStore.setCrypted]
  cases flag : store.fUseCrypto with
  | true =>
    refine .inl ⟨inv.crypted flag, ?_⟩
    rw [if_pos rfl, ← flag]
  | false =>
    by_cases empty : store.mapKeys = ∅
    · refine .inl ⟨empty, ?_⟩
      rw [if_neg Bool.false_ne_true, if_neg (by rw [empty]; decide)]
    · refine .inr ⟨empty, rfl, ?_⟩
      rw [if_neg Bool.false_ne_true, if_pos]
      rwa [← ExtTreeMap.isEmpty_iff] at empty

theorem storeInv_raised (empty : store.mapKeys = ∅) (mapCryptedKeys : ExtTreeMap CKeyID (CPubKey × List UInt8))
    (vMasterKey : List UInt8) :
    StoreInv { store with
      fUseCrypto := true, mapCryptedKeys := mapCryptedKeys, vMasterKey := vMasterKey } :=
  ⟨fun _ => empty, fun plain => (nomatch plain)⟩

theorem gettable_raised (empty : store.mapKeys = ∅) {address : CKeyID} (available : Gettable ssl store address) :
    Gettable ssl { store with fUseCrypto := true } address := by
  cases flag : store.fUseCrypto with
  | true =>
    have same : { store with fUseCrypto := true } = store := by rw [← flag]
    rwa [same]
  | false =>
    obtain ⟨key, found⟩ := available
    rw [CCryptoKeyStore.getKey, CCryptoKeyStore.isCrypted, flag, if_neg Bool.false_ne_true, empty,
      ExtTreeMap.getElem?_empty] at found
    cases found

theorem survives_unchanged (inv : StoreInv store) (unchanged : (store.call ssl call).2 = store) :
    Survives ssl store call := by
  rw [Survives, unchanged]
  exact ⟨inv, fun _ _ available => available⟩

theorem survives_raised (empty : store.mapKeys = ∅)
    (raised : (store.call ssl call).2 = { store with fUseCrypto := true }) : Survives ssl store call := by
  rw [Survives, raised]
  exact ⟨storeInv_raised empty _ _, fun _ _ available => gettable_raised ssl empty available⟩

theorem survives_of_ok (returned : (store.call ssl call).1 = .ok true) (inv : StoreInv (store.call ssl call).2) :
    Survives ssl store call :=
  ⟨inv, fun failed => absurd returned failed⟩

section
variable (inv : StoreInv store)
include inv

theorem addCryptedKey_survives (vchPubKey : CPubKey) (vchCryptedSecret : List UInt8) :
    Survives ssl store (.addCryptedKey vchPubKey vchCryptedSecret) := by
  obtain ⟨empty, crypted⟩ | ⟨-, -, plain⟩ := setCrypted_cases inv
  · have call : store.call ssl (.addCryptedKey vchPubKey vchCryptedSecret) = (.ok true, { store with
        fUseCrypto := true
        mapCryptedKeys :=
          store.mapCryptedKeys.insert (ssl.hash160 vchPubKey) (vchPubKey, vchCryptedSecret) }) := by
      rw [CCryptoKeyStore.call, CCryptoKeyStore.addCryptedKey, crypted]
      rfl
    apply survives_of_ok <;> rw [call]
    exact storeInv_raised empty _ _
  · apply survives_unchanged ssl inv
    rw [CCryptoKeyStore.call, CCryptoKeyStore.addCryptedKey, plain]

theorem lock_survives : Survives ssl store .lock := by
  obtain ⟨empty, crypted⟩ | ⟨-, -, plain⟩ := setCrypted_cases inv
  · have call : store.call ssl .lock = (.ok true, { store with fUseCrypto := true, vMasterKey := [] }) := by
      rw [CCryptoKeyStore.call, CCryptoKeyStore.lock, crypted]
      rfl
    apply survives_of_ok <;> rw [call]
    exact storeInv_raised empty _ _
  · apply survives_unchanged ssl inv
    rw [CCryptoKeyStore.call, CCryptoKeyStore.lock, plain]

theorem unlock_survives (vMasterKeyIn : List UInt8) : Survives ssl store (.unlock vMasterKeyIn) := by
  obtain ⟨empty, crypted⟩ | ⟨-, -, plain⟩ := setCrypted_cases inv
  · cases opened : CCryptoKeyStore.opens ssl { store with fUseCrypto := true } vMasterKeyIn with
    | error failure =>
      apply survives_raised ssl empty
      rw [CCryptoKeyStore.call, CCryptoKeyStore.unlock, crypted]
      simp only [opened]
    | ok fits =>
      cases fits with
      | false =>
        apply survives_raised ssl empty
        rw [CCryptoKeyStore.call, CCryptoKeyStore.unlock, crypted]
        simp only [opened]
      | true =>
        have call : store.call ssl (.unlock vMasterKeyIn) =
            (.ok true, { store with fUseCrypto := true, vMasterKey := vMasterKeyIn }) := by
          rw [CCryptoKeyStore.call, CCryptoKeyStore.unlock, crypted]
          simp only [opened]
          rfl
        apply survives_of_ok <;> rw [call]
        exact storeInv_raised empty _ _
  · apply survives_unchanged ssl inv
    rw [CCryptoKeyStore.call, CCryptoKeyStore.unlock, plain]

theorem addKeyBasic_survives (flag : store.fUseCrypto = false) (key : Wallet.CKey Point) :
    Survives ssl store (.addKey key) := by
  have call : store.call ssl (.addKey key) = store.addKeyBasic ssl key := by
    rw [CCryptoKeyStore.call, CCryptoKeyStore.addKey, CCryptoKeyStore.isCrypted, flag,
      if_pos Bool.false_ne_true]
  rw [CCryptoKeyStore.addKeyBasic] at call
  cases secret : key.getSecret with
  | error failure =>
    rw [secret] at call
    exact survives_unchanged ssl inv (congrArg Prod.snd call)
  | ok secret' =>
    cases pubKey : key.getPubKey ssl.toCurve with
    | error failure =>
      rw [secret, pubKey] at call
      exact survives_unchanged ssl inv (congrArg Prod.snd call)
    | ok pubKey' =>
      rw [secret, pubKey] at call
      apply survives_of_ok <;> rw [call]
      · rfl
      · exact ⟨fun crypted => absurd (flag.symm.trans crypted) Bool.false_ne_true, inv.plain⟩

theorem addKey_survives (key : Wallet.CKey Point) : Survives ssl store (.addKey key) := by
  cases flag : store.fUseCrypto with
  | false => exact addKeyBasic_survives ssl inv flag key
  | true =>
    have call : store.call ssl (.addKey key) = store.addKey ssl key := rfl
    rw [CCryptoKeyStore.addKey, CCryptoKeyStore.isCrypted, flag, if_neg (not_not_intro rfl)] at call
    by_cases locked : store.isLocked = true
    · rw [if_pos locked] at call
      exact survives_unchanged ssl inv (congrArg Prod.snd call)
    · rw [if_neg locked] at call
      cases crypts : CCryptoKeyStore.cryptKey ssl store.vMasterKey key with
      | error failure =>
        rw [crypts] at call
        exact survives_unchanged ssl inv (congrArg Prod.snd call)
      | ok crypted =>
        rw [crypts] at call
        cases crypted with
        | none => exact survives_unchanged ssl inv (congrArg Prod.snd call)
        | some pair =>
          -- from here on it is a call of `AddCryptedKey`
          have added := addCryptedKey_survives ssl inv pair.1 pair.2
          rw [Survives] at added ⊢
          rw [call]
          exact added

end

theorem addCryptedKey_of_crypted (flag : store.fUseCrypto = true) (vchPubKey : CPubKey)
    (vchCryptedSecret : List UInt8) :
    store.addCryptedKey ssl vchPubKey vchCryptedSecret = (true, { store with
      mapCryptedKeys :=
        store.mapCryptedKeys.insert (ssl.hash160 vchPubKey) (vchPubKey, vchCryptedSecret) }) := by
  rw [CCryptoKeyStore.addCryptedKey, CCryptoKeyStore.setCrypted, if_pos flag]

theorem encryptLoop_cons (flag : store.fUseCrypto = true) {vMasterKeyIn : List UInt8}
    {entry : CKeyID × CSecret × Bool} {crypted : CPubKey × List UInt8}
    (isSealed : Sealed ssl vMasterKeyIn entry.2.1 entry.2.2 crypted) (entries : List (CKeyID × CSecret × Bool)) :
    CCryptoKeyStore.encryptLoop ssl vMasterKeyIn (entry :: entries) store =
      CCryptoKeyStore.encryptLoop ssl vMasterKeyIn entries { store with
        mapCryptedKeys := store.mapCryptedKeys.insert (ssl.hash160 crypted.1) crypted } := by
  rw [CCryptoKeyStore.encryptLoop, (encryptKey_eq_ok_iff ssl).mpr isSealed]
  simp only [addCryptedKey_of_crypted ssl flag]

theorem encryptLoop_of_canEncrypt (vMasterKeyIn : List UInt8) :
    ∀ (entries : List (CKeyID × CSecret × Bool)) (store : CCryptoKeyStore), store.fUseCrypto = true →
      (∀ entry ∈ entries, CanEncrypt ssl vMasterKeyIn entry.2.1 entry.2.2) →
      (CCryptoKeyStore.encryptLoop ssl vMasterKeyIn entries store).1 = .ok true ∧
        (CCryptoKeyStore.encryptLoop ssl vMasterKeyIn entries store).2.fUseCrypto = true ∧
        (CCryptoKeyStore.encryptLoop ssl vMasterKeyIn entries store).2.mapKeys = ∅ := by
  intro entries
  induction entries with
  | nil => exact fun store flag _ => ⟨rfl, flag, rfl⟩
  | cons entry entries ih =>
    intro store flag each
    rw [List.forall_mem_cons] at each
    obtain ⟨crypted, isSealed⟩ := (canEncrypt_iff ssl).mp each.1
    rw [encryptLoop_cons ssl flag isSealed]
    exact ih _ flag each.2

theorem encryptLoop_of_not_canEncrypt (vMasterKeyIn : List UInt8) :
    ∀ (entries : List (CKeyID × CSecret × Bool)) (store : CCryptoKeyStore), store.fUseCrypto = true →
      (¬ ∀ entry ∈ entries, CanEncrypt ssl vMasterKeyIn entry.2.1 entry.2.2) →
      (CCryptoKeyStore.encryptLoop ssl vMasterKeyIn entries store).2.mapKeys = store.mapKeys ∧
        (CCryptoKeyStore.encryptLoop ssl vMasterKeyIn entries store).2.fUseCrypto = true := by
  intro entries
  induction entries with
  | nil => exact fun store _ some => absurd (fun entry member => (nomatch member)) some
  | cons entry entries ih =>
    intro store flag some
    rw [CCryptoKeyStore.encryptLoop]
    cases crypts : CCryptoKeyStore.encryptKey ssl vMasterKeyIn entry.2.1 entry.2.2 with
    | error failure => exact ⟨rfl, flag⟩
    | ok crypted =>
      cases crypted with
      | none => exact ⟨rfl, flag⟩
      | some crypted =>
        simp only [addCryptedKey_of_crypted ssl flag]
        refine ih _ flag fun rest => some ?_
        rw [List.forall_mem_cons]
        exact ⟨(canEncrypt_iff ssl).mpr ⟨crypted, (encryptKey_eq_ok_iff ssl).mp crypts⟩, rest⟩

def Encryptable (store : CCryptoKeyStore) : StoreCall Point → Prop
  | .encryptKeys vMasterKeyIn => store.mapCryptedKeys = ∅ → store.fUseCrypto = false →
      ∀ entry ∈ store.mapKeys.toList, CanEncrypt ssl vMasterKeyIn entry.2.1 entry.2.2
  | _ => True

theorem encryptKeys_survives_iff (inv : StoreInv store) (vMasterKeyIn : List UInt8) :
    Survives ssl store (.encryptKeys vMasterKeyIn) ↔ Encryptable ssl store (.encryptKeys vMasterKeyIn) := by
  have call : store.call ssl (.encryptKeys vMasterKeyIn) = store.encryptKeys ssl vMasterKeyIn := rfl
  rw [CCryptoKeyStore.encryptKeys] at call
  by_cases refused : ¬ store.mapCryptedKeys.isEmpty ∨ store.isCrypted
  · rw [if_pos refused] at call
    refine ⟨fun _ empty plain => ?_, fun _ => survives_unchanged ssl inv (congrArg Prod.snd call)⟩
    rw [empty, CCryptoKeyStore.isCrypted, plain] at refused
    exact absurd refused (by decide)
  · rw [if_neg refused] at call
    rw [not_or, not_not, ExtTreeMap.isEmpty_iff, CCryptoKeyStore.isCrypted, Bool.not_eq_true] at refused
    constructor
    · rintro ⟨after, -⟩ - -
      by_contra some
      obtain ⟨plain, raised⟩ := encryptLoop_of_not_canEncrypt ssl vMasterKeyIn _
        { store with fUseCrypto := true } rfl some
      rw [call] at after
      have empty := after.crypted raised
      rw [plain] at empty
      apply some
      intro entry member
      change store.mapKeys = ∅ at empty
      rw [ExtTreeMap.mem_toList_iff_getElem?_eq_some, empty, ExtTreeMap.getElem?_empty] at member
      cases member
    · intro encryptable
      obtain ⟨returned, raised, empty⟩ := encryptLoop_of_canEncrypt ssl vMasterKeyIn _
        { store with fUseCrypto := true } rfl (encryptable refused.1 refused.2)
      apply survives_of_ok <;> rw [call]
      · exact returned
      · exact ⟨fun _ => empty, fun plain => absurd (raised.symm.trans plain) nofun⟩

theorem survives_iff (inv : StoreInv store) (call : StoreCall Point) :
    Survives ssl store call ↔ Encryptable ssl store call := by
  cases call with
  | addKey key => exact iff_of_true (addKey_survives ssl inv key) trivial
  | addCryptedKey vchPubKey vchCryptedSecret =>
    exact iff_of_true (addCryptedKey_survives ssl inv vchPubKey vchCryptedSecret) trivial
  | lock => exact iff_of_true (lock_survives ssl inv) trivial
  | unlock vMasterKeyIn => exact iff_of_true (unlock_survives ssl inv vMasterKeyIn) trivial
  | encryptKeys vMasterKeyIn => exact encryptKeys_survives_iff ssl inv vMasterKeyIn

def AlongCalls (P : CCryptoKeyStore → StoreCall Point → Prop) : CCryptoKeyStore → List (StoreCall Point) → Prop
  | _, [] => True
  | store, call :: rest => P store call ∧ AlongCalls P (store.call ssl call).2 rest

theorem alongCalls_survives_iff : ∀ (calls : List (StoreCall Point)) {store : CCryptoKeyStore}, StoreInv store →
    (AlongCalls ssl (Survives ssl) store calls ↔ AlongCalls ssl (Encryptable ssl) store calls) := by
  intro calls
  induction calls with
  | nil => exact fun _ => Iff.rfl
  | cons call calls ih =>
    intro store inv
    rw [AlongCalls, AlongCalls, ← survives_iff ssl inv]
    exact and_congr_right fun survives => ih survives.1

/-- Every call on a new store and on what the calls before it have left keeps the invariant, and none that
fails makes a key unavailable, exactly if no `EncryptKeys` meets a key that it cannot encrypt. -/
theorem calls_survive_iff (calls : List (StoreCall Point)) :
    AlongCalls ssl (Survives ssl) .new calls ↔ AlongCalls ssl (Encryptable ssl) .new calls :=
  alongCalls_survives_iff ssl calls storeInv_new

end Store

def toySsl : OpenSSL UInt8 where
  ripemd160 bytes := .replicate 20 (bytes.headD 0)
  sha1 _ := .replicate 20 0
  sha256 bytes := .replicate 32 (bytes.tail.headD 0)
  verify _ _ _ := false
  toCurve := toyCurve
  bytesToKey _ data _ := (32, List.replicate 32 (data.headD 0), List.replicate 16 0)
  encrypt key _ plain := some (key.headD 0 :: plain)
  decrypt key _ := fun
    | [] => none
    | first :: plain => if first = key.headD 0 then some plain else none

def storeOfOne : CCryptoKeyStore := (CCryptoKeyStore.new.addKey toySsl (keyOf 1 1 false)).2

def idOfOne : CKeyID := toySsl.hash160 (toySsl.encode .uncompressed 1)

theorem short_masterKey_hides_key :
    (storeOfOne.encryptKeys toySsl [1]).1 = .ok false ∧
    (storeOfOne.encryptKeys toySsl [1]).2.fUseCrypto = true ∧
    (storeOfOne.encryptKeys toySsl [1]).2.mapKeys ≠ ∅ ∧
    storeOfOne.getKey toySsl idOfOne .new = .ok (some (keyOf 1 1 false)) ∧
    (storeOfOne.encryptKeys toySsl [1]).2.getKey toySsl idOfOne .new = .ok none ∧
    ¬ AlongCalls toySsl (Survives toySsl) .new [.addKey (keyOf 1 1 false), .encryptKeys [1]] := by
  have raised : (storeOfOne.encryptKeys toySsl [1]).2.fUseCrypto = true := by decide
  have plain : (storeOfOne.encryptKeys toySsl [1]).2.mapKeys ≠ ∅ := by
    rw [ne_eq, ← ExtTreeMap.isEmpty_iff]
    decide
  refine ⟨by decide, raised, plain, by decide, by decide, ?_⟩
  rintro ⟨-, ⟨inv, -⟩, -⟩
  exact plain (inv.crypted raised)

end RitCoin.Proof
