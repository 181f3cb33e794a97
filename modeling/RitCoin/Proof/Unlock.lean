import RitCoin.Proof.KeyStore

namespace RitCoin.Proof
open Lib Model Model.Wallet Std

section Unlock
variable {Point : Type} (ssl : OpenSSL Point)
variable {vMasterKey vMasterKeyIn : List UInt8} {vchSecret : CSecret} {fCompressed : Bool}
  {crypted : CPubKey × List UInt8} {address : CKeyID} {store : CCryptoKeyStore}

/-- What is taken for granted of OpenSSL: decryption inverts encryption, which succeeds, under the same key and
initialisation vector, and a public key is read back as it was written, in 33 bytes if it is compressed. -/
structure SslLaws : Prop where
  inverts : ∀ chKey chIV vchPlaintext, chKey.length = WALLET_CRYPTO_KEY_SIZE →
    ∃ vchCiphertext, ssl.encrypt chKey chIV vchPlaintext = some vchCiphertext ∧
      ssl.decrypt chKey chIV vchCiphertext = some vchPlaintext
  decodes : ∀ form point, ssl.decode (ssl.encode form point) = some (point, form)
  compressed : ∀ point, (ssl.encode .compressed point).length = 33
  uncompressed : ∀ point, (ssl.encode .uncompressed point).length = 65

structure Plain (store : CCryptoKeyStore) : Prop where
  flag : store.fUseCrypto = false
  noCrypted : store.mapCryptedKeys = ∅
  nonempty : store.mapKeys ≠ ∅
  keys : ∀ (address : CKeyID) vchSecret fCompressed, store.mapKeys[address]? = some (vchSecret, fCompressed) →
    vchSecret.length = 32 ∧ ∃ point, ssl.multiply (numberOfSecret vchSecret) = some point ∧
      address = ssl.hash160 (ssl.encode (formOf fCompressed) point)

variable {ssl}

theorem SslLaws.length_eq_iff (laws : SslLaws ssl) (fCompressed : Bool) (point : Point) :
    (ssl.encode (formOf fCompressed) point).length = 33 ↔ fCompressed = true := by
  cases fCompressed with
  | true => exact iff_of_true (laws.compressed point) rfl
  | false =>
    have length : (ssl.encode (formOf false) point).length = 65 := laws.uncompressed point
    rw [length]
    exact iff_of_false (by decide) Bool.false_ne_true

theorem SslLaws.setPubKey_new (laws : SslLaws ssl) (fCompressed : Bool) (point : Point) :
    (Wallet.CKey.new.setPubKey ssl.toCurve (ssl.encode (formOf fCompressed) point)).fCompressedPubKey =
      fCompressed := by
  rw [Wallet.CKey.setPubKey, laws.decodes]
  simp only [laws.length_eq_iff]
  cases fCompressed with
  | true => rfl
  | false => rfl

theorem Sealed.pubKey_unique {crypted' : CPubKey × List UInt8}
    (isSealed : Sealed ssl vMasterKey vchSecret fCompressed crypted)
    (isSealed' : Sealed ssl vMasterKey vchSecret fCompressed crypted') : crypted.1 = crypted'.1 := by
  obtain ⟨point, multiplied, pubKey⟩ := isSealed.pubKey
  obtain ⟨point', multiplied', pubKey'⟩ := isSealed'.pubKey
  obtain rfl : point = point' := Option.some.inj (multiplied.symm.trans multiplied')
  rw [pubKey, pubKey']

theorem SslLaws.decryptKey_sealed (laws : SslLaws ssl)
    (isSealed : Sealed ssl vMasterKey vchSecret fCompressed crypted) :
    CCryptoKeyStore.decryptKey ssl vMasterKey crypted.1 crypted.2 = some vchSecret := by
  obtain ⟨vchCiphertext, encrypted, decrypted⟩ :=
    laws.inverts vMasterKey (ssl.hash crypted.1).toList vchSecret isSealed.masterKey
  rw [isSealed.crypts, Option.some.injEq] at encrypted
  rw [CCryptoKeyStore.decryptKey, decryptSecret, setKey_eq_some isSealed.masterKey, encrypted]
  change (ssl.decrypt vMasterKey (ssl.hash crypted.1).toList vchCiphertext).filter _ = _
  rw [decrypted, Option.filter_some, if_pos (decide_eq_true isSealed.secret)]

theorem SslLaws.setSecret_sealed (laws : SslLaws ssl)
    (isSealed : Sealed ssl vMasterKey vchSecret fCompressed crypted) :
    (Wallet.CKey.new.setPubKey ssl.toCurve crypted.1).setSecret ssl.toCurve vchSecret false =
      Wallet.CKey.new.setSecret ssl.toCurve vchSecret fCompressed := by
  obtain ⟨point, multiplied, pubKey⟩ := isSealed.pubKey
  have made : ∀ (key : Wallet.CKey Point) (f : Bool), key.setSecret ssl.toCurve vchSecret f =
      .ok (keyOf (numberOfSecret vchSecret) point (f || key.fCompressedPubKey)) :=
    fun key f => (setSecret_eq_ok_iff ssl.toCurve).mpr ⟨isSealed.secret, point, multiplied, rfl⟩
  rw [made, made, pubKey, laws.setPubKey_new, Bool.false_or, Wallet.CKey.new, Bool.or_false]

variable (ssl) in
def OpensKey (vMasterKey : List UInt8) (crypted : CPubKey × List UInt8) : Prop :=
  ∃ vchSecret key, CCryptoKeyStore.decryptKey ssl vMasterKey crypted.1 crypted.2 = some vchSecret ∧
    (Wallet.CKey.new.setPubKey ssl.toCurve crypted.1).setSecret ssl.toCurve vchSecret false = .ok key ∧
    key.getPubKey ssl.toCurve = .ok crypted.1

theorem SslLaws.opensKey_sealed (laws : SslLaws ssl)
    (isSealed : Sealed ssl vMasterKey vchSecret fCompressed crypted) : OpensKey ssl vMasterKey crypted := by
  obtain ⟨point, multiplied, pubKey⟩ := isSealed.pubKey
  refine ⟨vchSecret, keyOf (numberOfSecret vchSecret) point fCompressed, laws.decryptKey_sealed isSealed, ?_, ?_⟩
  · rw [laws.setSecret_sealed isSealed, setSecret_eq_ok_iff, Wallet.CKey.new, Bool.or_false]
    exact ⟨isSealed.secret, point, multiplied, rfl⟩
  · rw [getPubKey_keyOf, pubKey]

theorem encryptLoop_sealed :
    ∀ (entries : List (CKeyID × CSecret × Bool)) (store : CCryptoKeyStore), store.fUseCrypto = true →
      (∀ entry ∈ entries, CanEncrypt ssl vMasterKeyIn entry.2.1 entry.2.2) →
      (CCryptoKeyStore.encryptLoop ssl vMasterKeyIn entries store).2.mapCryptedKeys[address]? = some crypted →
      (∃ entry ∈ entries, Sealed ssl vMasterKeyIn entry.2.1 entry.2.2 crypted ∧
        address = ssl.hash160 crypted.1) ∨ store.mapCryptedKeys[address]? = some crypted := by
  intro entries
  induction entries with
  | nil => exact fun _ _ _ found => .inr found
  | cons entry entries ih =>
    intro store flag each found
    rw [List.forall_mem_cons] at each
    obtain ⟨made, isSealed⟩ := (canEncrypt_iff ssl).mp each.1
    rw [encryptLoop_cons ssl flag isSealed] at found
    obtain ⟨later, member, found⟩ | found := ih { store with
      mapCryptedKeys := store.mapCryptedKeys.insert (ssl.hash160 made.1) made } flag each.2 found
    · exact .inl ⟨later, List.mem_cons_of_mem entry member, found⟩
    · rw [ExtTreeMap.getElem?_insert] at found
      split_ifs at found with same
      · obtain rfl : made = crypted := Option.some.inj found
        rw [Std.compare_eq_iff_eq] at same
        exact .inl ⟨entry, List.mem_cons_self, isSealed, same.symm⟩
      · exact .inr found

theorem encryptLoop_contains :
    ∀ (entries : List (CKeyID × CSecret × Bool)) (store : CCryptoKeyStore), store.fUseCrypto = true →
      (∀ entry ∈ entries, CanEncrypt ssl vMasterKeyIn entry.2.1 entry.2.2) →
      (address ∈ store.mapCryptedKeys ∨
        ∃ entry ∈ entries, ∃ crypted, Sealed ssl vMasterKeyIn entry.2.1 entry.2.2 crypted ∧
          address = ssl.hash160 crypted.1) →
      address ∈ (CCryptoKeyStore.encryptLoop ssl vMasterKeyIn entries store).2.mapCryptedKeys := by
  intro entries
  induction entries with
  | nil =>
    rintro store - - (there | ⟨entry, member, -⟩)
    · exact there
    · cases member
  | cons entry entries ih =>
    intro store flag each known
    rw [List.forall_mem_cons] at each
    obtain ⟨made, isSealed⟩ := (canEncrypt_iff ssl).mp each.1
    rw [encryptLoop_cons ssl flag isSealed]
    apply ih { store with
      mapCryptedKeys := store.mapCryptedKeys.insert (ssl.hash160 made.1) made } flag each.2
    obtain there | ⟨later, member, crypted, sealedLater, rfl⟩ := known
    · exact .inl (ExtTreeMap.mem_insert.mpr (.inr there))
    · rcases List.mem_cons.mp member with rfl | member
      · refine .inl (ExtTreeMap.mem_insert.mpr (.inl ?_))
        rw [Std.compare_eq_iff_eq, sealedLater.pubKey_unique isSealed]
      · exact .inr ⟨later, member, crypted, sealedLater, rfl⟩

variable (ssl) in
structure Encrypted (vMasterKey : List UInt8) (mapKeys : ExtTreeMap CKeyID (CSecret × Bool))
    (store : CCryptoKeyStore) : Prop where
  flag : store.fUseCrypto = true
  nonempty : store.mapCryptedKeys ≠ ∅
  entries : ∀ (address : CKeyID) (crypted : CPubKey × List UInt8), store.mapCryptedKeys[address]? = some crypted →
    ∃ vchSecret fCompressed, Sealed ssl vMasterKey vchSecret fCompressed crypted
  keys : ∀ (address : CKeyID) vchSecret fCompressed, mapKeys[address]? = some (vchSecret, fCompressed) →
    ∃ crypted, store.mapCryptedKeys[address]? = some crypted ∧
      Sealed ssl vMasterKey vchSecret fCompressed crypted

theorem Plain.canEncrypt (plain : Plain ssl store) (laws : SslLaws ssl)
    (length : vMasterKey.length = WALLET_CRYPTO_KEY_SIZE) :
    ∀ entry ∈ store.mapKeys.toList, CanEncrypt ssl vMasterKey entry.2.1 entry.2.2 := by
  rintro ⟨address, vchSecret, fCompressed⟩ member
  rw [ExtTreeMap.mem_toList_iff_getElem?_eq_some] at member
  obtain ⟨secret, point, multiplied, -⟩ := plain.keys address vchSecret fCompressed member
  obtain ⟨crypted, encrypted, -⟩ := laws.inverts vMasterKey
    (ssl.hash (ssl.encode (formOf fCompressed) point)).toList vchSecret length
  exact ⟨length, secret, point, multiplied, Option.isSome_of_eq_some encrypted⟩

theorem Plain.address_eq (plain : Plain ssl store)
    (entry : store.mapKeys[address]? = some (vchSecret, fCompressed))
    (isSealed : Sealed ssl vMasterKey vchSecret fCompressed crypted) : address = ssl.hash160 crypted.1 := by
  obtain ⟨-, point, multiplied, rfl⟩ := plain.keys address vchSecret fCompressed entry
  obtain ⟨point', multiplied', pubKey⟩ := isSealed.pubKey
  obtain rfl : point = point' := Option.some.inj (multiplied.symm.trans multiplied')
  rw [pubKey]

theorem Plain.exists_getKey (plain : Plain ssl store) {secret : CSecret × Bool}
    (entry : store.mapKeys[address]? = some secret) :
    ∃ key, key.getSecret = .ok secret ∧ store.getKey ssl address .new = .ok (some key) := by
  obtain ⟨vchSecret, fCompressed⟩ := secret
  obtain ⟨length, point, multiplied, -⟩ := plain.keys address vchSecret fCompressed entry
  have made : Wallet.CKey.new.setSecret ssl.toCurve vchSecret fCompressed =
      .ok (keyOf (numberOfSecret vchSecret) point fCompressed) := by
    rw [setSecret_eq_ok_iff, Wallet.CKey.new, Bool.or_false]
    exact ⟨length, point, multiplied, rfl⟩
  refine ⟨keyOf (numberOfSecret vchSecret) point fCompressed, getSecret_keyOf length point fCompressed, ?_⟩
  rw [CCryptoKeyStore.getKey, CCryptoKeyStore.isCrypted, plain.flag, if_neg Bool.false_ne_true, entry]
  simp only [made]
  rfl

theorem plain_addKey (before : store = .new ∨ Plain ssl store) {key : Wallet.CKey Point}
    (matched : MatchesSecret ssl.toCurve key) (secret : CSecret × Bool) (exported : key.getSecret = .ok secret) :
    Plain ssl (store.addKey ssl key).2 := by
  obtain ⟨flag, noCrypted⟩ : store.fUseCrypto = false ∧ store.mapCryptedKeys = ∅ := by
    obtain rfl | plain := before
    · exact ⟨rfl, rfl⟩
    · exact ⟨plain.flag, plain.noCrypted⟩
  obtain ⟨vchSecret, fCompressed⟩ := secret
  obtain ⟨n, number, small, rfl, rfl⟩ := getSecret_eq_ok_iff.mp exported
  obtain ⟨point, multiplied, pubKey⟩ := matched n number small
  have added : (store.addKey ssl key).2 = { store with
      mapKeys := store.mapKeys.insert (ssl.hash160 (ssl.encode (formOf key.fCompressedPubKey) point))
        (secretOfNumber n, key.fCompressedPubKey) } := by
    rw [CCryptoKeyStore.addKey, CCryptoKeyStore.isCrypted, if_pos (by rw [flag]; exact Bool.false_ne_true),
      CCryptoKeyStore.addKeyBasic, exported, pubKey]
  rw [added]
  refine ⟨flag, noCrypted, fun empty => ?_, fun address vchSecret fCompressed entry => ?_⟩
  · have there := ExtTreeMap.isEmpty_iff.mpr empty
    simp at there
  · rw [ExtTreeMap.getElem?_insert] at entry
    split_ifs at entry with same
    · rw [Option.some.injEq, Prod.mk.injEq] at entry
      obtain ⟨rfl, rfl⟩ := entry
      rw [Std.compare_eq_iff_eq] at same
      rw [numberOfSecret_secretOfNumber small]
      exact ⟨length_secretOfNumber n, point, multiplied, same.symm⟩
    · obtain rfl | plain := before
      · rw [CCryptoKeyStore.new, ExtTreeMap.getElem?_empty] at entry
        cases entry
      · exact plain.keys address vchSecret fCompressed entry

theorem Plain.encryptKeys (plain : Plain ssl store) (laws : SslLaws ssl)
    (length : vMasterKey.length = WALLET_CRYPTO_KEY_SIZE) :
    (store.encryptKeys ssl vMasterKey).1 = .ok true ∧
      Encrypted ssl vMasterKey store.mapKeys (store.encryptKeys ssl vMasterKey).2 := by
  have each := plain.canEncrypt laws length
  have loop : store.encryptKeys ssl vMasterKey = CCryptoKeyStore.encryptLoop ssl vMasterKey store.mapKeys.toList
      { store with fUseCrypto := true } := by
    rw [CCryptoKeyStore.encryptKeys, if_neg]
    rw [plain.noCrypted, CCryptoKeyStore.isCrypted, plain.flag]
    decide
  obtain ⟨returned, raised, -⟩ :=
    encryptLoop_of_canEncrypt ssl vMasterKey _ { store with fUseCrypto := true } rfl each
  -- where a crypted key is found, it is the one of the entry with that address
  have sealedAt : ∀ (address : CKeyID) (crypted : CPubKey × List UInt8),
      (store.encryptKeys ssl vMasterKey).2.mapCryptedKeys[address]? = some crypted →
      ∃ vchSecret fCompressed, store.mapKeys[address]? = some (vchSecret, fCompressed) ∧
        Sealed ssl vMasterKey vchSecret fCompressed crypted := by
    intro address crypted found
    rw [loop] at found
    obtain ⟨⟨address', entry⟩, member, isSealed, rfl⟩ | found :=
      encryptLoop_sealed _ { store with fUseCrypto := true } rfl each found
    · rw [ExtTreeMap.mem_toList_iff_getElem?_eq_some] at member
      obtain rfl := plain.address_eq member isSealed
      exact ⟨_, _, member, isSealed⟩
    · change store.mapCryptedKeys[address]? = some crypted at found
      rw [plain.noCrypted, ExtTreeMap.getElem?_empty] at found
      cases found
  have stored : ∀ (address : CKeyID) vchSecret fCompressed,
      store.mapKeys[address]? = some (vchSecret, fCompressed) →
      ∃ crypted, (store.encryptKeys ssl vMasterKey).2.mapCryptedKeys[address]? = some crypted ∧
        Sealed ssl vMasterKey vchSecret fCompressed crypted := by
    intro address vchSecret fCompressed entry
    have member := ExtTreeMap.mem_toList_iff_getElem?_eq_some.mpr entry
    obtain ⟨made, isSealed⟩ := (canEncrypt_iff ssl).mp (each _ member)
    have there := encryptLoop_contains _ { store with fUseCrypto := true } rfl each
      (.inr ⟨_, member, made, isSealed, plain.address_eq entry isSealed⟩)
    rw [← loop] at there
    obtain ⟨crypted, found⟩ := Option.isSome_iff_exists.mp (ExtTreeMap.isSome_getElem?_iff_mem.mpr there)
    obtain ⟨vchSecret', fCompressed', entry', isSealed'⟩ := sealedAt address crypted found
    rw [entry, Option.some.injEq, Prod.mk.injEq] at entry'
    obtain ⟨rfl, rfl⟩ := entry'
    exact ⟨crypted, found, isSealed'⟩
  refine ⟨by rw [loop]; exact returned, by rw [loop]; exact raised, fun empty => ?_, fun address crypted found => ?_,
    stored⟩
  · apply plain.nonempty
    apply ExtTreeMap.ext_getElem?
    intro address
    cases entry : store.mapKeys[address]? with
    | none => rw [ExtTreeMap.getElem?_empty]
    | some secret =>
      obtain ⟨crypted, found, -⟩ := stored address _ _ entry
      rw [empty, ExtTreeMap.getElem?_empty] at found
      cases found
  · obtain ⟨vchSecret, fCompressed, -, isSealed⟩ := sealedAt address crypted found
    exact ⟨vchSecret, fCompressed, isSealed⟩

variable (ssl) in
theorem opens_iff :
    store.opens ssl vMasterKeyIn = .ok true ↔
      ∀ entry ∈ store.mapCryptedKeys.toList.head?, OpensKey ssl vMasterKeyIn entry.2 := by
  rw [CCryptoKeyStore.opens]
  cases store.mapCryptedKeys.toList.head? with
  | none => exact iff_of_true rfl fun entry member => (nomatch member)
  | some entry =>
    obtain ⟨address, vchPubKey, vchCryptedSecret⟩ := entry
    simp only [Option.mem_some_iff, forall_eq', OpensKey]
    cases CCryptoKeyStore.decryptKey ssl vMasterKeyIn vchPubKey vchCryptedSecret with
    | none => simp [pure, Except.pure]
    | some vchSecret =>
      simp only [bind_eq_ok, pure_eq_ok, beq_iff_eq, exists_eq_right, Option.some.injEq, exists_and_left,
        exists_eq_left']

theorem lock_of_crypted (flag : store.fUseCrypto = true) :
    store.lock = (true, { store with vMasterKey := [] }) := by
  rw [CCryptoKeyStore.lock, CCryptoKeyStore.setCrypted, if_pos flag]

theorem unlock_of_opens (store : CCryptoKeyStore) (flag : store.fUseCrypto = true)
    (opened : store.opens ssl vMasterKeyIn = .ok true) :
    store.unlock ssl vMasterKeyIn = (.ok true, { store with vMasterKey := vMasterKeyIn }) := by
  rw [CCryptoKeyStore.unlock, CCryptoKeyStore.setCrypted, if_pos flag]
  simp only [opened]
  rfl

theorem unlock_of_not_opens (store : CCryptoKeyStore) (flag : store.fUseCrypto = true)
    (closed : store.opens ssl vMasterKeyIn ≠ .ok true) :
    (store.unlock ssl vMasterKeyIn).1 ≠ .ok true ∧ (store.unlock ssl vMasterKeyIn).2 = store := by
  rw [CCryptoKeyStore.unlock, CCryptoKeyStore.setCrypted, if_pos flag]
  cases opened : store.opens ssl vMasterKeyIn with
  | error failure => simp [opened]
  | ok fits =>
    cases fits with
    | true => exact absurd opened closed
    | false => simp [opened]

theorem getKey_locked (store : CCryptoKeyStore) (flag : store.fUseCrypto = true) (locked : store.vMasterKey = [])
    (address : CKeyID) (keyOut : Wallet.CKey Point) : store.getKey ssl address keyOut = .ok none := by
  have nothing : ∀ vchPubKey vchCryptedSecret,
      CCryptoKeyStore.decryptKey ssl [] vchPubKey vchCryptedSecret = none := by
    intro vchPubKey vchCryptedSecret
    rw [CCryptoKeyStore.decryptKey, decryptSecret, setKey_eq_none (by decide)]
    rfl
  rw [CCryptoKeyStore.getKey, CCryptoKeyStore.isCrypted, if_pos flag, locked]
  cases store.mapCryptedKeys[address]? with
  | none => rfl
  | some crypted => simp only [nothing]; rfl

theorem Encrypted.exists_head {mapKeys : ExtTreeMap CKeyID (CSecret × Bool)}
    (encrypted : Encrypted ssl vMasterKey mapKeys store) :
    ∃ entry, store.mapCryptedKeys.toList.head? = some entry ∧
      store.mapCryptedKeys[entry.1]? = some entry.2 := by
  cases list : store.mapCryptedKeys.toList with
  | nil =>
    refine absurd (ExtTreeMap.ext_getElem? fun address => ?_) encrypted.nonempty
    rw [ExtTreeMap.getElem?_empty, Option.eq_none_iff_forall_not_mem]
    intro crypted found
    have member := ExtTreeMap.mem_toList_iff_getElem?_eq_some.mpr found
    rw [list] at member
    cases member
  | cons entry rest =>
    refine ⟨entry, rfl, ExtTreeMap.mem_toList_iff_getElem?_eq_some.mp ?_⟩
    rw [list]
    exact List.mem_cons_self

theorem Encrypted.getKey (laws : SslLaws ssl) {before : CCryptoKeyStore} (store : CCryptoKeyStore)
    (encrypted : Encrypted ssl vMasterKey before.mapKeys store) (plain : before.fUseCrypto = false)
    (unlocked : store.vMasterKey = vMasterKey) {key : Wallet.CKey Point}
    (found : before.getKey ssl address .new = .ok (some key)) : store.getKey ssl address .new = .ok (some key) := by
  rw [CCryptoKeyStore.getKey, CCryptoKeyStore.isCrypted, plain, if_neg Bool.false_ne_true] at found
  cases entry : before.mapKeys[address]? with
  | none => rw [entry] at found; cases found
  | some secret =>
    obtain ⟨crypted, there, isSealed⟩ := encrypted.keys address _ _ entry
    rw [entry] at found
    rw [CCryptoKeyStore.getKey, CCryptoKeyStore.isCrypted, encrypted.flag, if_pos rfl, there, unlocked]
    simp only [laws.decryptKey_sealed isSealed, laws.setSecret_sealed isSealed]
    exact found

/-- A store with keys comes back from `EncryptKeys`, `Lock` and `Unlock` with every key as it was. Between
`Lock` and `Unlock` it gives out no secret, and a master key that opens none of the stored keys leaves it
locked. -/
theorem encrypt_lock_unlock (laws : SslLaws ssl) {store : CCryptoKeyStore} (plain : Plain ssl store)
    (vMasterKey : List UInt8) (length : vMasterKey.length = WALLET_CRYPTO_KEY_SIZE) :
    let encrypted := store.encryptKeys ssl vMasterKey
    let locked := encrypted.2.lock
    let unlocked := locked.2.unlock ssl vMasterKey
    encrypted.1 = .ok true ∧ locked.1 = true ∧ unlocked.1 = .ok true ∧
    (∀ (address : CKeyID) secret, store.mapKeys[address]? = some secret →
      ∃ key, key.getSecret = .ok secret ∧ store.getKey ssl address .new = .ok (some key) ∧
        unlocked.2.getKey ssl address .new = .ok (some key)) ∧
    (∀ address keyOut, locked.2.getKey ssl address keyOut = .ok none) ∧
    ∀ other, (∀ (address : CKeyID) crypted, locked.2.mapCryptedKeys[address]? = some crypted →
        ¬ OpensKey ssl other crypted) →
      (locked.2.unlock ssl other).1 ≠ .ok true ∧ (locked.2.unlock ssl other).2.isLocked = true := by
  intro encrypted locked unlocked
  obtain ⟨returned, isEncrypted⟩ := plain.encryptKeys laws length
  obtain ⟨first, head, found⟩ := isEncrypted.exists_head
  have lock : locked = (true, { encrypted.2 with vMasterKey := [] }) := lock_of_crypted isEncrypted.flag
  have opens : ∀ master, CCryptoKeyStore.opens ssl { encrypted.2 with vMasterKey := [] } master = .ok true ↔
      OpensKey ssl master first.2 := by
    intro master
    rw [opens_iff, head]
    simp only [Option.mem_some_iff, forall_eq']
  have unlock : unlocked = (.ok true, { encrypted.2 with vMasterKey := vMasterKey }) := by
    obtain ⟨vchSecret, fCompressed, isSealed⟩ := isEncrypted.entries _ _ found
    change locked.2.unlock ssl vMasterKey = _
    rw [lock]
    exact unlock_of_opens { encrypted.2 with vMasterKey := [] } isEncrypted.flag
      ((opens vMasterKey).mpr (laws.opensKey_sealed isSealed))
  refine ⟨returned, by rw [lock], by rw [unlock], fun address secret entry => ?_, fun address keyOut => ?_,
    fun other opensNone => ?_⟩
  · obtain ⟨key, exported, before⟩ := plain.exists_getKey entry
    refine ⟨key, exported, before, ?_⟩
    rw [unlock]
    exact Encrypted.getKey laws { encrypted.2 with vMasterKey := vMasterKey }
      ⟨isEncrypted.flag, isEncrypted.nonempty, isEncrypted.entries, isEncrypted.keys⟩ plain.flag rfl before
  · rw [lock]
    exact getKey_locked { encrypted.2 with vMasterKey := [] } isEncrypted.flag rfl address keyOut
  · rw [lock] at opensNone ⊢
    obtain ⟨failed, unchanged⟩ := unlock_of_not_opens { encrypted.2 with vMasterKey := [] } isEncrypted.flag
      fun opened => opensNone _ _ found ((opens other).mp opened)
    refine ⟨failed, ?_⟩
    rw [unchanged, CCryptoKeyStore.isLocked, CCryptoKeyStore.isCrypted, isEncrypted.flag]
    rfl

end Unlock

theorem toySsl_laws : SslLaws toySsl where
  inverts chKey chIV vchPlaintext _ := ⟨_, rfl, if_pos rfl⟩
  decodes form point := by cases form <;> rfl
  compressed _ := rfl
  uncompressed _ := rfl

def storeOfTwo : CCryptoKeyStore := (storeOfOne.addKey toySsl (keyOf 2 2 true)).2

theorem storeOfTwo_unlocks :
    let unlocked := ((storeOfTwo.encryptKeys toySsl (List.replicate 32 7)).2.lock.2.unlock toySsl
      (List.replicate 32 7)).2
    (∃ key, unlocked.getKey toySsl idOfOne .new = .ok (some key) ∧
      key.getSecret = .ok (secretOfNumber 1, false)) ∧
    ∃ key, unlocked.getKey toySsl (toySsl.hash160 (toySsl.encode .compressed 2)) .new = .ok (some key) ∧
      key.getSecret = .ok (secretOfNumber 2, true) := by
  have matched : ∀ (i : ℕ) (fCompressed : Bool),
      MatchesSecret toySsl.toCurve (keyOf (i + 1) (UInt8.ofNat (i + 1)) fCompressed) := by
    rintro i fCompressed n secret -
    obtain rfl : i + 1 = n := Option.some.inj secret
    exact ⟨UInt8.ofNat (i + 1), by simp [toySsl, toyCurve], rfl⟩
  have one : Plain toySsl storeOfOne := plain_addKey (.inl rfl) (matched 0 false) (secretOfNumber 1, false) rfl
  have two : Plain toySsl storeOfTwo := plain_addKey (.inr one) (matched 1 true) (secretOfNumber 2, true) rfl
  obtain ⟨-, -, -, keys, -⟩ := encrypt_lock_unlock toySsl_laws two (List.replicate 32 7) (by decide)
  obtain ⟨key, exported, -, found⟩ := keys idOfOne (secretOfNumber 1, false) (by decide +kernel)
  obtain ⟨key', exported', -, found'⟩ := keys (toySsl.hash160 (toySsl.encode .compressed 2))
    (secretOfNumber 2, true) (by decide +kernel)
  exact ⟨⟨key, found, exported⟩, key', found', exported'⟩

end RitCoin.Proof
