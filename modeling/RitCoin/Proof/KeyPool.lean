import RitCoin.Proof.WalletTx

namespace RitCoin.Proof
open Lib Model Model.Wallet Std

variable {Point : Type} {env : Surroundings Point} {wallet : CWallet}

def MadeKey (env : Surroundings Point) (wallet : CWallet) (vchPubKey : CPubKey) : Prop :=
  ∃ k ≥ wallet.nMade, (env.makeNewKey k).getPubKey env.ssl.toCurve = .ok vchPubKey

def NextKey (env : Surroundings Point) (wallet : CWallet) (vchPubKey : CPubKey) : Prop :=
  (∃ nIndex : Int, wallet.pool[nIndex]? = some vchPubKey) ∨ MadeKey env wallet vchPubKey

structure Enlarged (env : Surroundings Point) (wallet wallet' : CWallet) : Prop where
  mapWallet : wallet'.mapWallet = wallet.mapWallet
  mapScripts : wallet'.keystore.mapScripts = wallet.keystore.mapScripts
  kept : ∀ id, wallet.keystore.haveKey id → wallet'.keystore.haveKey id
  keys : ∀ id, wallet'.keystore.haveKey id → wallet.keystore.haveKey id ∨
    ∃ vchPubKey, MadeKey env wallet vchPubKey ∧ id = env.ssl.hash160 vchPubKey
  nMade : wallet.nMade ≤ wallet'.nMade
  pool : ∀ (nIndex : Int) (vchPubKey : CPubKey), wallet'.pool[nIndex]? = some vchPubKey →
    NextKey env wallet vchPubKey
  named : ∀ address ∈ wallet.mapAddressBook, address ∈ wallet'.mapAddressBook
  names : ∀ address ∈ wallet'.mapAddressBook, address ∈ wallet.mapAddressBook ∨
    ∃ vchPubKey, NextKey env wallet vchPubKey ∧ address = .keyID (env.ssl.hash160 vchPubKey)

theorem Enlarged.refl (env : Surroundings Point) (wallet : CWallet) : Enlarged env wallet wallet :=
  ⟨rfl, rfl, fun _ have_ => have_, fun _ have_ => .inl have_, le_rfl, fun n _ found => .inl ⟨n, found⟩,
    fun _ member => member, fun _ member => .inl member⟩

section
variable (ssl : OpenSSL Point) (store : CCryptoKeyStore) (key : Wallet.CKey Point)
include ssl store key

theorem addKey_cases :
    ((store.addKey ssl key).1 ≠ .ok true ∧ (store.addKey ssl key).2 = store) ∨
      ∃ vchPubKey, key.getPubKey ssl.toCurve = .ok vchPubKey ∧ (store.addKey ssl key).1 = .ok true ∧
        ((store.fUseCrypto = false ∧ ∃ secret, (store.addKey ssl key).2 =
            { store with mapKeys := store.mapKeys.insert (ssl.hash160 vchPubKey) secret }) ∨
          (store.fUseCrypto = true ∧ ∃ crypted, (store.addKey ssl key).2 =
            { store with mapCryptedKeys := store.mapCryptedKeys.insert (ssl.hash160 vchPubKey) crypted })) := by
  by_cases flag : store.fUseCrypto = true
  · rw [CCryptoKeyStore.addKey, CCryptoKeyStore.isCrypted, if_neg (not_not_intro flag)]
    split_ifs with locked
    · exact .inl ⟨(fun added => by cases added), rfl⟩
    · cases crypts : CCryptoKeyStore.cryptKey ssl store.vMasterKey key with
      | error failure => exact .inl ⟨(fun added => by cases added), rfl⟩
      | ok crypted =>
        cases crypted with
        | none => exact .inl ⟨(fun added => by cases added), rfl⟩
        | some crypted =>
          obtain ⟨vchPubKey, made, rest⟩ := bind_eq_ok.mp crypts
          obtain ⟨secret, -, is⟩ := bind_eq_ok.mp rest
          obtain ⟨vchCryptedSecret, -, rfl⟩ := Option.map_eq_some_iff.mp (pure_eq_ok.mp is)
          refine .inr ⟨vchPubKey, made, ?_, .inr ⟨flag, (vchPubKey, vchCryptedSecret), ?_⟩⟩
          · simp only [addCryptedKey_of_crypted ssl flag]
            rfl
          · simp only [addCryptedKey_of_crypted ssl flag]
  · rw [CCryptoKeyStore.addKey, CCryptoKeyStore.isCrypted, if_pos flag, CCryptoKeyStore.addKeyBasic]
    rw [Bool.not_eq_true] at flag
    cases key.getSecret with
    | error failure => exact .inl ⟨(fun added => by cases added), rfl⟩
    | ok secret =>
      cases made : key.getPubKey ssl.toCurve with
      | error failure => exact .inl ⟨(fun added => by cases added), rfl⟩
      | ok vchPubKey => exact .inr ⟨vchPubKey, rfl, rfl, .inl ⟨flag, secret, rfl⟩⟩

theorem addKey_haveKey (id : CKeyID) :
    ((store.addKey ssl key).2.haveKey id ↔ store.haveKey id) ∨
      ∃ vchPubKey, key.getPubKey ssl.toCurve = .ok vchPubKey ∧
        ((store.addKey ssl key).2.haveKey id ↔ store.haveKey id ∨ id = ssl.hash160 vchPubKey) := by
  rcases addKey_cases ssl store key with ⟨-, unchanged⟩ | ⟨vchPubKey, made, -, ⟨flag, secret, is⟩ | ⟨flag, crypted, is⟩⟩
  · exact .inl (by rw [unchanged])
  · refine .inr ⟨vchPubKey, made, ?_⟩
    rw [is]
    simp [CCryptoKeyStore.haveKey, CCryptoKeyStore.isCrypted, flag, or_comm, @eq_comm _ id]
  · refine .inr ⟨vchPubKey, made, ?_⟩
    rw [is]
    simp [CCryptoKeyStore.haveKey, CCryptoKeyStore.isCrypted, flag, or_comm, @eq_comm _ id]

theorem addKey_mapScripts : (store.addKey ssl key).2.mapScripts = store.mapScripts := by
  rcases addKey_cases ssl store key with ⟨-, is⟩ | ⟨_, -, -, ⟨-, _, is⟩ | ⟨-, _, is⟩⟩ <;> rw [is]

end

theorem generateNewKey_enlarged (wallet : CWallet) :
    Session.Triple (Enlarged env wallet) (CWallet.generateNewKey env)
      (fun vchPubKey after => Enlarged env wallet after ∧ MadeKey env wallet vchPubKey) (Enlarged env wallet) := by
  intro before enlarged
  let key := env.makeNewKey before.nMade
  let after : CWallet :=
    { before with keystore := (before.keystore.addKey env.ssl key).2, nMade := before.nMade + 1 }
  have step : Enlarged env wallet after :=
    { enlarged with
      mapScripts := (addKey_mapScripts env.ssl before.keystore key).trans enlarged.mapScripts
      kept := by
        intro id known
        have still := enlarged.kept id known
        rcases addKey_haveKey env.ssl before.keystore key id with same | ⟨_, -, more⟩
        · exact same.mpr still
        · exact more.mpr (.inl still)
      keys := by
        intro id known
        rcases addKey_haveKey env.ssl before.keystore key id with same | ⟨vchPubKey, made, more⟩
        · exact enlarged.keys id (same.mp known)
        · rcases more.mp known with old | new
          · exact enlarged.keys id old
          · exact .inr ⟨vchPubKey, ⟨before.nMade, enlarged.nMade, made⟩, new⟩
      nMade := enlarged.nMade.trans (Nat.le_succ _) }
  have result : (CWallet.generateNewKey env before).2 = after ∧
      ∀ vchPubKey, (CWallet.generateNewKey env before).1 = .ok vchPubKey →
        key.getPubKey env.ssl.toCurve = .ok vchPubKey := by
    simp only [CWallet.generateNewKey]
    split
    · exact ⟨rfl, nofun⟩
    · exact ⟨rfl, nofun⟩
    · exact ⟨rfl, fun _ is => is⟩
  rcases run : CWallet.generateNewKey env before with ⟨failure | vchPubKey, ended⟩
  · rw [run] at result
    rw [← result.1] at step
    exact step
  · rw [run] at result
    rw [← result.1] at step
    exact ⟨step, before.nMade, enlarged.nMade, result.2 vchPubKey rfl⟩

theorem addToPool_enlarged (wallet : CWallet) :
    Session.Keeps (Enlarged env wallet) (CWallet.addToPool env) := by
  refine .bind .look fun nEnd => .bind (.of_pre (generateNewKey_enlarged wallet) fun _ enlarged => enlarged.1)
    fun vchPubKey => .modify ?_
  rintro after ⟨enlarged, made⟩
  refine { enlarged with pool := fun nIndex other found => ?_ }
  rw [ExtTreeMap.getElem?_insert] at found
  split_ifs at found
  · obtain rfl := Option.some.inj found
    exact .inr made
  · exact enlarged.pool nIndex other found

theorem topUpLoop_enlarged (wallet : CWallet) (fuel : ℕ) :
    Session.Keeps (Enlarged env wallet) (CWallet.topUpLoop env fuel) := by
  induction fuel with
  | zero => exact .pure () fun _ enlarged => enlarged
  | succ fuel ih => exact .bind (addToPool_enlarged wallet) fun _ => ih

theorem topUpKeyPool_enlarged (wallet : CWallet) :
    Session.Keeps (Enlarged env wallet) (CWallet.topUpKeyPool env) := by
  intro before enlarged
  rw [CWallet.topUpKeyPool]
  split_ifs with locked
  · exact enlarged
  · exact Session.Triple.bind (topUpLoop_enlarged wallet _) (fun _ => .pure true fun _ kept => kept) before enlarged

theorem readPool_eq_ok {nIndex : Int} {vchPubKey : CPubKey} (run : wallet.readPool env nIndex = .ok vchPubKey) :
    wallet.pool[nIndex]? = some vchPubKey ∧ wallet.keystore.haveKey (env.ssl.hash160 vchPubKey) := by
  rw [CWallet.readPool] at run
  split at run
  · cases run
  · rename_i found
    split_ifs at run with known valid
    · obtain rfl := pure_eq_ok.mp run
      exact ⟨found, known⟩

theorem reserveKeyFromKeyPool_enlarged (wallet : CWallet) :
    Session.Triple (Enlarged env wallet) (CWallet.reserveKeyFromKeyPool env)
      (fun reserved after => Enlarged env wallet after ∧ ∀ vchPubKey, reserved.2 = .ok vchPubKey →
        reserved.1 = -1 ∨ NextKey env wallet vchPubKey) (Enlarged env wallet) := by
  refine .bind .look fun isLocked => ?_
  refine .ite (fun _ => .bind (.of_pre (topUpKeyPool_enlarged wallet) fun _ enlarged => enlarged.1) fun _ => ?_)
    fun _ => .of_pre (P := Enlarged env wallet) ?_ fun _ enlarged => enlarged.1
  all_goals
    refine .bind .look fun oldest => ?_
    cases oldest with
    | none => exact .pure _ fun _ enlarged => ⟨enlarged.1, fun _ _ => .inl rfl⟩
    | some nIndex =>
      refine .bind (.modify (Q := fun _ => Enlarged env wallet) fun _ enlarged => { enlarged.1 with }) fun _ => ?_
      refine .bind .look fun keypool => .pure _ ?_
      rintro after ⟨enlarged, rfl⟩
      exact ⟨enlarged, fun vchPubKey found => .inr (enlarged.pool nIndex vchPubKey (readPool_eq_ok found).1)⟩

theorem getKeyFromPool_enlarged (wallet : CWallet) :
    Session.Triple (Enlarged env wallet) (CWallet.getKeyFromPool env false)
      (fun result after => Enlarged env wallet after ∧ ∀ vchPubKey, result = some vchPubKey →
        NextKey env wallet vchPubKey) (Enlarged env wallet) := by
  refine .bind (reserveKeyFromKeyPool_enlarged wallet) fun reserved => ?_
  obtain ⟨nIndex, keypool⟩ := reserved
  refine .bind (.ask (Q := fun vchPubKey after => Enlarged env wallet after ∧
    (nIndex = -1 ∨ NextKey env wallet vchPubKey)) ?_) fun vchPubKey => .ite (fun _ => ?_) fun pooled => ?_
  · rintro after ⟨enlarged, next⟩
    exact ⟨fun vchPubKey is => ⟨enlarged, next vchPubKey is⟩, fun _ _ => enlarged⟩
  · refine .bind .look fun vchDefaultKey => .bind .look fun isLocked => ?_
    refine .ite (fun reuse => nomatch reuse.1) fun _ => .ite (fun _ => .pure none ?_) fun _ => ?_
    · exact fun _ enlarged => ⟨enlarged.1.1.1, nofun⟩
    · refine .bind (.of_pre (generateNewKey_enlarged wallet) fun _ enlarged => enlarged.1.1.1)
        fun result => .pure _ ?_
      rintro after ⟨enlarged, made⟩
      refine ⟨enlarged, ?_⟩
      rintro _ ⟨⟩
      exact .inr made
  · refine .bind (.modify (Q := fun _ after => Enlarged env wallet after ∧ NextKey env wallet vchPubKey) ?_)
      fun _ => .pure _ ?_
    · rintro before ⟨enlarged, next⟩
      refine ⟨?_, next.resolve_left pooled⟩
      rw [CWallet.keepKey]
      split_ifs
      · refine { enlarged with pool := fun other vchPubKey found => ?_ }
        rw [ExtTreeMap.getElem?_erase] at found
        split_ifs at found
        exact enlarged.pool other vchPubKey found
      · exact enlarged
    · rintro after ⟨enlarged, next⟩
      refine ⟨enlarged, ?_⟩
      rintro _ ⟨⟩
      exact next

theorem replaceDefaultKey_enlarged (wallet : CWallet) :
    Session.Keeps (Enlarged env wallet) (CWallet.replaceDefaultKey env) := by
  refine .bind (getKeyFromPool_enlarged wallet) fun newDefaultKey => ?_
  cases newDefaultKey with
  | none => exact .pure () fun _ enlarged => enlarged.1
  | some newDefaultKey =>
    refine .modify ?_
    rintro before ⟨enlarged, next⟩
    refine { enlarged with named := fun address member => ?_, names := fun address member => ?_ }
    · exact ExtTreeMap.mem_insert.mpr (.inr (enlarged.named address member))
    · rcases ExtTreeMap.mem_insert.mp member with same | old
      · exact .inr ⟨newDefaultKey, next newDefaultKey rfl, (Std.compare_eq_iff_eq.mp same).symm⟩
      · exact enlarged.names address old

end RitCoin.Proof
