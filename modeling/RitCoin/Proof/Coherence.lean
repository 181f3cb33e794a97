import RitCoin.Proof.Cached
import RitCoin.Proof.KeyPool

/-!
# Remembered balances

A wallet transaction remembers balances that are made of other records, of the keys and of the address book,
and forgets them only when it is changed itself. What is remembered stays right as long as nothing it is made
of changes; the records that are changed, the queries and `WalletUpdateSpent` never do harm.
-/

namespace RitCoin.Proof
open Lib Model Model.Wallet Std

variable {Point : Type} {env : Surroundings Point} {wallet wallet' : CWallet} {hash : Uint256}

/-- No key that is made from now on makes the output one of the wallet's. -/
def Indifferent (env : Surroundings Point) (wallet : CWallet) (txout : CTxOut) : Prop :=
  ∀ haveKey : CKeyID → Bool, (∀ id, wallet.keystore.haveKey id → haveKey id) →
    (∀ id, haveKey id → wallet.keystore.haveKey id ∨
      ∃ vchPubKey, MadeKey env wallet vchPubKey ∧ id = env.ssl.hash160 vchPubKey) →
    isMineScript env.ssl.toCrypto haveKey (fun id => wallet.keystore.mapScripts[id]?)
      (wallet.keystore.mapScripts.size + 1) txout.scriptPubKey = wallet.isMine env txout

/-- No other record that remembers its debit spends an own output of the transaction. -/
def NoDependents (env : Surroundings Point) (wallet : CWallet) (hash : Uint256) (tx : CTransaction) : Prop :=
  ∀ (other : Uint256) (child : Wallet.CWalletTx), wallet.mapWallet[other]? = some child → other ≠ hash →
    child.nDebitCached.isSome → ∀ txin ∈ child.vin, txin.prevout.hash = hash →
      ∀ txout, tx.vout[txin.prevout.n.toNat]? = some txout → wallet.isMine env txout = false

/-- No record that remembers its change pays to the address, if it is one of the wallet's. -/
def NoChangeTo (env : Surroundings Point) (wallet : CWallet) (address : CTxDestination) : Prop :=
  ∀ (hash : Uint256) (wtx : Wallet.CWalletTx), wallet.mapWallet[hash]? = some wtx → wtx.nChangeCached.isSome →
    ∀ txout ∈ wtx.vout, extractDestination env.ssl.toCrypto txout.scriptPubKey = some address →
      wallet.isMineDestination address = false

/-- The next keys of the wallet belong to no output of its transactions, the new one included, and to no
output of a record that remembers its change. -/
structure KeysUnseen (env : Surroundings Point) (wallet : CWallet) (hash : Uint256) (wtxIn : Wallet.CWalletTx) :
    Prop where
  stored : ∀ (other : Uint256) (wtx : Wallet.CWalletTx), wallet.mapWallet[other]? = some wtx →
    ∀ txout ∈ wtx.vout, Indifferent env wallet txout
  incoming : ∀ txout ∈ wtxIn.vout, Indifferent env wallet txout
  change : ∀ (other : Uint256) (wtx : Wallet.CWalletTx), wallet.mapWallet[other]? = some wtx → other ≠ hash →
    wtx.nChangeCached.isSome → ∀ txout ∈ wtx.vout, ∀ vchPubKey, NextKey env wallet vchPubKey →
      extractDestination env.ssl.toCrypto txout.scriptPubKey ≠ some (.keyID (env.ssl.hash160 vchPubKey))

def PaysDefaultKey (env : Surroundings Point) (wallet : CWallet) (wtxIn : Wallet.CWalletTx) : Prop :=
  ∃ txout ∈ ((wallet.mapWallet[env.P.hashTx wtxIn.toCTransaction]?).getD wtxIn).vout,
    txout.scriptPubKey = setDestination (.keyID (env.ssl.hash160 wallet.vchDefaultKey))

/-- A call that changes nothing that another record has remembered. -/
def DoesNoHarm (env : Surroundings Point) (wallet : CWallet) : WalletCall → Prop
  | .addToWallet _ wtxIn _ =>
    let hash := env.P.hashTx wtxIn.toCTransaction
    (wallet.mapWallet[hash]? = none → NoDependents env wallet hash wtxIn.toCTransaction) ∧
      (PaysDefaultKey env wallet wtxIn → KeysUnseen env wallet hash wtxIn)
  | .eraseFromWallet hash =>
    ∀ wtx, wallet.mapWallet[hash]? = some wtx → NoDependents env wallet hash wtx.toCTransaction
  | .setAddressBookName address _ => address ∈ wallet.mapAddressBook ∨ NoChangeTo env wallet address
  | .delAddressBookName address => address ∉ wallet.mapAddressBook ∨ NoChangeTo env wallet address
  | _ => True

theorem AllCoherent.rename (coherent : AllCoherent env wallet) {mapAddressBook : ExtTreeMap CTxDestination CString}
    (address : CTxDestination)
    (others : ∀ other, other ≠ address → (other ∈ mapAddressBook ↔ other ∈ wallet.mapAddressBook))
    (harmless : (address ∈ mapAddressBook ↔ address ∈ wallet.mapAddressBook) ∨ NoChangeTo env wallet address) :
    AllCoherent env { wallet with mapAddressBook := mapAddressBook } := by
  intro hash wtx known
  refine (coherent hash wtx known).transfer (fun _ _ _ => rfl) (fun _ _ _ => rfl) ?_
  intro remembered txout member
  rw [CWallet.isChange, CWallet.isChange]
  cases paid : extractDestination env.ssl.toCrypto txout.scriptPubKey with
  | none => rfl
  | some other =>
    change (wallet.isMineDestination other && !mapAddressBook.contains other) =
      (wallet.isMineDestination other && !wallet.mapAddressBook.contains other)
    have same : (other ∈ mapAddressBook ↔ other ∈ wallet.mapAddressBook) ∨
        wallet.isMineDestination other = false := by
      by_cases here : other = address
      · subst here
        exact harmless.imp_right fun unpaid => unpaid hash wtx known remembered txout member paid
      · exact .inl (others other here)
    rcases same with same | foreign
    · have contains : mapAddressBook.contains other = wallet.mapAddressBook.contains other := by
        rw [Bool.eq_iff_iff]
        exact same
      rw [contains]
    · rw [foreign, Bool.false_and, Bool.false_and]

theorem debitOf_congr {txin : CTxIn}
    (same : wallet'.prevOut env txin = wallet.prevOut env txin) :
    wallet'.debitOf env txin = wallet.debitOf env txin := by
  rw [CWallet.debitOf, CWallet.debitOf, same]

theorem AllCoherent.replaceOthers (coherent : AllCoherent env wallet)
    {mapWallet : ExtTreeMap Uint256 Wallet.CWalletTx} (hash : Uint256)
    (others : ∀ other, other ≠ hash → mapWallet[other]? = wallet.mapWallet[other]?)
    (independent : ∀ (other : Uint256) (child : Wallet.CWalletTx), wallet.mapWallet[other]? = some child →
      other ≠ hash → child.nDebitCached.isSome → ∀ txin ∈ child.vin, txin.prevout.hash = hash →
        CWallet.prevOut env { wallet with mapWallet := mapWallet } txin = wallet.prevOut env txin)
    (record : ∀ wtx, mapWallet[hash]? = some wtx → Coherent env { wallet with mapWallet := mapWallet } wtx) :
    AllCoherent env { wallet with mapWallet := mapWallet } := by
  intro other wtx known
  by_cases here : other = hash
  · subst here
    exact record wtx known
  · have stored : wallet.mapWallet[other]? = some wtx := (others other here).symm.trans known
    refine (coherent other wtx stored).transfer ?_ (fun _ _ _ => rfl) fun _ _ _ => rfl
    intro remembered txin member
    refine debitOf_congr ?_
    by_cases spends : txin.prevout.hash = hash
    · exact independent other wtx stored here remembered txin member spends
    · simp only [CWallet.prevOut, others txin.prevout.hash spends]
      rfl

theorem erase_coherent (coherent : AllCoherent env wallet)
    (independent : ∀ wtx, wallet.mapWallet[hash]? = some wtx → NoDependents env wallet hash wtx.toCTransaction) :
    AllCoherent env (wallet.eraseFromWallet hash).2 := by
  rw [CWallet.eraseFromWallet]
  split_ifs with backed
  · refine coherent.replaceOthers hash (fun other apart => ?_) ?_ fun wtx known => ?_
    · rw [ExtTreeMap.getElem?_erase, if_neg (by rw [Std.compare_eq_iff_eq]; exact Ne.symm apart)]
    · intro other child stored apart remembered txin member spends
      simp only [CWallet.prevOut, spends, ExtTreeMap.getElem?_erase_self, Option.bind_eq_bind, Option.bind_none]
      cases found : wallet.mapWallet[hash]? with
      | none => rfl
      | some parent =>
        cases output : parent.vout[txin.prevout.n.toNat]? with
        | none => simp only [Option.bind_some, output, Option.bind_none]
        | some txout =>
          have foreign := independent parent found other child stored apart remembered txin member spends txout
            output
          simp only [Option.bind_some, output, foreign, Bool.false_eq_true, if_false]
    · rw [ExtTreeMap.getElem?_erase_self] at known
      cases known
  · exact coherent

theorem merge_remembers (wtx wtxIn : Wallet.CWalletTx) :
    (wtx.merge wtxIn).1.nDebitCached = wtx.nDebitCached ∧ (wtx.merge wtxIn).1.nCreditCached = wtx.nCreditCached ∧
      (wtx.nAvailableCreditCached = none → (wtx.merge wtxIn).1.nAvailableCreditCached = none) ∧
      (wtx.merge wtxIn).1.nChangeCached = wtx.nChangeCached := by
  simp only [CWalletTx.merge, CWalletTx.updateSpent]
  refine ⟨?_, ?_, fun forgotten => ?_, ?_⟩
  · split_ifs <;> rfl
  · split_ifs <;> rfl
  · split_ifs <;> first | rfl | exact forgotten
  · split_ifs <;> rfl

theorem merge_coherent (wtx wtxIn : Wallet.CWalletTx) : Coherent env wallet (wtx.markDirty.merge wtxIn).1 := by
  obtain ⟨debit, credit, available, change⟩ := merge_remembers wtx.markDirty wtxIn
  constructor
  · rw [debit]
    exact nofun
  · rw [credit]
    exact nofun
  · rw [available rfl]
    exact nofun
  · rw [change]
    exact nofun

theorem insertOrMerge_coherent (coherent : AllCoherent env wallet) (wtxIn : Wallet.CWalletTx) (now : UInt32)
    (independent : wallet.mapWallet[env.P.hashTx wtxIn.toCTransaction]? = none →
      NoDependents env wallet (env.P.hashTx wtxIn.toCTransaction) wtxIn.toCTransaction) :
    AllCoherent env (wallet.insertOrMerge env wtxIn now) := by
  cases found : wallet.mapWallet[env.P.hashTx wtxIn.toCTransaction]? with
  | some wtx =>
    rw [CWallet.insertOrMerge, found]
    exact coherent.insert found (merge_toCTransaction wtx.markDirty wtxIn) (merge_coherent wtx wtxIn)
  | none =>
    rw [CWallet.insertOrMerge, found]
    refine coherent.replaceOthers (env.P.hashTx wtxIn.toCTransaction) (fun other apart => ?_) ?_
      fun wtx known => ?_
    · rw [ExtTreeMap.getElem?_insert, if_neg (by rw [Std.compare_eq_iff_eq]; exact Ne.symm apart)]
    · intro other child stored apart remembered txin member spends
      simp only [CWallet.prevOut, spends, found, ExtTreeMap.getElem?_insert_self, Option.bind_eq_bind,
        Option.bind_none, Option.bind_some]
      change (wtxIn.vout[txin.prevout.n.toNat]?).bind _ = none
      cases output : wtxIn.vout[txin.prevout.n.toNat]? with
      | none => rfl
      | some txout =>
        have foreign := independent found other child stored apart remembered txin member spends txout output
        exact if_neg (ne_true_of_eq_false foreign)
    · rw [ExtTreeMap.getElem?_insert_self] at known
      obtain rfl := Option.some.inj known
      constructor <;> exact fun _ cached => by cases cached

theorem Enlarged.coherent (enlarged : Enlarged env wallet wallet') (coherent : AllCoherent env wallet)
    (indifferent : ∀ (hash : Uint256) (wtx : Wallet.CWalletTx), wallet.mapWallet[hash]? = some wtx →
      ∀ txout ∈ wtx.vout, Indifferent env wallet txout)
    (unpaid : ∀ (hash : Uint256) (wtx : Wallet.CWalletTx), wallet.mapWallet[hash]? = some wtx →
      wtx.nChangeCached.isSome → ∀ txout ∈ wtx.vout, ∀ vchPubKey, NextKey env wallet vchPubKey →
        extractDestination env.ssl.toCrypto txout.scriptPubKey ≠ some (.keyID (env.ssl.hash160 vchPubKey))) :
    AllCoherent env wallet' := by
  have mine : ∀ (hash : Uint256) (wtx : Wallet.CWalletTx), wallet.mapWallet[hash]? = some wtx →
      ∀ txout ∈ wtx.vout, wallet'.isMine env txout = wallet.isMine env txout := by
    intro hash wtx known txout member
    rw [CWallet.isMine, enlarged.mapScripts]
    exact indifferent hash wtx known txout member _ enlarged.kept enlarged.keys
  intro hash wtx known
  rw [enlarged.mapWallet] at known
  refine (coherent hash wtx known).transfer ?_ (fun _ => mine hash wtx known) ?_
  · intro _ txin _
    refine debitOf_congr ?_
    rw [CWallet.prevOut, CWallet.prevOut, enlarged.mapWallet]
    cases found : wallet.mapWallet[txin.prevout.hash]? with
    | none => rfl
    | some parent =>
      cases output : parent.vout[txin.prevout.n.toNat]? with
      | none => simp [output]
      | some txout => simp [output, mine _ parent found txout (List.mem_of_getElem? output)]
  · intro remembered txout member
    rw [CWallet.isChange, CWallet.isChange]
    cases paid : extractDestination env.ssl.toCrypto txout.scriptPubKey with
    | none => rfl
    | some address =>
      have foreign : ∀ vchPubKey, NextKey env wallet vchPubKey →
          address ≠ .keyID (env.ssl.hash160 vchPubKey) :=
        fun vchPubKey next is => unpaid hash wtx known remembered txout member vchPubKey next (is ▸ paid)
      have own : wallet'.isMineDestination address = wallet.isMineDestination address := by
        cases address with
        | noDestination => rfl
        | keyID id =>
          rw [Bool.eq_iff_iff]
          refine ⟨fun have_ => ?_, enlarged.kept id⟩
          rcases enlarged.keys id have_ with old | ⟨vchPubKey, made, rfl⟩
          · exact old
          · exact absurd rfl (foreign vchPubKey (.inr made))
        | scriptID id =>
          rw [CWallet.isMineDestination, CWallet.isMineDestination, enlarged.mapScripts]
      have book : wallet'.mapAddressBook.contains address = wallet.mapAddressBook.contains address := by
        rw [Bool.eq_iff_iff]
        refine ⟨fun named => ?_, enlarged.named address⟩
        rcases enlarged.names address named with old | ⟨vchPubKey, next, is⟩
        · exact old
        · exact absurd is (foreign vchPubKey next)
      simp only [own, book]

theorem insertOrMerge_record (env : Surroundings Point) (wallet : CWallet) (wtxIn : Wallet.CWalletTx) (now : UInt32) :
    ∃ wtx, (wallet.insertOrMerge env wtxIn now).mapWallet[env.P.hashTx wtxIn.toCTransaction]? = some wtx ∧
      wtx.vout = ((wallet.mapWallet[env.P.hashTx wtxIn.toCTransaction]?).getD wtxIn).vout ∧
      wtx.nChangeCached = none := by
  rw [CWallet.insertOrMerge]
  cases found : wallet.mapWallet[env.P.hashTx wtxIn.toCTransaction]? with
  | none => exact ⟨_, ExtTreeMap.getElem?_insert_self, rfl, rfl⟩
  | some stored =>
    refine ⟨_, ExtTreeMap.getElem?_insert_self, ?_, (merge_remembers stored.markDirty wtxIn).2.2.2⟩
    exact congrArg CTransaction.vout (merge_toCTransaction stored.markDirty wtxIn)

theorem insertOrMerge_other (wallet : CWallet) (wtxIn : Wallet.CWalletTx) (now : UInt32) {other : Uint256}
    (apart : other ≠ env.P.hashTx wtxIn.toCTransaction) :
    (wallet.insertOrMerge env wtxIn now).mapWallet[other]? = wallet.mapWallet[other]? :=
  ExtTreeMap.getElem?_insert.trans (if_neg (by rw [Std.compare_eq_iff_eq]; exact apart.symm))

theorem KeysUnseen.coherent {wtxIn : Wallet.CWalletTx} {now : UInt32}
    (unseen : KeysUnseen env wallet (env.P.hashTx wtxIn.toCTransaction) wtxIn)
    (coherent : AllCoherent env (wallet.insertOrMerge env wtxIn now))
    (enlarged : Enlarged env (wallet.insertOrMerge env wtxIn now) wallet') : AllCoherent env wallet' := by
  obtain ⟨record, found, vout, forgotten⟩ := insertOrMerge_record env wallet wtxIn now
  refine enlarged.coherent coherent ?_ ?_
  · intro other wtx known txout member
    by_cases here : other = env.P.hashTx wtxIn.toCTransaction
    · subst here
      obtain rfl := Option.some.inj (found.symm.trans known)
      rw [vout] at member
      cases stored : wallet.mapWallet[env.P.hashTx wtxIn.toCTransaction]? with
      | none =>
        rw [stored] at member
        exact unseen.incoming txout member
      | some wtx =>
        rw [stored] at member
        exact unseen.stored _ wtx stored txout member
    · rw [insertOrMerge_other wallet wtxIn now here] at known
      exact unseen.stored other wtx known txout member
  · intro other wtx known remembered
    by_cases here : other = env.P.hashTx wtxIn.toCTransaction
    · subst here
      obtain rfl := Option.some.inj (found.symm.trans known)
      rw [forgotten] at remembered
      cases remembered
    · rw [insertOrMerge_other wallet wtxIn now here] at known
      exact unseen.change other wtx known here remembered

theorem addToWallet_coherent (coherent : AllCoherent env wallet) {node : Node} {wtxIn : Wallet.CWalletTx}
    {now : UInt32} (harmless : DoesNoHarm env wallet (.addToWallet node wtxIn now)) :
    Session.Triple (· = wallet) (CWallet.addToWallet env node wtxIn now) (fun _ => AllCoherent env)
      (AllCoherent env) := by
  have merged := insertOrMerge_coherent coherent wtxIn now harmless.1
  obtain ⟨record, found, vout, -⟩ := insertOrMerge_record env wallet wtxIn now
  refine .bind (.modify (Q := fun _ after => after = wallet.insertOrMerge env wtxIn now) ?_) fun _ =>
    .bind .look fun wtx => .bind .look fun scriptDefaultKey => ?_
  · rintro _ rfl
    rfl
  rintro _ ⟨⟨rfl, isRecord⟩, isDefault⟩
  rw [found, Option.getD_some] at isRecord
  subst isRecord
  have loop : Session.Triple (· = wallet.insertOrMerge env wtxIn now)
      (wtx.vout.forM fun txout =>
        if txout.scriptPubKey = scriptDefaultKey then CWallet.replaceDefaultKey env else pure ())
      (fun _ => AllCoherent env) (AllCoherent env) := by
    by_cases pays : PaysDefaultKey env wallet wtxIn
    · have unseen := harmless.2 pays
      refine .conseq (.forM (P := Enlarged env (wallet.insertOrMerge env wtxIn now)) fun txout _ => ?_) ?_
        (fun _ _ => unseen.coherent merged) fun _ => unseen.coherent merged
      · exact .ite (fun _ => replaceDefaultKey_enlarged _) fun _ => .pure () fun _ enlarged => enlarged
      · rintro _ rfl
        exact .refl env _
    · refine .of_pre (.forM fun txout member => .ite (fun isPaid => ?_) fun _ => .pure () fun _ kept => kept) ?_
      · refine absurd ⟨txout, vout ▸ member, ?_⟩ pays
        rw [isPaid, isDefault]
        rfl
      · rintro _ rfl
        exact merged
  exact (loop.bind fun _ => (walletUpdateSpent_coherent node wtx.toCTransaction).bind fun _ =>
    .pure true fun _ kept => kept) _ rfl

theorem call_coherent (coherent : AllCoherent env wallet) (call : WalletCall)
    (harmless : DoesNoHarm env wallet call) : AllCoherent env (wallet.call env call) := by
  cases call with
  | addToWallet node wtxIn now => exact (addToWallet_coherent coherent harmless).after rfl
  | eraseFromWallet hash => exact erase_coherent coherent harmless
  | walletUpdateSpent node tx => exact (walletUpdateSpent_coherent node tx).after coherent
  | setAddressBookName address strName =>
    refine coherent.rename address (fun other apart => ?_) (harmless.imp_left fun named => ?_)
    · rw [ExtTreeMap.mem_insert, Std.compare_eq_iff_eq]
      exact or_iff_right apart.symm
    · exact iff_of_true ExtTreeMap.mem_insert_self named
  | delAddressBookName address =>
    refine coherent.rename address (fun other apart => ?_) (harmless.imp_left fun named => ?_)
    · rw [ExtTreeMap.mem_erase, ne_eq, Std.compare_eq_iff_eq]
      exact and_iff_right apart.symm
    · refine iff_of_false (fun still => ?_) named
      rw [ExtTreeMap.mem_erase] at still
      exact named still.2
  | getDebit hash => exact (tidy_getDebit.onRecord hash).after coherent
  | getCredit node hash fUseCache => exact ((tidy_getCredit node fUseCache).onRecord hash).after coherent
  | getAvailableCredit node hash fUseCache =>
    exact ((tidy_getAvailableCredit node fUseCache).onRecord hash).after coherent
  | getChange hash => exact (tidy_getChange.onRecord hash).after coherent

def HarmlessRun (env : Surroundings Point) : CWallet → List WalletCall → Prop
  | _, [] => True
  | wallet, call :: calls => DoesNoHarm env wallet call ∧ HarmlessRun env (wallet.call env call) calls

/-- What every record remembers is right at every moment of a run of calls that do no harm. -/
theorem calls_coherent (env : Surroundings Point) : ∀ (calls : List WalletCall) (wallet : CWallet),
    AllCoherent env wallet → HarmlessRun env wallet calls →
    ∀ done rest, calls = done ++ rest → AllCoherent env (done.foldl (CWallet.call env) wallet) := by
  intro calls
  induction calls with
  | nil =>
    intro wallet coherent _ done rest split
    obtain ⟨rfl, -⟩ := List.append_eq_nil_iff.mp split.symm
    exact coherent
  | cons call calls ih =>
    rintro wallet coherent ⟨harmless, later⟩ done rest split
    cases done with
    | nil => exact coherent
    | cons first done =>
      obtain ⟨rfl, splitRest⟩ := List.cons.inj split
      exact ih _ (call_coherent coherent call harmless) later done rest splitRest

def parentTx : Wallet.CWalletTx := .init (.init (paysOne 7 ⟨1, 0⟩))

def childTx : Wallet.CWalletTx := .init (.init (paysOne 8 ⟨7, 0⟩))

theorem bareWallet_coherent : AllCoherent toyEnv bareWallet := by
  intro hash wtx known
  simp [bareWallet] at known

def parentFirst : List WalletCall :=
  [.addToWallet (run toy []) parentTx 0, .getDebit 7, .addToWallet (run toy []) childTx 0, .getDebit 8]

theorem parentFirst_coherent : AllCoherent toyEnv (parentFirst.foldl (CWallet.call toyEnv) bareWallet) := by
  have harmless : HarmlessRun toyEnv bareWallet parentFirst := by
    refine ⟨⟨?_, ?_⟩, trivial, ⟨?_, ?_⟩, trivial, trivial⟩
    · intro _ other child stored
      simp [bareWallet] at stored
    · rintro ⟨txout, member, isDefault⟩
      obtain rfl := List.mem_singleton.mp member
      exact absurd isDefault (by decide +kernel)
    · intro _ other child stored _ _ txin member spends
      have unrelated : ((parentFirst.take 2).foldl (CWallet.call toyEnv) bareWallet).mapWallet.toList.all
          fun entry => entry.2.vin.all fun txin => txin.prevout.hash ≠ 8 := by
        decide +kernel
      have := List.all_eq_true.mp unrelated _ (ExtTreeMap.mem_toList_iff_getElem?_eq_some.mpr stored)
      have apart := of_decide_eq_true (List.all_eq_true.mp this txin member)
      exact absurd spends apart
    · rintro ⟨txout, member, isDefault⟩
      obtain rfl := List.mem_singleton.mp member
      exact absurd isDefault (by decide +kernel)
  exact calls_coherent toyEnv parentFirst bareWallet bareWallet_coherent harmless _ [] (List.append_nil _).symm

def childFirst : List WalletCall :=
  [.addToWallet (run toy []) childTx 0, .getDebit 8, .addToWallet (run toy []) parentTx 0]

theorem childFirst_stale : AllCoherent toyEnv bareWallet ∧
    ¬ AllCoherent toyEnv (childFirst.foldl (CWallet.call toyEnv) bareWallet) := by
  refine ⟨bareWallet_coherent, fun coherent => ?_⟩
  have stale : ((childFirst.foldl (CWallet.call toyEnv) bareWallet).mapWallet[(8 : Uint256)]?).map (fun wtx =>
      (wtx.nDebitCached, (childFirst.foldl (CWallet.call toyEnv) bareWallet).getDebit toyEnv wtx.toCTransaction)) =
      some (some 0, .ok 5) := by
    decide +kernel
  obtain ⟨wtx, known, is⟩ := Option.map_eq_some_iff.mp stale
  have remembered := (coherent 8 wtx known).debit 0 (Prod.mk.inj is).1
  rw [(Prod.mk.inj is).2] at remembered
  cases remembered

end RitCoin.Proof
