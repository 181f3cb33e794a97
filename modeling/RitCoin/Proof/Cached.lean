import RitCoin.Proof.WalletTx

namespace RitCoin.Proof
open Lib Model Model.Wallet Std

variable {Point : Type} (env : Surroundings Point)

structure Coherent (wallet : CWallet) (wtx : Wallet.CWalletTx) : Prop where
  debit : ∀ n, wtx.nDebitCached = some n → wallet.getDebit env wtx.toCTransaction = .ok n
  credit : ∀ n, wtx.nCreditCached = some n → wallet.getCredit env wtx.toCTransaction = .ok n
  available : ∀ n, wtx.nAvailableCreditCached = some n → wallet.availableCredit env wtx = .ok n
  change : ∀ n, wtx.nChangeCached = some n → wallet.getChange env wtx.toCTransaction = .ok n

def AllCoherent (wallet : CWallet) : Prop :=
  ∀ (hash : Uint256) (wtx : Wallet.CWalletTx), wallet.mapWallet[hash]? = some wtx → Coherent env wallet wtx

variable {env} {wallet wallet' : CWallet} {wtx wtx' : Wallet.CWalletTx} {hash : Uint256}

theorem sumInRange_congr {α : Type} {what : String} {amount amount' : α → Check Int64} {items : List α}
    (same : ∀ item ∈ items, amount item = amount' item) :
    CWallet.sumInRange what amount items = CWallet.sumInRange what amount' items := by
  simp only [CWallet.sumInRange]
  generalize (0 : Int64) = nSum
  induction items generalizing nSum with
  | nil => rfl
  | cons item items ih =>
    rw [List.forall_mem_cons] at same
    rw [List.foldlM_cons, List.foldlM_cons, same.1]
    congr 1
    funext sum
    exact ih same.2 sum

theorem availableCredit_congr (mine : ∀ txout ∈ wtx.vout, wallet'.isMine env txout = wallet.isMine env txout)
    (vout : wtx'.vout = wtx.vout)
    (flags : ∀ i < wtx.vout.length, wtx'.vfSpent.getD i false = wtx.vfSpent.getD i false) :
    wallet'.availableCredit env wtx' = wallet.availableCredit env wtx := by
  rw [CWallet.availableCredit, CWallet.availableCredit, vout]
  refine sumInRange_congr fun item member => ?_
  obtain ⟨txout, i⟩ := item
  obtain ⟨-, inside, is⟩ := List.mem_zipIdx member
  rw [Nat.zero_add] at inside
  have paid : txout ∈ wtx.vout := is ▸ List.getElem_mem _
  simp only [flags i inside, CWallet.creditOf, mine txout paid]

theorem Coherent.transfer (coherent : Coherent env wallet wtx)
    (debit : wtx.nDebitCached.isSome → ∀ txin ∈ wtx.vin, wallet'.debitOf env txin = wallet.debitOf env txin)
    (mine : wtx.nCreditCached.isSome ∨ wtx.nAvailableCreditCached.isSome →
      ∀ txout ∈ wtx.vout, wallet'.isMine env txout = wallet.isMine env txout)
    (change : wtx.nChangeCached.isSome →
      ∀ txout ∈ wtx.vout, wallet'.isChange env txout = wallet.isChange env txout) :
    Coherent env wallet' wtx where
  debit n remembered := by
    rw [← coherent.debit n remembered]
    exact sumInRange_congr fun txin member =>
      congrArg pure (debit (Option.isSome_of_eq_some remembered) txin member)
  credit n remembered := by
    rw [← coherent.credit n remembered]
    refine sumInRange_congr fun txout member => ?_
    rw [CWallet.creditOf, CWallet.creditOf, mine (.inl (Option.isSome_of_eq_some remembered)) txout member]
  available n remembered := by
    rw [← coherent.available n remembered]
    exact availableCredit_congr (mine (.inr (Option.isSome_of_eq_some remembered))) rfl fun _ _ => rfl
  change n remembered := by
    rw [← coherent.change n remembered]
    refine sumInRange_congr fun txout member => ?_
    rw [CWallet.changeOf, CWallet.changeOf, change (Option.isSome_of_eq_some remembered) txout member]

theorem AllCoherent.insert (coherent : AllCoherent env wallet) (known : wallet.mapWallet[hash]? = some wtx)
    (tx : wtx'.toCTransaction = wtx.toCTransaction) (record : Coherent env wallet wtx') :
    AllCoherent env { wallet with mapWallet := wallet.mapWallet.insert hash wtx' } := by
  have debit : ∀ txin, CWallet.debitOf env { wallet with mapWallet := wallet.mapWallet.insert hash wtx' } txin =
      wallet.debitOf env txin := by
    intro txin
    have same : CWallet.prevOut env { wallet with mapWallet := wallet.mapWallet.insert hash wtx' } txin =
        wallet.prevOut env txin := by
      simp only [CWallet.prevOut, ExtTreeMap.getElem?_insert, Std.compare_eq_iff_eq]
      split_ifs with here
      · rw [← here, known]
        simp only [Option.bind_eq_bind, Option.bind_some, tx]
        rfl
      · rfl
    rw [CWallet.debitOf, CWallet.debitOf, same]
  intro other stored found
  have before : Coherent env wallet stored := by
    rw [ExtTreeMap.getElem?_insert] at found
    split_ifs at found
    · obtain rfl := Option.some.inj found
      exact record
    · exact coherent other stored found
  exact before.transfer (fun _ txin _ => debit txin) (fun _ _ _ => rfl) fun _ _ _ => rfl

theorem Coherent.unchanged {α : Type} {a b : α} (coherent : Coherent env wallet wtx)
    (run : (pure (a, wtx) : Check (α × Wallet.CWalletTx)) = .ok (b, wtx')) :
    wtx'.toCTransaction = wtx.toCTransaction ∧ Coherent env wallet wtx' := by
  obtain ⟨-, rfl⟩ := Prod.mk.inj (pure_eq_ok.mp run)
  exact ⟨rfl, coherent⟩

def Tidy {α : Type} (env : Surroundings Point) (f : CWallet → Wallet.CWalletTx → Check (α × Wallet.CWalletTx)) :
    Prop :=
  ∀ wallet wtx a wtx', f wallet wtx = .ok (a, wtx') → Coherent env wallet wtx →
    wtx'.toCTransaction = wtx.toCTransaction ∧ Coherent env wallet wtx'

theorem Tidy.onRecord {α : Type} {f : CWallet → Wallet.CWalletTx → Check (α × Wallet.CWalletTx)}
    (tidy : Tidy env f) (hash : Uint256) :
    Session.Keeps (AllCoherent env) (CWallet.onRecord hash f) := by
  intro wallet coherent
  cases known : wallet.mapWallet[hash]? with
  | none =>
    simp only [CWallet.onRecord, known]
    exact coherent
  | some wtx =>
    cases run : f wallet wtx with
    | error failure =>
      simp only [CWallet.onRecord, known, run]
      exact coherent
    | ok result =>
      obtain ⟨tx, record⟩ := tidy _ _ _ _ run (coherent hash wtx known)
      simp only [CWallet.onRecord, known, run]
      exact coherent.insert known tx record

theorem Coherent.withMerkle (coherent : Coherent env wallet wtx) {tx : CMerkleTx}
    (same : tx.toCTransaction = wtx.toCTransaction) : Coherent env wallet { wtx with toCMerkleTx := tx } where
  debit := by simpa only [same] using coherent.debit
  credit := by simpa only [same] using coherent.credit
  available n remembered := by
    rw [← coherent.available n remembered]
    exact availableCredit_congr (fun _ _ => rfl) (congrArg CTransaction.vout same) fun _ _ => rfl
  change := by simpa only [same] using coherent.change

theorem getBlocksToMaturity_eq_ok {node : Node} {nBlocks : Int}
    (run : wtx.getBlocksToMaturity env node = .ok (wtx', nBlocks)) :
    ∃ tx : CMerkleTx, tx.toCTransaction = wtx.toCTransaction ∧ wtx' = { wtx with toCMerkleTx := tx } := by
  rw [CWalletTx.getBlocksToMaturity] at run
  split_ifs at run with coinbase
  · obtain ⟨⟨looked, nDepth⟩, depth, done⟩ := bind_eq_ok.mp run
    obtain ⟨⟨tx, nDepth'⟩, merkle, is⟩ := bind_eq_ok.mp depth
    simp only [pure_eq_ok, Prod.mk.injEq] at done is
    rw [← done.1, ← is.1]
    refine ⟨tx, ?_, rfl⟩
    rw [CMerkleTx.getDepthInMainChain] at merkle
    split_ifs at merkle
    · rw [pure_eq_ok, Prod.mk.injEq] at merkle
      rw [← merkle.1]
    · split at merkle
      · rw [pure_eq_ok, Prod.mk.injEq] at merkle
        rw [← merkle.1]
      · split_ifs at merkle
        · rw [pure_eq_ok, Prod.mk.injEq] at merkle
          rw [← merkle.1]
        · obtain ⟨depth, -, last⟩ := bind_eq_ok.mp merkle
          rw [pure_eq_ok, Prod.mk.injEq] at last
          rw [← last.1]
  · rw [pure_eq_ok, Prod.mk.injEq] at run
    exact ⟨wtx.toCMerkleTx, rfl, run.1.symm⟩

theorem tidy_getDebit : Tidy env fun wallet wtx => wtx.getDebit env wallet := by
  intro wallet wtx nDebit wtx' run coherent
  simp only [CWalletTx.getDebit] at run
  split_ifs at run with empty
  · exact coherent.unchanged run
  · split at run
    · exact coherent.unchanged run
    · obtain ⟨nDebit', computed, done⟩ := bind_eq_ok.mp run
      obtain ⟨-, rfl⟩ := Prod.mk.inj (pure_eq_ok.mp done)
      refine ⟨rfl, { coherent with debit := ?_ }⟩
      rintro n ⟨⟩
      exact computed

theorem tidy_getChange : Tidy env fun wallet wtx => wtx.getChange env wallet := by
  intro wallet wtx nChange wtx' run coherent
  simp only [CWalletTx.getChange] at run
  split at run
  · exact coherent.unchanged run
  · obtain ⟨nChange', computed, done⟩ := bind_eq_ok.mp run
    obtain ⟨-, rfl⟩ := Prod.mk.inj (pure_eq_ok.mp done)
    refine ⟨rfl, { coherent with change := ?_ }⟩
    rintro n ⟨⟩
    exact computed

theorem Tidy.unlessImmature {node : Node}
    {rest : CWallet → Wallet.CWalletTx → Check (Int64 × Wallet.CWalletTx)} (tidy : Tidy env rest) :
    Tidy env fun wallet wtx => wtx.unlessImmature env node (rest wallet) := by
  intro wallet wtx nCredit wtx' run coherent
  obtain ⟨⟨looked, nBlocks⟩, maturity, run⟩ := bind_eq_ok.mp run
  obtain ⟨tx, same, rfl⟩ := getBlocksToMaturity_eq_ok maturity
  have still := coherent.withMerkle same
  simp only at run
  split_ifs at run with immature
  · obtain ⟨-, rfl⟩ := Prod.mk.inj (pure_eq_ok.mp run)
    exact ⟨same, still⟩
  · obtain ⟨tx', record⟩ := tidy _ _ _ _ run still
    exact ⟨tx'.trans same, record⟩

theorem tidy_getCredit (node : Node) (fUseCache : Bool) :
    Tidy env fun wallet wtx => wtx.getCredit env node wallet fUseCache := by
  refine Tidy.unlessImmature fun wallet wtx nCredit wtx' run coherent => ?_
  split at run
  · exact coherent.unchanged run
  · obtain ⟨nCredit', computed, done⟩ := bind_eq_ok.mp run
    obtain ⟨-, rfl⟩ := Prod.mk.inj (pure_eq_ok.mp done)
    refine ⟨rfl, { coherent with credit := ?_ }⟩
    rintro n ⟨⟩
    exact computed

theorem tidy_getAvailableCredit (node : Node) (fUseCache : Bool) :
    Tidy env fun wallet wtx => wtx.getAvailableCredit env node wallet fUseCache := by
  refine Tidy.unlessImmature fun wallet wtx nCredit wtx' run coherent => ?_
  split at run
  · exact coherent.unchanged run
  · obtain ⟨nCredit', computed, done⟩ := bind_eq_ok.mp run
    obtain ⟨-, rfl⟩ := Prod.mk.inj (pure_eq_ok.mp done)
    refine ⟨rfl, { coherent with available := ?_ }⟩
    rintro n ⟨⟩
    exact computed

theorem resizeSpent_getD (wtx : Wallet.CWalletTx) {i : ℕ} (inside : i < wtx.vout.length) :
    wtx.resizeSpent.getD i false = wtx.vfSpent.getD i false := by
  simp only [CWalletTx.resizeSpent, List.getD_eq_getElem?_getD]
  rw [List.getElem?_append, List.length_take]
  split_ifs with here
  · rw [List.getElem?_take_of_lt inside]
  · rw [List.getElem?_eq_none (l := wtx.vfSpent) (by omega), List.getElem?_replicate, if_pos (by omega)]
    rfl

theorem Coherent.setSpent (coherent : Coherent env wallet wtx) (nOut : ℕ) (fSpent : Bool) :
    Coherent env wallet (wtx.setSpent nOut fSpent) := by
  rw [CWalletTx.setSpent]
  split_ifs with same
  · refine { coherent with available := fun n remembered => ?_ }
    rw [← coherent.available n remembered]
    exact availableCredit_congr (fun _ _ => rfl) rfl fun i inside => resizeSpent_getD wtx inside
  · exact { coherent with available := nofun }

theorem tidy_spendOutput (node : Node) (nOut : ℕ) : Tidy env (CWallet.spendOutput env node nOut) := by
  intro wallet wtx _ wtx' run coherent
  obtain ⟨isSpent, -, run⟩ := bind_eq_ok.mp run
  split_ifs at run with own
  · obtain ⟨⟨nCredit, looked⟩, credit, run⟩ := bind_eq_ok.mp run
    obtain ⟨tx, still⟩ := tidy_getCredit node true _ _ _ _ credit coherent
    obtain ⟨marked, marking, done⟩ := bind_eq_ok.mp run
    obtain ⟨-, rfl⟩ := Prod.mk.inj (pure_eq_ok.mp done)
    obtain ⟨-, is⟩ := seq_eq_ok.mp marking
    obtain rfl := pure_eq_ok.mp is
    refine ⟨Eq.trans ?_ tx, still.setSpent nOut true⟩
    simp only [CWalletTx.setSpent]
    split_ifs <;> rfl
  · exact coherent.unchanged run

theorem walletUpdateSpent_coherent (node : Node) (tx : CTransaction) :
    Session.Keeps (AllCoherent env) (CWallet.walletUpdateSpent env node tx) :=
  .forM fun txin _ => .bind ((tidy_spendOutput node txin.prevout.n.toNat).onRecord txin.prevout.hash)
    fun _ => .pure _ fun _ coherent => coherent

end RitCoin.Proof
