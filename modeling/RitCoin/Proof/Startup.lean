import RitCoin.Proof.Authenticity
import RitCoin.Proof.Reload
import RitCoin.Proof.TxIndex

namespace RitCoin.Proof
open Lib Model Spec Std
variable {id hash fork : Uint256} {startup : Startup} {ref : TxRef} {tx : CTransaction}
  {mapBlockPos : List (ℕ × ℕ)} {i j : ℕ} {p q : Placed} {block : CBlock} {pindex : CBlockIndex} {disk node : Node}
  {blocks : List CBlock} {P : Primitives} {chain : List Placed} {events : List Event} {c : Coin (form P) TxRef}

structure Clean (P : Primitives) (startup : Startup) (events : List Event) (blocks : List CBlock) :
    Prop where
  clock : ∀ now block, Event.block now block ∈ events → now ≤ startup.now
  unique : ∀ p q hash, Creates P blocks p hash → Creates P blocks q hash → p = q
  nonzero : ∀ p, ¬ Creates P blocks p 0

section
variable (inv : Inv P events node chain)
include inv

theorem Inv.checkTransaction {e : TxRef × CTransaction} (member : e ∈ historyOf (blocksOf chain)) :
    e.2.checkTransaction = .ok () := by
  obtain ⟨k, block, _, found, inVtx⟩ := mem_historyOf.mp member
  rw [blocksOf_getElem?, Option.map_eq_some_iff] at found
  obtain ⟨placed, found, rfl⟩ := found
  obtain ⟨⟨_, _, checked⟩, _⟩ := inv.entered k placed found
  exact checked.txs _ (List.mem_of_getElem? inVtx)

theorem Inv.vSpent_ne_nil (found : ledgerOf P (blocksOf chain) id = some c) :
    (indexed chain c).vSpent ≠ [] := by
  have outputs := CTransaction.checkTransaction_vout
    (inv.checkTransaction (inv.valid.applied.records id c found).created)
  rw [← List.length_pos_iff_ne_nil] at outputs ⊢
  rw [indexed_length]
  exact outputs

theorem Inv.loc_eq (clean : Clean P startup events (chain.map Placed.block))
    (here : txAt (chain.map Placed.block) ref = some tx)
    (found : ledgerOf P (blocksOf chain) (P.hashTx tx) = some c) : c.loc = ref := by
  have described := inv.describes found
  exact clean.unique _ _ _ ⟨c.tx, described.creator, described.hash_eq⟩ ⟨tx, here, rfl⟩

theorem Inv.unspentPrevout (startup : Startup) (here : (ref, tx) ∈ historyOf (blocksOf chain)) {txin : CTxIn}
    (input : txin ∈ tx.vin) (bad : Bool) :
    ∃ b, unspentPrevout node.pdb.open bad txin = .ok b ∧
      (Clean P startup events (chain.map Placed.block) → bad = false → b = false) := by
  rw [Model.unspentPrevout, inv.readTxIndex]
  cases found : ledgerOf P (blocksOf chain) txin.prevout.hash with
  | none => exact ⟨bad, rfl, fun _ => id⟩
  | some c =>
    simp only [Option.map_some]
    refine ⟨_, by rw [failIf_of_not (inv.vSpent_ne_nil found)]; rfl, fun clean good => ?_⟩
    have described := inv.describes found
    have records := inv.valid.applied.records _ c found
    cases kind : tx.isCoinBase with
    | true =>
      rw [CTransaction.isCoinBase_prevout kind input] at described
      exact absurd ⟨c.tx, described.creator, described.hash_eq⟩ (clean.nonzero c.loc)
    | false =>
      obtain ⟨i, at_i⟩ := List.getElem?_of_mem input
      obtain ⟨_, created⟩ := mem_historyOf_blocksOf.mp here
      obtain ⟨p, txp, consumed, hash, _⟩ := inv.exists_consumed ⟨tx, txin, created, kind, at_i, rfl⟩
      have loc : c.loc = p := clean.unique _ _ _
        ⟨c.tx, described.creator, described.hash_eq⟩ ⟨txp, consumed.created, hash⟩
      have marked := records.marked (ref, tx) here txin.prevout.n.toNat
        (loc ▸ consumed.before) (by rw [form_spends kind]; exact List.mem_map_of_mem input)
      have spent : (indexed chain c).vSpent[txin.prevout.n.toNat]? =
          some (some (diskPos chain ref)) := by
        rw [indexed_getElem?, marked]
        rfl
      have bound := (List.getElem?_eq_some_iff.mp spent).1
      have inside : ¬ (indexed chain c).vSpent.length - 1 < txin.prevout.n.toNat := by omega
      simp [good, spent, inside]

variable (found : ledgerOf P (blocksOf chain) id = some c)
  (covers : ∀ (j : ℕ) (q : Placed), c.loc.height ≤ j → chain[j]? = some q → (q.nFile, q.nBlockPos) ∈ mapBlockPos)
include found covers

theorem Inv.badSpent (nCheckLevel : Int) {output : CDiskTxPos × ℕ}
    (member : output ∈ (indexed chain c).vSpent.zipIdx) :
    badSpent node.files nCheckLevel mapBlockPos id output = false := by
  obtain ⟨pos, n⟩ := output
  rw [List.mk_mem_zipIdx_iff_getElem?, indexed_getElem?, Option.map_eq_some_iff] at member
  obtain ⟨spent, atN, rfl⟩ := member
  cases spent with
  | none => rfl
  | some q =>
    have records := inv.valid.applied.records id c found
    obtain ⟨txq, inHistory, later, spends⟩ := records.spender n q atN
    have height := height_mono later.le
    obtain ⟨pos, foundTx⟩ := mem_historyOf_blocksOf.mp inHistory
    obtain ⟨block, inChain, inVtx⟩ := Option.bind_eq_some_iff.mp foundTx
    rw [List.getElem?_map, Option.map_eq_some_iff] at inChain
    obtain ⟨placed, inChain, rfl⟩ := inChain
    have read : node.files.readTx (some (diskPos chain q)) = some txq := by
      rw [diskPos_of_getElem? inChain]
      exact (inv.disk placed (List.mem_of_getElem? inChain)).readTx inVtx
    have seen := covers q.height placed height inChain
    have names : txq.vin.any (fun txin => txin.prevout.hash == id && txin.prevout.n.toNat == n) := by
      cases kind : txq.isCoinBase with
      | true => simp [form_spends_coinbase kind] at spends
      | false =>
        rw [form_spends kind] at spends
        obtain ⟨txin, input, same⟩ := List.mem_map.mp spends
        simp only [outpoint, Prod.mk.injEq] at same
        exact List.any_eq_true.mpr ⟨txin, input, by simp [same]⟩
    have place : (diskPos chain q).nFile = placed.nFile ∧
        (diskPos chain q).nBlockPos = placed.nBlockPos := by
      rw [diskPos_of_getElem? inChain]
      exact ⟨rfl, rfl⟩
    simp [Model.badSpent, badSpender, read, inv.checkTransaction inHistory, names, place, seen]

theorem Inv.badTxIndex (nCheckLevel : Int) (pindex : CBlockIndex) :
    badTxIndex P node.files nCheckLevel mapBlockPos pindex id (indexed chain c) = false := by
  obtain ⟨hash, read⟩ := inv.readTx found
  have position : badPosition P node.files id (indexed chain c).pos = false := by
    simp [badPosition, read, hash]
  have spent : (indexed chain c).vSpent.zipIdx.any (Model.badSpent node.files nCheckLevel mapBlockPos id) =
      false :=
    List.any_eq_false.mpr fun output member => by
      simp [inv.badSpent found covers nCheckLevel member]
  simp [Model.badTxIndex, position, spent]

end

theorem foldlM_clean {γ : Type} {clean : Prop} {f : Bool → γ → Check Bool} {items : List γ}
    (round : ∀ c ∈ items, ∀ bad, ∃ b, f bad c = .ok b ∧ (clean → bad = false → b = false))
    (bad : Bool) :
    ∃ b, items.foldlM f bad = .ok b ∧ (clean → bad = false → b = false) := by
  refine foldlM_complete f items (fun _ b => clean → bad = false → b = false) bad (fun _ => id) ?_
  intro done c rest b split good
  obtain ⟨b', step, good'⟩ := round c (by simp [split]) b
  exact ⟨b', step, fun isClean start => good' isClean (good isClean start)⟩

theorem Inv.verifyTx (inv : Inv P events node chain) (startup : Startup) {k : ℕ} (found : chain[i + 1]? = some p)
    (inVtx : p.block.vtx[k]? = some tx)
    (covers : ∀ (j : ℕ) (q : Placed), i + 1 ≤ j → chain[j]? = some q → (q.nFile, q.nBlockPos) ∈ mapBlockPos)
    (pindex : CBlockIndex) (bad : Bool) :
    ∃ b, verifyTx P startup node mapBlockPos pindex bad tx = .ok b ∧
      (Clean P startup events (chain.map Placed.block) → bad = false → b = false) := by
  have created : txAt (chain.map Placed.block) (place (i + 1) k) = some tx := by
    simp [txAt, found, inVtx]
  have here : (place (i + 1) k, tx) ∈ historyOf (blocksOf chain) :=
    mem_historyOf_blocksOf.mpr ⟨Nat.succ_pos i, created⟩
  have index (clean : Clean P startup events (chain.map Placed.block)) :
      (node.pdb.open.readTxIndex (P.hashTx tx)).any
        (Model.badTxIndex P node.files startup.nCheckLevel mapBlockPos pindex (P.hashTx tx)) =
          false := by
    rw [inv.readTxIndex]
    cases lookup : ledgerOf P (blocksOf chain) (P.hashTx tx) with
    | none => rfl
    | some c =>
      have loc := inv.loc_eq clean created lookup
      exact inv.badTxIndex lookup (by rw [loc]; exact covers) _ pindex
  unfold Model.verifyTx
  by_cases deep : startup.nCheckLevel > 4
  · rw [if_pos deep]
    obtain ⟨b, loop, good⟩ := foldlM_clean
      (fun txin input bad => inv.unspentPrevout startup here input bad) _
    exact ⟨b, loop, fun clean start => good clean (by simp [start, index clean])⟩
  · rw [if_neg deep]
    exact ⟨_, rfl, fun clean start => by simp [start, index clean]⟩

theorem Inv.verifyBlock (inv : Inv P events node chain) (startup : Startup) (found : chain[i + 1]? = some p)
    (covers : ∀ (j : ℕ) (q : Placed), i + 1 ≤ j → chain[j]? = some q → (q.nFile, q.nBlockPos) ∈ mapBlockPos)
    (pindex : CBlockIndex) :
    ∃ b, verifyBlock P startup node mapBlockPos pindex p.block = .ok b ∧
      (Clean P startup events (chain.map Placed.block) → b = false) := by
  have check (clean : Clean P startup events (chain.map Placed.block)) :
      p.block.checkBlock P startup.now = .ok () := by
    obtain ⟨⟨now, received, checked⟩, _⟩ := inv.entered i p found
    exact CBlock.checkBlock_eq_ok.mpr (checked.later (clean.clock now _ received))
  unfold Model.verifyBlock
  by_cases deep : startup.nCheckLevel > 1
  · rw [if_pos deep]
    obtain ⟨b, loop, good⟩ := foldlM_clean (fun tx member bad => by
      obtain ⟨k, inVtx⟩ := List.getElem?_of_mem member
      exact inv.verifyTx startup found inVtx covers pindex bad) _
    exact ⟨b, loop, fun clean => good clean (by simp [check clean])⟩
  · rw [if_neg deep]
    exact ⟨_, rfl, fun clean => by simp [check clean]⟩

theorem readFromDisk_eq_ok {files : BlockFiles} :
    CBlock.readFromDisk P files hash pindex = .ok block ↔
      readBlockAt files.writes pindex.nFile pindex.nBlockPos = some block ∧
      checkProofOfWork block.nBits = .ok () ∧ P.getHash block = hash := by
  unfold CBlock.readFromDisk
  cases readBlockAt files.writes pindex.nFile pindex.nBlockPos with
  | none => simp
  | some found =>
    simp only [seq_eq_ok, mapError_eq_ok, failIf_eq_ok, pure_eq_ok, ne_eq, not_not,
      Option.some.injEq]
    constructor
    · rintro ⟨work, hash, rfl⟩
      exact ⟨rfl, work, hash⟩
    · rintro ⟨rfl, work, hash⟩
      exact ⟨work, hash, rfl⟩

theorem Inv.readFromDisk (inv : Inv P events node chain) {e : CBlockIndex} (found : chain[i]? = some p)
    (is : Matches i p e) : CBlock.readFromDisk P node.files (P.getHash p.block) e = .ok p.block := by
  refine readFromDisk_eq_ok.mpr ⟨?_, ?_, rfl⟩
  · rw [is.nFile, is.nBlockPos]
    exact (inv.disk p (List.mem_of_getElem? found)).readBlockAt
  · cases i with
    | zero =>
      rw [inv.path.genesis] at found
      cases found
      exact genesis_work
    | succ i =>
      obtain ⟨⟨_, _, checked⟩, _⟩ := inv.entered i p found
      exact checked.work

theorem Inv.verifyLoop (inv : Inv P events node chain) (startup : Startup) :
    ∀ (i : ℕ) (p : Placed), chain[i]? = some p → ∀ (mapBlockPos : List (ℕ × ℕ)) (fork : Option Uint256),
      (∀ (j : ℕ) (q : Placed), i < j → chain[j]? = some q → (q.nFile, q.nBlockPos) ∈ mapBlockPos) →
      ∃ f, verifyLoop P startup node
          (node.mapBlockIndex.pprevs (i + 1) (some (P.getHash p.block))) mapBlockPos fork = .ok f ∧
        (Clean P startup events (chain.map Placed.block) → f = fork) := by
  intro i
  induction i with
  | zero =>
    intro p found mapBlockPos fork _
    obtain ⟨e, lookup, is⟩ := inv.path.entry 0 p found
    have pprev : e.pprev = none := by simpa using is.pprev
    refine ⟨fork, ?_, fun _ => rfl⟩
    simp [BlockMap.pprevs, lookup, Model.verifyLoop, pprev]
  | succ i ih =>
    intro p found mapBlockPos fork covers
    obtain ⟨e, lookup, is⟩ := inv.path.entry (i + 1) p found
    obtain ⟨below, foundBelow⟩ := exists_below found
    obtain ⟨walk, pprev⟩ := inv.path.pprevs_succ found foundBelow lookup is
    rw [walk, Model.verifyLoop, if_neg (by simp [pprev])]
    by_cases deep : e.nHeight < node.nBestHeight - startup.depth node.nBestHeight
    · rw [if_pos deep]
      exact ⟨fork, rfl, fun _ => rfl⟩
    · rw [if_neg deep, inv.readFromDisk found is]
      have covers' : ∀ (j : ℕ) (q : Placed), i + 1 ≤ j → chain[j]? = some q →
          (q.nFile, q.nBlockPos) ∈ (e.nFile, e.nBlockPos) :: mapBlockPos := by
        intro j q le inChain
        rcases Nat.lt_or_eq_of_le le with later | rfl
        · exact List.mem_cons_of_mem _ (covers j q later inChain)
        · rw [found] at inChain
          cases inChain
          rw [is.nFile, is.nBlockPos]
          exact List.mem_cons_self
      obtain ⟨bad, verify, good⟩ := inv.verifyBlock startup found covers' e
      obtain ⟨f, rest, kept⟩ := ih below foundBelow _ (if bad then e.pprev else fork) covers'
      refine ⟨f, ?_, fun clean => ?_⟩
      · simp only [Except.mapError, bind, Except.bind, verify]
        exact rest
      · rw [kept clean, good clean]
        rfl

theorem Inv.verifyBestChain (inv : Inv P events node chain) (startup : Startup) :
    ∃ f, verifyBestChain P startup node = .ok f ∧
      (Clean P startup events (chain.map Placed.block) → f = none) := by
  obtain ⟨i, last, atEnd, length, _, walk⟩ := inv.ancestors
  rw [Model.verifyBestChain, walk]
  refine inv.verifyLoop startup i last atEnd [] none fun j q later inChain => ?_
  have := (List.getElem?_eq_some_iff.mp inChain).1
  omega

theorem Path.verifyLoop_fork (path : Path P node.mapBlockIndex chain) :
    ∀ (i : ℕ) (p : Placed), chain[i]? = some p →
      ∀ (mapBlockPos : List (ℕ × ℕ)) (fork f : Option Uint256),
        verifyLoop P startup node
          (node.mapBlockIndex.pprevs (i + 1) (some (P.getHash p.block))) mapBlockPos fork = .ok f →
        f = fork ∨ ∃ j q, j < i ∧ chain[j]? = some q ∧ f = some (P.getHash q.block) := by
  intro i
  induction i with
  | zero =>
    intro p found mapBlockPos fork f loop
    obtain ⟨e, lookup, is⟩ := path.entry 0 p found
    have pprev : e.pprev = none := by simpa using is.pprev
    left
    simpa [BlockMap.pprevs, lookup, Model.verifyLoop, pprev, eq_comm] using loop
  | succ i ih =>
    intro p found mapBlockPos fork f loop
    obtain ⟨e, lookup, is⟩ := path.entry (i + 1) p found
    obtain ⟨below, foundBelow⟩ := exists_below found
    obtain ⟨walk, pprev⟩ := path.pprevs_succ found foundBelow lookup is
    rw [walk, Model.verifyLoop, if_neg (by simp [pprev])] at loop
    by_cases deep : e.nHeight < node.nBestHeight - startup.depth node.nBestHeight
    · rw [if_pos deep] at loop
      exact .inl (Except.ok.inj loop).symm
    · rw [if_neg deep] at loop
      obtain ⟨block, _, loop⟩ := bind_eq_ok.mp loop
      obtain ⟨bad, _, loop⟩ := bind_eq_ok.mp loop
      rcases ih below foundBelow _ _ f loop with same | ⟨j, q, lower, inChain, hash⟩
      · cases bad with
        | false => exact .inl same
        | true => exact .inr ⟨i, below, Nat.lt_succ_self i, foundBelow, same.trans pprev⟩
      · exact .inr ⟨j, q, Nat.lt_succ_of_lt lower, inChain, hash⟩

theorem Inv.prev_ne_tip (inv : Inv P events node chain) (nonzero : node.mapBlockIndex[(0 : Uint256)]? = none)
    (found : chain[j]? = some q) (low : j + 1 < chain.length) : q.block.hashPrevBlock ≠ node.hashBestChain := by
  obtain ⟨i, last, atEnd, length, best, _⟩ := inv.ancestors
  obtain ⟨e, lookup, _⟩ := inv.path.entry i last atEnd
  rw [best]
  intro same
  cases j with
  | zero =>
    rw [inv.path.genesis] at found
    cases found
    rw [← same] at lookup
    change node.mapBlockIndex[(0 : Uint256)]? = some e at lookup
    rw [nonzero] at lookup
    cases lookup
  | succ j =>
    obtain ⟨below, foundBelow⟩ := exists_below found
    rw [inv.path.link j below q foundBelow found] at same
    have := inv.path.index_unique foundBelow atEnd same
    omega

theorem setBestChain_apart (now : Int) (pindex : CBlockIndex) (genesis : node.pindexGenesisBlock.isSome)
    (apart : block.hashPrevBlock ≠ node.hashBestChain) :
    ∃ nDoS messages, setBestChain P now node block pindex =
      (.error (.reject nDoS messages), node) := by
  have notGenesis : ¬ (node.pindexGenesisBlock = none ∧ P.getHash block = hashGenesisBlock P) := by
    rintro ⟨none, _⟩
    rw [none] at genesis
    cases genesis
  have begin : node.pdb.open.txnBegin = .ok (batch node.pdb) := rfl
  rw [setBestChain]
  simp only [begin, if_neg notGenesis, if_neg apart]
  exact ⟨_, _, rfl⟩

theorem moveBack_of_apart (startup : Startup) (genesis : node.pindexGenesisBlock.isSome)
    (lookup : node.mapBlockIndex[fork]? = some pindex)
    (read : CBlock.readFromDisk P node.files fork pindex = .ok block)
    (apart : block.hashPrevBlock ≠ node.hashBestChain) : moveBack P startup node fork = (.ok (), node) := by
  obtain ⟨_, _, outcome⟩ := setBestChain_apart (P := P) startup.now pindex genesis apart
  simp only [moveBack, lookup, read, outcome]

theorem loadBlockIndex_of_loadIndex {loaded : Node} {fork : Option Uint256} (fresh : disk.mapBlockIndex = ∅)
    (load : loadIndex P startup disk = .ok loaded) (verify : verifyBestChain P startup loaded = .ok fork) :
    loadBlockIndex P startup disk = match fork with
      | none => (.ok (), loaded)
      | some fork => moveBack P startup loaded fork := by
  have empty : ¬ disk.mapBlockIndex.isEmpty = false := by simp [fresh]
  simp only [loadBlockIndex, if_neg empty, load, verify]
  cases fork <;> rfl

section
variable (inv : Inv P events node chain)
include inv

theorem Inv.reloaded : Inv P events (reloaded P node.restarted node) chain :=
  ⟨inv.rooted, inv.path, inv.pnext, ⟨inv.tip.best, inv.tip.pindexBest, rfl, inv.tip.record⟩,
    inv.blockindex, inv.txindex, inv.disk, inv.filed, inv.valid, inv.supply, inv.entered⟩

theorem Inv.stores_restarted : Stores node.restarted.pdb node :=
  inv.stores

theorem Inv.loadIndex_restarted (startup : Startup) (nonzero : node.mapBlockIndex[(0 : Uint256)]? = none) :
    Model.loadIndex P startup node.restarted = .ok (Proof.reloaded P node.restarted node) :=
  inv.loadIndex_eq startup nonzero inv.stores_restarted rfl rfl

theorem Inv.fork_below (verify : Model.verifyBestChain P startup (Proof.reloaded P disk node) = .ok (some fork)) :
    ∃ j q, chain[j]? = some q ∧ j + 1 < chain.length ∧ fork = P.getHash q.block := by
  obtain ⟨i, last, atEnd, length, _, walk⟩ := inv.ancestors
  have loop := verify
  rw [Model.verifyBestChain, show (Proof.reloaded P disk node).mapBlockIndex.ancestors
    (Proof.reloaded P disk node).pindexBest = _ from walk] at loop
  have path : Path P (Proof.reloaded P disk node).mapBlockIndex chain := inv.path
  rcases path.verifyLoop_fork i last atEnd _ _ _ loop with none | ⟨j, q, lower, inChain, hash⟩
  · cases none
  · exact ⟨j, q, inChain, by omega, Option.some.inj hash⟩

end

/-- A fresh process on the database of any run gets back the block index and the best chain,
whatever it verifies. No block of the run may have the null hash. -/
theorem loadBlockIndex_run (P : Primitives) (events : List Event) (startup : Startup)
    (nonzero : (run P events).mapBlockIndex[(0 : Uint256)]? = none) :
    let node := run P events
    let loaded := (loadBlockIndex P startup node.restarted).2
    (loadBlockIndex P startup node.restarted).1 = .ok () ∧
    loaded.mapBlockIndex = node.mapBlockIndex ∧
    loaded.pindexGenesisBlock = node.pindexGenesisBlock ∧
    loaded.hashBestChain = node.hashBestChain ∧ loaded.pindexBest = node.pindexBest ∧
    loaded.nBestHeight = node.nBestHeight ∧ loaded.bnBestChainTrust = node.bnBestChainTrust := by
  obtain ⟨chain, inv⟩ := exists_inv P events
  have load := inv.loadIndex_restarted startup nonzero
  obtain ⟨fork, verify, _⟩ := inv.reloaded.verifyBestChain startup
  have step : loadBlockIndex P startup (run P events).restarted =
      (.ok (), reloaded P (run P events).restarted (run P events)) := by
    rw [loadBlockIndex_of_loadIndex rfl load verify]
    cases fork with
    | none => rfl
    | some fork =>
      obtain ⟨j, q, inChain, low, rfl⟩ := inv.fork_below verify
      obtain ⟨e, lookup, is⟩ := inv.reloaded.path.entry j q inChain
      exact moveBack_of_apart startup rfl lookup (inv.reloaded.readFromDisk inChain is)
        (inv.prev_ne_tip nonzero inChain low)
  dsimp only
  rw [step]
  exact ⟨rfl, rfl, inv.tip.genesis.symm, rfl, rfl, rfl, rfl⟩

theorem loadBlockIndex_run_second :
    let node := run toy [.block toyNow firstBlock, .block toyNow secondBlock]
    let startup : Startup := ⟨toyNow, 6, 0, fun _ => 0⟩
    node.mapBlockIndex[(0 : Uint256)]? = none ∧ node.nBestHeight = 2 ∧
    (loadBlockIndex toy startup node.restarted).2.mapBlockIndex = node.mapBlockIndex := by
  have nonzero : (run toy [.block toyNow firstBlock, .block toyNow secondBlock]).mapBlockIndex[
      (0 : Uint256)]? = none := by decide +kernel
  exact ⟨nonzero, by decide +kernel, (loadBlockIndex_run toy _ _ nonzero).2.1⟩

theorem mem_of_readBlockAt {writes : List (ℕ × CBlock)} {nFile nBlockPos : ℕ}
    (read : readBlockAt writes nFile nBlockPos = some block) : ∃ n, (n, block) ∈ writes := by
  induction writes with
  | nil => cases read
  | cons write older ih =>
    rw [readBlockAt] at read
    split at read
    · exact ⟨write.1, by cases read; exact List.mem_cons_self⟩
    · obtain ⟨n, member⟩ := ih read
      exact ⟨n, List.mem_cons_of_mem _ member⟩

theorem Rooted.height_le {map : BlockMap} (rooted : Rooted P map) {a b : Uint256}
    (descends : Relation.ReflTransGen (IsParent map) a b) {ea eb : CBlockIndex}
    (founda : map[a]? = some ea) (foundb : map[b]? = some eb) : ea.nHeight ≤ eb.nHeight := by
  induction descends generalizing eb with
  | refl =>
    rw [founda] at foundb
    cases foundb
    exact le_rfl
  | tail _ parent ih =>
    obtain ⟨e, found, pprev⟩ := parent
    rw [foundb] at found
    cases found
    obtain ⟨pe, lookup, height⟩ := rooted.exists_parent foundb pprev
    exact (ih lookup).trans (by omega)

theorem Inv.tip_not_below (inv : Inv P events node chain) (found : chain[j]? = some q)
    (low : j + 1 < chain.length) :
    ¬ ∃ b, node.pindexBest = some b ∧
      Relation.ReflTransGen (IsParent node.mapBlockIndex) b (P.getHash q.block) := by
  rintro ⟨b, best, descends⟩
  obtain ⟨i, last, atEnd, length, hash, _⟩ := inv.ancestors
  rw [inv.tip.pindexBest, hash] at best
  cases best
  obtain ⟨e, lookup, is⟩ := inv.path.entry i last atEnd
  obtain ⟨f, lookup', is'⟩ := inv.path.entry j q found
  have := inv.rooted.height_le descends lookup lookup'
  rw [is.height, is'.height] at this
  omega

/-- Whatever the blocks and the transaction index of the disk are, whenever the verification finds a
block of the stored chain bad and `LoadBlockIndex` returns true, the tip is still above
`pindexFork`. -/
theorem pindexBest_above_pindexFork (P : Primitives) (events : List Event) (startup : Startup)
    (disk loaded : Node) (pindexFork : Uint256)
    (nonzero : (run P events).mapBlockIndex[(0 : Uint256)]? = none)
    (stores : Stores disk.pdb (run P events)) (empty : disk.mapBlockIndex = ∅)
    (first : disk.pindexGenesisBlock = none)
    (headers : ∀ write ∈ disk.files.writes, ∀ e ∈ (run P events).mapBlockIndex[P.getHash write.2]?,
      write.2.toCBlockHeader = (CDiskBlockIndex.ofIndex e).header)
    (load : loadIndex P startup disk = .ok loaded)
    (bad : verifyBestChain P startup loaded = .ok (some pindexFork))
    (returns : (loadBlockIndex P startup disk).1 = .ok ()) :
    let node := (loadBlockIndex P startup disk).2
    ¬ ∃ b, node.pindexBest = some b ∧
      Relation.ReflTransGen (IsParent node.mapBlockIndex) b pindexFork := by
  obtain ⟨chain, inv⟩ := exists_inv P events
  rw [inv.loadIndex_eq startup nonzero stores empty first] at load
  cases load
  obtain ⟨j, q, inChain, low, rfl⟩ := inv.fork_below bad
  obtain ⟨e, lookup, is⟩ := inv.path.entry j q inChain
  rw [loadBlockIndex_of_loadIndex empty (inv.loadIndex_eq startup nonzero stores empty first) bad]
    at returns ⊢
  simp only at returns ⊢
  have lookup' : (reloaded P disk (run P events)).mapBlockIndex[P.getHash q.block]? = some e := lookup
  cases read : CBlock.readFromDisk P disk.files (P.getHash q.block) e with
  | error failure =>
    have read' : CBlock.readFromDisk P (reloaded P disk (run P events)).files (P.getHash q.block) e =
      .error failure := read
    simp [moveBack, lookup', read'] at returns
  | ok block =>
    obtain ⟨n, written⟩ := mem_of_readBlockAt (readFromDisk_eq_ok.mp read).1
    have hash := (readFromDisk_eq_ok.mp read).2.2
    have header := headers _ written e (by rw [hash]; exact lookup)
    rw [is.header] at header
    have prev : block.hashPrevBlock = q.block.hashPrevBlock := congrArg CBlockHeader.hashPrevBlock header
    rw [moveBack_of_apart startup rfl lookup' read
      (by rw [prev]; exact inv.prev_ne_tip nonzero inChain low)]
    exact inv.tip_not_below inChain low

theorem pindexBest_above_pindexFork_first :
    let node := run toy [.block toyNow firstBlock]
    let startup : Startup := ⟨0, 1, 0, fun _ => 0⟩
    (loadBlockIndex toy startup node.restarted).1 = .ok () ∧
    (loadBlockIndex toy startup node.restarted).2.pindexBest = some (toy.getHash firstBlock) ∧
    ¬ ∃ b, (loadBlockIndex toy startup node.restarted).2.pindexBest = some b ∧
      Relation.ReflTransGen (IsParent (loadBlockIndex toy startup node.restarted).2.mapBlockIndex) b
        (hashGenesisBlock toy) := by
  have nonzero : (run toy [.block toyNow firstBlock]).mapBlockIndex[(0 : Uint256)]? = none := by
    decide +kernel
  have returns : (loadBlockIndex toy ⟨0, 1, 0, fun _ => 0⟩
      (run toy [.block toyNow firstBlock]).restarted).1 = .ok () := by decide +kernel
  obtain ⟨chain, inv⟩ := exists_inv toy [.block toyNow firstBlock]
  refine ⟨returns, by decide +kernel, ?_⟩
  have bad : verifyBestChain toy ⟨0, 1, 0, fun _ => 0⟩ (reloaded toy
      (run toy [.block toyNow firstBlock]).restarted (run toy [.block toyNow firstBlock])) =
        .ok (some (hashGenesisBlock toy)) := by decide +kernel
  exact pindexBest_above_pindexFork toy [.block toyNow firstBlock] ⟨0, 1, 0, fun _ => 0⟩
    (run toy [.block toyNow firstBlock]).restarted _ (hashGenesisBlock toy) nonzero
    inv.stores_restarted rfl rfl (by decide +kernel) (inv.loadIndex_restarted _ nonzero) bad returns

/-- The same start: `pindexFork` is genesis, `SetBestChain` refuses to go back to it and
`LoadBlockIndex` returns true with the bad block at the tip. -/
theorem clockSetBack_keeps_firstBlock :
    let disk := (run toy [.block toyNow firstBlock]).restarted
    let startup : Startup := ⟨0, 1, 0, fun _ => 0⟩
    let step := loadBlockIndex toy startup disk
    (loadIndex toy startup disk).toOption.map (verifyBestChain toy startup) =
      some (.ok (some (hashGenesisBlock toy))) ∧
    step.1 = .ok () ∧ step.2.pindexBest = some (toy.getHash firstBlock) ∧
    (step.2.mapBlockIndex[toy.getHash firstBlock]?).map CBlockIndex.pprev =
      some (some (hashGenesisBlock toy)) := by
  decide +kernel

theorem mem_txids_of_creates (creates : Creates P blocks ref hash) : hash ∈ txids P blocks := by
  obtain ⟨tx, found, rfl⟩ := creates
  obtain ⟨block, inChain, inVtx⟩ := Option.bind_eq_some_iff.mp found
  exact List.mem_flatMap.mpr ⟨block, List.mem_of_getElem? inChain,
    List.mem_map_of_mem (List.mem_of_getElem? inVtx)⟩

theorem creates_unique (nodup : (txids P blocks).Nodup) {p q : TxRef} (hp : Creates P blocks p hash)
    (hq : Creates P blocks q hash) : p = q := by
  obtain ⟨txp, foundp, rfl⟩ := hp
  obtain ⟨txq, foundq, same⟩ := hq
  obtain ⟨bp, inChainp, inVtxp⟩ := Option.bind_eq_some_iff.mp foundp
  obtain ⟨bq, inChainq, inVtxq⟩ := Option.bind_eq_some_iff.mp foundq
  obtain ⟨within, across⟩ := List.nodup_flatMap.mp nodup
  have memp : P.hashTx txp ∈ bp.vtx.map P.hashTx := List.mem_map_of_mem (List.mem_of_getElem? inVtxp)
  have memq : P.hashTx txp ∈ bq.vtx.map P.hashTx :=
    same ▸ List.mem_map_of_mem (List.mem_of_getElem? inVtxq)
  obtain ⟨ltp, rfl⟩ := List.getElem?_eq_some_iff.mp inChainp
  obtain ⟨ltq, rfl⟩ := List.getElem?_eq_some_iff.mp inChainq
  have height : p.height = q.height := by
    rcases Nat.lt_trichotomy p.height q.height with lt | eq | gt
    · exact absurd memq (List.pairwise_iff_getElem.mp across _ _ ltp ltq lt memp)
    · exact eq
    · exact absurd memp (List.pairwise_iff_getElem.mp across _ _ ltq ltp gt memq)
  have index : p.index = q.index := by
    refine (List.getElem?_inj ?_ (within blocks[p.height] (List.getElem_mem ltp))).mp ?_
    · rw [List.length_map]
      exact (List.getElem?_eq_some_iff.mp inVtxp).1
    · simp only [← height] at inVtxq
      rw [List.getElem?_map, List.getElem?_map, inVtxp, inVtxq, Option.map_some, Option.map_some, same]
  exact Prod.ext height index

/-- The verification of a stored chain finds nothing bad, at any level and depth, if no txid was used
twice and the clock was not set back. No block and no transaction may have the null hash. -/
theorem verifyBestChain_run (P : Primitives) (events : List Event) (startup : Startup)
    (nonzero : (run P events).mapBlockIndex[(0 : Uint256)]? = none)
    (nodup : (txids P (bestBlocks (run P events))).Nodup)
    (nonnull : (0 : Uint256) ∉ txids P (bestBlocks (run P events)))
    (clock : ∀ now block, Event.block now block ∈ events → now ≤ startup.now) :
    ∃ loaded, loadIndex P startup (run P events).restarted = .ok loaded ∧
      verifyBestChain P startup loaded = .ok none := by
  obtain ⟨chain, inv⟩ := exists_inv P events
  rw [inv.bestBlocks] at nodup nonnull
  have clean : Clean P startup events (chain.map Placed.block) :=
    ⟨clock, fun p q hash => creates_unique nodup, fun p created => nonnull (mem_txids_of_creates created)⟩
  obtain ⟨fork, verify, good⟩ := inv.reloaded.verifyBestChain startup
  rw [good clean] at verify
  exact ⟨_, inv.loadIndex_restarted startup nonzero, verify⟩

theorem verifyBestChain_run_second :
    let events := [Event.block toyNow firstBlock, .block toyNow secondBlock]
    (txids toy (bestBlocks (run toy events))).length = 3 ∧
    ∃ loaded, loadIndex toy ⟨toyNow, 6, 0, fun _ => 0⟩ (run toy events).restarted = .ok loaded ∧
      verifyBestChain toy ⟨toyNow, 6, 0, fun _ => 0⟩ loaded = .ok none := by
  refine ⟨by decide +kernel, ?_⟩
  refine verifyBestChain_run toy [.block toyNow firstBlock, .block toyNow secondBlock] _
    (by decide +kernel) (by decide +kernel) (by decide +kernel) ?_
  intro now block received
  simp only [List.mem_cons, Event.block.injEq, List.not_mem_nil, or_false] at received
  rcases received with ⟨rfl, _⟩ | ⟨rfl, _⟩ <;> exact le_rfl

end RitCoin.Proof
