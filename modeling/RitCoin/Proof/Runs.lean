import RitCoin.Proof.Preservation

namespace RitCoin.Proof
open Lib Model Spec Std

variable {P : Primitives} {node : Node} {chain : List Placed} {events : List Event}

def genesisChain (P : Primitives) : List Placed := [⟨1, 8, genesisBlock P⟩]

theorem genesis_work : checkProofOfWork (genesisBlock P).nBits = .ok () := by
  change checkProofOfWork (getCompact bnProofOfWorkLimit) = .ok ()
  decide +kernel

theorem genesis_checked {now : Int} (time : (genesisBlock P).getBlockTime ≤ now + nMaxClockDrift) :
    (genesisBlock P).Checked P now where
  nonempty := by simp [genesisBlock]
  count := by simp [genesisBlock, MAX_BLOCK_SIZE]
  size := by
    change 4 + 32 + 32 + 4 + 4 + 4 + bytesSize [] + bytesSize [] + vtxSize [genesisTx] ≤ _
    decide
  work := genesis_work
  time := time
  coinbase := rfl
  single := rfl
  coinbaseTime := Int.le_add_of_nonneg_right (by decide)
  txs := by simp [genesisBlock]; decide
  nodup := by simp [genesisBlock]
  sigOps := by
    change genesisTx.getLegacySigOpCount + 0 ≤ _
    decide +kernel
  merkle := rfl

theorem genesisIndex_getBlockTrust : (genesisIndex P).getBlockTrust = 1 := by
  have nBits : (genesisIndex P).nBits = getCompact bnProofOfWorkLimit := rfl
  have positive : ¬ setCompact (getCompact bnProofOfWorkLimit) ≤ 0 := by decide +kernel
  simp [CBlockIndex.getBlockTrust, nBits, positive]

theorem genesisIndex_bnChainTrust : (genesisIndex P).bnChainTrust = (genesisIndex P).getBlockTrust := by
  simp [genesisIndex, newBlockIndex, CBlockIndex.getBlockTrust]

theorem addWritten_genesis (now : Int) (node : Node) (block : CBlock)
    (fresh : node.mapBlockIndex[P.getHash block]? = none) (first : node.pindexGenesisBlock = none)
    (hash : P.getHash block = hashGenesisBlock P)
    (high : node.bnBestChainTrust < (newIndex node block).bnChainTrust) :
    addWritten P now node block = (.ok (), { stored P node block with
      pdb := (stored P node block).pdb.insert .hashBestChain (.uint256 (P.getHash block))
      pindexGenesisBlock := some (P.getHash block) }.setBest (P.getHash block) (newIndex node block)) := by
  have begin : (stored P node block).pdb.open.txnBegin = .ok (batch (stored P node block).pdb) := rfl
  rw [addWritten_eq fresh, if_pos high, setBestChain]
  simp only [begin]
  rw [if_pos ⟨first, hash⟩]
  rfl

theorem initialBlock_of_checked {now : Int} (checked : (genesisBlock P).Checked P now) (node : Node) :
    initialBlock P now node = addWritten P now node (genesisBlock P) := by
  unfold initialBlock
  split
  · next failure =>
      rw [CBlock.checkBlock_eq_ok.mpr checked] at failure
      cases failure
  · rfl

theorem initialBlock_fresh {now : Int} (time : (genesisBlock P).getBlockTime ≤ now + nMaxClockDrift) :
    initialBlock P now .fresh = (.ok (), genesisNode P) := by
  have trust : (newIndex .fresh (genesisBlock P)).bnChainTrust = 1 :=
    genesisIndex_bnChainTrust.trans genesisIndex_getBlockTrust
  refine (initialBlock_of_checked (genesis_checked time) .fresh).trans ?_
  refine (addWritten_genesis now .fresh (genesisBlock P) (by simp [Node.fresh]) rfl rfl ?_).trans ?_
  · rw [trust]
    exact Int.one_pos
  · rfl

theorem genesisNode_mapBlockIndex (h : Uint256) : (genesisNode P).mapBlockIndex[h]? =
    if hashGenesisBlock P = h then some (genesisIndex P) else none := by
  simp [genesisNode, ExtTreeMap.getElem?_insert]

theorem genesisNode_only {h : Uint256} {e : CBlockIndex}
    (found : (genesisNode P).mapBlockIndex[h]? = some e) :
    h = hashGenesisBlock P ∧ e = genesisIndex P := by
  rw [genesisNode_mapBlockIndex] at found
  split_ifs at found with same
  exact ⟨same.symm, (Option.some.inj found).symm⟩

theorem genesisNode_self :
    (genesisNode P).mapBlockIndex[hashGenesisBlock P]? = some (genesisIndex P) := by
  simp [genesisNode_mapBlockIndex]

theorem Rooted.genesis : Rooted P (genesisNode P).mapBlockIndex where
  root := ⟨genesisIndex P, genesisNode_self, rfl, rfl, genesisIndex_bnChainTrust⟩
  parent h e found ne := absurd (genesisNode_only found).1 ne
  nonneg h e found := by
    obtain ⟨_, rfl⟩ := genesisNode_only found
    exact le_rfl
  header h e found := by
    obtain ⟨rfl, rfl⟩ := genesisNode_only found
    rfl

theorem mem_genesisChain {i : ℕ} {placed : Placed} (found : (genesisChain P)[i]? = some placed) :
    i = 0 ∧ placed = ⟨1, 8, genesisBlock P⟩ := by
  cases i with
  | zero => exact ⟨rfl, (Option.some.inj found).symm⟩
  | succ i => cases found

theorem Path.genesisChain : Path P (genesisNode P).mapBlockIndex (genesisChain P) where
  genesis := rfl
  entry i placed found := by
    obtain ⟨rfl, rfl⟩ := mem_genesisChain found
    exact ⟨genesisIndex P, genesisNode_self, rfl, rfl, rfl, rfl, rfl⟩
  link i p q _ found := by cases (mem_genesisChain found).1

theorem Inv.genesis : Inv P [] (genesisNode P) (genesisChain P) where
  rooted := .genesis
  path := .genesisChain
  pnext h e found h' := by
    obtain ⟨_, rfl⟩ := genesisNode_only found
    constructor
    · intro next
      cases next
    · rintro ⟨i, p, q, _, hq, _⟩
      cases (mem_genesisChain hq).1
  tip := ⟨⟨⟨1, 8, genesisBlock P⟩, genesisIndex P, rfl, rfl, genesisNode_self, rfl, rfl⟩, rfl, rfl,
    by simp [genesisNode]⟩
  blockindex h := by
    rw [genesisNode_mapBlockIndex]
    simp only [genesisNode, ExtTreeMap.getElem?_insert]
    by_cases same : hashGenesisBlock P = h
    · simp [same]
    · simp [same]
  txindex id := by simp [genesisNode, blocksOf, genesisChain, ledgerOf]
  disk placed member := by
    obtain ⟨i, found⟩ := List.getElem?_of_mem member
    obtain ⟨_, rfl⟩ := mem_genesisChain found
    exact ⟨[], [], rfl, rfl⟩
  filed h e found := by
    obtain ⟨_, rfl⟩ := genesisNode_only found
    exact ⟨genesisBlock P, ⟨[], [], rfl, rfl⟩, rfl⟩
  valid := .genesis
  supply e found := by
    obtain ⟨_, rfl⟩ := genesisNode_only found
    exact total_ledgerOf_nil.symm
  entered i placed found := by cases (mem_genesisChain found).1

structure Extends (P : Primitives) (now : Int) (chain : List Placed) (block : CBlock) : Prop where
  admitted : ∃ events node pindexPrev, Inv P events node chain ∧
    Admission P now node block pindexPrev ∧ block.hashPrevBlock = node.hashBestChain
  accepts : Accepts now (ledgerOf P (blocksOf chain)) chain.length block

theorem Inv.receive (inv : Inv P events node chain) (event : Event) :
    Inv P (events ++ [event]) (node.receive P event) chain ∨
    ∃ now block, event = .block now block ∧ Extends P now chain block ∧
      Inv P (events ++ [event]) (node.receive P event) (chain ++ [placedAt node block]) := by
  have grown := inv.mono (List.subset_append_left events [event])
  cases event with
  | mempool mempool => exact .inl (grown.mempool mempool)
  | block now block =>
    have effect := inv.effect now block
    simp only [Node.receive]
    generalize processBlock P now node block = step at effect
    cases effect with
    | rejected => exact .inl grown
    | orphan => exact .inl grown
    | side admission => exact .inl (grown.store admission)
    | apart _ admission => exact .inl (grown.store admission)
    | failed _ reason admission => exact .inl ((grown.store admission).afterFailure _ reason)
    | connected admission _ tip connect =>
      refine .inr ⟨now, block, rfl, ?_, grown.connect admission tip connect (by simp)⟩
      exact ⟨⟨events, node, _, inv, admission, tip⟩,
        (connectBlock_sound (inv.ready admission.attachable tip) connect).1⟩

def Grown (P : Primitives) (events : List Event) (chain : List Placed) : Prop :=
  ∀ n placed, chain[n + 1]? = some placed →
    ∃ now, Event.block now placed.block ∈ events ∧ Extends P now (chain.take (n + 1)) placed.block

theorem Grown.mono {events' : List Event} (grown : Grown P events chain) (sub : events ⊆ events') :
    Grown P events' chain := by
  intro n placed found
  obtain ⟨now, received, fits⟩ := grown n placed found
  exact ⟨now, sub received, fits⟩

theorem Grown.append {now : Int} {placed : Placed} (grown : Grown P events chain)
    (fits : Extends P now chain placed.block) (received : Event.block now placed.block ∈ events) :
    Grown P events (chain ++ [placed]) := by
  intro n q found
  rcases Nat.lt_or_ge (n + 1) chain.length with low | high
  · rw [List.getElem?_append_left low] at found
    rw [List.take_append_of_le_length low.le]
    exact grown n q found
  · have bound := (List.getElem?_eq_some_iff.mp found).1
    have last : n + 1 = chain.length := by
      simp only [List.length_append, List.length_singleton] at bound
      omega
    rw [List.getElem?_append_right high] at found
    obtain rfl : q = placed := by simpa using List.mem_of_getElem? found
    rw [last, List.take_left]
    exact ⟨now, received, fits⟩

theorem run_append (events : List Event) (event : Event) :
    run P (events ++ [event]) = (run P events).receive P event := by
  simp [run]

theorem exists_grown (P : Primitives) (events : List Event) :
    ∃ chain, Inv P events (run P events) chain ∧ Grown P events chain := by
  induction events using List.reverseRecOn with
  | nil => exact ⟨genesisChain P, .genesis, fun n placed found => by cases (mem_genesisChain found).1⟩
  | append_singleton events event ih =>
    obtain ⟨chain, inv, grown⟩ := ih
    have grown := grown.mono (List.subset_append_left events [event])
    rw [run_append]
    rcases inv.receive event with same | ⟨now, block, rfl, fits, longer⟩
    · exact ⟨chain, same, grown⟩
    · exact ⟨_, longer, grown.append fits (by simp [placedAt])⟩

theorem exists_inv (P : Primitives) (events : List Event) :
    ∃ chain, Inv P events (run P events) chain := by
  obtain ⟨chain, inv, _⟩ := exists_grown P events
  exact ⟨chain, inv⟩

/-- Functions with which a run can be evaluated: hashes tell time stamps and nonces apart, and a
signature is good when it starts with 1. -/
def toy : Primitives where
  hashTx tx := BitVec.ofNat 256 tx.nTime.toNat
  hashHeader header := BitVec.ofNat 256 (header.nTime.toNat * 256 + header.nNonce.toNat)
  hashPair a _ := a
  rsaPublicDecrypt _ signature := if signature.head? = some 1 then some [] else none
  sha512 _ := []
  verifyScript _ _ _ _ _ _ := true

def toyCoinbase (nTime : UInt32) : CTransaction where
  nVersion := 1
  nTime := nTime
  vin := [⟨⟨0, 0xffffffff⟩, [0, 0], 0xffffffff⟩]
  vout := [⟨0, []⟩]
  nLockTime := 0

def toyBlock (hashPrevBlock : Uint256) (seconds nNonce : UInt32) (signature : UInt8) : CBlock where
  nVersion := 1
  hashPrevBlock := hashPrevBlock
  hashMerkleRoot := toy.hashTx (toyCoinbase (1459892820 + seconds))
  nTime := 1459892820 + seconds
  nBits := getCompact bnProofOfWorkLimit
  nNonce := nNonce
  integrity := []
  authenticity := List.replicate 512 signature
  vtx := [toyCoinbase (1459892820 + seconds)]

def toyNow : Int := 1459893820

end RitCoin.Proof
