import RitCoin.Proof.Placement
import RitCoin.Proof.Step

namespace RitCoin.Proof
open Lib Model Spec Std
variable {map map' : BlockMap} {h : Uint256} {e : CBlockIndex} {chain : List Placed} {P : Primitives}

def core (e : CBlockIndex) : CBlockIndex := { e with pnext := none, nMint := 0, nMoneySupply := 0 }

structure Rooted (P : Primitives) (map : BlockMap) : Prop where
  root : ∃ e, map[hashGenesisBlock P]? = some e ∧ e.pprev = none ∧ e.nHeight = 0 ∧
    e.bnChainTrust = e.getBlockTrust
  parent : ∀ (h : Uint256) (e : CBlockIndex), map[h]? = some e → h ≠ hashGenesisBlock P →
    ∃ (p : Uint256) (pe : CBlockIndex), e.pprev = some p ∧ map[p]? = some pe ∧
      e.nHeight = pe.nHeight + 1 ∧
      e.bnChainTrust = pe.bnChainTrust + e.getBlockTrust
  nonneg : ∀ (h : Uint256) (e : CBlockIndex), map[h]? = some e → 0 ≤ e.nHeight
  header : ∀ (h : Uint256) (e : CBlockIndex), map[h]? = some e → P.hashHeader (CDiskBlockIndex.ofIndex e).header = h

structure Matches (i : ℕ) (placed : Placed) (e : CBlockIndex) : Prop where
  height : e.nHeight = i
  nFile : e.nFile = placed.nFile
  nBlockPos : e.nBlockPos = placed.nBlockPos
  header : (CDiskBlockIndex.ofIndex e).header = placed.block.toCBlockHeader
  pprev : e.pprev = if i = 0 then none else some placed.block.hashPrevBlock

structure Path (P : Primitives) (map : BlockMap) (chain : List Placed) : Prop where
  genesis : chain[0]? = some ⟨1, 8, genesisBlock P⟩
  entry : ∀ i placed, chain[i]? = some placed →
    ∃ e, map[P.getHash placed.block]? = some e ∧ Matches i placed e
  link : ∀ i p q, chain[i]? = some p → chain[i + 1]? = some q →
    q.block.hashPrevBlock = P.getHash p.block

def SameCore (map map' : BlockMap) : Prop := ∀ h : Uint256, (map'[h]?).map core = (map[h]?).map core

theorem SameCore.exists_some (same : SameCore map map') (found : map[h]? = some e) :
    ∃ e', map'[h]? = some e' ∧ core e' = core e := by
  have := same h
  rw [found] at this
  simpa using this

theorem SameCore.symm (same : SameCore map map') : SameCore map' map :=
  fun h => (same h).symm

theorem core_eq {e' : CBlockIndex} (same : core e' = core e) :
    e'.pprev = e.pprev ∧ e'.nHeight = e.nHeight ∧ e'.bnChainTrust = e.bnChainTrust ∧
    e'.nFile = e.nFile ∧ e'.nBlockPos = e.nBlockPos ∧ e'.getBlockTrust = e.getBlockTrust ∧
    (CDiskBlockIndex.ofIndex e').header = (CDiskBlockIndex.ofIndex e).header := by
  simp only [core, CBlockIndex.mk.injEq] at same
  obtain ⟨pprev, _, nFile, nBlockPos, trust, height, _, _, nVersion, merkle, nTime, nBits, nNonce⟩ := same
  refine ⟨pprev, height, trust, nFile, nBlockPos, by simp [CBlockIndex.getBlockTrust, nBits], ?_⟩
  simp [CDiskBlockIndex.ofIndex, CDiskBlockIndex.header, pprev, nVersion, merkle, nTime, nBits, nNonce]

theorem Rooted.congr (tree : Rooted P map) (same : SameCore map map') : Rooted P map' where
  root := by
    obtain ⟨e, found, pprev, height, trust⟩ := tree.root
    obtain ⟨e', found', eq⟩ := same.exists_some found
    obtain ⟨pprev', height', trust', _, _, weight, _⟩ := core_eq eq
    exact ⟨e', found', by rw [pprev', pprev], by rw [height', height], by rw [trust', trust, weight]⟩
  parent h e' found' ne := by
    obtain ⟨e, found, eq⟩ := same.symm.exists_some found'
    obtain ⟨p, pe, pprev, parent, height, trust⟩ := tree.parent h e found ne
    obtain ⟨pe', parent', eq'⟩ := same.exists_some parent
    obtain ⟨a₁, a₂, a₃, _, _, a₄, _⟩ := core_eq eq
    obtain ⟨_, b₂, b₃, _, _, _, _⟩ := core_eq eq'
    exact ⟨p, pe', by rw [← a₁, pprev], parent', by rw [← a₂, height, b₂],
      by rw [← a₃, trust, a₄, b₃]⟩
  nonneg h e' found' := by
    obtain ⟨e, found, eq⟩ := same.symm.exists_some found'
    exact (core_eq eq).2.1 ▸ tree.nonneg h e found
  header h e' found' := by
    obtain ⟨e, found, eq⟩ := same.symm.exists_some found'
    rw [← (core_eq eq).2.2.2.2.2.2]
    exact tree.header h e found

theorem Matches.congr {i : ℕ} {placed : Placed} {e' : CBlockIndex} (is : Matches i placed e)
    (same : core e' = core e) : Matches i placed e' := by
  obtain ⟨pprev, height, _, nFile, nBlockPos, _, header⟩ := core_eq same
  exact ⟨height ▸ is.height, nFile ▸ is.nFile, nBlockPos ▸ is.nBlockPos, header ▸ is.header,
    pprev ▸ is.pprev⟩

theorem Path.congr (path : Path P map chain) (same : SameCore map map') : Path P map' chain where
  genesis := path.genesis
  entry i placed found := by
    obtain ⟨e, lookup, is⟩ := path.entry i placed found
    obtain ⟨e', lookup', eq⟩ := same.exists_some lookup
    exact ⟨e', lookup', is.congr eq⟩
  link := path.link

theorem Rooted.exists_parent (tree : Rooted P map) {x : Uint256} (found : map[h]? = some e)
    (pprev : e.pprev = some x) : ∃ pe, map[x]? = some pe ∧ e.nHeight = pe.nHeight + 1 := by
  by_cases root : h = hashGenesisBlock P
  · obtain ⟨e', atRoot, none, _⟩ := tree.root
    rw [root, atRoot] at found
    cases found
    rw [none] at pprev
    cases pprev
  · obtain ⟨p, pe, parent, known, height, _⟩ := tree.parent h e found root
    rw [parent, Option.some.injEq] at pprev
    exact ⟨pe, pprev ▸ known, height⟩

theorem Rooted.pprev_ne (tree : Rooted P map) {x : Uint256} (fresh : map[x]? = none) (found : map[h]? = some e) :
    e.pprev ≠ some x := by
  intro pprev
  obtain ⟨pe, known, _⟩ := tree.exists_parent found pprev
  rw [fresh] at known
  cases known

section Stored
variable {now : Int} {node : Node} {block : CBlock} {pindexPrev : CBlockIndex}

def placedAt (node : Node) (block : CBlock) : Placed :=
  ⟨(node.files.writeToDisk block).2.1, (node.files.writeToDisk block).2.2, block⟩

section
variable (attachable : Attachable P node block pindexPrev)
include attachable

theorem Attachable.header : (CDiskBlockIndex.ofIndex (newIndex node block)).header = block.toCBlockHeader := by
  simp [CDiskBlockIndex.ofIndex, CDiskBlockIndex.header, attachable.pprev]
  simp [newIndex, newBlockIndex]

theorem Attachable.height : (newIndex node block).nHeight = pindexPrev.nHeight + 1 := by
  simp [newIndex, newBlockIndex, attachable.parent]

theorem Attachable.trust :
    (newIndex node block).bnChainTrust =
      pindexPrev.bnChainTrust + (newIndex node block).getBlockTrust := by
  simp [newIndex, newBlockIndex, attachable.parent, CBlockIndex.getBlockTrust]

end

theorem newIndex_getBlockTrust (checked : block.Checked P now) (node : Node) :
    (newIndex node block).getBlockTrust = 1 := by
  have work := checked.work
  simp only [checkProofOfWork, failIf_eq_ok, not_or] at work
  have nBits : (newIndex node block).nBits = block.nBits := rfl
  simp [CBlockIndex.getBlockTrust, nBits, work.1]

theorem stored_getElem? (P : Primitives) (node : Node) (block : CBlock) (h : Uint256) :
    (stored P node block).mapBlockIndex[h]? =
      if P.getHash block = h then some (newIndex node block) else node.mapBlockIndex[h]? := by
  simp [stored, ExtTreeMap.getElem?_insert]

theorem Attachable.stored_old (attachable : Attachable P node block pindexPrev)
    (found : node.mapBlockIndex[h]? = some e) : (stored P node block).mapBlockIndex[h]? = some e := by
  rw [stored_getElem?, if_neg, found]
  rintro rfl
  rw [attachable.fresh] at found
  cases found

theorem Rooted.store (tree : Rooted P node.mapBlockIndex)
    (attachable : Attachable P node block pindexPrev) :
    Rooted P (stored P node block).mapBlockIndex where
  root := by
    obtain ⟨e, found, rest⟩ := tree.root
    exact ⟨e, attachable.stored_old found, rest⟩
  parent h e found ne := by
    rw [stored_getElem?] at found
    split at found
    · cases found
      exact ⟨_, pindexPrev, attachable.pprev, attachable.stored_parent, attachable.height, attachable.trust⟩
    · obtain ⟨p, pe, pprev, parent, rest⟩ := tree.parent h e found ne
      exact ⟨p, pe, pprev, attachable.stored_old parent, rest⟩
  nonneg h e found := by
    rw [stored_getElem?] at found
    split at found
    · cases found
      have := tree.nonneg _ _ attachable.parent
      rw [attachable.height]
      omega
    · exact tree.nonneg h e found
  header h e found := by
    rw [stored_getElem?] at found
    split at found
    · next same =>
        cases found
        rw [attachable.header, ← same]
        rfl
    · exact tree.header h e found

variable (path : Path P node.mapBlockIndex chain) (attachable : Attachable P node block pindexPrev)
include path attachable

theorem Path.store : Path P (stored P node block).mapBlockIndex chain where
  genesis := path.genesis
  entry i placed found := by
    obtain ⟨e, lookup, is⟩ := path.entry i placed found
    exact ⟨e, attachable.stored_old lookup, is⟩
  link := path.link

theorem Path.extend {last : Placed} (top : chain.getLast? = some last)
    (prev : block.hashPrevBlock = P.getHash last.block) :
    Path P (stored P node block).mapBlockIndex (chain ++ [placedAt node block]) := by
  obtain ⟨n, length⟩ : ∃ n, chain.length = n + 1 := by
    cases chain with
    | nil => simp at top
    | cons p chain => exact ⟨chain.length, rfl⟩
  have atEnd : chain[n]? = some last := by
    rw [List.getLast?_eq_getElem?, length] at top
    exact top
  refine ⟨?_, ?_, ?_⟩
  · rw [List.getElem?_append_left (by omega), path.genesis]
  · intro i placed found
    rcases Nat.lt_or_ge i chain.length with low | high
    · rw [List.getElem?_append_left low] at found
      exact (path.store attachable).entry i placed found
    · rw [List.getElem?_append_right high] at found
      obtain rfl : i = n + 1 := by
        have := (List.getElem?_eq_some_iff.mp found).1
        simp at this
        omega
      simp only [length, Nat.sub_self, List.getElem?_cons_zero, Option.some.injEq] at found
      subst found
      obtain ⟨e, lookup, is⟩ := path.entry n last atEnd
      have same : pindexPrev = e := by
        have := attachable.parent
        rw [prev, lookup] at this
        exact (Option.some.inj this).symm
      refine ⟨newIndex node block, by simp [stored_getElem?, placedAt], ?_, rfl, rfl, attachable.header, ?_⟩
      · rw [attachable.height, same, is.height]
        push_cast
        rfl
      · simp [attachable.pprev, placedAt]
  · intro i p q found found'
    rcases Nat.lt_or_ge (i + 1) chain.length with low | high
    · rw [List.getElem?_append_left (by omega)] at found
      rw [List.getElem?_append_left low] at found'
      exact path.link i p q found found'
    · rw [List.getElem?_append_right high] at found'
      obtain rfl : i = n := by
        have := (List.getElem?_eq_some_iff.mp found').1
        simp at this
        omega
      rw [List.getElem?_append_left (by omega), atEnd] at found
      simp only [length, Nat.sub_self, List.getElem?_cons_zero, Option.some.injEq] at found'
      cases found
      subst found'
      exact prev

end Stored

end RitCoin.Proof
