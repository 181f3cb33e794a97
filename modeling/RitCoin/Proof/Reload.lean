import RitCoin.Model.LoadBlockIndex
import RitCoin.Proof.BestChain

namespace RitCoin.Proof
open Lib Model Spec Std
variable {map m : BlockMap} {h : Uint256} {x e : CBlockIndex} {done : List (Uint256 × CDiskBlockIndex)}
  {loading disk node : Node} {P : Primitives} {chain : List Placed} {events : List Event}

theorem blockRecord?_eq_some {record : DbKey × DbValue} {entry : Uint256 × CDiskBlockIndex} :
    blockRecord? record = some entry ↔ record = (.blockindex entry.1, .blockIndex entry.2) := by
  obtain ⟨key, value⟩ := record
  cases key <;> cases value <;> simp [blockRecord?, Prod.ext_iff]

structure Stores (pdb : LevelDB) (node : Node) : Prop where
  blockindex : ∀ h, pdb[DbKey.blockindex h]? =
    (node.mapBlockIndex[h]?).map fun e => .blockIndex (.ofIndex e)
  best : pdb[DbKey.hashBestChain]? = some (.uint256 node.hashBestChain)

theorem Inv.stores (inv : Inv P events node chain) : Stores node.pdb node :=
  ⟨inv.blockindex, inv.tip.record⟩

theorem Stores.mem_records {pdb : LevelDB} (stores : Stores pdb node)
    {entry : Uint256 × CDiskBlockIndex} :
    entry ∈ pdb.toList.filterMap blockRecord? ↔
      ∃ e, node.mapBlockIndex[entry.1]? = some e ∧ entry.2 = .ofIndex e := by
  simp only [List.mem_filterMap, blockRecord?_eq_some, exists_eq_right,
    ExtTreeMap.mem_toList_iff_getElem?_eq_some, stores.blockindex, Option.map_eq_some_iff,
    DbValue.blockIndex.injEq]
  exact exists_congr fun e => and_congr_right fun _ => eq_comm

/-- What loading needs of a block index: every hash that an entry holds or names is known and
tells the entry, and none is the null hash. -/
structure Loadable (P : Primitives) (map : BlockMap) : Prop where
  nonzero : map[(0 : Uint256)]? = none
  header : ∀ (h : Uint256) (e : CBlockIndex), map[h]? = some e →
    P.hashHeader (CDiskBlockIndex.ofIndex e).header = h
  pprev : ∀ (h : Uint256) (e : CBlockIndex) (p : Uint256), map[h]? = some e → e.pprev = some p →
    ∃ e', map[p]? = some e'
  pnext : ∀ (h : Uint256) (e : CBlockIndex) (n : Uint256), map[h]? = some e → e.pnext = some n →
    ∃ e', map[n]? = some e'

theorem Inv.loadable (inv : Inv P events node chain)
    (nonzero : node.mapBlockIndex[(0 : Uint256)]? = none) : Loadable P node.mapBlockIndex where
  nonzero := nonzero
  header := inv.rooted.header
  pprev h e p found pprev := by
    cases lookup : node.mapBlockIndex[p]? with
    | none => exact absurd pprev (inv.rooted.pprev_ne lookup found)
    | some e' => exact ⟨e', rfl⟩
  pnext h e n found pnext := by
    obtain ⟨i, _, q, _, above, _, rfl⟩ := (inv.pnext h e found n).mp pnext
    obtain ⟨e', lookup, _⟩ := inv.path.entry (i + 1) q above
    exact ⟨e', lookup⟩

def trustless (e : CBlockIndex) : CBlockIndex := { e with bnChainTrust := 0 }

theorem insertBlockIndex_getElem? (map : BlockMap) (hash h : Uint256) :
    (map.insertBlockIndex hash).1[h]? =
      if hash = h ∧ hash ≠ 0 then some ((map[h]?).getD .null) else map[h]? := by
  unfold BlockMap.insertBlockIndex
  by_cases zero : hash = 0
  · simp [zero]
  · rw [if_neg zero]
    cases found : map[hash]? with
    | none =>
      rw [if_neg (by rw [contains_eq_false.mpr found]; exact Bool.false_ne_true),
        ExtTreeMap.getElem?_insert]
      by_cases same : hash = h
      · subst same
        simpa [found] using zero
      · simp [same]
    | some e =>
      rw [if_pos (contains_eq_true.mpr ⟨e, found⟩)]
      by_cases same : hash = h
      · subst same
        simp [found]
      · simp [same]

theorem insertBlockIndex_of_some (found : map[h]? = some x) (hash : Uint256) :
    (map.insertBlockIndex hash).1[h]? = some x := by
  rw [insertBlockIndex_getElem?, found]
  split <;> rfl

theorem insertBlockIndex_snd (map : BlockMap) {p : Option Uint256} (nonzero : p ≠ some 0) :
    (map.insertBlockIndex (p.getD 0)).2 = p := by
  cases p with
  | none => simp [BlockMap.insertBlockIndex]
  | some hash =>
    have zero : hash ≠ 0 := fun h => nonzero (by rw [h])
    simp only [BlockMap.insertBlockIndex, Option.getD_some, if_neg zero]
    split <;> rfl

structure Scanned (map : BlockMap) (done : List (Uint256 × CDiskBlockIndex)) (m : BlockMap) :
    Prop where
  loaded : ∀ entry ∈ done, ∃ e, map[entry.1]? = some e ∧ m[entry.1]? = some (trustless e)
  only : ∀ (h : Uint256) (x : CBlockIndex), m[h]? = some x →
    (∃ e, map[h]? = some e) ∧ x.bnChainTrust = 0

theorem Scanned.touch (scanned : Scanned map done m) (p : Option Uint256)
    (known : ∀ hash, p = some hash → ∃ e, map[hash]? = some e) :
    Scanned map done (m.insertBlockIndex (p.getD 0)).1 where
  loaded entry member := by
    obtain ⟨e, found, loaded⟩ := scanned.loaded entry member
    exact ⟨e, found, insertBlockIndex_of_some loaded _⟩
  only h x found := by
    rw [insertBlockIndex_getElem?] at found
    split at found
    · next touched =>
        obtain ⟨rfl, nonzero⟩ := touched
        obtain ⟨hash, rfl⟩ : ∃ hash, p = some hash := by
          cases p with
          | none => exact absurd rfl nonzero
          | some hash => exact ⟨hash, rfl⟩
        refine ⟨known hash rfl, ?_⟩
        rw [Option.getD_some] at found
        cases before : m[hash]? with
        | none =>
          rw [before] at found
          cases found
          rfl
        | some y =>
          rw [before] at found
          cases found
          exact (scanned.only hash y before).2
    · exact scanned.only h x found

theorem Scanned.insert (scanned : Scanned map done m) (found : map[h]? = some e) :
    Scanned map (done ++ [(h, .ofIndex e)]) (m.insert h (trustless e)) where
  loaded entry member := by
    rw [ExtTreeMap.getElem?_insert]
    by_cases same : h = entry.1
    · rw [← same]
      exact ⟨e, found, by simp⟩
    · rcases List.mem_append.mp member with old | new
      · simpa [same] using scanned.loaded entry old
      · rw [List.mem_singleton.mp new] at same
        exact absurd rfl same
  only h' x lookup := by
    rw [ExtTreeMap.getElem?_insert] at lookup
    by_cases same : h = h'
    · subst same
      simp only [Std.compare_self, if_true, Option.some.injEq] at lookup
      exact ⟨⟨e, found⟩, by rw [← lookup]; rfl⟩
    · exact scanned.only h' x (by simpa [same] using lookup)

theorem loadRecord_eq {d : CDiskBlockIndex} {pprev pnext : Option Uint256} (hash : P.hashHeader d.header = h)
    (self : (loading.mapBlockIndex.insertBlockIndex h).2 = some h)
    (prev : ((loading.mapBlockIndex.insertBlockIndex h).1.insertBlockIndex d.hashPrev).2 = pprev)
    (next : ((loading.mapBlockIndex.insertBlockIndex h).1.insertBlockIndex d.hashPrev).1.insertBlockIndex d.hashNext =
      (m, pnext))
    (entry : m[h]? = some x) :
    loadRecord P loading d = .ok { loading with
      mapBlockIndex := m.insert h ⟨pprev, pnext, d.nFile, d.nBlockPos, x.bnChainTrust, d.nHeight, d.nMint,
        d.nMoneySupply, d.nVersion, d.hashMerkleRoot, d.nTime, d.nBits, d.nNonce⟩
      pindexGenesisBlock :=
        if loading.pindexGenesisBlock = none ∧ h = hashGenesisBlock P then some h
        else loading.pindexGenesisBlock } := by
  subst hash
  simp only [loadRecord, self, prev, next, Option.bind_some, entry]

theorem loadRecord_ok (loadable : Loadable P map) (scanned : Scanned map done loading.mapBlockIndex)
    (found : map[h]? = some e) :
    ∃ m, loadRecord P loading (.ofIndex e) = .ok { loading with
        mapBlockIndex := m
        pindexGenesisBlock :=
          if loading.pindexGenesisBlock = none ∧ h = hashGenesisBlock P then some h
          else loading.pindexGenesisBlock } ∧
      Scanned map (done ++ [(h, .ofIndex e)]) m := by
  have known {p : Uint256} (e' : ∃ e', map[p]? = some e') : p ≠ 0 := by
    rintro rfl
    obtain ⟨e', found⟩ := e'
    rw [loadable.nonzero] at found
    cases found
  have self : some h ≠ some 0 := fun null => known ⟨e, found⟩ (Option.some.inj null)
  have pprev : e.pprev ≠ some 0 := fun null => known (loadable.pprev h e 0 found null) rfl
  have pnext : e.pnext ≠ some 0 := fun null => known (loadable.pnext h e 0 found null) rfl
  let m₁ := (loading.mapBlockIndex.insertBlockIndex ((some h).getD 0)).1
  let m₂ := (m₁.insertBlockIndex (e.pprev.getD 0)).1
  let m₃ := (m₂.insertBlockIndex (e.pnext.getD 0)).1
  have s₃ : Scanned map done m₃ :=
    ((scanned.touch (some h) fun _ same => ⟨e, Option.some.inj same ▸ found⟩).touch e.pprev
      fun p => loadable.pprev h e p found).touch e.pnext fun n => loadable.pnext h e n found
  obtain ⟨x, lookup⟩ : ∃ x, m₃[h]? = some x := by
    have first : m₁[h]? = some ((loading.mapBlockIndex[h]?).getD .null) := by
      rw [insertBlockIndex_getElem?, if_pos ⟨rfl, known ⟨e, found⟩⟩]
    exact ⟨_, insertBlockIndex_of_some (insertBlockIndex_of_some first _) _⟩
  have trust := (s₃.only h x lookup).2
  refine ⟨m₃.insert h (trustless e), ?_, s₃.insert found⟩
  have step : loadRecord P loading (.ofIndex e) = .ok { loading with
      mapBlockIndex := m₃.insert h { e with bnChainTrust := x.bnChainTrust }
      pindexGenesisBlock :=
        if loading.pindexGenesisBlock = none ∧ h = hashGenesisBlock P then some h
        else loading.pindexGenesisBlock } :=
    loadRecord_eq (loadable.header h e found) (insertBlockIndex_snd _ self)
      (insertBlockIndex_snd m₁ pprev) (Prod.ext rfl (insertBlockIndex_snd m₂ pnext)) lookup
  rw [step, trust]
  rfl

structure Scanning (P : Primitives) (map : BlockMap) (disk : Node)
    (done : List (Uint256 × CDiskBlockIndex)) (loading : Node) : Prop where
  same : loading = { disk with
    mapBlockIndex := loading.mapBlockIndex
    pindexGenesisBlock :=
      if hashGenesisBlock P ∈ done.map Prod.fst then some (hashGenesisBlock P) else none }
  scanned : Scanned map done loading.mapBlockIndex

theorem Scanning.round (scanning : Scanning P map disk done loading) (loadable : Loadable P map)
    (found : map[h]? = some e) :
    ∃ loading', loadRecord P loading (.ofIndex e) = .ok loading' ∧
      Scanning P map disk (done ++ [(h, .ofIndex e)]) loading' := by
  obtain ⟨m, step, scanned⟩ := loadRecord_ok loadable scanning.scanned found
  refine ⟨_, step, ?_, scanned⟩
  rw [scanning.same]
  simp only [Node.mk.injEq, true_and, and_true, List.map_append, List.map_cons, List.map_nil,
    List.mem_append, List.mem_singleton]
  by_cases seen : hashGenesisBlock P ∈ done.map Prod.fst
  · simp [seen]
  · by_cases root : h = hashGenesisBlock P
    · simp [seen, root]
    · simp [seen, root, Ne.symm root]

theorem scan_ok (loadable : Loadable P node.mapBlockIndex) (stores : Stores disk.pdb node)
    (root : ∃ e, node.mapBlockIndex[hashGenesisBlock P]? = some e) (empty : disk.mapBlockIndex = ∅)
    (first : disk.pindexGenesisBlock = none) :
    ∃ m : BlockMap, disk.pdb.blockIndexRecords.foldlM (loadRecord P) disk = .ok { disk with
        mapBlockIndex := m
        pindexGenesisBlock := some (hashGenesisBlock P) } ∧
      ∀ h : Uint256, m[h]? = (node.mapBlockIndex[h]?).map trustless := by
  let pairs := (disk.pdb.toList.filterMap blockRecord?).insertionSort
    fun a b => keyBytes a.1 ≤ keyBytes b.1
  have mem_pairs {entry : Uint256 × CDiskBlockIndex} : entry ∈ pairs ↔
      ∃ e, node.mapBlockIndex[entry.1]? = some e ∧ entry.2 = .ofIndex e :=
    (List.mem_insertionSort _).trans stores.mem_records
  have start : Scanning P node.mapBlockIndex disk [] disk :=
    ⟨by simp [← first], by simp, fun h x found => by simp [empty] at found⟩
  obtain ⟨loading, loop, same, scanned⟩ := foldlM_complete
    (fun b (entry : Uint256 × CDiskBlockIndex) => loadRecord P b entry.2) pairs
    (Scanning P node.mapBlockIndex disk) disk start fun done entry rest loading split scanning => by
      obtain ⟨e, found, same⟩ := mem_pairs.mp (show entry ∈ pairs by rw [split]; simp)
      obtain ⟨h, d⟩ := entry
      cases same
      exact scanning.round loadable found
  have all {h : Uint256} {e : CBlockIndex} (found : node.mapBlockIndex[h]? = some e) :
      loading.mapBlockIndex[h]? = some (trustless e) := by
    obtain ⟨e', found', loaded⟩ := scanned.loaded (h, .ofIndex e) (mem_pairs.mpr ⟨e, found, rfl⟩)
    rw [found] at found'
    cases found'
    exact loaded
  refine ⟨loading.mapBlockIndex, ?_, fun h => ?_⟩
  · obtain ⟨e, found⟩ := root
    have seen : hashGenesisBlock P ∈ pairs.map Prod.fst :=
      List.mem_map.mpr ⟨(_, .ofIndex e), mem_pairs.mpr ⟨e, found, rfl⟩, rfl⟩
    rw [LevelDB.blockIndexRecords, List.foldlM_map, loop]
    rw [if_pos seen] at same
    exact congrArg _ same
  · cases found : node.mapBlockIndex[h]? with
    | some e => exact all found
    | none =>
      cases loaded : loading.mapBlockIndex[h]? with
      | none => rfl
      | some x =>
        obtain ⟨⟨e, known⟩, _⟩ := scanned.only h x loaded
        rw [found] at known
        cases known

instance (address : Uint256 → Nat) : Std.Total (lowerFirst address) where
  total a b := by
    unfold lowerFirst
    omega

instance (address : Uint256 → Nat) : IsTrans (Uint256 × CBlockIndex) (lowerFirst address) where
  trans a b c := by
    unfold lowerFirst
    omega

theorem mem_sortedByHeight {address : Uint256 → Nat} : h ∈ sortedByHeight address m ↔ ∃ x, m[h]? = some x := by
  simp only [sortedByHeight, List.mem_map, List.mem_insertionSort, Prod.exists, exists_and_right,
    exists_eq_right, ExtTreeMap.mem_toList_iff_getElem?_eq_some]

theorem mem_of_lower {address : Uint256 → Nat} {done rest : List Uint256} {p : Uint256} {y : CBlockIndex}
    (split : sortedByHeight address m = done ++ h :: rest) (here : m[h]? = some x) (there : m[p]? = some y)
    (lower : y.nHeight < x.nHeight) : p ∈ done := by
  have sorted := List.pairwise_insertionSort (lowerFirst address) m.toList
  have member : (p, y) ∈ m.toList.insertionSort (lowerFirst address) := by
    rw [List.mem_insertionSort, ExtTreeMap.mem_toList_iff_getElem?_eq_some]
    exact there
  obtain ⟨before, tail, list, rfl, others⟩ := List.map_eq_append_iff.mp split
  obtain ⟨a, after, rfl, rfl, rfl⟩ := List.map_eq_cons_iff.mp others
  have entry : a ∈ m.toList := by
    rw [← List.mem_insertionSort (lowerFirst address), list]
    simp
  rw [← Prod.mk.eta (p := a), ExtTreeMap.mem_toList_iff_getElem?_eq_some, here] at entry
  have height := congrArg CBlockIndex.nHeight (Option.some.inj entry)
  rw [list] at sorted member
  rcases List.mem_append.mp member with first | later
  · exact List.mem_map_of_mem first
  · rcases List.mem_cons.mp later with same | behind
    · rw [← same] at height
      exact absurd lower (by simp only at height; omega)
    · have le := List.rel_of_pairwise_cons (List.pairwise_append.mp sorted).2.1 behind
      unfold lowerFirst at le
      simp only at le
      omega

def Trusted (map : BlockMap) (done : List Uint256) (m : BlockMap) : Prop :=
  ∀ h : Uint256, m[h]? = (map[h]?).map fun e => if h ∈ done then e else trustless e

theorem Trusted.parent (tree : Rooted P map) {done : List Uint256} (trusted : Trusted map done m)
    (found : map[h]? = some e)
    (parents : ∀ (p : Uint256) (pe : CBlockIndex), map[p]? = some pe → pe.nHeight < e.nHeight → p ∈ done) :
    ((e.pprev.bind (m[·]?)).map CBlockIndex.bnChainTrust).getD 0 + e.getBlockTrust =
      e.bnChainTrust := by
  by_cases root : h = hashGenesisBlock P
  · obtain ⟨e', atRoot, pprev, _, trust⟩ := tree.root
    rw [root, atRoot] at found
    cases found
    simp [pprev, trust]
  · obtain ⟨p, pe, pprev, parent, height, trust⟩ := tree.parent h e found root
    have reached : m[p]? = some pe := by
      rw [trusted p, parent, Option.map_some, if_pos (parents p pe parent (by omega))]
    simp [pprev, reached, trust]

theorem Trusted.round (tree : Rooted P map) {done : List Uint256} (trusted : Trusted map done m)
    (found : map[h]? = some e)
    (parents : ∀ (p : Uint256) (pe : CBlockIndex), map[p]? = some pe → pe.nHeight < e.nHeight → p ∈ done) :
    Trusted map (done ++ [h]) (calculateTrust m h) := by
  have here := trusted h
  have trust := trusted.parent tree found parents
  have set : calculateTrust m h = m.insert h e := by
    rw [calculateTrust, here, found]
    by_cases reached : h ∈ done
    · simp only [Option.map_some, if_pos reached, trust]
    · have weight : (trustless e).getBlockTrust = e.getBlockTrust := rfl
      have pprev : (trustless e).pprev = e.pprev := rfl
      simp only [Option.map_some, if_neg reached, weight, pprev, trust]
      rfl
  intro h'
  rw [set, ExtTreeMap.getElem?_insert]
  by_cases same : h = h'
  · subst same
    simp [found]
  · have other := trusted h'
    simp only [Std.compare_eq_iff_eq, same, if_false, other, List.mem_append, List.mem_singleton,
      Ne.symm same, or_false]

theorem calculateTrust_foldl (tree : Rooted P map) (address : Uint256 → Nat)
    (scanned : ∀ h : Uint256, m[h]? = (map[h]?).map trustless) :
    (sortedByHeight address m).foldl calculateTrust m = map := by
  have known {h : Uint256} {e : CBlockIndex} (found : map[h]? = some e) :
      m[h]? = some (trustless e) := by
    rw [scanned, found]
    rfl
  have trusted : Trusted map (sortedByHeight address m)
      ((sortedByHeight address m).foldl calculateTrust m) := by
    refine foldl_rel _ _ (Trusted map) m (by simpa [Trusted] using scanned) ?_
    intro done h rest m' split trusted
    obtain ⟨x, reached⟩ := mem_sortedByHeight.mp (show h ∈ sortedByHeight address m by rw [split]; simp)
    rw [scanned, Option.map_eq_some_iff] at reached
    obtain ⟨e, found, _⟩ := reached
    refine trusted.round tree found fun p pe parent lower => ?_
    exact mem_of_lower split (known found) (known parent) lower
  apply ExtTreeMap.ext_getElem?
  intro h
  rw [trusted h]
  cases found : map[h]? with
  | none => rfl
  | some e =>
    have member : h ∈ sortedByHeight address m := mem_sortedByHeight.mpr ⟨_, known found⟩
    rw [Option.map_some, if_pos member]

def reloaded (P : Primitives) (disk node : Node) : Node :=
  { disk with
    mapBlockIndex := node.mapBlockIndex
    pindexGenesisBlock := some (hashGenesisBlock P)
    hashBestChain := node.hashBestChain
    pindexBest := node.pindexBest
    nBestHeight := node.nBestHeight
    bnBestChainTrust := node.bnBestChainTrust }

theorem Inv.loadIndex_eq (inv : Inv P events node chain) (startup : Startup)
    (nonzero : node.mapBlockIndex[(0 : Uint256)]? = none) (stores : Stores disk.pdb node)
    (empty : disk.mapBlockIndex = ∅) (first : disk.pindexGenesisBlock = none) :
    loadIndex P startup disk = .ok (reloaded P disk node) := by
  obtain ⟨e, root, _⟩ := inv.rooted.root
  obtain ⟨m, scan, scanned⟩ := scan_ok (inv.loadable nonzero) stores ⟨e, root⟩ empty first
  obtain ⟨_, tip, _, _, lookup, height, trust⟩ := inv.tip.best
  have tree : loadTree P startup disk = .ok { disk with
      mapBlockIndex := node.mapBlockIndex
      pindexGenesisBlock := some (hashGenesisBlock P) } := by
    rw [loadTree, scan]
    simp only [bind, Except.bind, calculateTrust_foldl inv.rooted startup.address scanned]
    rfl
  have record : disk.pdb.open.readHashBestChain = some node.hashBestChain := by
    rw [CTxDB.readHashBestChain, CTxDB.read_eq_view, view_open, stores.best]
    rfl
  rw [loadIndex, tree]
  simp only [Except.mapError, bind, Except.bind, loadBest, record, lookup]
  rw [reloaded, inv.tip.pindexBest, height, trust]
  rfl

end RitCoin.Proof
