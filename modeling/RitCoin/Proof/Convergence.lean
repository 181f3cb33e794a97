import RitCoin.Proof.Agreement
import RitCoin.Proof.Authenticity

namespace RitCoin.Proof
open Lib Model Spec Std

variable {P : Primitives} {now : Int} {node : Node} {block : CBlock} {pindexPrev : CBlockIndex}
  {chain : List Placed} {events : List Event} {S : Finset CBlock}

/-- Everything the node has was offered to it, and the children of the tip are blocks that could not
be connected. -/
structure Offered (P : Primitives) (now : Int) (S : Finset CBlock) (events : List Event) (node : Node)
    (chain : List Placed) : Prop where
  inv : Inv P events node chain
  entries : ∀ (h : Uint256) (e : CBlockIndex), node.mapBlockIndex[h]? = some e →
    h ≠ hashGenesisBlock P → ∃ block ∈ S, P.getHash block = h ∧ e.pprev = some block.hashPrevBlock ∧
      (e.pprev = some node.hashBestChain →
        ¬ Accepts now (ledgerOf P (blocksOf chain)) chain.length block)
  offered : ∀ now' block, Event.block now' block ∈ events → now' = now ∧ block ∈ S
  grown : Grown P events chain

theorem Offered.genesis : Offered P now S [] (genesisNode P) (genesisChain P) where
  inv := .genesis
  entries h e found ne := absurd (genesisNode_only found).1 ne
  offered _ _ received := by cases received
  grown n placed found := by cases (mem_genesisChain found).1

section
variable (offered : Offered P now S events node chain)
include offered

theorem Offered.admitted {n : ℕ} {placed : Placed} (found : chain[n + 1]? = some placed) :
    placed.block ∈ S ∧ Extends P now (chain.take (n + 1)) placed.block := by
  obtain ⟨now', received, fits⟩ := offered.grown n placed found
  obtain ⟨rfl, member⟩ := offered.offered now' _ received
  exact ⟨member, fits⟩

theorem Offered.offer (member : block ∈ S) : Offered P now S (events ++ [.block now block]) node chain where
  inv := offered.inv.mono (List.subset_append_left ..)
  entries := offered.entries
  offered now' block' received := by
    rcases List.mem_append.mp received with old | new
    · exact offered.offered now' block' old
    · rw [List.mem_singleton, Event.block.injEq] at new
      obtain ⟨rfl, rfl⟩ := new
      exact ⟨rfl, member⟩
  grown := offered.grown.mono (List.subset_append_left ..)

theorem Offered.store {node' : Node} (member : block ∈ S) (admission : Admission P now node block pindexPrev)
    (refused : block.hashPrevBlock = node.hashBestChain →
      ¬ Accepts now (ledgerOf P (blocksOf chain)) chain.length block) (inv : Inv P events node' chain)
    (map : node'.mapBlockIndex = (stored P node block).mapBlockIndex)
    (best : node'.hashBestChain = node.hashBestChain) : Offered P now S events node' chain :=
  { offered with
    inv := inv
    entries := by
      intro h e found ne
      rw [map, stored_getElem?] at found
      rw [best]
      split_ifs at found with same
      · cases found
        refine ⟨block, member, same, admission.attachable.pprev, ?_⟩
        rw [admission.attachable.pprev, Option.some.injEq]
        exact refused
      · exact offered.entries h e found ne }

theorem Offered.connect {pindexNew : CBlockIndex} {txdb : TxDB} (received : Event.block now block ∈ events)
    (admission : Admission P now node block pindexPrev) (tip : block.hashPrevBlock = node.hashBestChain)
    (connect : connectBlock P now (stored P node block) (batch (stored P node block).pdb) block
      (newIndex node block) = .ok (txdb, pindexNew)) :
    Offered P now S events (connected P (stored P node block) block pindexNew pindexPrev txdb)
      (chain ++ [placedAt node block]) where
  inv := offered.inv.connect admission tip connect received
  entries h e found ne := by
    rw [connected_getElem?] at found
    -- nothing has the new tip as its parent yet
    have childless {h : Uint256} {e : CBlockIndex} (found : node.mapBlockIndex[h]? = some e) :
        e.pprev ≠ some (P.getHash block) :=
      offered.inv.rooted.pprev_ne admission.fresh found
    split_ifs at found with isPrev isNew
    · cases found
      obtain ⟨b, inS, hash, pprev, _⟩ := offered.entries h pindexPrev (isPrev ▸ admission.parent) ne
      have no := childless admission.parent
      exact ⟨b, inS, hash, pprev, fun child => absurd child no⟩
    · cases found
      obtain ⟨state, shape, _⟩ := connectBlock_shape connect
      have pprev : pindexNew.pprev = some block.hashPrevBlock := by rw [shape]; exact admission.attachable.pprev
      refine ⟨block, (offered.offered now block received).2, isNew, pprev, fun child => ?_⟩
      rw [pprev, Option.some.injEq] at child
      exact absurd child.symm admission.attachable.ne
    · obtain ⟨b, inS, hash, pprev, _⟩ := offered.entries h e found ne
      exact ⟨b, inS, hash, pprev, fun child => absurd child (childless found)⟩
  offered := offered.offered
  grown := offered.grown.append ⟨⟨events, node, pindexPrev, offered.inv, admission, tip⟩,
    (connectBlock_sound (offered.inv.ready admission.attachable tip) connect).1⟩ received

end

theorem afterFailure_mapBlockIndex (node : Node) (pindexNew : CBlockIndex) (reason : Failure) :
    (afterFailure node pindexNew reason).mapBlockIndex = node.mapBlockIndex ∧
      (afterFailure node pindexNew reason).hashBestChain = node.hashBestChain := by
  cases reason with
  | reject nDoS messages =>
    simp only [afterFailure, Node.invalidChainFound]
    split <;> exact ⟨rfl, rfl⟩
  | throw what => exact ⟨rfl, rfl⟩
  | stop fault => exact ⟨rfl, rfl⟩

theorem Offered.receive (before : Offered P now S events node chain) (member : block ∈ S) :
    ∃ chain', Offered P now S (events ++ [.block now block])
      (node.receive P (.block now block)) chain' := by
  have offered := before.offer member
  have inv := offered.inv
  have effect := inv.effect now block
  simp only [Node.receive]
  generalize processBlock P now node block = step at effect
  cases effect with
  | rejected => exact ⟨chain, offered⟩
  | orphan => exact ⟨chain, offered⟩
  | side admission low =>
    refine ⟨chain, offered.store member admission (fun tip => ?_) (inv.store admission) rfl rfl⟩
    exact absurd (inv.trust_lt admission.attachable admission.checked tip) (Int.not_lt.mpr low)
  | apart _ admission _ ne =>
    exact ⟨chain, offered.store member admission (fun tip => absurd tip ne)
      (inv.store admission) rfl rfl⟩
  | failed _ reason admission _ tip connect =>
    obtain ⟨map, best⟩ := afterFailure_mapBlockIndex (stored P node block) (newIndex node block) reason
    refine ⟨chain, offered.store member admission (fun _ accepts => ?_)
      ((inv.store admission).afterFailure _ reason) map best⟩
    obtain ⟨result, ok⟩ := connectBlock_complete (inv.ready admission.attachable tip) accepts
    rw [connect] at ok
    cases ok
  | connected admission _ tip connect =>
    exact ⟨_, offered.connect (by simp) admission tip connect⟩

/-- The node after one more block, or nothing if the block ends the process. -/
def offer (P : Primitives) (now : Int) (node : Node) (block : CBlock) : Option Node :=
  match processBlock P now node block with
  | (.error (.stop _), _) => none
  | (_, after) => some after

def offerAll (P : Primitives) (now : Int) (order : List CBlock) : Option Node :=
  order.foldlM (offer P now) (genesisNode P)

theorem receive_of_offer {after : Node} (survives : offer P now node block = some after) :
    node.receive P (.block now block) = after := by
  rw [offer] at survives
  rw [Node.receive]
  split at survives
  · cases survives
  next same => rw [same]; exact Option.some.inj survives

theorem exists_offered {order : List CBlock} (member : ∀ block ∈ order, block ∈ S) {node : Node}
    (survives : offerAll P now order = some node) :
    ∃ chain, Offered P now S (order.map (Event.block now)) node chain := by
  induction order using List.reverseRecOn generalizing node with
  | nil =>
    cases survives
    exact ⟨genesisChain P, .genesis⟩
  | append_singleton order block ih =>
    rw [offerAll, List.foldlM_append] at survives
    obtain ⟨before, earlier, last⟩ := Option.bind_eq_some_iff.mp survives
    obtain ⟨after, step, ⟨⟩⟩ := Option.bind_eq_some_iff.mp last
    obtain ⟨chain, offered⟩ := ih (fun b inOrder => member b (List.mem_append_left _ inOrder)) earlier
    rw [List.map_append, ← receive_of_offer step]
    exact offered.receive (member block (by simp))

def Quiescent (P : Primitives) (now : Int) (S : Finset CBlock) (node : Node) : Prop :=
  ∀ block ∈ S, offer P now node block = some node

theorem exists_quiescent {order : List CBlock}
    (known : (offerAll P now order).any fun node =>
      ∀ block ∈ S, node.mapBlockIndex.contains (P.getHash block) = true) :
    ∃ node, offerAll P now order = some node ∧ Quiescent P now S node := by
  cases ends : offerAll P now order with
  | none => simp [ends] at known
  | some node =>
    simp only [ends, Option.any_some, decide_eq_true_eq] at known
    refine ⟨node, rfl, fun block member => ?_⟩
    simp [offer, processBlock, preliminaryChecks, failIf, known block member, bind, Except.bind, error]

section Converge
variable {X Y : Node} {chainX chainY : List Placed} {eventsX eventsY : List Event}
variable (X_offered : Offered P now S eventsX X chainX) (Y_offered : Offered P now S eventsY Y chainY)
  (siblings : ∀ b ∈ S, ∀ b' ∈ S, b.hashPrevBlock = b'.hashPrevBlock → b = b')
include X_offered Y_offered siblings

theorem Offered.blocks_agree :
    ∀ (i : ℕ) (p q : Placed), chainX[i]? = some p → chainY[i]? = some q → p.block = q.block := by
  intro i
  -- the children of one block are one block
  induction i with
  | zero =>
    intro p q hp hq
    rw [X_offered.inv.path.genesis] at hp
    rw [Y_offered.inv.path.genesis] at hq
    cases hp
    cases hq
    rfl
  | succ i ih =>
    intro p q hp hq
    obtain ⟨p', belowX⟩ := exists_below hp
    obtain ⟨q', belowY⟩ := exists_below hq
    apply siblings _ (X_offered.admitted hp).1 _ (Y_offered.admitted hq).1
    rw [X_offered.inv.path.link i _ p belowX hp, Y_offered.inv.path.link i _ q belowY hq,
      ih _ _ belowX belowY]

theorem Offered.take_agree (le : chainX.length ≤ chainY.length) :
    chainX.map Placed.block = (chainY.take chainX.length).map Placed.block := by
  apply List.ext_getElem (by simp [le])
  intro i hX hY
  rw [List.length_map] at hX
  simp only [List.getElem_map, List.getElem_take]
  exact X_offered.blocks_agree Y_offered siblings i _ _ (List.getElem?_eq_getElem hX)
    (List.getElem?_eq_getElem (by omega))

theorem Offered.length_le (hashes : ∀ b ∈ S, ∀ b' ∈ S, P.getHash b = P.getHash b' → b = b')
    (quiet : Quiescent P now S X) : chainY.length ≤ chainX.length := by
  by_contra longer
  obtain ⟨m, length⟩ : ∃ m, chainX.length = m + 1 :=
    ⟨chainX.length - 1, (Nat.sub_add_cancel X_offered.inv.path.length_pos).symm⟩
  obtain ⟨next, found⟩ : ∃ next, chainY[m + 1]? = some next :=
    ⟨_, List.getElem?_eq_getElem (by omega)⟩
  obtain ⟨member, fits⟩ := Y_offered.admitted found
  have same := X_offered.take_agree Y_offered siblings (Nat.not_le.mp longer).le
  rw [length] at same
  cases known : X.mapBlockIndex[P.getHash next.block]? with
  | none =>
    -- the block would be connected, so the offers were not over
    obtain ⟨pindexPrev, pindexNew, txdb, admission, _, _, outcome⟩ :=
      fits.connects X_offered.inv same known
    have still : connected P (stored P X next.block) next.block pindexNew pindexPrev txdb = X :=
      (congrArg Prod.snd outcome).symm.trans (receive_of_offer (quiet next.block member))
    have after := connected_getElem? P X next.block pindexNew pindexPrev txdb (P.getHash next.block)
    rw [if_neg admission.attachable.ne.symm, if_pos rfl, still, known] at after
    cases after
  | some e =>
    -- it is stored, so it could not be connected
    have notRoot : P.getHash next.block ≠ hashGenesisBlock P := fun root =>
      absurd (Y_offered.inv.path.hashGenesis found root) (Nat.succ_ne_zero m)
    obtain ⟨b, inS, hash, pprev, refused⟩ := X_offered.entries _ e known notRoot
    obtain rfl := hashes b inS next.block member hash
    obtain ⟨tip, accepts⟩ := fits.on X_offered.inv same
    exact refused (by rw [pprev, tip]) accepts

end Converge

/-- Two nodes that are offered blocks of a set without siblings, in any order that does not end the
process and until nothing changes any more, have the same best chain. -/
theorem bestPath_eq_of_no_siblings (P : Primitives) (now : Int) (S : Finset CBlock)
    (order order' : List CBlock)
    (siblings : ∀ b ∈ S, ∀ b' ∈ S, b.hashPrevBlock = b'.hashPrevBlock → b = b')
    (hashes : ∀ b ∈ S, ∀ b' ∈ S, P.getHash b = P.getHash b' → b = b')
    (member : ∀ b ∈ order, b ∈ S) (member' : ∀ b ∈ order', b ∈ S) {node node' : Node}
    (survives : offerAll P now order = some node) (survives' : offerAll P now order' = some node')
    (quiet : Quiescent P now S node) (quiet' : Quiescent P now S node') :
    bestPath node = bestPath node' := by
  obtain ⟨chain, offered⟩ := exists_offered member survives
  obtain ⟨chain', offered'⟩ := exists_offered member' survives'
  have length : chain.length = chain'.length :=
    (offered'.length_le offered siblings hashes quiet').antisymm
      (offered.length_le offered' siblings hashes quiet)
  have same := offered.take_agree offered' siblings length.le
  rw [length, List.take_length] at same
  have path := congrArg (List.map P.getHash) same
  rw [List.map_map, List.map_map] at path
  rw [offered.inv.bestPath, offered'.inv.bestPath]
  exact path

/-- The third block is first offered before its parent, and then again. -/
theorem bestPath_eq_of_no_siblings_three :
    ∃ node node', offerAll toy toyNow [firstBlock, secondBlock, thirdBlock] = some node ∧
      offerAll toy toyNow [firstBlock, thirdBlock, secondBlock, thirdBlock] = some node' ∧
      bestPath node = bestPath node' := by
  let S : Finset CBlock := {firstBlock, secondBlock, thirdBlock}
  obtain ⟨node, ends, quiet⟩ :=
    @exists_quiescent toy toyNow S [firstBlock, secondBlock, thirdBlock] (by decide +kernel)
  obtain ⟨node', ends', quiet'⟩ :=
    @exists_quiescent toy toyNow S [firstBlock, thirdBlock, secondBlock, thirdBlock] (by decide +kernel)
  exact ⟨node, node', ends, ends', bestPath_eq_of_no_siblings toy toyNow S _ _ (by decide +kernel)
    (by decide +kernel) (by decide +kernel) (by decide +kernel) ends ends' quiet quiet'⟩

/-- Two children of genesis, valid each, in two orders: both nodes come to rest, on different
blocks. -/
theorem siblings_diverge :
    (∀ block ∈ [firstBlock, unsignedSibling], block.checkBlock toy toyNow = .ok () ∧
      (processBlock toy toyNow (genesisNode toy) block).1 = .ok ()) ∧
    ∃ node node', offerAll toy toyNow [firstBlock, unsignedSibling] = some node ∧
      offerAll toy toyNow [unsignedSibling, firstBlock] = some node' ∧
      Quiescent toy toyNow {firstBlock, unsignedSibling} node ∧
      Quiescent toy toyNow {firstBlock, unsignedSibling} node' ∧ bestPath node ≠ bestPath node' := by
  obtain ⟨node, ends, quiet⟩ := @exists_quiescent toy toyNow {firstBlock, unsignedSibling}
    [firstBlock, unsignedSibling] (by decide +kernel)
  obtain ⟨node', ends', quiet'⟩ := @exists_quiescent toy toyNow {firstBlock, unsignedSibling}
    [unsignedSibling, firstBlock] (by decide +kernel)
  have apart : (offerAll toy toyNow [firstBlock, unsignedSibling]).map bestPath ≠
      (offerAll toy toyNow [unsignedSibling, firstBlock]).map bestPath := by
    decide +kernel
  rw [ends, ends'] at apart
  exact ⟨by decide +kernel, node, node', ends, ends', quiet, quiet', fun same => apart (congrArg some same)⟩

end RitCoin.Proof
