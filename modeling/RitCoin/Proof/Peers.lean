import RitCoin.Proof.Agreement
import RitCoin.Proof.Mruset
import RitCoin.Spec.Sync

namespace RitCoin.Proof
open Lib Model Spec Std
variable {i : ℕ} {p : Placed} {e : CBlockIndex} {party : Party} {h : Uint256} {P : Primitives} {node : Node}
  {chain : List Placed} {events : List Event}

theorem Inv.pnext_eq (inv : Inv P events node chain) (found : chain[i]? = some p)
    (lookup : node.mapBlockIndex[P.getHash p.block]? = some e) :
    e.pnext = (chain[i + 1]?).map fun q => P.getHash q.block := by
  refine Option.ext fun h => (inv.pnext _ e lookup h).trans ?_
  rw [Option.map_eq_some_iff]
  constructor
  · rintro ⟨j, p', q, found', above, hash, rfl⟩
    obtain rfl := inv.path.index_unique found' found hash
    exact ⟨q, above, rfl⟩
  · rintro ⟨q, above, rfl⟩
    exact ⟨i, p, q, found, above, rfl, rfl⟩

theorem Inv.blockAt (inv : Inv P events node chain) (found : chain[i]? = some p) (is : Matches i p e) :
    node.blockAt e = p.block := by
  rw [Node.blockAt, is.nFile, is.nBlockPos,
    (inv.disk p (List.mem_of_getElem? found)).readBlockAt, Option.getD_some]

theorem answer_prefix (half : ℕ) : ∀ (nLimit nBytes : ℕ) (blocks : List CBlock),
    answer half nLimit nBytes blocks <+: blocks := by
  intro nLimit
  induction nLimit with
  | zero => exact fun _ _ => List.nil_prefix
  | succ nLimit ih =>
    intro nBytes blocks
    cases blocks with
    | nil => exact List.nil_prefix
    | cons block rest =>
      rw [answer]
      split_ifs
      · exact List.prefix_append [block] rest
      · exact (List.prefix_cons_inj block).mpr (ih _ rest)

theorem answer_length (half : ℕ) : ∀ (nLimit nBytes : ℕ) (blocks : List CBlock),
    (answer half nLimit nBytes blocks).length ≤ nLimit := by
  intro nLimit
  induction nLimit with
  | zero => exact fun _ _ => le_rfl
  | succ nLimit ih =>
    intro nBytes blocks
    cases blocks with
    | nil => exact Nat.zero_le _
    | cons block rest =>
      rw [answer]
      split_ifs
      · simp
      · simpa using ih _ rest

def continueAt (P : Primitives) (cut : Bool) (rest : List CBlock) : Uint256 :=
  if cut then (rest.getLast?.map P.getHash).getD 0 else 0

theorem continueAt_cons {cut : Bool} {rest : List CBlock} (more : cut = true → rest ≠ [])
    (block : CBlock) : continueAt P cut (block :: rest) = continueAt P cut rest := by
  cases cut with
  | false => rfl
  | true =>
    obtain ⟨next, others, rfl⟩ := List.exists_cons_of_ne_nil (more rfl)
    simp [continueAt]

theorem toNat_nBytes {size nBytes : UInt32} {n : ℕ} (low : nBytes.toNat ≤ size.toNat / 2)
    (small : n ≤ MAX_BLOCK_SIZE) : (nBytes + UInt32.ofNat n).toNat = nBytes.toNat + n := by
  have := size.toNat_lt
  rw [MAX_BLOCK_SIZE] at small
  rw [UInt32.toNat_add, UInt32.toNat_ofNat', Nat.mod_eq_of_lt (b := 2 ^ 32) (by omega : n < 2 ^ 32)]
  exact Nat.mod_eq_of_lt (by omega)

theorem Inv.getBlocksLoop_round (inv : Inv P events node chain) {size nBytes : UInt32}
    (found : chain[i + 1]? = some p) (low : nBytes.toNat ≤ size.toNat / 2) (nonzero : P.getHash p.block ≠ 0)
    {pfrom : CNode} (unknown : ∀ h, pfrom.setInventoryKnown.count h = false) (nLimit : ℕ) :
    Model.getBlocksLoop node size 0 (nLimit + 1) nBytes (some (P.getHash p.block)) pfrom =
      let pfrom := { pfrom with
        vInventoryToSend := pfrom.vInventoryToSend ++ [P.getHash p.block] }
      if nLimit = 0 ∨ size.toNat / 2 ≤ nBytes.toNat + p.block.getSerializeSize then
        { pfrom with hashContinue := P.getHash p.block }
      else
        Model.getBlocksLoop node size 0 nLimit (nBytes + UInt32.ofNat p.block.getSerializeSize)
          ((chain[i + 2]?).map fun q => P.getHash q.block) pfrom := by
  obtain ⟨e, lookup, is⟩ := inv.path.entry _ p found
  obtain ⟨⟨_, _, checked⟩, _⟩ := inv.entered i p found
  have push : pfrom.pushInventory (P.getHash p.block) = { pfrom with
      vInventoryToSend := pfrom.vInventoryToSend ++ [P.getHash p.block] } := by
    rw [CNode.pushInventory, unknown, if_neg Bool.false_ne_true]
  have limit : nBytes + UInt32.ofNat p.block.getSerializeSize ≥ size / 2 ↔
      size.toNat / 2 ≤ nBytes.toNat + p.block.getSerializeSize := by
    rw [ge_iff_le, UInt32.le_iff_toNat_le, UInt32.toNat_div, toNat_nBytes low checked.size]
    rfl
  rw [Model.getBlocksLoop]
  simp only [lookup, if_neg nonzero, inv.blockAt found is, push, limit, inv.pnext_eq found lookup]

theorem Inv.getBlocksLoop (inv : Inv P events node chain) (size : UInt32) :
    ∀ (nLimit : ℕ) (nBytes : UInt32) (i : ℕ), 0 < nLimit → nBytes.toNat ≤ size.toNat / 2 →
      (∀ p ∈ chain.drop (i + 1), P.getHash p.block ≠ 0) →
      ∀ first, first = answer (size.toNat / 2) nLimit nBytes.toNat
        ((chain.drop (i + 1)).map Placed.block) →
      ∃ cut, (cut = false → first = (chain.drop (i + 1)).map Placed.block) ∧
        (cut = true → first ≠ []) ∧
        ∀ pfrom : CNode, (∀ h, pfrom.setInventoryKnown.count h = false) → pfrom.hashContinue = 0 →
          Model.getBlocksLoop node size 0 nLimit nBytes
              ((chain[i + 1]?).map fun q => P.getHash q.block) pfrom =
            { pfrom with
              vInventoryToSend := pfrom.vInventoryToSend ++ first.map P.getHash
              hashContinue := continueAt P cut first } := by
  intro nLimit
  induction nLimit with
  | zero => exact fun _ _ positive => absurd positive (Nat.lt_irrefl 0)
  | succ nLimit ih =>
    rintro nBytes i - low nonzero first rfl
    rw [List.drop_eq_getElem?_toList_append] at nonzero ⊢
    cases found : chain[i + 1]? with
    | none =>
      have nil : chain.drop (i + 2) = [] :=
        List.drop_eq_nil_of_le ((List.getElem?_eq_none_iff.mp found).trans (Nat.le_succ _))
      refine ⟨false, by simp [nil, answer], by simp, fun pfrom _ null => ?_⟩
      simp [nil, answer, Model.getBlocksLoop, continueAt, ← null]
    | some p =>
      simp only [found, Option.toList_some, List.singleton_append, List.mem_cons,
        forall_eq_or_imp] at nonzero
      simp only [Option.map_some, Option.toList_some, List.singleton_append, List.map_cons]
      rw [answer]
      split_ifs with stop
      · refine ⟨true, by simp, by simp, fun pfrom unknown null => ?_⟩
        rw [inv.getBlocksLoop_round found low nonzero.1 unknown, if_pos stop]
        simp [continueAt]
      · have limit := stop
        rw [not_or, Nat.not_le] at stop
        obtain ⟨⟨_, _, checked⟩, _⟩ := inv.entered i p found
        have bytes := toNat_nBytes low checked.size
        obtain ⟨cut, whole, nonempty, loop⟩ := ih (nBytes + UInt32.ofNat p.block.getSerializeSize)
          (i + 1) (Nat.pos_of_ne_zero stop.1) (by rw [bytes]; exact stop.2.le) nonzero.2 _ rfl
        rw [bytes] at whole nonempty loop
        refine ⟨cut, fun uncut => by rw [whole uncut], fun _ => List.cons_ne_nil _ _,
          fun pfrom unknown null => ?_⟩
        rw [inv.getBlocksLoop_round found low nonzero.1 unknown, if_neg limit]
        refine (loop { pfrom with
          vInventoryToSend := pfrom.vInventoryToSend ++ [P.getHash p.block] } unknown null).trans ?_
        rw [continueAt_cons nonempty]
        simp

def trailer (tip : Uint256) (cut : Bool) (rest : List CBlock) : List Message :=
  if cut ∧ rest = [] then [.inv [tip]] else []

theorem Inv.data (inv : Inv P events node chain) (isNode : party.node = node) {block : CBlock}
    (member : block ∈ chain.map Placed.block) :
    party.data (P.getHash block) =
      if P.getHash block = party.pfrom.hashContinue then
        { party with pfrom := { party.pfrom with
          vSend := party.pfrom.vSend ++ [.block block, .inv [node.hashBestChain]]
          hashContinue := 0 } }
      else { party with pfrom := { party.pfrom with vSend := party.pfrom.vSend ++ [.block block] } } := by
  obtain ⟨p, inChain, rfl⟩ := List.mem_map.mp member
  obtain ⟨i, found⟩ := List.getElem?_of_mem inChain
  obtain ⟨e, lookup, is⟩ := inv.path.entry i p found
  simp only [Party.data, isNode, lookup, inv.blockAt found is, CNode.pushMessage, inv.tip.pindexBest,
    Option.toList_some, List.append_assoc, List.singleton_append]

theorem Inv.data_foldl (inv : Inv P events node chain) {cut : Bool} {rest : List CBlock} :
    ∀ (blocks : List CBlock) (party : Party), party.node = node →
      (∀ block ∈ blocks, block ∈ chain.map Placed.block ∧ P.getHash block ≠ 0) →
      ((blocks ++ rest).map P.getHash).Nodup →
      party.pfrom.hashContinue = continueAt P cut (blocks ++ rest) → blocks ≠ [] →
      (blocks.map P.getHash).foldl Party.data party =
        { party with pfrom := { party.pfrom with
          vSend := party.pfrom.vSend ++ (blocks.map .block ++ trailer node.hashBestChain cut rest)
          hashContinue := continueAt P cut rest } } := by
  intro blocks
  induction blocks with
  | nil => exact fun _ _ _ _ _ nonempty => absurd rfl nonempty
  | cons block blocks ih =>
    intro party isNode members nodup isContinue _
    rw [List.forall_mem_cons] at members
    obtain ⟨⟨member, nonzero⟩, members⟩ := members
    rw [List.map_cons, List.foldl_cons, inv.data isNode member]
    rw [List.cons_append, List.map_cons, List.nodup_cons] at nodup
    rw [List.cons_append] at isContinue
    by_cases last : cut = true ∧ blocks ++ rest = []
    · obtain ⟨rfl, nil⟩ := last
      obtain ⟨rfl, rfl⟩ := List.append_eq_nil_iff.mp nil
      have same : P.getHash block = party.pfrom.hashContinue := by simp [isContinue, continueAt]
      simp [same, trailer, continueAt]
    · have more : cut = true → blocks ++ rest ≠ [] := fun isCut nil => last ⟨isCut, nil⟩
      rw [continueAt_cons more] at isContinue
      have ne : P.getHash block ≠ party.pfrom.hashContinue := by
        rw [isContinue, continueAt]
        split_ifs with isCut
        · rw [List.getLast?_eq_some_getLast (more isCut)]
          intro same
          exact nodup.1 (same ▸ List.mem_map_of_mem (List.getLast_mem (more isCut)))
        · exact nonzero
      rw [if_neg ne]
      cases blocks with
      | nil =>
        have uncut : ¬ (cut = true ∧ rest = []) := last
        simpa [trailer, uncut] using isContinue
      | cons next blocks =>
        rw [ih { party with pfrom := { party.pfrom with
          vSend := party.pfrom.vSend ++ [.block block] } } isNode members nodup.2 isContinue
          (List.cons_ne_nil _ _)]
        simp

theorem announce_unknown {known : Mruset Uint256} {hashes : List Uint256} (nodup : hashes.Nodup)
    (unknown : ∀ h ∈ hashes, known.count h = false) : (announce known hashes).2 = hashes := by
  induction hashes generalizing known with
  | nil => rfl
  | cons h hashes ih =>
    rw [List.nodup_cons] at nodup
    rw [List.forall_mem_cons] at unknown
    rw [announce, unknown.1, if_neg Bool.false_ne_true]
    refine congrArg (List.cons h) (ih nodup.2 fun h' member => ?_)
    refine Bool.eq_false_iff.mpr fun now => ?_
    rcases count_insert now with same | old
    · exact nodup.1 (same ▸ member)
    · rw [unknown.2 h' member] at old
      cases old

theorem orderedInsert_last {requests : List (Int × Uint256)} {request : Int × Uint256}
    (later : ∀ r ∈ requests, r.1 ≤ request.1) :
    requests.orderedInsert (fun a b => a.1 < b.1) request = requests ++ [request] := by
  induction requests with
  | nil => rfl
  | cons r requests ih =>
    rw [List.forall_mem_cons] at later
    rw [List.orderedInsert, if_neg (Int.not_lt.mpr later.1), ih later.2, List.cons_append]

theorem inventory_new (new : party.alreadyHave h = false) (time : Int) (last : Bool) :
    party.inventory time h last =
      Party.askFor { party with pfrom := party.pfrom.addInventoryKnown h } time h :=
  if_neg (Bool.eq_false_iff.mp new)

theorem inventory_last (known : party.alreadyHave h = true) (time : Int) :
    party.inventory time h true =
      { party with pfrom := (party.pfrom.addInventoryKnown h).pushGetBlocks h 0 } :=
  if_pos known

theorem inv_new (time : Int) : ∀ (hashes : List Uint256) (party : Party),
    (∀ h ∈ hashes, party.alreadyHave h = false ∧ party.mapAlreadyAskedFor[h]? = none) → hashes.Nodup →
    (∀ r ∈ party.pfrom.mapAskFor, r.1 ≤ max (2 * 60 * 1000000) party.nLastTime) →
    Sound party.pfrom.setInventoryKnown →
    ∃ asked last known requests, party.inv time hashes =
        { party with
          mapAlreadyAskedFor := asked
          nLastTime := last
          pfrom := { party.pfrom with setInventoryKnown := known, mapAskFor := requests } } ∧
      requests.map Prod.snd = party.pfrom.mapAskFor.map Prod.snd ++ hashes ∧ Sound known := by
  intro hashes
  induction hashes with
  | nil => exact fun party _ _ _ sound => ⟨_, _, _, _, rfl, (List.append_nil _).symm, sound⟩
  | cons h hashes ih =>
    intro party new nodup bound sound
    rw [List.forall_mem_cons] at new
    rw [List.nodup_cons] at nodup
    obtain ⟨⟨unknown, unasked⟩, new⟩ := new
    have first : party.mapAlreadyAskedFor.getD h 0 = 0 := by
      rw [ExtTreeMap.getD_eq_getD_getElem?, unasked, Option.getD_none]
    -- the party after this entry
    let nNow := max ((time - 1) * 1000000) (party.nLastTime + 1)
    let next : Party := { party with
      mapAlreadyAskedFor := party.mapAlreadyAskedFor.insert h (max (2 * 60 * 1000000) nNow)
      nLastTime := nNow
      pfrom := { party.pfrom with
        setInventoryKnown := (party.pfrom.setInventoryKnown.insert h).1
        mapAskFor := party.pfrom.mapAskFor ++ [(max (2 * 60 * 1000000) nNow, h)] } }
    have grows : party.nLastTime ≤ nNow := by omega
    have append : party.pfrom.mapAskFor.orderedInsert (fun a b => a.1 < b.1)
        (max (2 * 60 * 1000000) nNow, h) =
          party.pfrom.mapAskFor ++ [(max (2 * 60 * 1000000) nNow, h)] :=
      orderedInsert_last fun r member => (bound r member).trans (max_le_max_left _ grows)
    have step : party.inventory time h hashes.isEmpty = next := by
      rw [inventory_new unknown]
      simp only [Party.askFor, CNode.addInventoryKnown, first, Int.zero_add, append, next, nNow]
    obtain ⟨asked, last, known, requests, loop, order, sound'⟩ := ih next
      (fun h' member => ⟨(new h' member).1, by
        rw [ExtTreeMap.getElem?_insert, if_neg, (new h' member).2]
        rw [Std.compare_eq_iff_eq]
        exact fun same => nodup.1 (same ▸ member)⟩)
      nodup.2
      (fun r member => by
        rcases List.mem_append.mp member with old | isNew
        · exact (bound r old).trans (max_le_max_left _ grows)
        · rw [List.mem_singleton.mp isNew])
      (sound.insert h).1
    refine ⟨asked, last, known, requests, ?_, ?_, sound'⟩
    · rw [Party.inv, step, loop]
    · rw [order]
      simp [next]

theorem inv_singleton (new : party.alreadyHave h = false) (none : party.pfrom.mapAskFor = [])
    (sound : Sound party.pfrom.setInventoryKnown) (time : Int) :
    ∃ asked last known requests, party.inv time [h] =
        { party with
          mapAlreadyAskedFor := asked
          nLastTime := last
          pfrom := { party.pfrom with setInventoryKnown := known, mapAskFor := requests } } ∧
      requests.map Prod.snd = [h] ∧ Sound known := by
  let next := Party.askFor { party with pfrom := party.pfrom.addInventoryKnown h } time h
  refine ⟨next.mapAlreadyAskedFor, next.nLastTime, next.pfrom.setInventoryKnown, next.pfrom.mapAskFor,
    ?_, ?_, (sound.insert h).1⟩
  · exact inventory_new new time true
  · simp [next, Party.askFor, CNode.addInventoryKnown, none]

theorem flatten_inChunks (items : List Uint256) : ∀ vInv, (inChunks vInv items).flatten = vInv ++ items := by
  induction items with
  | nil =>
    intro vInv
    cases vInv <;> simp [inChunks]
  | cons inv items ih =>
    intro vInv
    rw [inChunks]
    split_ifs
    · rw [List.flatten_cons, ih, List.nil_append, List.append_assoc, List.singleton_append]
    · rw [ih, List.append_assoc, List.singleton_append]

theorem nil_notMem_inChunks (items : List Uint256) : ∀ vInv, [] ∉ inChunks vInv items := by
  induction items with
  | nil =>
    intro vInv
    cases vInv <;> simp [inChunks]
  | cons inv items ih =>
    intro vInv
    rw [inChunks]
    split_ifs
    · rw [List.mem_cons, not_or]
      exact ⟨by simp, ih []⟩
    · exact ih _

theorem inChunks_short {items : List Uint256} : ∀ {vInv : List Uint256},
    vInv.length + items.length < 1000 → vInv ++ items ≠ [] → inChunks vInv items = [vInv ++ items] := by
  induction items with
  | nil =>
    intro vInv _ nonempty
    rw [List.append_nil] at nonempty ⊢
    rw [inChunks, if_neg (by simpa using nonempty)]
  | cons inv items ih =>
    intro vInv short nonempty
    simp only [List.length_cons] at short
    rw [inChunks, if_neg (by omega), ih (by simp; omega) (by simp), List.append_assoc,
      List.singleton_append]

theorem sendMessages_idle (inventory : party.pfrom.vInventoryToSend = []) (requests : party.pfrom.mapAskFor = [])
    (time : Int) : party.sendMessages time = party := by
  rw [Party.sendMessages]
  split_ifs with silent
  · rfl
  · obtain ⟨node, asked, last, pfrom⟩ := party
    obtain ⟨⟩ := pfrom
    simp only at inventory requests
    simp [Party.sendRequests, CNode.sendInventory, inventory, requests, announce, inChunks]

theorem sendMessages_inventory {hashes : List Uint256} (version : party.pfrom.nVersion ≠ 0)
    (queued : party.pfrom.vInventoryToSend = hashes) (requests : party.pfrom.mapAskFor = []) (nodup : hashes.Nodup)
    (unknown : ∀ h ∈ hashes, party.pfrom.setInventoryKnown.count h = false) (short : hashes.length < 1000)
    (nonempty : hashes ≠ []) (time : Int) :
    ∃ known, party.sendMessages time = { party with pfrom := { party.pfrom with
      setInventoryKnown := known
      vInventoryToSend := []
      vSend := party.pfrom.vSend ++ [.inv hashes] } } := by
  refine ⟨(announce party.pfrom.setInventoryKnown hashes).1, ?_⟩
  have chunks : inChunks [] hashes = [hashes] := inChunks_short (by simpa using short) (by simpa using nonempty)
  rw [Party.sendMessages, if_neg version]
  simp [Party.sendRequests, CNode.sendInventory, queued, requests, announce_unknown nodup unknown, chunks,
    inChunks]

theorem sendMessages_requests (version : party.pfrom.nVersion ≠ 0) (queued : party.pfrom.vInventoryToSend = [])
    (new : ∀ request ∈ party.pfrom.mapAskFor, party.alreadyHave request.2 = false) (time : Int) :
    ∃ asked due later, party.pfrom.mapAskFor = due ++ later ∧
      party.sendMessages time = { party with
        mapAlreadyAskedFor := asked
        pfrom := { party.pfrom with
          mapAskFor := later
          vSend := party.pfrom.vSend ++ (inChunks [] (due.map Prod.snd)).map .getdata } } := by
  let due := party.pfrom.mapAskFor.takeWhile fun request => decide (request.1 ≤ time * 1000000)
  let later := party.pfrom.mapAskFor.dropWhile fun request => decide (request.1 ≤ time * 1000000)
  have split : party.pfrom.mapAskFor = due ++ later := List.takeWhile_append_dropWhile.symm
  have all : (due.map Prod.snd).filter (fun inv => !party.alreadyHave inv) = due.map Prod.snd := by
    rw [List.filter_eq_self]
    intro h member
    obtain ⟨request, inDue, rfl⟩ := List.mem_map.mp member
    simp [new request (split ▸ List.mem_append_left later inDue)]
  have sent : (Party.sendRequests { party with pfrom := party.pfrom.sendInventory } time) =
      Party.sendRequests party time := by
    obtain ⟨node, asked, last, pfrom⟩ := party
    obtain ⟨⟩ := pfrom
    simp only at queued
    simp [CNode.sendInventory, queued, announce, inChunks]
  refine ⟨(party.sendRequests time).mapAlreadyAskedFor, due, later, split, ?_⟩
  rw [Party.sendMessages, if_neg version, sent]
  simp only [due] at all
  simp only [Party.sendRequests, all]
  rfl

structure Reached (P : Primitives) (blocks : List CBlock) (n : ℕ) (node : Node) : Prop where
  chain : ∃ events chain, Inv P events node chain ∧ chain.map Placed.block = blocks.take n
  missing : ∀ block ∈ blocks.drop n, node.mapBlockIndex[P.getHash block]? = none

section Reached
variable {now : Int} {server : Node} {n : ℕ}

theorem Reached.have (reached : Reached P (chain.map Placed.block) n node) (found : chain[i]? = some p)
    (low : i < n) : ∃ e, node.mapBlockIndex[P.getHash p.block]? = some e := by
  obtain ⟨_, own, inv, same⟩ := reached.chain
  have here := congrArg (fun blocks => blocks[i]?) same
  simp only [List.getElem?_map, List.getElem?_take, if_pos low, found, Option.map_some] at here
  obtain ⟨q, atI, equal⟩ := Option.map_eq_some_iff.mp here
  obtain ⟨e, lookup, _⟩ := inv.path.entry i q atI
  exact ⟨e, equal ▸ lookup⟩

theorem Reached.missing_at (reached : Reached P (chain.map Placed.block) n node) (found : chain[i]? = some p)
    (high : n ≤ i) : node.mapBlockIndex[P.getHash p.block]? = none := by
  refine reached.missing p.block (List.mem_of_getElem? (i := i - n) ?_)
  rw [List.getElem?_drop, List.getElem?_map, Nat.add_sub_cancel' high, found, Option.map_some]

theorem Reached.hashBestChain (reached : Reached P (chain.map Placed.block) (n + 1) node)
    (found : chain[n]? = some p) : node.hashBestChain = P.getHash p.block := by
  obtain ⟨_, own, inv, same⟩ := reached.chain
  obtain ⟨last, e, top, hash, _⟩ := inv.tip.best
  have blocks := congrArg List.getLast? same
  rw [List.getLast?_map, top, List.getLast?_take, if_neg (Nat.succ_ne_zero n), Nat.add_sub_cancel,
    List.getElem?_map, found] at blocks
  rw [hash, Option.some.inj blocks]

theorem Reached.nBestHeight (reached : Reached P (chain.map Placed.block) (n + 1) node)
    (bound : n < chain.length) : node.nBestHeight = n := by
  obtain ⟨_, own, inv, same⟩ := reached.chain
  have length := congrArg List.length same
  simp only [List.length_map, List.length_take] at length
  rw [inv.nBestHeight]
  omega

theorem Reached.next (serverInv : Inv P events server chain) (grown : Grown P events chain)
    (reached : Reached P (chain.map Placed.block) (n + 1) node) (found : chain[n + 1]? = some p)
    (clock : ∀ now' block, Event.block now' block ∈ events → now' ≤ now) :
    ∃ after, processBlock P now node p.block = (.ok (), after) ∧
      Reached P (chain.map Placed.block) (n + 2) after := by
  obtain ⟨time, received, fits⟩ := grown n p found
  obtain ⟨own_events, own, inv, same⟩ := reached.chain
  rw [← List.map_take] at same
  have fresh := reached.missing_at found le_rfl
  obtain ⟨pindexPrev, pindexNew, txdb, admission, tip, connect, outcome⟩ :=
    (fits.later (clock time _ received)).connects inv same fresh
  refine ⟨_, outcome, ⟨_, _, (inv.mono (List.subset_append_left own_events [.block now p.block])).connect
    admission tip connect (by simp), ?_⟩, ?_⟩
  · have longer := List.take_add_one (l := chain) (i := n + 1)
    rw [found, Option.toList_some] at longer
    rw [List.map_append, same, ← List.map_take, longer, List.map_append]
    rfl
  · intro block member
    obtain ⟨q, inRest, rfl⟩ := List.mem_map.mp (List.map_drop ▸ member)
    obtain ⟨j, atJ⟩ := List.getElem?_of_mem inRest
    rw [List.getElem?_drop] at atJ
    have missing := reached.missing_at atJ (by omega)
    rw [connected_getElem?, if_neg, if_neg, missing]
    · intro hash
      have := serverInv.path.index_unique found atJ hash
      omega
    · intro hash
      rw [← hash, admission.parent] at missing
      cases missing

theorem Reached.ahead (serverInv : Inv P events server chain) (reached : Reached P (chain.map Placed.block) n node)
    (found : chain[i + 1]? = some p) (high : n ≤ i) : (processBlock P now node p.block).2 = node := by
  obtain ⟨_, own, inv, _⟩ := reached.chain
  obtain ⟨below, foundBelow⟩ := exists_below found
  have orphan : node.mapBlockIndex[p.block.hashPrevBlock]? = none := by
    rw [serverInv.path.link i below p foundBelow found]
    exact reached.missing_at foundBelow high
  have refused {pindexPrev : CBlockIndex} (admission : Admission P now node p.block pindexPrev) : False := by
    have parent := admission.parent
    rw [orphan] at parent
    cases parent
  have effect := inv.effect now p.block
  generalize processBlock P now node p.block = step at effect
  cases effect with
  | rejected => rfl
  | orphan => rfl
  | side admission => exact (refused admission).elim
  | apart _ admission => exact (refused admission).elim
  | failed _ _ admission => exact (refused admission).elim
  | connected admission => exact (refused admission).elim

theorem Reached.pnext (serverInv : Inv P events server chain) (reached : Reached P (chain.map Placed.block) n node)
    (lookup : node.mapBlockIndex[server.hashBestChain]? = some e) : e.pnext = none := by
  obtain ⟨_, own, inv, same⟩ := reached.chain
  obtain ⟨last, positive, atEnd, hash⟩ := serverInv.tip_at
  refine Option.eq_none_iff_forall_ne_some.mpr fun h next => ?_
  obtain ⟨i, p, q, here, above, isTip, _⟩ := (inv.pnext _ e lookup h).mp next
  have length := congrArg List.length same
  have bound := (List.getElem?_eq_some_iff.mp above).1
  simp only [List.length_map, List.length_take] at length
  have block := congrArg (fun blocks => blocks[i]?) same
  simp only [List.getElem?_map, here, Option.map_some, List.getElem?_take] at block
  rw [if_pos (by omega)] at block
  obtain ⟨p', atI, equal⟩ := Option.map_eq_some_iff.mp block.symm
  rw [hash, ← equal] at isTip
  have := serverInv.path.index_unique atI atEnd isTip
  omega

theorem relay_known {pnode : CNode} {hash : Uint256} (known : pnode.setInventoryKnown.count hash = true)
    (settings : Settings) (node : Node) : pnode.relay settings node hash = pnode := by
  simp [CNode.relay, CNode.pushInventory, known]

theorem block_eq (sound : Sound party.pfrom.setInventoryKnown) (settings : Settings) (now : Int) (block : CBlock) :
    ∃ asked, party.block P settings now block = { party with
      node := (processBlock P now party.node block).2
      mapAlreadyAskedFor := asked
      pfrom := party.pfrom.addInventoryKnown (P.getHash block) } := by
  have known : (party.pfrom.addInventoryKnown (P.getHash block)).setInventoryKnown.count
      (P.getHash block) = true := (sound.insert _).2
  rw [Party.block]
  rcases processBlock P now party.node block with ⟨result, after⟩
  cases result with
  | error failure => exact ⟨_, rfl⟩
  | ok _ => exact ⟨_, by simp only [relay_known known]; rfl⟩

end Reached

end RitCoin.Proof
