import RitCoin.Proof.Peers

namespace RitCoin.Proof
open Lib Model Spec Std
variable {tip : Uint256} {message : Message} {party : Party}

def noise (tip : Uint256) : Message → Bool
  | .verack => true
  | .getblocks hashStart hashStop => hashStart == tip && hashStop == 0
  | _ => false

def signal (tip : Uint256) (messages : List Message) : List Message :=
  messages.filter fun message => !noise tip message

/-- What is to be exchanged: the tips and heights of the two sides, the blocks the requester lacks with
the tip at their end, the first answer and whether that was cut. -/
structure Plan where
  tip : Uint256
  start : Uint256
  serverHeight : Int
  requesterHeight : Int
  gap : List CBlock
  first : List CBlock
  last : CBlock
  cut : Bool

inductive Stage
  /-- The requester has called and its version is on its way. -/
  | greeting
  | greeted
  /-- The server has called and its version is on its way. -/
  | hailing
  | hailed
  | request
  | queued
  | announced
  /-- The blocks of the answer that have arrived, are on their way, are requested in messages on
  their way, and have to be requested. -/
  | loading (done flying : List CBlock) (wanted : List (List CBlock)) (toAsk : List CBlock)
  /-- The tip has to be requested. -/
  | tipWanted
  | tipRequested
  | tipSent
  | finished

/-- What a stage looks like: who has got the version of the other, the messages that matter, and the
fields of the connection. -/
structure View where
  serverVersion : Bool
  requesterVersion : Bool
  toServer : List Message
  toRequester : List Message
  queued : List CBlock
  hashContinue : Uint256
  toAsk : List CBlock
  /-- How many of the missing blocks the requester has. -/
  done : ℕ

def Plan.request (plan : Plan) : List Message := signal plan.tip [.getblocks plan.start 0]

def Stage.view (P : Primitives) (plan : Plan) : Stage → View
  | .greeting => ⟨false, false, [.version plan.requesterHeight], [], [], 0, [], 0⟩
  | .greeted => ⟨true, false, [], [.version plan.serverHeight], [], 0, [], 0⟩
  | .hailing => ⟨false, false, [], [.version plan.serverHeight], [], 0, [], 0⟩
  | .hailed => ⟨false, true, .version plan.requesterHeight :: plan.request, [], [], 0, [], 0⟩
  | .request => ⟨true, true, plan.request, [], [], 0, [], 0⟩
  | .queued => ⟨true, true, [], [], plan.first, continueAt P plan.cut plan.first, [], 0⟩
  | .announced =>
    ⟨true, true, [], [.inv (plan.first.map P.getHash)], [], continueAt P plan.cut plan.first, [], 0⟩
  | .loading done flying wanted toAsk =>
    ⟨true, true, wanted.map fun blocks => .getdata (blocks.map P.getHash),
      flying.map .block ++ trailer plan.tip plan.cut (wanted.flatten ++ toAsk), [],
      continueAt P plan.cut (wanted.flatten ++ toAsk), toAsk, done.length⟩
  | .tipWanted => ⟨true, true, [], [], [], 0, [plan.last], plan.first.length⟩
  | .tipRequested => ⟨true, true, [.getdata [plan.tip]], [], [], 0, [], plan.first.length⟩
  | .tipSent => ⟨true, true, [], [.block plan.last], [], 0, [], plan.first.length⟩
  | .finished =>
    ⟨true, true, [], [], [], 0, [],
      if plan.gap.length ≤ plan.first.length + 1 then plan.gap.length else plan.first.length⟩

def Stage.Fits (plan : Plan) : Stage → Prop
  | .queued | .announced => plan.first ≠ []
  | .loading done flying wanted toAsk =>
    plan.first = done ++ (flying ++ (wanted.flatten ++ toAsk)) ∧ [] ∉ wanted
  | .tipWanted | .tipRequested | .tipSent => plan.first.length < plan.gap.length
  | _ => True

def Stage.Roles (serverInbound requesterInbound : Bool) : Stage → Prop
  | .greeting | .greeted => serverInbound = true ∧ requesterInbound = false
  | .hailing | .hailed => serverInbound = false ∧ requesterInbound = true
  | _ => True

def Stage.unannounced : Stage → Bool
  | .greeting | .greeted | .hailing | .hailed | .request | .queued => true
  | _ => false

def Stage.unasked : Stage → Bool
  | .announced => true
  | stage => stage.unannounced

structure Scene (P : Primitives) (settings : Settings) (events : List Event) (server : Node)
    (chain : List Placed) (base : ℕ) (plan : Plan) : Prop where
  inv : Inv P events server chain
  grown : Grown P events chain
  tip : server.hashBestChain = plan.tip
  height : server.nBestHeight = plan.serverHeight
  start : ∃ p, chain[base]? = some p ∧ P.getHash p.block = plan.start
  gap : plan.gap = (chain.drop (base + 1)).map Placed.block
  last : plan.gap ≠ [] → plan.gap.getLast? = some plan.last
  nonzero : ∀ block ∈ plan.gap, P.getHash block ≠ 0
  initial : plan.first <+: plan.gap
  short : plan.first.length ≤ 500
  whole : plan.cut = false → plan.first = plan.gap
  nonempty : plan.cut = true → plan.first ≠ []
  answers : ∀ pfrom : CNode, (∀ h, pfrom.setInventoryKnown.count h = false) → pfrom.hashContinue = 0 →
    getBlocksLoop server settings.sendBufferSize 0 500 0
        ((chain[base + 1]?).map fun q => P.getHash q.block) pfrom =
      { pfrom with
        vInventoryToSend := pfrom.vInventoryToSend ++ plan.first.map P.getHash
        hashContinue := continueAt P plan.cut plan.first }

variable {P : Primitives} {settings : Settings} {events : List Event} {server : Node}
  {chain : List Placed} {base : ℕ} {plan : Plan}

structure Looks (P : Primitives) (server : Node) (chain : List Placed) (base : ℕ) (plan : Plan)
    (c : Connection) (stage : Stage) : Prop where
  fits : stage.Fits plan
  roles : stage.Roles c.server.pfrom.fInbound c.requester.pfrom.fInbound
  node : c.server.node = server
  serverVersion : decide (c.server.pfrom.nVersion = 0) = !(stage.view P plan).serverVersion
  requesterVersion : decide (c.requester.pfrom.nVersion = 0) = !(stage.view P plan).requesterVersion
  toServer : signal plan.tip c.requester.pfrom.vSend = (stage.view P plan).toServer
  toRequester : signal plan.tip c.server.pfrom.vSend = (stage.view P plan).toRequester
  queued : c.server.pfrom.vInventoryToSend = (stage.view P plan).queued.map P.getHash
  hashContinue : c.server.pfrom.hashContinue = (stage.view P plan).hashContinue
  toAsk : c.requester.pfrom.mapAskFor.map Prod.snd = (stage.view P plan).toAsk.map P.getHash
  reached : Reached P (chain.map Placed.block) (base + 1 + (stage.view P plan).done) c.requester.node
  idle : c.server.pfrom.mapAskFor = [] ∧ c.requester.pfrom.vInventoryToSend = []
  sound : Sound c.requester.pfrom.setInventoryKnown
  unannounced : stage.unannounced = true → ∀ h, c.server.pfrom.setInventoryKnown.count h = false
  unasked : stage.unasked = true → c.requester.mapAlreadyAskedFor = ∅
  serverSilent : (stage.view P plan).serverVersion = false →
    c.server.pfrom.pindexLastGetBlocksBegin = none
  requesterSilent : (stage.view P plan).requesterVersion = false →
    c.requester.pfrom.pindexLastGetBlocksBegin = none

@[simp] theorem signal_nil (tip : Uint256) : signal tip [] = [] := rfl

@[simp] theorem signal_append (tip : Uint256) (a b : List Message) :
    signal tip (a ++ b) = signal tip a ++ signal tip b :=
  List.filter_append ..

theorem signal_cons_of_noise (quiet : noise tip message = true) (rest : List Message) :
    signal tip (message :: rest) = signal tip rest := by
  simp [signal, quiet]

theorem signal_cons_of_not_noise (loud : noise tip message = false) (rest : List Message) :
    signal tip (message :: rest) = message :: signal tip rest := by
  simp [signal, loud]

theorem signal_map {α : Type} {f : α → Message} (loud : ∀ x, noise tip (f x) = false) (items : List α) :
    signal tip (items.map f) = items.map f := by
  rw [signal, List.filter_eq_self]
  intro message member
  obtain ⟨x, _, rfl⟩ := List.mem_map.mp member
  rw [loud, Bool.not_false]

theorem signal_trailer (tip : Uint256) (cut : Bool) (rest : List CBlock) :
    signal tip (trailer tip cut rest) = trailer tip cut rest := by
  rw [trailer]
  split_ifs <;> rfl

theorem trailer_of_ne_nil {cut : Bool} {rest : List CBlock} (more : rest ≠ []) : trailer tip cut rest = [] :=
  if_neg fun h => more h.2

theorem processMessage_noise (clock : Clock) (quiet : noise tip message = true)
    (childless : ∀ e, party.node.mapBlockIndex[tip]? = some e → e.pnext = none) :
    party.processMessage P settings clock message = party := by
  cases message with
  | verack => cases silent : decide (party.pfrom.nVersion = 0) <;> simp only [Party.processMessage, silent]
  | getblocks hashStart hashStop =>
    simp only [noise, Bool.and_eq_true, beq_iff_eq] at quiet
    obtain ⟨rfl, rfl⟩ := quiet
    cases silent : decide (party.pfrom.nVersion = 0) with
    | true => simp only [Party.processMessage, silent]
    | false =>
      simp only [Party.processMessage, silent]
      cases lookup : party.node.mapBlockIndex[hashStart]? with
      | none => simp only [Party.getblocks, lookup]
      | some e => simp only [Party.getblocks, lookup, childless e lookup, getBlocksLoop]
  | version | inv | getdata | block => cases quiet

theorem version_eq (silent : party.pfrom.pindexLastGetBlocksBegin = none) (best : party.node.pindexBest = some tip)
    (nStartingHeight : Int) :
    party.version nStartingHeight = { party with pfrom := { party.pfrom with
      nVersion := PROTOCOL_VERSION
      nStartingHeight := nStartingHeight
      pindexLastGetBlocksBegin := some tip
      hashLastGetBlocksEnd := 0
      vSend := party.pfrom.vSend ++
        ((if party.pfrom.fInbound then [.version party.node.nBestHeight] else []) ++
          [.verack, .getblocks tip 0]) } } := by
  rw [Party.version, best]
  cases inbound : party.pfrom.fInbound <;>
    simp [CNode.pushMessage, CNode.pushGetBlocks, silent, inbound]

theorem processMessage_version (silent : decide (party.pfrom.nVersion = 0) = true) (clock : Clock)
    (nStartingHeight : Int) :
    party.processMessage P settings clock (.version nStartingHeight) = party.version nStartingHeight := by
  simp only [Party.processMessage, silent]

section Scenes
variable (scene : Scene P settings events server chain base plan)
variable {block : CBlock} {node : Node}

include scene

theorem Scene.exists_placed {before after : List CBlock} (gap : plan.gap = before ++ block :: after) :
    ∃ p, chain[base + 1 + before.length]? = some p ∧ p.block = block := by
  have here := congrArg (fun blocks => blocks[before.length]?) (scene.gap.symm.trans gap)
  simp only [List.getElem?_map, List.getElem?_drop, List.getElem?_append_right le_rfl, Nat.sub_self,
    List.getElem?_cons_zero] at here
  exact Option.map_eq_some_iff.mp here

theorem Scene.nodup :
    (plan.gap.map P.getHash).Nodup := by
  rw [scene.gap, List.map_map, List.nodup_iff_getElem?_ne_getElem?]
  intro i j lt bound same
  simp only [List.length_map, List.length_drop] at bound
  have found : chain[base + 1 + j]? = some chain[base + 1 + j] := List.getElem?_eq_getElem (by omega)
  have found' : chain[base + 1 + i]? = some chain[base + 1 + i] := List.getElem?_eq_getElem (by omega)
  simp only [List.getElem?_map, List.getElem?_drop, found, found', Option.map_some, Option.some.injEq,
    Function.comp_apply] at same
  have := scene.inv.path.index_unique found' found same
  omega

theorem Scene.first_nodup :
    (plan.first.map P.getHash).Nodup :=
  scene.nodup.sublist (scene.initial.sublist.map _)

theorem Scene.mem (member : block ∈ plan.gap) : block ∈ chain.map Placed.block := by
  rw [scene.gap, List.map_drop] at member
  exact List.mem_of_mem_drop member

theorem Scene.first_ne_nil (more : plan.gap ≠ []) :
    plan.first ≠ [] := by
  cases cut : plan.cut with
  | false => exact scene.whole cut ▸ more
  | true => exact scene.nonempty cut

theorem Scene.hash_last (more : plan.gap ≠ []) :
    plan.last ∈ plan.gap ∧ P.getHash plan.last = plan.tip := by
  have last := scene.last more
  refine ⟨List.mem_of_getLast? last, ?_⟩
  obtain ⟨top, _, atTop, tip, _⟩ := scene.inv.tip.best
  rw [scene.gap, List.getLast?_map, List.getLast?_drop] at last
  split_ifs at last with short
  · cases last
  · rw [atTop] at last
    rw [← scene.tip, tip, ← Option.some.inj last]

theorem Scene.childless {e : CBlockIndex}
    (lookup : server.mapBlockIndex[plan.tip]? = some e) : e.pnext = none := by
  obtain ⟨last, _, atEnd, tip⟩ := scene.inv.tip_at
  rw [scene.inv.pnext_eq atEnd (by rw [← tip, scene.tip]; exact lookup),
    List.getElem?_eq_none (by omega), Option.map_none]

theorem Scene.start_eq (reached : Reached P (chain.map Placed.block) (base + 1) node) :
    node.pindexBest = some plan.start ∧ node.nBestHeight = base := by
  obtain ⟨p, found, hash⟩ := scene.start
  obtain ⟨_, _, inv, _⟩ := reached.chain
  exact ⟨by rw [inv.tip.pindexBest, reached.hashBestChain found, hash],
    reached.nBestHeight (List.getElem?_eq_some_iff.mp found).1⟩

theorem Scene.missing {before after : List CBlock} (gap : plan.gap = before ++ block :: after) {done : ℕ}
    (reached : Reached P (chain.map Placed.block) (base + 1 + done) node) (le : done ≤ before.length) :
    node.mapBlockIndex[P.getHash block]? = none := by
  obtain ⟨p, found, rfl⟩ := scene.exists_placed gap
  exact reached.missing_at found (by omega)

theorem Scene.length :
    chain.length = base + 1 + plan.gap.length := by
  obtain ⟨p, found, _⟩ := scene.start
  have bound := (List.getElem?_eq_some_iff.mp found).1
  rw [scene.gap, List.length_map, List.length_drop]
  omega

theorem Scene.tip_iff {n : ℕ} (le : n ≤ plan.gap.length)
    (reached : Reached P (chain.map Placed.block) (base + 1 + n) node) :
    node.hashBestChain = plan.tip ↔ n = plan.gap.length := by
  have length := scene.length
  have found : chain[base + n]? = some chain[base + n] := List.getElem?_eq_getElem (by omega)
  rw [Nat.add_right_comm] at reached
  obtain ⟨last, _, atEnd, tip⟩ := scene.inv.tip_at
  rw [reached.hashBestChain found, ← scene.tip, tip]
  constructor
  · intro same
    have := scene.inv.path.index_unique found atEnd same
    omega
  · intro all
    rw [show chain.length - 1 = base + n by omega, found] at atEnd
    rw [Option.some.inj atEnd]

end Scenes

end RitCoin.Proof
