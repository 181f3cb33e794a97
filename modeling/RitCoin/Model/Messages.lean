import Mathlib.Data.List.Sort
import RitCoin.Model.Chain
import RitCoin.Model.Mruset

/-!
# The exchange of blocks between two nodes

The handlers of `version`, `getblocks`, `inv`, `getdata` and `block` in `messages.cpp`, `SendMessages`,
and the part of `CNode` they work on. The two nodes have no other peers and no transactions to
announce, so all inventory is of type `MSG_BLOCK` and a `CInv` is its hash.
-/

namespace RitCoin.Model
open Std

inductive Message
  | version (nStartingHeight : Int)
  | verack
  | getblocks (hashStart hashStop : Uint256)
  | inv (vInv : List Uint256)
  | getdata (vInv : List Uint256)
  | block (block : CBlock)
deriving DecidableEq

structure Settings where
  maxSendBuffer : Int := 10 * 1000
  nBlockEstimate : Int := 0

def Settings.sendBufferSize (settings : Settings) : UInt32 := UInt32.ofInt (1000 * settings.maxSendBuffer)

def PROTOCOL_VERSION : Int := 1006

/-- `vSend` holds what has been sent and not yet been handled at the other end. `mapAskFor` is a
multimap: it is ordered by time, and entries of one time are in the order of their insertion. -/
structure CNode where
  vSend : List Message
  nVersion : Int
  fInbound : Bool
  hashContinue : Uint256
  pindexLastGetBlocksBegin : Option Uint256
  hashLastGetBlocksEnd : Uint256
  nStartingHeight : Int
  setInventoryKnown : Mruset Uint256
  vInventoryToSend : List Uint256
  mapAskFor : List (Int × Uint256)

def CNode.pushMessage (pnode : CNode) (message : Message) : CNode :=
  { pnode with vSend := pnode.vSend ++ [message] }

def CNode.pushGetBlocks (pnode : CNode) (pindexBegin hashEnd : Uint256) : CNode :=
  if pnode.pindexLastGetBlocksBegin = some pindexBegin ∧ pnode.hashLastGetBlocksEnd = hashEnd then pnode
  else
    { pnode with
      pindexLastGetBlocksBegin := some pindexBegin
      hashLastGetBlocksEnd := hashEnd }.pushMessage (.getblocks pindexBegin hashEnd)

def CNode.addInventoryKnown (pnode : CNode) (inv : Uint256) : CNode :=
  { pnode with setInventoryKnown := (pnode.setInventoryKnown.insert inv).1 }

def CNode.pushInventory (pnode : CNode) (inv : Uint256) : CNode :=
  if pnode.setInventoryKnown.count inv then pnode
  else { pnode with vInventoryToSend := pnode.vInventoryToSend ++ [inv] }

def CNode.new (settings : Settings) (fInbound : Bool) (nBestHeight : Int) : CNode :=
  let pnode : CNode :=
    { vSend := []
      nVersion := 0
      fInbound := fInbound
      hashContinue := 0
      pindexLastGetBlocksBegin := none
      hashLastGetBlocksEnd := 0
      nStartingHeight := -1
      setInventoryKnown := (Mruset.empty 0).maxSize (settings.sendBufferSize.toNat / 1000)
      vInventoryToSend := []
      mapAskFor := [] }
  if fInbound then pnode else pnode.pushMessage (.version nBestHeight)

structure Party where
  node : Node
  mapAlreadyAskedFor : ExtTreeMap Uint256 Int
  nLastTime : Int
  pfrom : CNode

def Party.askFor (party : Party) (time : Int) (inv : Uint256) : Party :=
  -- no time is used twice, to keep things in the same order
  let nNow := max ((time - 1) * 1000000) (party.nLastTime + 1)
  let nRequestTime := max (party.mapAlreadyAskedFor.getD inv 0 + 2 * 60 * 1000000) nNow
  { party with
    mapAlreadyAskedFor := party.mapAlreadyAskedFor.insert inv nRequestTime
    nLastTime := nNow
    pfrom := { party.pfrom with
      mapAskFor := party.pfrom.mapAskFor.orderedInsert (fun a b => a.1 < b.1) (nRequestTime, inv) } }

def Party.alreadyHave (party : Party) (inv : Uint256) : Bool := party.node.mapBlockIndex.contains inv

def Party.version (party : Party) (nStartingHeight : Int) : Party :=
  let pfrom := { party.pfrom with nVersion := PROTOCOL_VERSION, nStartingHeight := nStartingHeight }
  let pfrom := if pfrom.fInbound then pfrom.pushMessage (.version party.node.nBestHeight) else pfrom
  let pfrom := pfrom.pushMessage .verack
  match party.node.pindexBest with
  | none => { party with pfrom := pfrom }
  | some pindexBest => { party with pfrom := pfrom.pushGetBlocks pindexBest 0 }

def Party.inventory (party : Party) (time : Int) (inv : Uint256) (last : Bool) : Party :=
  let party := { party with pfrom := party.pfrom.addInventoryKnown inv }
  if party.alreadyHave inv then
    if last then { party with pfrom := party.pfrom.pushGetBlocks inv 0 } else party
  else party.askFor time inv

def Party.inv (party : Party) (time : Int) : List Uint256 → Party
  | [] => party
  | inv :: rest => (party.inventory time inv rest.isEmpty).inv time rest

def CBlock.null : CBlock where
  nVersion := 1
  hashPrevBlock := 0
  hashMerkleRoot := 0
  nTime := 0
  nBits := 0
  nNonce := 0
  integrity := []
  authenticity := []
  vtx := []

def Node.blockAt (node : Node) (pindex : CBlockIndex) : CBlock :=
  (readBlockAt node.files.writes pindex.nFile pindex.nBlockPos).getD .null

def Party.data (party : Party) (inv : Uint256) : Party :=
  match party.node.mapBlockIndex[inv]? with
  | none => party
  | some pindex =>
    let pfrom := party.pfrom.pushMessage (.block (party.node.blockAt pindex))
    if inv = pfrom.hashContinue then
      { party with pfrom :=
        { pfrom.pushMessage (.inv party.node.pindexBest.toList) with hashContinue := 0 } }
    else { party with pfrom := pfrom }

def getBlocksLoop (node : Node) (sendBufferSize : UInt32) (hashStop : Uint256) :
    Nat → UInt32 → Option Uint256 → CNode → CNode
  | 0, _, _, pfrom => pfrom
  | _ + 1, _, none, pfrom => pfrom
  | nLimit + 1, nBytes, some hash, pfrom =>
    match node.mapBlockIndex[hash]? with
    | none => pfrom
    | some pindex =>
      if hash = hashStop then
        if hashStop ≠ node.hashBestChain then pfrom.pushInventory node.hashBestChain else pfrom
      else
        let pfrom := pfrom.pushInventory hash
        let nBytes := nBytes + UInt32.ofNat (node.blockAt pindex).getSerializeSize
        if nLimit = 0 ∨ nBytes ≥ sendBufferSize / 2 then { pfrom with hashContinue := hash }
        else getBlocksLoop node sendBufferSize hashStop nLimit nBytes pindex.pnext pfrom

def Party.getblocks (settings : Settings) (party : Party) (hashStart hashStop : Uint256) : Party :=
  match party.node.mapBlockIndex[hashStart]? with
  | none => party
  | some pindex =>
    { party with pfrom :=
      getBlocksLoop party.node settings.sendBufferSize hashStop 500 0 pindex.pnext party.pfrom }

/-- The end of `AcceptBlock`. An orphan never gets there, and never is the tip either. -/
def CNode.relay (settings : Settings) (pnode : CNode) (node : Node) (hash : Uint256) : CNode :=
  if node.hashBestChain = hash ∧ node.nBestHeight >
      (if pnode.nStartingHeight ≠ -1 then pnode.nStartingHeight - 2000 else settings.nBlockEstimate) then
    pnode.pushInventory hash
  else pnode

def Party.block (P : Primitives) (settings : Settings) (party : Party) (now : Int) (block : CBlock) :
    Party :=
  let hash := P.getHash block
  let pfrom := party.pfrom.addInventoryKnown hash
  match processBlock P now party.node block with
  | (.ok _, node) =>
    { party with
      node := node
      mapAlreadyAskedFor := party.mapAlreadyAskedFor.erase hash
      pfrom := pfrom.relay settings node hash }
  | (.error _, node) => { party with node := node, pfrom := pfrom }

structure Clock where
  time : Int
  now : Int

def Party.processMessage (P : Primitives) (settings : Settings) (clock : Clock) (party : Party)
    (message : Message) : Party :=
  match message, decide (party.pfrom.nVersion = 0) with
  | .version nStartingHeight, true => party.version nStartingHeight
  -- each connection can only send one version message, and that before anything else
  | .version _, false | _, true => party
  | .verack, false => party
  | .getblocks hashStart hashStop, false => party.getblocks settings hashStart hashStop
  | .inv vInv, false => if vInv.length > 50000 then party else party.inv clock.time vInv
  | .getdata vInv, false => if vInv.length > 50000 then party else vInv.foldl Party.data party
  | .block block, false => party.block P settings clock.now block

/-- The messages of a loop that sends `vInv` whenever it has grown to 1000 entries, and of the check
after the loop. -/
def inChunks : List Uint256 → List Uint256 → List (List Uint256)
  | vInv, [] => if vInv.isEmpty then [] else [vInv]
  | vInv, inv :: rest =>
    if vInv.length + 1 ≥ 1000 then (vInv ++ [inv]) :: inChunks [] rest
    else inChunks (vInv ++ [inv]) rest

def announce : Mruset Uint256 → List Uint256 → Mruset Uint256 × List Uint256
  | known, [] => (known, [])
  | known, inv :: rest =>
    if known.count inv then announce known rest
    else
      let (known, vInv) := announce (known.insert inv).1 rest
      (known, inv :: vInv)

def CNode.sendInventory (pto : CNode) : CNode :=
  let (known, vInv) := announce pto.setInventoryKnown pto.vInventoryToSend
  { pto with
    setInventoryKnown := known
    vInventoryToSend := []
    vSend := pto.vSend ++ (inChunks [] vInv).map .inv }

def Party.sendRequests (party : Party) (time : Int) : Party :=
  let nNow := time * 1000000
  let due := (party.pfrom.mapAskFor.takeWhile fun request => request.1 ≤ nNow).map Prod.snd
  let vGetData := due.filter fun inv => !party.alreadyHave inv
  { party with
    mapAlreadyAskedFor := due.foldl (fun map inv => map.insert inv nNow) party.mapAlreadyAskedFor
    pfrom := { party.pfrom with
      mapAskFor := party.pfrom.mapAskFor.dropWhile fun request => request.1 ≤ nNow
      vSend := party.pfrom.vSend ++ (inChunks [] vGetData).map .getdata } }

def Party.sendMessages (party : Party) (time : Int) : Party :=
  if party.pfrom.nVersion = 0 then party
  else Party.sendRequests { party with pfrom := party.pfrom.sendInventory } time

structure Connection where
  server : Party
  requester : Party

def connect (settings : Settings) (server requester : Node) (fInbound : Bool) : Connection where
  server := ⟨server, ∅, 0, .new settings (!fInbound) server.nBestHeight⟩
  requester := ⟨requester, ∅, 0, .new settings fInbound requester.nBestHeight⟩

inductive Action
  | serverReceives (clock : Clock)
  | requesterReceives (clock : Clock)
  | serverSends (clock : Clock)
  | requesterSends (clock : Clock)

def Action.clock : Action → Clock
  | .serverReceives clock | .requesterReceives clock | .serverSends clock | .requesterSends clock => clock

def Party.sent (party : Party) : Party :=
  { party with pfrom := { party.pfrom with vSend := party.pfrom.vSend.tail } }

def Connection.act (P : Primitives) (settings : Settings) (c : Connection) : Action → Connection
  | .serverReceives clock =>
    match c.requester.pfrom.vSend with
    | [] => c
    | message :: _ => ⟨c.server.processMessage P settings clock message, c.requester.sent⟩
  | .requesterReceives clock =>
    match c.server.pfrom.vSend with
    | [] => c
    | message :: _ => ⟨c.server.sent, c.requester.processMessage P settings clock message⟩
  | .serverSends clock => { c with server := c.server.sendMessages clock.time }
  | .requesterSends clock => { c with requester := c.requester.sendMessages clock.time }

def Connection.run (P : Primitives) (settings : Settings) (c : Connection) (actions : List Action) :
    Connection :=
  actions.foldl (Connection.act P settings) c

end RitCoin.Model
