import RitCoin.Model.Messages
import RitCoin.Spec.BestChain

/-!
# Catching up with a peer

A requester that has the beginning of a server's best chain, and what the server announces to it.
-/

namespace RitCoin.Spec
open Model Std

/-- The blocks of the server's best chain above the requester's. -/
def gap (server requester : Node) : List CBlock :=
  (bestBlocks server).drop (bestBlocks requester).length

/-- The tip of the requester is an ancestor of the server's, and the requester has not stored any
block above it. The null hash stands for no hash in the messages. -/
structure Behind (P : Primitives) (server requester : Node) : Prop where
  ancestor : bestBlocks requester <+: bestBlocks server
  height : 3 ≤ requester.nBestHeight
  missing : ∀ block ∈ gap server requester, requester.mapBlockIndex[P.getHash block]? = none
  nonzero : ∀ block ∈ gap server requester, P.getHash block ≠ 0

instance (P : Primitives) (server requester : Node) : Decidable (Behind P server requester) :=
  decidable_of_iff (bestBlocks requester <+: bestBlocks server ∧ 3 ≤ requester.nBestHeight ∧
      (∀ block ∈ gap server requester, requester.mapBlockIndex[P.getHash block]? = none) ∧
      ∀ block ∈ gap server requester, P.getHash block ≠ 0)
    ⟨fun ⟨ancestor, height, missing, nonzero⟩ => ⟨ancestor, height, missing, nonzero⟩,
      fun ⟨ancestor, height, missing, nonzero⟩ => ⟨ancestor, height, missing, nonzero⟩⟩

/-- The answer to `getblocks`: up to `nLimit` blocks, and none after `half` bytes or more. -/
def answer (half : ℕ) : ℕ → ℕ → List CBlock → List CBlock
  | 0, _, _ => []
  | _ + 1, _, [] => []
  | nLimit + 1, nBytes, block :: rest =>
    if nLimit = 0 ∨ half ≤ nBytes + block.getSerializeSize then [block]
    else block :: answer half nLimit (nBytes + block.getSerializeSize) rest

def getblocksAnswer (settings : Settings) (blocks : List CBlock) : List CBlock :=
  answer (settings.sendBufferSize.toNat / 2) 500 0 blocks

/-- No message is in flight, no inventory is queued and no request is pending. -/
structure Quiet (c : Connection) : Prop where
  messages : c.server.pfrom.vSend = [] ∧ c.requester.pfrom.vSend = []
  inventory : c.server.pfrom.vInventoryToSend = [] ∧ c.requester.pfrom.vInventoryToSend = []
  requests : c.server.pfrom.mapAskFor = [] ∧ c.requester.pfrom.mapAskFor = []

instance (c : Connection) : Decidable (Quiet c) :=
  decidable_of_iff ((c.server.pfrom.vSend = [] ∧ c.requester.pfrom.vSend = []) ∧
      (c.server.pfrom.vInventoryToSend = [] ∧ c.requester.pfrom.vInventoryToSend = []) ∧
      c.server.pfrom.mapAskFor = [] ∧ c.requester.pfrom.mapAskFor = [])
    ⟨fun ⟨messages, inventory, requests⟩ => ⟨messages, inventory, requests⟩,
      fun ⟨messages, inventory, requests⟩ => ⟨messages, inventory, requests⟩⟩

end RitCoin.Spec
