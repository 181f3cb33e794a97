import RitCoin.Lib.Supply
import RitCoin.Proof.Checks

/-!
# The ledger of a chain

What the transaction index is for, without files and positions: the coins that a list of blocks
leaves, and the rules under which a block may extend it. A transaction is placed by the height of
its block and its index there.
-/

namespace RitCoin.Spec
open Lib Model

abbrev TxRef := ℕ ×ₗ ℕ

def place (height index : ℕ) : TxRef := toLex (height, index)

def TxRef.height (ref : TxRef) : ℕ := (ofLex ref).1

def TxRef.index (ref : TxRef) : ℕ := (ofLex ref).2

def outpoint (txin : CTxIn) : Uint256 × ℕ := (txin.prevout.hash, txin.prevout.n.toNat)

def form (P : Primitives) : Form Uint256 CTransaction where
  id := P.hashTx
  spends tx := if tx.isCoinBase then [] else tx.vin.map outpoint
  values tx := tx.vout.map fun txout => txout.nValue.toInt

abbrev Ledger (P : Primitives) := Coins (form P) TxRef

/-- The `i`-th input of `tx`, in a block at `height`, may spend an output of the coin. -/
structure InputOk (P : Primitives) (height : ℕ) (tx : CTransaction) (i : ℕ) (txin : CTxIn)
    (c : Coin (form P) TxRef) (txout : CTxOut) : Prop where
  output : c.tx.vout[txin.prevout.n.toNat]? = some txout
  unspent : c.spent[txin.prevout.n.toNat]? = some none
  mature : c.tx.isCoinBase → (c.loc.height : Int) + nCoinbaseMaturity ≤ height
  time : c.tx.nTime ≤ tx.nTime
  value : moneyRange txout.nValue
  script : P.verifyScript txin.scriptSig txout.scriptPubKey tx i true 0

def valueIn {P : Primitives} (coins : Ledger P) (tx : CTransaction) : Int :=
  (((form P).spends tx).map coins.value).sum

def valueOut (P : Primitives) (tx : CTransaction) : Int := ((form P).values tx).sum

structure InputsOk {P : Primitives} (coins : Ledger P) (height : ℕ) (tx : CTransaction) : Prop where
  each : ∀ i txin, tx.vin[i]? = some txin →
    ∃ c txout, coins txin.prevout.hash = some c ∧ InputOk P height tx i txin c txout
  range : valueIn coins tx ≤ MAX_MONEY.toInt
  fee : valueOut P tx + TX_FEE.toInt ≤ valueIn coins tx

/-- The signature operations that the scripts behind script hashes add for an input. -/
def inputSigOps {P : Primitives} (coins : Ledger P) (txin : CTxIn) : ℕ :=
  match (coins txin.prevout.hash).bind fun c => c.tx.vout[txin.prevout.n.toNat]? with
  | none => 0
  | some txout =>
    if isPayToScriptHash txout.scriptPubKey then
      getSigOpCountFor txout.scriptPubKey txin.scriptSig else 0

def sigOps {P : Primitives} (coins : Ledger P) (tx : CTransaction) : ℕ :=
  tx.getLegacySigOpCount + if tx.isCoinBase then 0 else (tx.vin.map (inputSigOps coins)).sum

/-- A transaction may come next in a block at `height`: `start` is the ledger before the block,
`coins` the ledger before the transaction and `nSigOps` the operations counted so far. -/
structure TxOk {P : Primitives} (start coins : Ledger P) (height nSigOps : ℕ) (tx : CTransaction) :
    Prop where
  free : start.Free (P.hashTx tx)
  outputs : ∃ v, tx.getValueOut = .ok v
  sigOps : nSigOps + sigOps coins tx ≤ MAX_BLOCK_SIGOPS
  inputs : tx.isCoinBase = false → InputsOk coins height tx

def connectTxs {P : Primitives} (height : ℕ) : ℕ → Ledger P → List CTransaction → Ledger P
  | _, coins, [] => coins
  | i, coins, tx :: rest => connectTxs height (i + 1) (coins.apply (place height i) tx) rest

def TxsOk {P : Primitives} (start : Ledger P) (height : ℕ) :
    ℕ → ℕ → Ledger P → List CTransaction → Prop
  | _, _, _, [] => True
  | i, nSigOps, coins, tx :: rest =>
    TxOk start coins height nSigOps tx ∧
    TxsOk start height (i + 1) (nSigOps + sigOps coins tx) (coins.apply (place height i) tx) rest

structure Accepts {P : Primitives} (now : Int) (coins : Ledger P) (height : ℕ) (block : CBlock) :
    Prop where
  checked : block.Checked P now
  txs : TxsOk coins height 0 0 coins block.vtx
  reward : ∀ coinbase, block.vtx.head? = some coinbase →
    valueOut P coinbase ≤ MAX_MONEY.toInt - coins.total

/-- The ledger of the blocks above genesis. The transaction of the genesis block is never indexed. -/
def ledgerOf (P : Primitives) (blocks : List CBlock) : Ledger P :=
  (blocks.zipIdx 1).foldl (fun coins item => connectTxs item.2 0 coins item.1.vtx) fun _ => none

inductive ValidChain (P : Primitives) : List CBlock → Prop
  | genesis : ValidChain P []
  | extend {blocks : List CBlock} {block : CBlock} {now : Int} : ValidChain P blocks →
      Accepts now (ledgerOf P blocks) (blocks.length + 1) block → ValidChain P (blocks ++ [block])

end RitCoin.Spec
