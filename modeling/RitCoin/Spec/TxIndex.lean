import RitCoin.Spec.BestChain
import RitCoin.Spec.Ledger

/-!
# The transaction index as seen from outside

What the records of the transaction index say about money, and what spending means on a chain of
blocks. `blocks` is the whole chain, with genesis at height 0.
-/

namespace RitCoin.Spec
open Model Std

def txRecord? : DbKey × DbValue → Option (Uint256 × CTxIndex)
  | (.tx hash, .txIndex txindex) => some (hash, txindex)
  | _ => none

def txIndexEntries (pdb : LevelDB) : List (Uint256 × CTxIndex) := pdb.toList.filterMap txRecord?

/-- The value of the outputs of a record that are marked null, in the transaction at its position. -/
def unspentValue (files : BlockFiles) (txindex : CTxIndex) : Int :=
  match files.readTx txindex.pos with
  | none => 0
  | some tx =>
    ((txindex.vSpent.zip tx.vout).map fun output =>
      if output.1.isNone then output.2.nValue.toInt else 0).sum

def unspentTotal (node : Node) : Int :=
  ((txIndexEntries node.pdb).map fun entry => unspentValue node.files entry.2).sum

def txAt (blocks : List CBlock) (ref : TxRef) : Option CTransaction :=
  blocks[ref.height]?.bind fun block => block.vtx[ref.index]?

def Creates (P : Primitives) (blocks : List CBlock) (ref : TxRef) (hash : Uint256) : Prop :=
  ∃ tx, txAt blocks ref = some tx ∧ P.hashTx tx = hash

def txids (P : Primitives) (blocks : List CBlock) : List Uint256 :=
  blocks.flatMap fun block => block.vtx.map P.hashTx

/-- Input `i` of the transaction at `ref`, which is no coinbase, names the output. -/
def SpendsAt (blocks : List CBlock) (ref : TxRef) (i : ℕ) (o : Uint256 × ℕ) : Prop :=
  ∃ tx txin, txAt blocks ref = some tx ∧ tx.isCoinBase = false ∧ tx.vin[i]? = some txin ∧
    outpoint txin = o

/-- Input `i` of the transaction at `q` consumes output `n` of `tx` at `p`: it names the output by
txid, and `p` is where that txid was last created before `q`. -/
structure ConsumedBy (P : Primitives) (blocks : List CBlock) (p : TxRef) (tx : CTransaction) (n : ℕ)
    (q : TxRef) (i : ℕ) : Prop where
  created : txAt blocks p = some tx
  output : n < tx.vout.length
  spends : SpendsAt blocks q i (P.hashTx tx, n)
  before : p < q
  last : ∀ p', Creates P blocks p' (P.hashTx tx) → p' < q → p' ≤ p

/-- The record of a txid describes its last creation, and marks exactly the outputs spent since. -/
structure Describes (P : Primitives) (blocks : List CBlock) (hash : Uint256) (txindex : CTxIndex)
    (p : TxRef) (tx : CTransaction) : Prop where
  creator : txAt blocks p = some tx
  hash_eq : P.hashTx tx = hash
  latest : ∀ p', Creates P blocks p' hash → p' ≤ p
  size : txindex.vSpent.length = tx.vout.length
  spent : ∀ n pos, txindex.vSpent[n]? = some pos →
    (pos ≠ none ↔ ∃ q i, p < q ∧ SpendsAt blocks q i (hash, n))

end RitCoin.Spec
