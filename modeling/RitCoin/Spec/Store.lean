import RitCoin.Model.TxDB

/-!
# A map that can be rolled back

What a `CTxDB` object is for: a map, and while a transaction is open the map as it was when the
transaction began.
-/

namespace RitCoin.Spec
open Model

structure Store (K V : Type) where
  map : K → Option V
  saved : Option (K → Option V)

namespace Store
variable {K V : Type}

def committed (store : Store K V) : K → Option V := store.saved.getD store.map

/-- A second transaction cannot begin, and without one there is nothing to commit. -/
def perform [DecidableEq K] (store : Store K V) : CTxDB.Op K V → Option (Store K V)
  | .write key value => some { store with map := Function.update store.map key (some value) }
  | .erase key => some { store with map := Function.update store.map key none }
  | .txnBegin => if store.saved.isSome then none else some ⟨store.map, some store.map⟩
  | .txnCommit => if store.saved.isSome then some ⟨store.map, none⟩ else none
  | .txnAbort => some ⟨store.committed, none⟩

end Store

end RitCoin.Spec
