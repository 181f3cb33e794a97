import RitCoin.Proof.AddrCheck
import RitCoin.Proof.Alert
import RitCoin.Proof.Base58
import RitCoin.Proof.Base64
import RitCoin.Proof.BaseUint
import RitCoin.Proof.Combine
import RitCoin.Proof.Convergence
import RitCoin.Proof.CreateTransaction
import RitCoin.Proof.DataStream
import RitCoin.Proof.Fees
import RitCoin.Proof.GetData
import RitCoin.Proof.Lookup
import RitCoin.Proof.Merkle
import RitCoin.Proof.MinWork
import RitCoin.Proof.Operations
import RitCoin.Proof.OrphanIndex
import RitCoin.Proof.Overflow
import RitCoin.Proof.Passphrase
import RitCoin.Proof.Position
import RitCoin.Proof.Repair
import RitCoin.Proof.Replacement
import RitCoin.Proof.SigCache
import RitCoin.Proof.Signature
import RitCoin.Proof.Socket
import RitCoin.Proof.Startup
import RitCoin.Proof.Store
import RitCoin.Proof.Sync
import RitCoin.Proof.TimeData
import RitCoin.Proof.Units
import RitCoin.Proof.WalletSerialize
import RitCoin.Proof.Wildcard
