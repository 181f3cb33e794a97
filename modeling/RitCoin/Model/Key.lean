import RitCoin.Lib.Codec
import RitCoin.Model.Types

/-!
# Keys

`CKey` of `key.cpp`, around OpenSSL's `EC_KEY`. The form in which a public key is written is kept twice: in
the `EC_KEY`, and in `fCompressedPubKey`.
-/

namespace RitCoin.Model.Wallet
open Lib

inductive ConversionForm
  | uncompressed | compressed
deriving DecidableEq, Repr

/-- OpenSSL's functions on the curve: `multiply` is what `EC_KEY_regenerate_key` computes the public key
with, `encode` is `i2o_ECPublicKey`, and `decode` is `o2i_ECPublicKey`, which takes over the form it finds. -/
structure Curve (Point : Type) where
  multiply : Nat → Option Point
  encode : ConversionForm → Point → List UInt8
  decode : List UInt8 → Option (Point × ConversionForm)

structure EcKey (Point : Type) where
  privKey : Option Nat
  pubKey : Option Point
  form : ConversionForm
deriving DecidableEq, Repr

def EcKey.new {Point : Type} : EcKey Point := ⟨none, none, .uncompressed⟩

abbrev CPubKey := List UInt8

abbrev CSecret := List UInt8

structure CKey (Point : Type) where
  pkey : EcKey Point
  fSet : Bool
  fCompressedPubKey : Bool
deriving DecidableEq, Repr

def secretOfNumber (n : Nat) : CSecret := (leBytes 32 n).reverse

def numberOfSecret (vchSecret : CSecret) : Nat := ofLe vchSecret.reverse

namespace CKey
variable {Point : Type}

/-- `CKey()`, which is `Reset()`. -/
def new : CKey Point := ⟨.new, false, false⟩

/-- `CKey(const CKey& b)`. The constructor leaves `fCompressedPubKey` out, which is then what the memory
held before. -/
def copy (b : CKey Point) (memory : Bool) : CKey Point := ⟨b.pkey, b.fSet, memory⟩

def assign (a b : CKey Point) : CKey Point := { a with pkey := b.pkey, fSet := b.fSet }

def isCompressed (key : CKey Point) : Bool := key.fCompressedPubKey

def setCompressedPubKey (key : CKey Point) : CKey Point :=
  { key with pkey := { key.pkey with form := .compressed }, fCompressedPubKey := true }

def setSecret (curve : Curve Point) (key : CKey Point) (vchSecret : CSecret) (fCompressed : Bool) :
    Check (CKey Point) := do
  failIf (vchSecret.length ≠ 32) (.throw "CKey::SetSecret() : secret must be 32 bytes")
  match curve.multiply (numberOfSecret vchSecret) with
  | none => throw (.throw "CKey::SetSecret() : EC_KEY_regenerate_key failed")
  | some point =>
    let key := { key with
      pkey := { (EcKey.new : EcKey Point) with privKey := some (numberOfSecret vchSecret), pubKey := some point }
      fSet := true }
    pure (if fCompressed || key.fCompressedPubKey then key.setCompressedPubKey else key)

/-- `GetSecret`. `BN_num_bytes` follows the pointer before it is tested, and a number of more than 32 bytes
would start in front of the vector. -/
def getSecret (key : CKey Point) : Check (CSecret × Bool) :=
  match key.pkey.privKey with
  | none => throw (.stop .nullPointer)
  | some n => do
      failIf (256 ^ 32 ≤ n) (.stop .outOfRange)
      pure (secretOfNumber n, key.fCompressedPubKey)

def setPubKey (curve : Curve Point) (key : CKey Point) (vchPubKey : CPubKey) : CKey Point :=
  match curve.decode vchPubKey with
  | none => key
  | some (point, form) =>
    let key := { key with pkey := { key.pkey with pubKey := some point, form := form }, fSet := true }
    if vchPubKey.length = 33 then key.setCompressedPubKey else key

def getPubKey (curve : Curve Point) (key : CKey Point) : Check CPubKey :=
  match key.pkey.pubKey with
  | none => throw (.throw "CKey::GetPubKey() : i2o_ECPublicKey failed")
  | some point => pure (curve.encode key.pkey.form point)

end CKey

end RitCoin.Model.Wallet
