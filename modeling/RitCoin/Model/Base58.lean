import RitCoin.Model.Money
import RitCoin.Model.Wallet

/-!
# Base58 and addresses

`EncodeBase58`, `DecodeBase58`, `CBase58Data` and `CBitcoinAddress` of `base58.h`. The `int` that counts the
leading ones is a natural number: strings have fewer than 2^31 characters.
-/

namespace RitCoin.Model.Base58
open Money Wallet

/-- A `const char*`: the characters before the terminating zero. -/
structure CharPtr where
  chars : List UInt8
  nonzero : 0 ∉ chars
deriving DecidableEq

def CharPtr.ofString (str : List UInt8) : CharPtr :=
  ⟨cStr str, fun zero => absurd (List.mem_takeWhile_imp zero) (by decide)⟩

def pszBase58 : List UInt8 :=
  "123456789ABCDEFGHJKLMNPQRSTUVWXYZabcdefghijkmnopqrstuvwxyz".toList.map fun c => UInt8.ofNat c.toNat

def charAt (i : Nat) : UInt8 := pszBase58.getD i 0

def divLoop (bn : Nat) : List UInt8 :=
  if 0 < bn then charAt (bn % 58) :: divLoop (bn / 58) else []
termination_by bn
decreasing_by exact Nat.div_lt_self ‹0 < bn› (by decide)

def encodeBase58 (vch : List UInt8) : List UInt8 :=
  -- the zero at the end keeps the number positive
  let bn := setvch (vch.reverse ++ [0])
  let str := divLoop bn.toNat ++ (vch.takeWhile (· == 0)).map fun _ => charAt 0
  str.reverse

def mulLoop : List UInt8 → Nat → Option Nat
  | [], bn => some bn
  | c :: p, bn =>
    match pszBase58.idxOf? c with
    | none => if (c :: p).dropWhile isspace = [] then some bn else none
    | some i => mulLoop p (bn * 58 + i)

def trimSign (vchTmp : List UInt8) : List UInt8 :=
  match vchTmp.reverse with
  | 0 :: second :: rest => if 0x80 ≤ second then (second :: rest).reverse else vchTmp
  | _ => vchTmp

def decodeBase58 (psz : CharPtr) : Option (List UInt8) := do
  let psz := psz.chars.dropWhile isspace
  let bn ← mulLoop psz 0
  let vchTmp := trimSign (getvch bn)
  let nLeadingZeros := (psz.takeWhile (· == charAt 0)).length
  pure (List.replicate nLeadingZeros 0 ++ vchTmp.reverse)

section Checksum
variable (C : Crypto)

def checksum (vch : List UInt8) : List UInt8 := (C.hash vch).toList.take 4

def encodeBase58Check (vchIn : List UInt8) : List UInt8 := encodeBase58 (vchIn ++ checksum C vchIn)

def decodeBase58Check (psz : CharPtr) : Option (List UInt8) := do
  let vchRet ← decodeBase58 psz
  if vchRet.length < 4 then none
  else
    let vch := vchRet.take (vchRet.length - 4)
    if checksum C vch ≠ vchRet.drop (vchRet.length - 4) then none else some vch

structure CBase58Data where
  nVersion : UInt8
  vchData : List UInt8
deriving DecidableEq

def setString (psz : CharPtr) : Bool × CBase58Data :=
  match (decodeBase58Check C psz).getD [] with
  | [] => (false, ⟨0, []⟩)
  | nVersion :: vchData => (true, ⟨nVersion, vchData⟩)

def CBase58Data.toString (data : CBase58Data) : List UInt8 := encodeBase58Check C (data.nVersion :: data.vchData)

def PUBKEY_ADDRESS : UInt8 := 31
def SCRIPT_ADDRESS : UInt8 := 97
def PUBKEY_ADDRESS_TEST : UInt8 := 111
def SCRIPT_ADDRESS_TEST : UInt8 := 196

def ofDestination (fTestNet : Bool) : CTxDestination → CBase58Data
  | .noDestination => ⟨0, []⟩
  | .keyID id => ⟨if fTestNet then PUBKEY_ADDRESS_TEST else PUBKEY_ADDRESS, id.toList⟩
  | .scriptID id => ⟨if fTestNet then SCRIPT_ADDRESS_TEST else SCRIPT_ADDRESS, id.toList⟩

def ofText (psz : CharPtr) : CBase58Data := (setString C psz).2

def expectTestNet (nVersion : UInt8) : Option Bool :=
  if nVersion = PUBKEY_ADDRESS ∨ nVersion = SCRIPT_ADDRESS then some false
  else if nVersion = PUBKEY_ADDRESS_TEST ∨ nVersion = SCRIPT_ADDRESS_TEST then some true
  else none

def isValid (fTestNet : Bool) (address : CBase58Data) : Bool :=
  expectTestNet address.nVersion == some fTestNet && address.vchData.length == 20

def CBase58Data.get (fTestNet : Bool) (address : CBase58Data) : CTxDestination :=
  if !isValid fTestNet address then .noDestination
  else if size : address.vchData.length = 20 then
    if address.nVersion = PUBKEY_ADDRESS ∨ address.nVersion = PUBKEY_ADDRESS_TEST then
      .keyID ⟨address.vchData, size⟩
    else if address.nVersion = SCRIPT_ADDRESS ∨ address.nVersion = SCRIPT_ADDRESS_TEST then
      .scriptID ⟨address.vchData, size⟩
    else .noDestination
  else .noDestination

end Checksum

end RitCoin.Model.Base58
