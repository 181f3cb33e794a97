import RitCoin.Model.Types

/-!
# Big numbers

The conversions of `CBigNum` in `bignum.h` from and to compact targets and byte vectors, through the
byte strings that `BN_mpi2bn` reads and `BN_bn2mpi` writes: big-endian, with the sign in the top bit.
-/

namespace RitCoin.Model

def bytesToNat (bytes : List UInt8) : Nat :=
  bytes.foldl (fun n byte => n * 256 + byte.toNat) 0

def mpiToBn (bytes : List UInt8) : Int :=
  match bytes with
  | [] => 0
  | top :: rest =>
    if top < 0x80 then bytesToNat (top :: rest)
    else -(bytesToNat ((top &&& 0x7f) :: rest) : Int)

def setCompact (nCompact : UInt32) : Int :=
  let nSize := (nCompact >>> 24).toNat
  -- `set` past the end does nothing, as the guards on `nSize` in the source
  mpiToBn ((((List.replicate nSize (0 : UInt8)).set 0 (nCompact >>> 16).toUInt8).set 1
    (nCompact >>> 8).toUInt8).set 2 nCompact.toUInt8)

/-- The length of `BN_bn2mpi` without its four length bytes: one more byte than the bits fill
whenever they fill whole bytes, to keep the sign bit free. -/
def mpiSize (x : Int) : Nat :=
  if x = 0 then 0 else (Nat.log2 x.natAbs + 1) / 8 + 1

def mpiByte (x : Int) (i : Nat) : Nat :=
  let byte := (x.natAbs >>> (8 * (mpiSize x - 1 - i))) % 256
  if i = 0 ∧ x < 0 then byte ||| 0x80 else byte

def getCompact (x : Int) : UInt32 :=
  let nSize := mpiSize x
  UInt32.ofNat ((nSize <<< 24)
    ||| (if 1 ≤ nSize then mpiByte x 0 <<< 16 else 0)
    ||| (if 2 ≤ nSize then mpiByte x 1 <<< 8 else 0)
    ||| (if 3 ≤ nSize then mpiByte x 2 else 0))

def setvch (vch : List UInt8) : Int := mpiToBn vch.reverse

def getvch (x : Int) : List UInt8 :=
  ((List.range (mpiSize x)).map fun i => UInt8.ofNat (mpiByte x i)).reverse

def int64Bytes (fNegative : Bool) : Nat → Int64 → Bool → List UInt8 → List UInt8
  | 0, _, _, p => p
  | rounds + 1, n, fLeadingZeroes, p =>
    let c := ((n >>> 56) &&& 0xff).toUInt64.toUInt8
    let n := n <<< 8
    if fLeadingZeroes then
      if c = 0 then int64Bytes fNegative rounds n true p
      else if c &&& 0x80 ≠ 0 then int64Bytes fNegative rounds n false (p ++ [if fNegative then 0x80 else 0, c])
      else int64Bytes fNegative rounds n false (p ++ [if fNegative then c ||| 0x80 else c])
    else int64Bytes fNegative rounds n false (p ++ [c])

def setint64 (n : Int64) : Int :=
  mpiToBn (int64Bytes (decide (n < 0)) 8 (if n < 0 then -n else n) true [])

def INT_MAX : Int := 2 ^ 31 - 1

def getint (x : Int) : Int :=
  if 0 ≤ x then (if x > INT_MAX then INT_MAX else x) else if -x > INT_MAX then -INT_MAX - 1 else x

def CBlockIndex.getBlockTrust (pindex : CBlockIndex) : Int :=
  if setCompact pindex.nBits ≤ 0 then 0 else 1

end RitCoin.Model
