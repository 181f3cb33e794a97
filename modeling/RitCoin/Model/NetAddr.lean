import RitCoin.Model.Serialize

/-!
# Network addresses

`CNetAddr` and `CService` of `netbase.h` and `CAddress` of `protocol.h`.
-/

namespace RitCoin.Model
open Lib

/-- The 16 bytes of `ip`, the first one the most significant. -/
abbrev CNetAddr := BitVec 128

instance : Std.TransOrd CNetAddr := BitVec.instTransOrd

namespace CNetAddr

def getByte (addr : CNetAddr) (n : Nat) : UInt8 := UInt8.ofNat (addr.toNat >>> (8 * n))

def ip (addr : CNetAddr) : List UInt8 := (List.range 16).map fun i => addr.getByte (15 - i)

def startsWith (addr : CNetAddr) (pch : List UInt8) : Bool := addr.ip.take pch.length == pch

def pchIPv4 : List UInt8 := [0, 0, 0, 0, 0, 0, 0, 0, 0, 0, 0xff, 0xff]

def isIPv4 (addr : CNetAddr) : Bool := addr.startsWith pchIPv4

def isRFC1918 (addr : CNetAddr) : Bool :=
  addr.isIPv4 && (addr.getByte 3 == 10 || (addr.getByte 3 == 192 && addr.getByte 2 == 168) ||
    (addr.getByte 3 == 172 && (decide (16 ≤ addr.getByte 2) && decide (addr.getByte 2 ≤ 31))))

def isRFC3927 (addr : CNetAddr) : Bool := addr.isIPv4 && (addr.getByte 3 == 169 && addr.getByte 2 == 254)

def isRFC3849 (addr : CNetAddr) : Bool :=
  addr.getByte 15 == 0x20 && addr.getByte 14 == 0x01 && addr.getByte 13 == 0x0D && addr.getByte 12 == 0xB8

def isRFC3964 (addr : CNetAddr) : Bool := addr.getByte 15 == 0x20 && addr.getByte 14 == 0x02

def isRFC6052 (addr : CNetAddr) : Bool := addr.startsWith [0, 0x64, 0xFF, 0x9B, 0, 0, 0, 0, 0, 0, 0, 0]

def isRFC4380 (addr : CNetAddr) : Bool :=
  addr.getByte 15 == 0x20 && addr.getByte 14 == 0x01 && addr.getByte 13 == 0 && addr.getByte 12 == 0

def isRFC4862 (addr : CNetAddr) : Bool := addr.startsWith [0xFE, 0x80, 0, 0, 0, 0, 0, 0]

def isRFC4193 (addr : CNetAddr) : Bool := addr.getByte 15 &&& 0xFE == 0xFC

def isRFC6145 (addr : CNetAddr) : Bool := addr.startsWith [0, 0, 0, 0, 0, 0, 0, 0, 0xFF, 0xFF, 0, 0]

def isRFC4843 (addr : CNetAddr) : Bool :=
  addr.getByte 15 == 0x20 && addr.getByte 14 == 0x01 && addr.getByte 13 == 0x00 &&
    addr.getByte 12 &&& 0xF0 == 0x10

def isLocal (addr : CNetAddr) : Bool :=
  (addr.isIPv4 && (addr.getByte 3 == 127 || addr.getByte 3 == 0)) ||
    addr.startsWith [0, 0, 0, 0, 0, 0, 0, 0, 0, 0, 0, 0, 0, 0, 0, 1]

def isValid (addr : CNetAddr) : Bool :=
  !addr.startsWith (pchIPv4.drop 3) && !addr.startsWith (List.replicate 16 0) && !addr.isRFC3849 &&
    !(addr.isIPv4 && (addr.ip.drop 12 == List.replicate 4 0xFF || addr.ip.drop 12 == List.replicate 4 0))

def isRoutable (addr : CNetAddr) : Bool :=
  addr.isValid &&
    !(addr.isRFC1918 || addr.isRFC3927 || addr.isRFC4862 || addr.isRFC4193 || addr.isRFC4843 || addr.isLocal)

/-- The bytes behind the class: `nBits` bits from `nStartByte` on, the rest of the last byte set. -/
def groupBits (addr : CNetAddr) (nStartByte nBits : Nat) : List UInt8 :=
  (List.range (nBits / 8)).map (fun k => addr.getByte (15 - (nStartByte + k))) ++
    if nBits % 8 > 0 then
      [addr.getByte (15 - (nStartByte + nBits / 8)) ||| UInt8.ofNat (1 <<< (nBits % 8) - 1)]
    else []

/-- The class 254 of the local addresses is never left: they are not routable. -/
def getGroup (addr : CNetAddr) : List UInt8 :=
  if !addr.isRoutable then [255]
  else if addr.isIPv4 || addr.isRFC6145 || addr.isRFC6052 then 1 :: addr.groupBits 12 16
  else if addr.isRFC3964 then 1 :: addr.groupBits 2 16
  else if addr.isRFC4380 then [1, addr.getByte 3 ^^^ 0xFF, addr.getByte 2 ^^^ 0xFF]
  else if addr.getByte 15 == 0x20 && addr.getByte 14 == 0x11 && addr.getByte 13 == 0x04 &&
      addr.getByte 12 == 0x70 then 0 :: addr.groupBits 0 36
  else 0 :: addr.groupBits 0 32

end CNetAddr

structure CService where
  addr : CNetAddr
  port : UInt16
deriving DecidableEq, Repr

def CService.getKey (service : CService) : List UInt8 :=
  service.addr.ip ++ [UInt8.ofNat (service.port.toNat / 0x100), UInt8.ofNat service.port.toNat]

structure CAddress extends CService where
  nServices : UInt64
  nTime : UInt32
  nLastTry : Int64
deriving DecidableEq, Repr

end RitCoin.Model
