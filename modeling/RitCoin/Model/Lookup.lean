import RitCoin.Model.Money
import RitCoin.Model.NetAddr

/-!
# Host names with ports

`LookupIntern` and `Lookup` of `netbase.cpp`, with `unsigned long` of 64 bits. `getaddrinfo` gives the
addresses of the families that the build understands, in order, or fails.
-/

namespace RitCoin.Model
open Lib Money

abbrev GetAddrInfo := List UInt8 → Bool → Option (List CNetAddr)

def lookupIntern (getaddrinfo : GetAddrInfo) (pszName : List UInt8) (nMaxSolutions : UInt32) (fAllowLookup : Bool) :
    Option (List CNetAddr) :=
  match getaddrinfo pszName fAllowLookup with
  | none => none
  | some aiRes =>
    let vIP := if nMaxSolutions = 0 then aiRes else aiRes.take nMaxSolutions.toNat
    if vIP.length > 0 then some vIP else none

def colon : UInt8 := ':'.toUInt8

def openBracket : UInt8 := '['.toUInt8

def closeBracket : UInt8 := ']'.toUInt8

def strrchr (c : UInt8) : List UInt8 → Option (List UInt8 × List UInt8)
  | [] => none
  | d :: rest =>
    match strrchr c rest with
    | some (before, after) => some (d :: before, after)
    | none => if d == c then some ([], rest) else none

/-- The value, which stops at the bound of its type, and what is left behind the digits. Without digits all is
left. -/
def strtoul (text : List UInt8) : UInt64 × List UInt8 :=
  let p := text.dropWhile isspace
  let negative := p.head? == some minus
  let p := if negative || p.head? == some plus then p.tail else p
  let digits := p.takeWhile isDigit
  if digits.isEmpty then (0, text)
  else if ofDecimal digits ≥ 2 ^ 64 then (-1, p.dropWhile isDigit)
  else (if negative then -UInt64.ofNat (ofDecimal digits) else UInt64.ofNat (ofDecimal digits), p.dropWhile isDigit)

def USHRT_MAX : Int32 := 65535

def unbracketed (psz : List UInt8) : List UInt8 :=
  if psz.head? == some openBracket && psz.getLast? == some closeBracket then psz.tail.dropLast else psz

def lookup (getaddrinfo : GetAddrInfo) (pszName : List UInt8) (portDefault : Int32) (fAllowLookup : Bool)
    (nMaxSolutions : UInt32) : Option (List CService) :=
  match pszName.take 255 with
  | [] => none
  | first :: rest =>
    let (pszHost, port) :=
      match strrchr colon rest with
      | none => (unbracketed (first :: rest), portDefault)
      | some (before, after) =>
        let (portParsed, pszPortEnd) := strtoul after
        if pszPortEnd.isEmpty then
          (unbracketed (first :: before),
            if portDefault ≥ 0 && portDefault ≤ USHRT_MAX then portParsed.toUInt32.toInt32 else portDefault)
        else (unbracketed (first :: rest), portDefault)
    match lookupIntern getaddrinfo pszHost nMaxSolutions fAllowLookup with
    | none => none
    | some vIP => some (vIP.map fun ip => ⟨ip, port.toUInt32.toUInt16⟩)

end RitCoin.Model
