import RitCoin.Model.Money

/-!
# Masks of allowed addresses

`WildcardMatch` of `util.cpp` and `ClientAllowed` of `bitcoinrpc.cpp`.
-/

namespace RitCoin.Model
open Lib Money

def asterisk : UInt8 := '*'.toUInt8

def questionMark : UInt8 := '?'.toUInt8

def wildcardMatch : List UInt8 → List UInt8 → Bool
  | psz, [] => psz.isEmpty
  -- `*psz` is zero here, which no other character of the mask equals.
  | [], m :: mask => if m == asterisk then wildcardMatch [] mask else false
  | c :: psz, m :: mask =>
    if m == asterisk then wildcardMatch (c :: psz) mask || wildcardMatch psz (m :: mask)
    else if m == questionMark then wildcardMatch psz mask
    else if c != m then false
    else wildcardMatch psz mask
termination_by psz mask => psz.length + mask.length

def wildcardMatchString (str mask : List UInt8) : Bool := wildcardMatch (cStr str) (cStr mask)

/-- `loopback` is what the library prints for its loopback address. -/
def clientAllowed (loopback : List UInt8) (vAllow : List (List UInt8)) (strAddress : List UInt8) : Bool :=
  strAddress == loopback || vAllow.any fun strAllow => wildcardMatchString strAddress strAllow

end RitCoin.Model
