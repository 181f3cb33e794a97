import RitCoin.Lib.Decimal
import RitCoin.Model.Types

/-!
# Amounts as text

`FormatMoney` and `ParseMoney` of `util.cpp`, and `BitcoinUnits::format` and `BitcoinUnits::parse` of
`qt/bitcoinunits.cpp`. Texts are lists of ASCII characters; a C string is what stands before its
terminating zero.
-/

namespace RitCoin.Model.Money
open Lib

def cStr (str : List UInt8) : List UInt8 := str.takeWhile (· != 0)

def isspace (c : UInt8) : Bool := c == ' '.toUInt8 || (decide (9 ≤ c.toNat) && decide (c.toNat ≤ 13))

def point : UInt8 := '.'.toUInt8

def plus : UInt8 := '+'.toUInt8

def minus : UInt8 := '-'.toUInt8

/-- A signed 64-bit operation whose exact result does not fit: what the code then does is undefined. -/
structure Overflow where
  exact : Int
deriving DecidableEq, Repr

def int64 (exact : Int) : Except Overflow Int :=
  if -2 ^ 63 ≤ exact ∧ exact < 2 ^ 63 then .ok exact else .error ⟨exact⟩

/-- `for (int i = str.size()-1; (str[i] == '0' && isdigit(str[i-2])); --i)`, over the reversed text. -/
def trimMoney : List UInt8 → List UInt8
  | last :: second :: third :: rest =>
    if last == digitOf 0 && isDigit third then trimMoney (second :: third :: rest)
    else last :: second :: third :: rest
  | short => short

def formatMoney (n : Int) (fPlus : Bool) : List UInt8 :=
  let quotient := n.natAbs / COIN.toInt.toNat
  let remainder := n.natAbs % COIN.toInt.toNat
  let str := toDecimal quotient ++ point :: padLeft 6 (toDecimal remainder)
  let str := (trimMoney str.reverse).reverse
  if n < 0 then minus :: str else if fPlus && decide (n > 0) then plus :: str else str

def atoi64 (psz : List UInt8) : Int :=
  match psz.dropWhile isspace with
  | [] => 0
  | c :: rest =>
    if c == minus then max (-2 ^ 63) (-(ofDecimal (rest.takeWhile isDigit)))
    else if c == plus then min (2 ^ 63 - 1) (ofDecimal (rest.takeWhile isDigit))
    else min (2 ^ 63 - 1) (ofDecimal ((c :: rest).takeWhile isDigit))

def scanUnits : List UInt8 → Int → Int → Except Overflow (Int × List UInt8)
  | [], _, nUnits => pure (nUnits, [])
  | c :: p, nMult, nUnits =>
    if isDigit c && decide (nMult > 0) then do
      let product ← int64 (nMult * digitValue c)
      let nUnits ← int64 (nUnits + product)
      scanUnits p (nMult.tdiv 10) nUnits
    else pure (nUnits, c :: p)

def scanWhole : List UInt8 → List UInt8 → Except Overflow (Option (List UInt8 × Int × List UInt8))
  | [], strWhole => pure (some (strWhole, 0, []))
  | c :: p, strWhole =>
    if c == point then do
      let (nUnits, p) ← scanUnits p (CENT.toInt * 10) 0
      pure (some (strWhole, nUnits, p))
    else if isspace c then pure (some (strWhole, 0, c :: p))
    else if !isDigit c then pure none
    else scanWhole p (strWhole ++ [c])

def parseMoney (pszIn : List UInt8) : Except Overflow (Option Int) := do
  match ← scanWhole (pszIn.dropWhile isspace) [] with
  | none => pure none
  | some (strWhole, nUnits, p) =>
    if !p.all isspace then pure none
    else if strWhole.length > 10 then pure none
    else if nUnits < 0 || nUnits > COIN.toInt then pure none
    else do
      let product ← int64 (atoi64 strWhole * COIN.toInt)
      let nValue ← int64 (product + nUnits)
      pure (some nValue)

def parseMoneyString (str : List UInt8) : Except Overflow (Option Int) := parseMoney (cStr str)

/-- A `QString` of Latin-1 characters. -/
abbrev QString := List UInt8

structure QtText where
  number : Int → QString
  toLongLong : QString → Option Int

inductive DisplayUnit where
  | BTC
  | mBTC
  | uBTC
deriving DecidableEq, Repr

namespace DisplayUnit

def code : DisplayUnit → Int
  | BTC => 0
  | mBTC => 1
  | uBTC => 2

def valid? (unit : Int) : Option DisplayUnit :=
  if unit = 0 then some BTC else if unit = 1 then some mBTC else if unit = 2 then some uBTC else none

def factor : DisplayUnit → Nat
  | BTC => 100000000
  | mBTC => 100000
  | uBTC => 100

def decimals : DisplayUnit → Nat
  | BTC => 8
  | mBTC => 5
  | uBTC => 2

end DisplayUnit

def trimRemainder : List UInt8 → List UInt8
  | last :: second :: third :: rest =>
    if last == digitOf 0 then trimRemainder (second :: third :: rest) else last :: second :: third :: rest
  | short => short

def format (qt : QtText) (unit : Int) (n : Int) (fPlus : Bool) : QString :=
  match DisplayUnit.valid? unit with
  | none => []
  | some unit =>
    let quotient := n.natAbs / unit.factor
    let remainder := n.natAbs % unit.factor
    let quotient_str := qt.number quotient
    let remainder_str := padLeft unit.decimals (qt.number remainder)
    let remainder_str := (trimRemainder remainder_str.reverse).reverse
    let quotient_str :=
      if n < 0 then minus :: quotient_str else if fPlus && decide (n > 0) then plus :: quotient_str else quotient_str
    quotient_str ++ point :: remainder_str

def parse (qt : QtText) (unit : Int) (value : QString) : Option Int :=
  match DisplayUnit.valid? unit with
  | none => none
  | some unit =>
    if value.isEmpty then none
    else
      let parts := value.splitOn point
      if parts.length > 2 then none
      else
        let whole := parts.headD []
        let decimals := if parts.length > 1 then parts.getD 1 [] else []
        if decimals.length > unit.decimals then none
        else
          let str := whole ++ padRight unit.decimals decimals
          if str.length > 18 then none else qt.toLongLong str

end RitCoin.Model.Money
