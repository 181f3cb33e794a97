import RitCoin.Model.Types

/-!
# Base64

`EncodeBase64` and `DecodeBase64` of `util.cpp`.
-/

namespace RitCoin.Model.Base64

inductive Mode
  | none
  | two
  | four
  | six
deriving DecidableEq, Repr

def pbase64 : List UInt8 :=
  "ABCDEFGHIJKLMNOPQRSTUVWXYZabcdefghijklmnopqrstuvwxyz0123456789+/".toList.map fun c => UInt8.ofNat c.toNat

def charAt (i : Nat) : UInt8 := pbase64.getD i 0

def pad : UInt8 := 0x3d

def encodeLoop : Mode → Nat → List UInt8 → List UInt8
  | .none, _, [] => []
  | .two, left, [] => [charAt left, pad, pad]
  | _, left, [] => [charAt left, pad]
  | .none, _, enc :: pch => charAt (enc.toNat >>> 2) :: encodeLoop .two ((enc.toNat &&& 3) <<< 4) pch
  | .two, left, enc :: pch =>
    charAt (left ||| enc.toNat >>> 4) :: encodeLoop .four ((enc.toNat &&& 15) <<< 2) pch
  | _, left, enc :: pch =>
    charAt (left ||| enc.toNat >>> 6) :: charAt (enc.toNat &&& 63) :: encodeLoop .none left pch

def encodeBase64 (pch : List UInt8) : List UInt8 := encodeLoop .none 0 pch

/-- The table as it stands in the source, where `o` is -1. -/
def decode64Table : List Int :=
  let o : Int := -1
  [
   o,  o,  o,  o,  o,  o,  o,  o,  o,  o,  o,  o,  o,  o,  o,  o,  o,  o,  o,  o,
   o,  o,  o,  o,  o,  o,  o,  o,  o,  o,  o,  o,  o,  o,  o,  o,  o,  o,  o,  o,
   o,  o,  o, 62,  o,  o,  o, 63, 52, 53, 54, 55, 56, 57, 58, 59, 60, 61,  o,  o,
   o,  o,  o,  o,  o,  0,  1,  2,  3,  4,  5,  6,  7,  8,  9, 10, 11, 12, 13, 14,
  15, 16, 17, 18, 19, 20, 21, 22, 23, 24, 25,  o,  o,  o,  o,  o,  o, 26, 27, 28,
  29, 30, 31, 32, 33, 34, 35, 36, 37, 38, 39, 40, 41, 42, 43, 44, 45, 46, 47, 48,
  49, 50, 51,  o,  o,  o,  o,  o,  o,  o,  o,  o,  o,  o,  o,  o,  o,  o,  o,  o,
   o,  o,  o,  o,  o,  o,  o,  o,  o,  o,  o,  o,  o,  o,  o,  o,  o,  o,  o,  o,
   o,  o,  o,  o,  o,  o,  o,  o,  o,  o,  o,  o,  o,  o,  o,  o,  o,  o,  o,  o,
   o,  o,  o,  o,  o,  o,  o,  o,  o,  o,  o,  o,  o,  o,  o,  o,  o,  o,  o,  o,
   o,  o,  o,  o,  o,  o,  o,  o,  o,  o,  o,  o,  o,  o,  o,  o,  o,  o,  o,  o,
   o,  o,  o,  o,  o,  o,  o,  o,  o,  o,  o,  o,  o,  o,  o,  o,  o,  o,  o,  o,
   o,  o,  o,  o,  o,  o,  o,  o,  o,  o,  o,  o,  o,  o,  o,  o]

def decode64 (c : UInt8) : Int := decode64Table.getD c.toNat (-1)

/-- The loop: the bytes it pushes back, and `mode`, `left` and what `p` points to when it stops. The end of the
string is a zero, which the table does not know. -/
def decodeLoop : Mode → Nat → List UInt8 → List UInt8 × Mode × Nat × List UInt8
  | mode, left, [] => ([], mode, left, [])
  | mode, left, c :: p =>
    if decode64 c = -1 then ([], mode, left, c :: p)
    else
      let dec := (decode64 c).toNat
      match mode with
      | .none => decodeLoop .six dec p
      | .six =>
        let (vchRet, stopped) := decodeLoop .four (dec &&& 15) p
        (UInt8.ofNat (left <<< 2 ||| dec >>> 4) :: vchRet, stopped)
      | .four =>
        let (vchRet, stopped) := decodeLoop .two (dec &&& 3) p
        (UInt8.ofNat (left <<< 4 ||| dec >>> 2) :: vchRet, stopped)
      | .two =>
        let (vchRet, stopped) := decodeLoop .none left p
        (UInt8.ofNat (left <<< 6 ||| dec) :: vchRet, stopped)

def isInvalid : Mode × Nat × List UInt8 → Bool
  | (.none, _, _) => false
  | (.six, _, _) => true
  | (.four, left, p) =>
    left != 0 || p.getD 0 0 != pad || p.getD 1 0 != pad || decode64 (p.getD 2 0) != -1
  | (.two, left, p) => left != 0 || p.getD 0 0 != pad || decode64 (p.getD 1 0) != -1

def decodeBase64 (p : List UInt8) : List UInt8 × Bool :=
  let (vchRet, stopped) := decodeLoop .none 0 p
  (vchRet, isInvalid stopped)

end RitCoin.Model.Base64
