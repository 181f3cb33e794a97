import RitCoin.Lib.Words
import RitCoin.Model.Chain
import RitCoin.Model.Money

/-!
# Numbers of a fixed width

`base_uint` of `uint256.h`, for any number `WIDTH` of words. A loop over the words is a recursion over
the list of them, where it does not write at other positions than it reads.
-/

namespace RitCoin.Model
open Lib

structure BaseUint (WIDTH : Nat) where
  /-- The lowest word first. -/
  pn : List UInt32
  length_pn : pn.length = WIDTH
deriving DecidableEq, Repr

namespace BaseUint
variable {WIDTH : Nat}

def value (a : BaseUint WIDTH) : Nat := wordsToNat a.pn

def complement (a : BaseUint WIDTH) : BaseUint WIDTH := ⟨a.pn.map (~~~ ·), by simp [a.length_pn]⟩

def incrementLoop : List UInt32 → List UInt32
  | [] => []
  | word :: words => if word + 1 = 0 ∧ words ≠ [] then (word + 1) :: incrementLoop words else (word + 1) :: words

/-- The loop of the first `operator--`, where -1 is compared as an `unsigned int`. -/
def decrementLoop : List UInt32 → List UInt32
  | [] => []
  | word :: words =>
    if word - 1 = 0xffffffff ∧ words ≠ [] then (word - 1) :: decrementLoop words else (word - 1) :: words

theorem length_incrementLoop (words : List UInt32) : (incrementLoop words).length = words.length := by
  induction words with
  | nil => rfl
  | cons word words ih =>
    rw [incrementLoop]
    split_ifs
    · rw [List.length_cons, ih, List.length_cons]
    · rfl

theorem length_decrementLoop (words : List UInt32) : (decrementLoop words).length = words.length := by
  induction words with
  | nil => rfl
  | cons word words ih =>
    rw [decrementLoop]
    split_ifs
    · rw [List.length_cons, ih, List.length_cons]
    · rfl

def increment (a : BaseUint WIDTH) : BaseUint WIDTH :=
  ⟨incrementLoop a.pn, (length_incrementLoop a.pn).trans a.length_pn⟩

def decrement (a : BaseUint WIDTH) : BaseUint WIDTH :=
  ⟨decrementLoop a.pn, (length_decrementLoop a.pn).trans a.length_pn⟩

def postIncrement (a : BaseUint WIDTH) : BaseUint WIDTH × BaseUint WIDTH := (a, increment a)

def postDecrement (a : BaseUint WIDTH) : BaseUint WIDTH × BaseUint WIDTH := (a, decrement a)

def negate (a : BaseUint WIDTH) : BaseUint WIDTH := (postIncrement (complement a)).2

def assign (WIDTH : Nat) (b : UInt64) : BaseUint WIDTH :=
  ⟨((List.replicate WIDTH 0).set 0 b.toUInt32).set 1 (b >>> 32).toUInt32, by simp⟩

def addLoop : UInt64 → List UInt32 → List UInt32 → List UInt32
  | carry, word :: words, word' :: words' =>
    let n := carry + word.toUInt64 + word'.toUInt64
    (n &&& 0xffffffff).toUInt32 :: addLoop (n >>> 32) words words'
  | _, _, _ => []

theorem length_addLoop : ∀ (carry : UInt64) (words words' : List UInt32), words.length = words'.length →
    (addLoop carry words words').length = words.length := by
  intro carry words
  induction words generalizing carry with
  | nil => exact fun _ _ => rfl
  | cons word words ih =>
    intro words' length
    cases words' with
    | nil => cases length
    | cons word' words' => rw [addLoop, List.length_cons, ih _ _ (Nat.succ.inj length), List.length_cons]

def addAssign (a b : BaseUint WIDTH) : BaseUint WIDTH :=
  ⟨addLoop 0 a.pn b.pn, (length_addLoop _ _ _ (a.length_pn.trans b.length_pn.symm)).trans a.length_pn⟩

def subAssign (a b : BaseUint WIDTH) : BaseUint WIDTH := addAssign a (negate b)

def addAssign64 (a : BaseUint WIDTH) (b64 : UInt64) : BaseUint WIDTH := addAssign a (assign WIDTH b64)

def subAssign64 (a : BaseUint WIDTH) (b64 : UInt64) : BaseUint WIDTH := addAssign a (negate (assign WIDTH b64))

def orAt (pn : List UInt32) (i : Nat) (word : UInt32) : List UInt32 := pn.modify i (· ||| word)

def shiftLeftRound (a : List UInt32) (WIDTH k : Nat) (shift : UInt32) (pn : List UInt32) (i : Nat) : List UInt32 :=
  let pn := if i + k + 1 < WIDTH ∧ shift ≠ 0 then orAt pn (i + k + 1) (a.getD i 0 >>> (32 - shift)) else pn
  if i + k < WIDTH then orAt pn (i + k) (a.getD i 0 <<< shift) else pn

def shiftRightRound (a : List UInt32) (k : Nat) (shift : UInt32) (pn : List UInt32) (i : Nat) : List UInt32 :=
  let pn := if k + 1 ≤ i ∧ shift ≠ 0 then orAt pn (i - k - 1) (a.getD i 0 <<< (32 - shift)) else pn
  if k ≤ i then orAt pn (i - k) (a.getD i 0 >>> shift) else pn

theorem length_foldl {round : List UInt32 → Nat → List UInt32} (keeps : ∀ pn i, (round pn i).length = pn.length)
    (is : List Nat) (pn : List UInt32) : (is.foldl round pn).length = pn.length := by
  induction is generalizing pn with
  | nil => rfl
  | cons i is ih => rw [List.foldl_cons, ih, keeps]

theorem length_orAt (pn : List UInt32) (i : Nat) (word : UInt32) : (orAt pn i word).length = pn.length :=
  List.length_modify _ _ _

theorem length_shiftLeftRound (a : List UInt32) (WIDTH k : Nat) (shift : UInt32) (pn : List UInt32) (i : Nat) :
    (shiftLeftRound a WIDTH k shift pn i).length = pn.length := by
  rw [shiftLeftRound]
  split_ifs <;> simp only [length_orAt]

theorem length_shiftRightRound (a : List UInt32) (k : Nat) (shift : UInt32) (pn : List UInt32) (i : Nat) :
    (shiftRightRound a k shift pn i).length = pn.length := by
  rw [shiftRightRound]
  split_ifs <;> simp only [length_orAt]

def shiftLeftAssign (a : BaseUint WIDTH) (shift : UInt32) : BaseUint WIDTH :=
  ⟨(List.range WIDTH).foldl (shiftLeftRound a.pn WIDTH (shift / 32).toNat (shift % 32)) (List.replicate WIDTH 0),
    (length_foldl (length_shiftLeftRound _ _ _ _) _ _).trans List.length_replicate⟩

def shiftRightAssign (a : BaseUint WIDTH) (shift : UInt32) : BaseUint WIDTH :=
  ⟨(List.range WIDTH).foldl (shiftRightRound a.pn (shift / 32).toNat (shift % 32)) (List.replicate WIDTH 0),
    (length_foldl (length_shiftRightRound _ _ _) _ _).trans List.length_replicate⟩

/-- The loop of the four orders, from the highest words on: `first` decides at the words that differ, and
`equal` is returned behind the lowest. -/
def compareLoop (first : UInt32 → UInt32 → Bool) (equal : Bool) : List (UInt32 × UInt32) → Bool
  | [] => equal
  | (word, word') :: words =>
    if first word word' then true else if first word' word then false else compareLoop first equal words

def lt (a b : BaseUint WIDTH) : Bool :=
  compareLoop (fun word word' => decide (word < word')) false (a.pn.zip b.pn).reverse

def le (a b : BaseUint WIDTH) : Bool :=
  compareLoop (fun word word' => decide (word < word')) true (a.pn.zip b.pn).reverse

def gt (a b : BaseUint WIDTH) : Bool :=
  compareLoop (fun word word' => decide (word > word')) false (a.pn.zip b.pn).reverse

def ge (a b : BaseUint WIDTH) : Bool :=
  compareLoop (fun word word' => decide (word > word')) true (a.pn.zip b.pn).reverse

def eq (a b : BaseUint WIDTH) : Bool := (a.pn.zip b.pn).all fun words => words.1 == words.2

def ne (a b : BaseUint WIDTH) : Bool := !eq a b

def eq64 (a : BaseUint WIDTH) (b : UInt64) : Bool :=
  a.pn.getD 0 0 == b.toUInt32 && a.pn.getD 1 0 == (b >>> 32).toUInt32 && (a.pn.drop 2).all (· == 0)

def ne64 (a : BaseUint WIDTH) (b : UInt64) : Bool := !eq64 a b

def bytes (a : BaseUint WIDTH) : List UInt8 := a.pn.flatMap fun word => leBytes 4 word.toNat

def hexByte (byte : UInt8) : List UInt8 := [hexDigit (byte.toNat / 16), hexDigit (byte.toNat % 16)]

def getHex (a : BaseUint WIDTH) : List UInt8 := (bytes a).reverse.flatMap hexByte

def phexdigit (c : UInt8) : UInt8 :=
  if 48 ≤ c ∧ c ≤ 57 then c - 48 else if 65 ≤ c ∧ c ≤ 70 then c - 55 else if 97 ≤ c ∧ c ≤ 102 then c - 87 else 0

def tolower (c : UInt8) : UInt8 := if 65 ≤ c ∧ c ≤ 90 then c + 32 else c

def hexBytes : Nat → List UInt8 → List UInt8
  | 0, _ => []
  | n + 1, [] => 0 :: hexBytes n []
  | n + 1, [psz] => phexdigit psz :: hexBytes n []
  | n + 1, psz :: psz' :: digits => (phexdigit psz ||| phexdigit psz' <<< 4) :: hexBytes n digits

def bytesToWords : Nat → List UInt8 → List UInt32
  | 0, _ => []
  | n + 1, bytes => UInt32.ofNat (ofLe (bytes.take 4)) :: bytesToWords n (bytes.drop 4)

theorem length_bytesToWords (n : Nat) (bytes : List UInt8) : (bytesToWords n bytes).length = n := by
  induction n generalizing bytes with
  | zero => rfl
  | succ n ih => rw [bytesToWords, List.length_cons, ih]

def skip0x : List UInt8 → List UInt8
  | c :: x :: psz => if c = 48 ∧ tolower x = 120 then psz else c :: x :: psz
  | psz => psz

def setHex (WIDTH : Nat) (str : List UInt8) : BaseUint WIDTH :=
  let psz := skip0x ((Money.cStr str).dropWhile Money.isspace)
  let digits := psz.takeWhile fun c => phexdigit c != 0 || c == 48
  ⟨bytesToWords WIDTH (hexBytes (WIDTH * 4) digits.reverse), length_bytesToWords _ _⟩

end BaseUint

end RitCoin.Model
