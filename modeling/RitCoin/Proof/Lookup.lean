import RitCoin.Model.Lookup
import RitCoin.Proof.Money

/-!
# The port of a host name

`Lookup` tests the default port where it means the parsed one, so a number that is no port is cut to 16 bits
instead of being replaced by the default.
-/

namespace RitCoin.Proof
open Lib Model Model.Money

theorem strrchr_of_not_mem {c : UInt8} : ∀ {text : List UInt8}, c ∉ text → strrchr c text = none
  | [], _ => rfl
  | d :: rest, absent => by
    rw [List.mem_cons, not_or] at absent
    simp [strrchr, strrchr_of_not_mem absent.2, Ne.symm absent.1]

theorem strrchr_append {c : UInt8} {after : List UInt8} (last : c ∉ after) : ∀ before : List UInt8,
    strrchr c (before ++ c :: after) = some (before, after)
  | [] => by simp [strrchr, strrchr_of_not_mem last]
  | d :: before => by rw [List.cons_append, strrchr, strrchr_append last before]

theorem colon_not_mem_digits {digits : List UInt8} (each : ∀ c ∈ digits, isDigit c = true) : colon ∉ digits := by
  intro mem
  exact absurd (each colon mem) (by decide)

theorem strtoul_digits {digits : List UInt8} (nonempty : digits ≠ []) (each : ∀ c ∈ digits, isDigit c = true) :
    strtoul digits = (UInt64.ofNat (min (ofDecimal digits) (2 ^ 64 - 1)), []) := by
  cases digits with
  | nil => exact absurd rfl nonempty
  | cons c rest =>
    have digit := each c List.mem_cons_self
    have kept : (c :: rest).dropWhile isspace = c :: rest := by
      rw [List.dropWhile_cons, not_isspace_of_isDigit digit]
      rfl
    have taken : (c :: rest).takeWhile isDigit = c :: rest := List.takeWhile_eq_self_iff.mpr each
    have left : (c :: rest).dropWhile isDigit = [] := List.dropWhile_eq_nil_iff.mpr each
    have unsigned : ((c :: rest).head? == some minus) = false ∧ ((c :: rest).head? == some plus) = false :=
      ⟨ne_of_isDigit digit minus rfl, ne_of_isDigit digit plus rfl⟩
    rw [strtoul]
    simp only [kept, unsigned.1, unsigned.2, Bool.or_self, Bool.false_eq_true, if_false, taken, left]
    by_cases large : ofDecimal (c :: rest) ≥ 2 ^ 64
    · rw [Nat.min_eq_right (by omega), if_neg (by simp), if_pos large]
      rfl
    · rw [Nat.min_eq_left (by omega), if_neg (by simp), if_neg large]

theorem port_of_number (number : Nat) :
    (UInt64.ofNat (min number (2 ^ 64 - 1))).toUInt32.toInt32.toUInt32.toUInt16.toNat =
      min number (2 ^ 64 - 1) % 65536 := by
  simp

theorem port_of_default {portDefault : Int32} (lower : 0 ≤ portDefault) (upper : portDefault ≤ USHRT_MAX) :
    (portDefault.toUInt32.toUInt16.toNat : Int) = portDefault.toInt := by
  have bounds : 0 ≤ portDefault.toInt ∧ portDefault.toInt ≤ 65535 :=
    ⟨Int32.le_iff_toInt_le.mp lower, Int32.le_iff_toInt_le.mp upper⟩
  have bits : portDefault.toUInt32.toNat = portDefault.toBitVec.toNat := rfl
  have signed : portDefault.toInt = portDefault.toBitVec.toInt := rfl
  rw [UInt32.toNat_toUInt16, bits]
  rw [signed, BitVec.toInt_eq_toNat_cond] at bounds ⊢
  split at bounds
  · omega
  · omega

def Resolves (getaddrinfo : GetAddrInfo) (name : List UInt8) (fAllowLookup : Bool) : Prop :=
  ∃ first others, getaddrinfo name fAllowLookup = some (first :: others)

theorem lookupIntern_cases (getaddrinfo : GetAddrInfo) (name : List UInt8) (nMaxSolutions : UInt32)
    (fAllowLookup : Bool) :
    (Resolves getaddrinfo name fAllowLookup ∧
        ∃ ip others, lookupIntern getaddrinfo name nMaxSolutions fAllowLookup = some (ip :: others)) ∨
      (¬ Resolves getaddrinfo name fAllowLookup ∧
        lookupIntern getaddrinfo name nMaxSolutions fAllowLookup = none) := by
  rw [Resolves, lookupIntern]
  cases found : getaddrinfo name fAllowLookup with
  | none => simp
  | some aiRes =>
    cases aiRes with
    | nil => simp
    | cons ip others =>
      by_cases all : nMaxSolutions = 0
      · simp [all]
      · obtain ⟨k, positive⟩ : ∃ k, nMaxSolutions.toNat = k + 1 := by
          apply Nat.exists_eq_succ_of_ne_zero
          intro zero
          exact all (UInt32.toNat_inj.mp zero)
        simp [all, positive]

def askedName (host digits : List UInt8) : List UInt8 := if host = [] then colon :: digits else unbracketed host

def givenPort (host digits : List UInt8) (portDefault : Int32) : Int32 :=
  if host = [] then portDefault else (UInt64.ofNat (min (ofDecimal digits) (2 ^ 64 - 1))).toUInt32.toInt32

theorem lookup_eq (getaddrinfo : GetAddrInfo) {host digits : List UInt8} {portDefault : Int32} (fAllowLookup : Bool)
    (nMaxSolutions : UInt32) (nonempty : digits ≠ []) (each : ∀ c ∈ digits, isDigit c = true)
    (short : (host ++ colon :: digits).length < 256) (lower : 0 ≤ portDefault) (upper : portDefault ≤ USHRT_MAX) :
    lookup getaddrinfo (host ++ colon :: digits) portDefault fAllowLookup nMaxSolutions =
      (lookupIntern getaddrinfo (askedName host digits) nMaxSolutions fAllowLookup).map fun vIP =>
        vIP.map fun ip => ⟨ip, (givenPort host digits portDefault).toUInt32.toUInt16⟩ := by
  have absent := colon_not_mem_digits each
  rw [lookup, List.take_of_length_le (by omega)]
  cases host with
  | nil =>
    have unseen : unbracketed (colon :: digits) = colon :: digits := rfl
    simp only [List.nil_append, strrchr_of_not_mem absent, unseen, askedName, givenPort, if_true]
    cases lookupIntern getaddrinfo (colon :: digits) nMaxSolutions fAllowLookup <;> rfl
  | cons first before =>
    simp only [List.cons_append, strrchr_append absent, strtoul_digits nonempty each, List.isEmpty_nil, if_true,
      lower, upper, decide_true, Bool.and_self, askedName, givenPort, reduceCtorEq, if_false]
    cases lookupIntern getaddrinfo (unbracketed (first :: before)) nMaxSolutions fAllowLookup <;> rfl

def KeepsPort (host digits : List UInt8) (portDefault : Int32) : Prop :=
  if host = [] then ofDecimal digits > 65535 ∨ (ofDecimal digits : Int) = portDefault.toInt
  else ofDecimal digits ≤ 65535 ∨ ((min (ofDecimal digits) (2 ^ 64 - 1) % 65536 : Nat) : Int) = portDefault.toInt

theorem lookup_port_iff (getaddrinfo : GetAddrInfo) {host digits : List UInt8} {portDefault : Int32}
    (fAllowLookup : Bool) (nMaxSolutions : UInt32) (nonempty : digits ≠ []) (each : ∀ c ∈ digits, isDigit c = true)
    (short : (host ++ colon :: digits).length < 256) (lower : 0 ≤ portDefault) (upper : portDefault ≤ USHRT_MAX) :
    (∀ vAddr, lookup getaddrinfo (host ++ colon :: digits) portDefault fAllowLookup nMaxSolutions = some vAddr →
        ∀ addr ∈ vAddr, (addr.port.toNat : Int) =
          if ofDecimal digits ≤ 65535 then (ofDecimal digits : Int) else portDefault.toInt) ↔
      ¬ Resolves getaddrinfo (askedName host digits) fAllowLookup ∨ KeepsPort host digits portDefault := by
  have portIs : ((givenPort host digits portDefault).toUInt32.toUInt16.toNat : Int) =
      (if ofDecimal digits ≤ 65535 then (ofDecimal digits : Int) else portDefault.toInt) ↔
        KeepsPort host digits portDefault := by
    rw [givenPort, KeepsPort]
    split
    · rw [port_of_default lower upper]
      split
      · omega
      · omega
    · rw [port_of_number]
      split
      · omega
      · omega
  rw [lookup_eq getaddrinfo fAllowLookup nMaxSolutions nonempty each short lower upper, ← portIs]
  rcases lookupIntern_cases getaddrinfo (askedName host digits) nMaxSolutions fAllowLookup with
    ⟨resolves, ip, others, found⟩ | ⟨unknown, found⟩
  · rw [found, or_iff_right (not_not_intro resolves)]
    constructor
    · intro every
      exact every _ rfl ⟨ip, _⟩ (List.mem_map_of_mem List.mem_cons_self)
    · intro port vAddr is addr mem
      cases is
      obtain ⟨ip, -, rfl⟩ := List.mem_map.mp mem
      exact port
  · rw [found]
    simp [unknown]

def oneAddress : GetAddrInfo := fun _ _ => some [1]

theorem port80_kept : Resolves oneAddress (askedName [97] [56, 48]) true ∧
    ∀ vAddr, lookup oneAddress ([97] ++ colon :: [56, 48]) 9333 true 0 = some vAddr →
      ∀ addr ∈ vAddr, (addr.port.toNat : Int) =
        if ofDecimal [56, 48] ≤ 65535 then (ofDecimal [56, 48] : Int) else (9333 : Int32).toInt := by
  have keeps : KeepsPort [97] [56, 48] 9333 := by
    rw [KeepsPort, if_neg (by decide)]
    exact .inl (by decide)
  exact ⟨⟨1, [], rfl⟩, (lookup_port_iff oneAddress true 0 (by simp) (by simp [isDigit]) (by simp) (by decide)
    (by decide)).mpr (.inr keeps)⟩

/-- The name a:65616 is given port 80 instead of the default 9333. -/
theorem port65616_cut : lookup oneAddress ([97] ++ colon :: [54, 53, 54, 49, 54]) 9333 true 0 = some [⟨1, 80⟩] ∧
    ofDecimal [54, 53, 54, 49, 54] > 65535 := by decide +kernel

end RitCoin.Proof
