import RitCoin.Lib.Numeral
import RitCoin.Model.Base58
import RitCoin.Proof.ScriptNumbers

namespace RitCoin.Proof
open Lib Model Model.Base58 Model.Money Model.Wallet
variable {i n : ℕ} {after vch : List UInt8} {digits : List ℕ} {psz : CharPtr}

theorem alphabet : pszBase58.length = 58 ∧ ∀ i : Fin 58,
    pszBase58.idxOf? (charAt i) = some (i : ℕ) ∧ charAt i ≠ 0 ∧ isspace (charAt i) = false := by
  decide +kernel

theorem idxOf?_charAt (small : i < 58) : pszBase58.idxOf? (charAt i) = some i := (alphabet.2 ⟨i, small⟩).1

theorem charAt_plain (small : i < 58) : charAt i ≠ 0 ∧ isspace (charAt i) = false :=
  (alphabet.2 ⟨i, small⟩).2

theorem idxOf?_eq_some {c : UInt8} (found : pszBase58.idxOf? c = some i) : i < 58 ∧ c = charAt i := by
  obtain ⟨inside, here, -⟩ := List.findIdx?_eq_some_iff_getElem.mp found
  refine ⟨alphabet.1 ▸ inside, ?_⟩
  rw [charAt, List.getD_eq_getElem _ _ inside]
  exact (eq_of_beq here).symm

theorem all_isspace_iff {p : List UInt8} : p.dropWhile isspace = [] ↔ ∀ c ∈ p, isspace c = true :=
  List.dropWhile_eq_nil_iff

theorem bytesToNat_eq_horner (vch : List UInt8) : bytesToNat vch = horner 256 (vch.map UInt8.toNat) := by
  rw [bytesToNat, horner, List.foldl_map]

theorem bytesToNat_zero_cons (vch : List UInt8) : bytesToNat (0 :: vch) = bytesToNat vch := by
  rw [bytesToNat, List.foldl_cons]
  rfl

theorem setvch_positive (vch : List UInt8) : setvch (vch.reverse ++ [0]) = bytesToNat vch := by
  rw [setvch, List.reverse_append, List.reverse_singleton, List.reverse_reverse, List.singleton_append,
    mpiToBn_of_lt (by decide), bytesToNat_zero_cons]

theorem divLoop_eq (n : ℕ) : divLoop n = (Nat.digits 58 n).map charAt := by
  induction n using Nat.strong_induction_on with
  | _ n ih =>
    rw [divLoop]
    split_ifs with positive
    · rw [Nat.digits_def' (by decide) positive, List.map_cons, ih _ (Nat.div_lt_self positive (by decide))]
    · rw [Nat.eq_zero_of_not_pos positive, Nat.digits_zero, List.map_nil]

theorem leadingZeros_bytes (vch : List UInt8) :
    leadingZeros (vch.map UInt8.toNat) = (vch.takeWhile (· == 0)).length := by
  have same : ((· == 0) ∘ UInt8.toNat : UInt8 → Bool) = (· == 0) := by
    funext byte
    rw [Bool.eq_iff_iff]
    simp [← UInt8.toNat_inj]
  rw [leadingZeros, List.takeWhile_map, List.length_map, same]

theorem encodeBase58_eq (vch : List UInt8) :
    encodeBase58 vch =
      (numeral 58 (leadingZeros (vch.map UInt8.toNat)) (horner 256 (vch.map UInt8.toNat))).map charAt := by
  rw [encodeBase58, setvch_positive, Int.toNat_natCast, divLoop_eq, leadingZeros_bytes, numeral,
    bytesToNat_eq_horner, List.reverse_append, List.map_append, List.map_reverse, List.map_replicate,
    List.map_const', List.reverse_replicate]

theorem idxOf?_isspace {c : UInt8} (blank : isspace c = true) : pszBase58.idxOf? c = none := by
  cases found : pszBase58.idxOf? c with
  | none => rfl
  | some i =>
    obtain ⟨small, rfl⟩ := idxOf?_eq_some found
    rw [(charAt_plain small).2] at blank
    cases blank

theorem mulLoop_digits (blank : ∀ c ∈ after, isspace c = true) :
    ∀ (digits : List ℕ) (bn : ℕ), (∀ digit ∈ digits, digit < 58) →
      mulLoop (digits.map charAt ++ after) bn = some (digits.foldl (fun n digit => n * 58 + digit) bn) := by
  intro digits
  induction digits with
  | nil =>
    intro bn _
    cases after with
    | nil => rfl
    | cons c after =>
      rw [List.map_nil, List.nil_append, mulLoop, idxOf?_isspace (blank c List.mem_cons_self)]
      exact if_pos (all_isspace_iff.mpr blank)
  | cons digit digits ih =>
    intro bn small
    rw [List.forall_mem_cons] at small
    rw [List.map_cons, List.cons_append, mulLoop, idxOf?_charAt small.1, List.foldl_cons]
    exact ih _ small.2

theorem exists_digits : ∀ {p : List UInt8} {bn : ℕ}, mulLoop p bn = some n →
    ∃ (digits : List ℕ) (after : List UInt8), (∀ digit ∈ digits, digit < 58) ∧ (∀ c ∈ after, isspace c = true) ∧
      p = digits.map charAt ++ after := by
  intro p
  induction p with
  | nil => exact fun _ => ⟨[], [], nofun, nofun, rfl⟩
  | cons c p ih =>
    intro bn accepted
    rw [mulLoop] at accepted
    cases found : pszBase58.idxOf? c with
    | none =>
      simp only [found] at accepted
      split_ifs at accepted with blank
      exact ⟨[], c :: p, nofun, all_isspace_iff.mp blank, rfl⟩
    | some i =>
      simp only [found] at accepted
      obtain ⟨small, rfl⟩ := idxOf?_eq_some found
      obtain ⟨digits, after, below, blank, rfl⟩ := ih accepted
      exact ⟨i :: digits, after, List.forall_mem_cons.mpr ⟨small, below⟩, blank, rfl⟩

theorem length_ones (small : ∀ digit ∈ digits, digit < 58) (blank : ∀ c ∈ after, isspace c = true) :
    ((digits.map charAt ++ after).takeWhile (· == charAt 0)).length = leadingZeros digits := by
  have stop : after.takeWhile (· == charAt 0) = [] := by
    cases after with
    | nil => rfl
    | cons c after =>
      have other : ¬ (c == charAt 0) = true := by
        intro same
        have space := blank c List.mem_cons_self
        rw [eq_of_beq same, (charAt_plain (by decide)).2] at space
        cases space
      rw [List.takeWhile_cons, if_neg other]
  induction digits with
  | nil =>
    rw [List.map_nil, List.nil_append, stop]
    rfl
  | cons digit digits ih =>
    rw [List.forall_mem_cons] at small
    have same : (charAt digit == charAt 0) = (digit == 0) := by
      rw [Bool.eq_iff_iff, beq_iff_eq, beq_iff_eq]
      constructor
      · intro equal
        have index := idxOf?_charAt small.1
        rw [equal, idxOf?_charAt (by decide)] at index
        exact (Option.some.inj index).symm
      · rintro rfl
        rfl
    have rest := ih small.2
    rw [leadingZeros] at rest ⊢
    rw [List.map_cons, List.cons_append, List.takeWhile_cons, List.takeWhile_cons, same]
    split_ifs
    · rw [List.length_cons, List.length_cons, rest]
    · rfl

theorem bytes_eq_digits {top : UInt8} (nonzero : top ≠ 0) (rest : List UInt8) :
    (top :: rest).map UInt8.toNat = (Nat.digits 256 (bytesToNat (top :: rest))).reverse := by
  rw [bytesToNat_eq_horner]
  refine eq_digits (by decide) ?_ ?_
  · intro digit member
    obtain ⟨byte, -, rfl⟩ := List.mem_map.mp member
    exact byte.toNat_lt
  · rintro _ ⟨⟩ zero
    exact nonzero (UInt8.toNat_inj.mp zero)

theorem getvch_bytes (positive : 0 < n) : ∃ top rest, getvch n = (top :: rest).reverse ∧
    bytesToNat (top :: rest) = n ∧ (top = 0 → ∃ second rest', rest = second :: rest' ∧ 0x80 ≤ second) := by
  have nonzero : (n : ℤ) ≠ 0 := by omega
  obtain ⟨top, rest, written, sign, value⟩ := signMagnitude_mpi nonzero
  have low : top < 0x80 := by
    rw [decide_eq_false (Int.not_lt.mpr (Int.natCast_nonneg n))] at sign
    exact of_decide_eq_true sign
  have length := congrArg List.length written
  rw [((sign_bit top).1 low).1, Int.natAbs_natCast] at value
  rw [List.length_map, List.length_range, mpiSize_natCast, List.length_cons] at length
  refine ⟨top, rest, congrArg List.reverse written, value, ?_⟩
  rintro rfl
  have tail : bytesToNat rest = n := (bytesToNat_zero_cons rest).symm.trans value
  cases rest with
  | nil => exact absurd tail positive.ne
  | cons second rest =>
    refine ⟨second, rest, rfl, ?_⟩
    by_contra small
    have low : second.toNat < 128 := by simpa [UInt8.lt_iff_toNat_lt] using small
    have below := two_mul_bytesToNat_lt rest low
    have least := two_pow_le_of_byteSize (n := n) (by rw [length, List.length_cons]; omega)
    rw [tail, pow_256] at below
    rw [length, List.length_cons, Nat.add_sub_cancel] at least
    have double : 2 * 2 ^ (8 * (rest.length + 1) - 1) = 2 ^ (8 * (rest.length + 1)) := by
      rw [← pow_succ']
      congr 1
    omega

theorem trimSign_getvch (n : ℕ) : (trimSign (getvch n)).reverse.map UInt8.toNat = (Nat.digits 256 n).reverse := by
  rcases Nat.eq_zero_or_pos n with rfl | positive
  · rw [Nat.digits_zero]
    rfl
  obtain ⟨top, rest, bytes, value, sign⟩ := getvch_bytes positive
  rw [trimSign, bytes, List.reverse_reverse]
  by_cases zero : top = 0
  · obtain ⟨second, rest, rfl, high⟩ := sign zero
    subst zero
    have nonzero : second ≠ 0 := by
      rintro rfl
      exact absurd high (by decide)
    have tail : bytesToNat (second :: rest) = n := (bytesToNat_zero_cons _).symm.trans value
    simp only [if_pos high]
    rw [List.reverse_reverse, bytes_eq_digits nonzero, tail]
  · split
    · rename_i second rest' same
      exact absurd (List.cons.inj same).1 zero
    · rw [List.reverse_reverse, bytes_eq_digits zero, value]

theorem map_ofNat_toNat (vch : List UInt8) : (vch.map UInt8.toNat).map UInt8.ofNat = vch := by
  rw [List.map_map]
  exact (List.map_congr_left fun byte _ => UInt8.ofNat_toNat).trans (List.map_id _)

theorem map_toNat_ofNat (small : ∀ digit ∈ digits, digit < 256) :
    (digits.map UInt8.ofNat).map UInt8.toNat = digits := by
  rw [List.map_map]
  exact (List.map_congr_left fun digit member => UInt8.toNat_ofNat_of_lt' (small digit member)).trans (List.map_id _)

theorem numeral_lt {b zeros digit : ℕ} (base : 1 < b) (member : digit ∈ numeral b zeros n) : digit < b := by
  rcases List.mem_append.mp member with zero | rest
  · rw [List.eq_of_mem_replicate zero]
    omega
  · exact Nat.digits_lt_base base (List.mem_reverse.mp rest)

theorem dropWhile_blanks {before : List UInt8} (leading : ∀ c ∈ before, isspace c = true)
    (blank : ∀ c ∈ after, isspace c = true) (small : ∀ digit ∈ digits, digit < 58) :
    ∃ rest : List UInt8, (∀ c ∈ rest, isspace c = true) ∧
      (before ++ (digits.map charAt ++ after)).dropWhile isspace = digits.map charAt ++ rest := by
  rw [List.dropWhile_append_of_pos leading]
  cases digits with
  | nil => exact ⟨[], nofun, all_isspace_iff.mpr blank⟩
  | cons digit digits =>
    have visible := (charAt_plain (small digit List.mem_cons_self)).2
    refine ⟨after, blank, ?_⟩
    rw [List.map_cons, List.cons_append, List.dropWhile_cons, visible]
    rfl

theorem decodeBase58_digits {before : List UInt8} (text : psz.chars = before ++ (digits.map charAt ++ after))
    (small : ∀ digit ∈ digits, digit < 58) (leading : ∀ c ∈ before, isspace c = true)
    (blank : ∀ c ∈ after, isspace c = true) :
    decodeBase58 psz = some ((numeral 256 (leadingZeros digits) (horner 58 digits)).map UInt8.ofNat) := by
  obtain ⟨rest, still, skipped⟩ := dropWhile_blanks leading blank small
  have bytes := congrArg (List.map UInt8.ofNat) (trimSign_getvch (horner 58 digits))
  rw [map_ofNat_toNat] at bytes
  rw [decodeBase58, text, skipped, mulLoop_digits still digits 0 small, length_ones small still, numeral,
    List.map_append, List.map_replicate, ← bytes]
  rfl

theorem exists_text (accepted : decodeBase58 psz = some vch) :
    ∃ (before after : List UInt8) (digits : List ℕ), psz.chars = before ++ (digits.map charAt ++ after) ∧
      (∀ digit ∈ digits, digit < 58) ∧ (∀ c ∈ before, isspace c = true) ∧ (∀ c ∈ after, isspace c = true) := by
  rw [decodeBase58] at accepted
  obtain ⟨bn, read, -⟩ := Option.bind_eq_some_iff.mp accepted
  obtain ⟨digits, after, small, blank, text⟩ := exists_digits read
  refine ⟨psz.chars.takeWhile isspace, after, digits, ?_, small, fun c => List.mem_takeWhile_imp, blank⟩
  rw [← text, List.takeWhile_append_dropWhile]

theorem decodeBase58_encodeBase58 (vch : List UInt8) : decodeBase58 (.ofString (encodeBase58 vch)) = some vch := by
  have small : ∀ digit ∈ vch.map UInt8.toNat, digit < 256 := by
    intro digit member
    obtain ⟨byte, -, rfl⟩ := List.mem_map.mp member
    exact byte.toNat_lt
  have plain : cStr (encodeBase58 vch) = encodeBase58 vch := by
    rw [cStr, List.takeWhile_eq_self_iff, encodeBase58_eq]
    intro c member
    obtain ⟨digit, place, rfl⟩ := List.mem_map.mp member
    simpa using (charAt_plain (numeral_lt (by decide) place)).1
  have text : (CharPtr.ofString (encodeBase58 vch)).chars = [] ++ ((numeral 58 (leadingZeros (vch.map UInt8.toNat))
      (horner 256 (vch.map UInt8.toNat))).map charAt ++ []) := by
    rw [List.nil_append, List.append_nil, ← encodeBase58_eq]
    exact plain
  obtain ⟨zeros, value⟩ := read_numeral 58 (leadingZeros (vch.map UInt8.toNat)) (horner 256 (vch.map UInt8.toNat))
  rw [decodeBase58_digits text (fun digit => numeral_lt (by decide)) nofun nofun, zeros, value,
    numeral_read (by decide) small, map_ofNat_toNat]

theorem encodeBase58_decodeBase58 (accepted : decodeBase58 psz = some vch) :
    ∃ before after : List UInt8, (∀ c ∈ before, isspace c = true) ∧ (∀ c ∈ after, isspace c = true) ∧
      psz.chars = before ++ (encodeBase58 vch ++ after) := by
  obtain ⟨before, after, digits, text, small, leading, blank⟩ := exists_text accepted
  rw [decodeBase58_digits text small leading blank, Option.some.injEq] at accepted
  obtain ⟨zeros, value⟩ := read_numeral 256 (leadingZeros digits) (horner 58 digits)
  refine ⟨before, after, leading, blank, ?_⟩
  rw [encodeBase58_eq, ← accepted, map_toNat_ofNat (fun digit => numeral_lt (by decide)), zeros, value,
    numeral_read (by decide) small, text]

section Addresses
variable (C : Crypto)

theorem length_checksum (vch : List UInt8) : (checksum C vch).length = 4 := by
  rw [Base58.checksum, List.length_take, List.Vector.toList_length]
  rfl

theorem decodeBase58Check_eq_some :
    decodeBase58Check C psz = some vch ↔ decodeBase58 psz = some (vch ++ checksum C vch) := by
  rw [decodeBase58Check, Option.bind_eq_bind, Option.bind_eq_some_iff]
  constructor
  · rintro ⟨vchRet, decoded, checked⟩
    have equal : checksum C (vchRet.take (vchRet.length - 4)) = vchRet.drop (vchRet.length - 4) := by
      by_contra differs
      simp only [if_pos differs, ite_self] at checked
      cases checked
    have long : ¬ vchRet.length < 4 := fun short => by
      rw [if_pos short] at checked
      cases checked
    simp only [if_neg long, if_neg (not_not.mpr equal)] at checked
    rw [← Option.some.inj checked, equal, List.take_append_drop]
    exact decoded
  · intro decoded
    have length := length_checksum C vch
    refine ⟨_, decoded, ?_⟩
    rw [List.length_append, length, Nat.add_sub_cancel, List.take_left, List.drop_left, if_neg (by omega),
      if_neg (not_not.mpr rfl)]

theorem setString_toString (data : CBase58Data) :
    setString C (.ofString (CBase58Data.toString C data)) = (true, data) := by
  have decoded := (decodeBase58Check_eq_some C).mpr (decodeBase58_encodeBase58
    ((data.nVersion :: data.vchData) ++ checksum C (data.nVersion :: data.vchData)))
  have bytes : (decodeBase58Check C (.ofString (CBase58Data.toString C data))).getD [] = data.nVersion :: data.vchData :=
    congrArg (·.getD []) decoded
  rw [setString]
  simp only [bytes]

variable (fTestNet : Bool)

theorem get_ofDestination {dest : CTxDestination} (some : dest ≠ .noDestination) :
    isValid fTestNet (ofDestination fTestNet dest) = true ∧ (ofDestination fTestNet dest).get fTestNet = dest := by
  cases dest with
  | noDestination => exact absurd rfl some
  | keyID id =>
    obtain ⟨bytes, length⟩ := id
    cases fTestNet <;> simp [isValid, CBase58Data.get, ofDestination, expectTestNet, PUBKEY_ADDRESS,
      PUBKEY_ADDRESS_TEST, SCRIPT_ADDRESS, List.Vector.toList, length]
  | scriptID id =>
    obtain ⟨bytes, length⟩ := id
    cases fTestNet <;> simp [isValid, CBase58Data.get, ofDestination, expectTestNet, PUBKEY_ADDRESS,
      PUBKEY_ADDRESS_TEST, SCRIPT_ADDRESS, SCRIPT_ADDRESS_TEST, List.Vector.toList, length]

theorem version_of_isValid {address : CBase58Data} (valid : isValid fTestNet address = true) :
    address.vchData.length = 20 ∧
      (address.nVersion = (if fTestNet then PUBKEY_ADDRESS_TEST else PUBKEY_ADDRESS) ∨
        address.nVersion = (if fTestNet then SCRIPT_ADDRESS_TEST else SCRIPT_ADDRESS)) := by
  rw [isValid, Bool.and_eq_true, beq_iff_eq, beq_iff_eq, expectTestNet] at valid
  refine ⟨valid.2, ?_⟩
  obtain ⟨network, -⟩ := valid
  split_ifs at network with main test
  · rw [← Option.some.inj network]
    exact main
  · rw [← Option.some.inj network]
    exact test

theorem ofDestination_get {address : CBase58Data} (valid : isValid fTestNet address = true) :
    ofDestination fTestNet (address.get fTestNet) = address := by
  obtain ⟨size, version⟩ := version_of_isValid fTestNet valid
  obtain ⟨nVersion, vchData⟩ := address
  rw [CBase58Data.get, valid, dif_pos size]
  rcases version with rfl | rfl
  · cases fTestNet <;> rfl
  · cases fTestNet <;> rfl

theorem decoded_of_isValid (valid : isValid fTestNet (ofText C psz) = true) :
    decodeBase58 psz = some ((ofText C psz).nVersion :: (ofText C psz).vchData ++
      checksum C ((ofText C psz).nVersion :: (ofText C psz).vchData)) := by
  rw [← decodeBase58Check_eq_some]
  cases decoded : decodeBase58Check C psz with
  | none =>
    have empty : ofText C psz = ⟨0, []⟩ := by rw [ofText, setString, decoded]; rfl
    rw [empty] at valid
    cases fTestNet <;> cases valid
  | some vch =>
    cases vch with
    | nil =>
      have empty : ofText C psz = ⟨0, []⟩ := by rw [ofText, setString, decoded]; rfl
      rw [empty] at valid
      cases fTestNet <;> cases valid
    | cons nVersion vchData =>
      have data : ofText C psz = ⟨nVersion, vchData⟩ := by rw [ofText, setString, decoded]; rfl
      rw [data]

theorem eq_encodeBase58 (accepted : decodeBase58 psz = some vch) (visible : ∀ c ∈ psz.chars, isspace c = false) :
    psz.chars = encodeBase58 vch := by
  obtain ⟨before, after, leading, blank, text⟩ := encodeBase58_decodeBase58 accepted
  have none : ∀ part : List UInt8, (∀ c ∈ part, isspace c = true) → part ⊆ psz.chars → part = [] := by
    intro part spaces inside
    refine List.eq_nil_iff_forall_not_mem.mpr fun c member => ?_
    have shown := visible c (inside member)
    rw [spaces c member] at shown
    cases shown
  have first := none before leading (by rw [text]; exact List.subset_append_left _ _)
  have last := none after blank (by rw [text]; exact fun c member => by simp [member])
  rw [text, first, last, List.nil_append, List.append_nil]

/-- Encoding and decoding are inverse up to blanks around the text; so a destination is read back from the text
of its address, and has no second text. -/
theorem base58_roundTrips :
    (∀ vch, decodeBase58 (.ofString (encodeBase58 vch)) = some vch) ∧
    (∀ psz vch, decodeBase58 psz = some vch → ∃ before after : List UInt8,
      (∀ c ∈ before, isspace c = true) ∧ (∀ c ∈ after, isspace c = true) ∧
        psz.chars = before ++ (encodeBase58 vch ++ after)) ∧
    (∀ dest, dest ≠ .noDestination →
      let address := ofText C (.ofString (CBase58Data.toString C (ofDestination fTestNet dest)))
      isValid fTestNet address = true ∧ address.get fTestNet = dest) ∧
    ∀ psz psz', (∀ c ∈ psz.chars, isspace c = false) → (∀ c ∈ psz'.chars, isspace c = false) →
      isValid fTestNet (ofText C psz) = true → isValid fTestNet (ofText C psz') = true →
      (ofText C psz).get fTestNet = (ofText C psz').get fTestNet → psz = psz' := by
  refine ⟨decodeBase58_encodeBase58, fun psz vch => encodeBase58_decodeBase58, ?_, ?_⟩
  · intro dest some
    have parsed : ofText C (.ofString (CBase58Data.toString C (ofDestination fTestNet dest))) =
        ofDestination fTestNet dest := congrArg Prod.snd (setString_toString C _)
    simp only [parsed]
    exact get_ofDestination fTestNet some
  · intro psz psz' visible visible' valid valid' same
    have data : ofText C psz = ofText C psz' := by
      rw [← ofDestination_get fTestNet valid, same, ofDestination_get fTestNet valid']
    have text := eq_encodeBase58 (decoded_of_isValid C fTestNet valid) visible
    have text' := eq_encodeBase58 (decoded_of_isValid C fTestNet valid') visible'
    have chars : psz.chars = psz'.chars := by rw [text, text', data]
    cases psz
    cases psz'
    cases chars
    rfl

end Addresses

end RitCoin.Proof
