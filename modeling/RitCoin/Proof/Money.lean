import RitCoin.Model.Money

namespace RitCoin.Proof
open Lib Model Model.Money
variable {c : UInt8} {whole units p text : List UInt8}

theorem int64_of_nat {value : Int} (nonneg : 0 ≤ value) (small : value < 2 ^ 63) : int64 value = .ok value := by
  rw [int64, if_pos]
  omega

theorem not_isDigit_point : isDigit point = false := rfl

theorem not_isspace_point : isspace point = false := rfl

theorem not_isspace_of_isDigit (digit : isDigit c = true) : isspace c = false := by
  simp only [isDigit, Bool.and_eq_true, decide_eq_true_eq] at digit
  have notBlank : c ≠ ' '.toUInt8 := by
    rintro rfl
    exact absurd digit.1 (by decide)
  simp [isspace, notBlank]
  omega

theorem ne_of_isDigit (digit : isDigit c = true) (other : UInt8) (not : isDigit other = false) :
    (c == other) = false := by
  apply beq_eq_false_iff_ne.mpr
  rintro rfl
  rw [digit] at not
  cases not

structure MoneyText (text whole units : List UInt8) : Prop where
  wholeDigits : ∀ c ∈ whole, isDigit c = true
  wholeShort : whole.length ≤ 10
  unitsDigits : ∀ c ∈ units, isDigit c = true
  unitsShort : units.length ≤ 8
  shape : ∃ before fraction after, text = before ++ (whole ++ (fraction ++ after)) ∧
    (∀ c ∈ before, isspace c = true) ∧ (∀ c ∈ after, isspace c = true) ∧
    (fraction = [] ∧ units = [] ∨ fraction = point :: units)

def decimalNumber (whole units : List UInt8) : ℚ := ofDecimal whole + ofDecimal units / 10 ^ units.length

def inUnits (whole units : List UInt8) : Nat :=
  ofDecimal whole * 10 ^ 8 + ofDecimal units * 10 ^ (8 - units.length)

theorem coin_toInt : COIN.toInt = 10 ^ 8 := by decide

theorem inUnits_eq (short : units.length ≤ 8) :
    (inUnits whole units : ℚ) = decimalNumber whole units * COIN.toInt := by
  have split : (10 : ℚ) ^ 8 = 10 ^ units.length * 10 ^ (8 - units.length) := by
    rw [← pow_add, Nat.add_sub_of_le short]
  rw [inUnits, decimalNumber, coin_toInt, Nat.cast_add, Nat.cast_mul, Nat.cast_mul, Nat.cast_pow, Nat.cast_pow,
    Int.cast_pow, Nat.cast_ofNat, Int.cast_ofNat, split]
  field_simp

theorem scanUnits_eq : ∀ (p : List UInt8) (k nUnits : Nat), k ≤ 8 → nUnits + 10 ^ k ≤ 10 ^ 9 →
    ∀ digits, digits = (p.takeWhile isDigit).take k →
    scanUnits p ((10 ^ k / 10 : Nat) : Int) nUnits =
      .ok (((nUnits + ofDecimal digits * 10 ^ (k - digits.length) : Nat) : Int), p.drop digits.length)
  | [], k, nUnits, _, _, _, rfl => by simp [scanUnits, pure, Except.pure]
  | c :: p, 0, nUnits, _, _, _, rfl => by simp [scanUnits, pure, Except.pure]
  | c :: p, k + 1, nUnits, small, bound, digits, is => by
    have shifted : 10 ^ (k + 1) / 10 = 10 ^ k := by rw [pow_succ, Nat.mul_div_cancel _ (by omega)]
    rw [shifted, scanUnits]
    by_cases digit : isDigit c = true
    · rw [List.takeWhile_cons, if_pos digit, List.take_succ_cons] at is
      have positive : 0 < 10 ^ k := Nat.pow_pos (by omega)
      have value := digitValue_lt digit
      -- One digit adds less than nine tenths of what the digits from here on can add.
      have less : 10 ^ k * digitValue c + 10 ^ k ≤ 10 ^ (k + 1) := by
        calc 10 ^ k * digitValue c + 10 ^ k = 10 ^ k * (digitValue c + 1) := by ring
          _ ≤ 10 ^ k * 10 := Nat.mul_le_mul_left _ value
          _ = 10 ^ (k + 1) := (pow_succ 10 k).symm
      have product : int64 (((10 ^ k : Nat) : Int) * (digitValue c : Nat)) =
          .ok ((10 ^ k * digitValue c : Nat) : Int) := by
        rw [← Nat.cast_mul]
        exact int64_of_nat (Int.natCast_nonneg _) (by omega)
      have sum : int64 ((nUnits : Int) + ((10 ^ k * digitValue c : Nat) : Int)) =
          .ok ((nUnits + 10 ^ k * digitValue c : Nat) : Int) := by
        rw [← Nat.cast_add]
        exact int64_of_nat (Int.natCast_nonneg _) (by omega)
      have rest := scanUnits_eq p k (nUnits + 10 ^ k * digitValue c) (by omega) (by omega) _ rfl
      have short : ((p.takeWhile isDigit).take k).length ≤ k := List.length_take_le _ _
      have next : ((10 ^ k : Nat) : Int).tdiv 10 = ((10 ^ k / 10 : Nat) : Int) := rfl
      rw [if_pos (by simp [digit]), product, ok_bind, sum, ok_bind, next, rest, is, List.length_cons,
        List.drop_succ_cons, ofDecimal_cons]
      have total : nUnits + 10 ^ k * digitValue c +
            ofDecimal ((p.takeWhile isDigit).take k) * 10 ^ (k - ((p.takeWhile isDigit).take k).length) =
          nUnits + (digitValue c * 10 ^ ((p.takeWhile isDigit).take k).length +
            ofDecimal ((p.takeWhile isDigit).take k)) *
              10 ^ (k + 1 - (((p.takeWhile isDigit).take k).length + 1)) := by
        rw [Nat.add_sub_add_right, Nat.add_mul, Nat.mul_assoc, ← pow_add, Nat.add_sub_of_le short]
        ring
      rw [total]
    · have none : digits = [] := by rw [is, List.takeWhile_cons, if_neg digit, List.take_nil]
      rw [if_neg (by simp [digit]), none]
      simp [pure, Except.pure]

theorem scanWhole_eq : ∀ (p strWhole : List UInt8), scanWhole p strWhole =
    match p.dropWhile isDigit with
    | [] => .ok (some (strWhole ++ p.takeWhile isDigit, 0, []))
    | c :: rest =>
      if c == point then do
        let (nUnits, rest) ← scanUnits rest (CENT.toInt * 10) 0
        pure (some (strWhole ++ p.takeWhile isDigit, nUnits, rest))
      else if isspace c then .ok (some (strWhole ++ p.takeWhile isDigit, 0, c :: rest))
      else .ok none
  | [], strWhole => by simp [scanWhole, pure, Except.pure]
  | c :: p, strWhole => by
    rw [scanWhole, List.dropWhile_cons, List.takeWhile_cons]
    by_cases digit : isDigit c = true
    · rw [ne_of_isDigit digit point not_isDigit_point, not_isspace_of_isDigit digit, digit, scanWhole_eq p]
      simp
    · simp [digit, pure, Except.pure]

theorem scanWhole_point {rest strWhole : List UInt8} (stops : p.dropWhile isDigit = point :: rest) :
    ∀ digits, digits = (rest.takeWhile isDigit).take 8 →
    scanWhole p strWhole = .ok (some (strWhole ++ p.takeWhile isDigit,
      ((ofDecimal digits * 10 ^ (8 - digits.length) : Nat) : Int), rest.drop digits.length)) := by
  intro digits is
  have read := scanUnits_eq rest 8 0 le_rfl (by omega) digits is
  rw [Nat.zero_add] at read
  have start : CENT.toInt * 10 = ((10 ^ 8 / 10 : Nat) : Int) := by decide
  rw [scanWhole_eq, stops]
  simp only [beq_self_eq_true, if_true]
  rw [start, ← Nat.cast_zero, read]
  rfl

theorem scanWhole_unpointed {strWhole : List UInt8} (unpointed : ∀ rest, p.dropWhile isDigit ≠ point :: rest) :
    scanWhole p strWhole =
        .ok (some (strWhole ++ p.takeWhile isDigit, ((0 : Nat) : Int), p.dropWhile isDigit)) ∨
      scanWhole p strWhole = .ok none := by
  rw [scanWhole_eq]
  cases left : p.dropWhile isDigit with
  | nil => exact .inl rfl
  | cons c rest =>
    have notPoint : (c == point) = false := by
      apply beq_eq_false_iff_ne.mpr
      rintro rfl
      exact unpointed rest left
    cases blank : isspace c with
    | true => exact .inl (by simp [notPoint, blank])
    | false => exact .inr (by simp [notPoint, blank])

theorem atoi64_digits (digits : ∀ c ∈ text, isDigit c = true) (short : text.length ≤ 10) :
    atoi64 text = ofDecimal text := by
  have small : ofDecimal text < 10 ^ 10 :=
    (ofDecimal_lt digits).trans_le (Nat.pow_le_pow_right (by omega) short)
  cases text with
  | nil => rfl
  | cons c rest =>
    have digit := digits c (List.mem_cons_self)
    have kept : (c :: rest).dropWhile isspace = c :: rest := by
      rw [List.dropWhile_cons, not_isspace_of_isDigit digit]
      rfl
    have all : (c :: rest).takeWhile isDigit = c :: rest := List.takeWhile_eq_self_iff.mpr digits
    rw [atoi64, kept]
    simp only [ne_of_isDigit digit minus rfl, ne_of_isDigit digit plus rfl, all]
    simp
    omega

theorem not_isDigit_of_isspace (blank : isspace c = true) : isDigit c = false := by
  by_contra digit
  rw [not_isspace_of_isDigit (by simpa using digit)] at blank
  cases blank

theorem takeWhile_blanks (blanks : ∀ c ∈ text, isspace c = true) :
    text.takeWhile isDigit = [] ∧ text.dropWhile isDigit = text := by
  cases text with
  | nil => exact ⟨rfl, rfl⟩
  | cons c rest =>
    have not := not_isDigit_of_isspace (blanks c List.mem_cons_self)
    exact ⟨by simp [not], by simp [not]⟩

theorem amount_inRange {units : Nat} (digits : ∀ c ∈ whole, isDigit c = true) (short : whole.length ≤ 10)
    (small : units ≤ 10 ^ 8) :
    (do
      let product ← int64 (atoi64 whole * COIN.toInt)
      let nValue ← int64 (product + units)
      pure (some nValue)) = (.ok (some ((ofDecimal whole * 10 ^ 8 + units : Nat) : Int)) : Except Overflow (Option Int)) := by
  have bound : ofDecimal whole < 10 ^ 10 :=
    (ofDecimal_lt digits).trans_le (Nat.pow_le_pow_right (by omega) short)
  have product : int64 (atoi64 whole * COIN.toInt) = .ok ((ofDecimal whole : Int) * 10 ^ 8) := by
    rw [atoi64_digits digits short, coin_toInt]
    exact int64_of_nat (by omega) (by omega)
  have sum : int64 ((ofDecimal whole : Int) * 10 ^ 8 + units) = .ok ((ofDecimal whole : Int) * 10 ^ 8 + units) :=
    int64_of_nat (by omega) (by omega)
  rw [product, ok_bind, sum, ok_bind, pure_eq_ok]
  push_cast
  rfl

theorem parseMoney_scanned {units : Nat}
    (scanned : scanWhole (text.dropWhile isspace) [] = .ok (some (whole, (units : Int), p)))
    (digits : ∀ c ∈ whole, isDigit c = true) (small : units ≤ 10 ^ 8) :
    parseMoney text = .ok (if p.all isspace = true ∧ whole.length ≤ 10 then
      some ((ofDecimal whole * 10 ^ 8 + units : Nat) : Int) else none) := by
  have inRange : ¬ ((units : Int) < 0 || (units : Int) > COIN.toInt) = true := by
    rw [coin_toInt]
    simp
    omega
  rw [parseMoney, scanned, ok_bind]
  by_cases blanks : p.all isspace = true
  · by_cases short : whole.length ≤ 10
    · rw [if_pos ⟨blanks, short⟩, ← amount_inRange digits short small]
      simp only [blanks, Bool.not_true, Bool.false_eq_true, if_false, Nat.not_lt.mpr short, inRange]
    · simp [blanks, short, Nat.not_le.mp short, pure, Except.pure]
  · simp [blanks, pure, Except.pure]

theorem units_le (digits : ∀ c ∈ units, isDigit c = true) (short : units.length ≤ 8) :
    ofDecimal units * 10 ^ (8 - units.length) ≤ 10 ^ 8 := by
  calc ofDecimal units * 10 ^ (8 - units.length) ≤ 10 ^ units.length * 10 ^ (8 - units.length) :=
        Nat.mul_le_mul_right _ (ofDecimal_lt digits).le
    _ = 10 ^ 8 := by rw [← pow_add, Nat.add_sub_of_le short]

theorem trimmed_of_moneyText (reads : MoneyText text whole units) :
    ∃ fraction after, text.dropWhile isspace = whole ++ (fraction ++ after) ∧
      (∀ c ∈ after, isspace c = true) ∧ (fraction = [] ∧ units = [] ∨ fraction = point :: units) := by
  obtain ⟨before, fraction, after, rfl, blankBefore, blankAfter, shape⟩ := reads.shape
  rw [List.dropWhile_append_of_pos blankBefore]
  cases is : whole with
  | cons c rest =>
    have digit := reads.wholeDigits c (is ▸ List.mem_cons_self)
    exact ⟨fraction, after, by simp [not_isspace_of_isDigit digit], blankAfter, shape⟩
  | nil =>
    rcases shape with ⟨rfl, none⟩ | rfl
    · refine ⟨[], [], ?_, by simp, .inl ⟨rfl, none⟩⟩
      simpa [List.dropWhile_eq_nil_iff] using blankAfter
    · exact ⟨point :: units, after, by simp [not_isspace_point], blankAfter, .inr rfl⟩

theorem parseMoney_of_moneyText (reads : MoneyText text whole units) :
    parseMoney text = .ok (some ((inUnits whole units : Nat) : Int)) := by
  obtain ⟨fraction, after, trimmed, blanks, shape⟩ := trimmed_of_moneyText reads
  have unitsBound := units_le reads.unitsDigits reads.unitsShort
  have taken : (text.dropWhile isspace).takeWhile isDigit = whole ++ (fraction ++ after).takeWhile isDigit := by
    rw [trimmed, List.takeWhile_append_of_pos reads.wholeDigits]
  have left : (text.dropWhile isspace).dropWhile isDigit = (fraction ++ after).dropWhile isDigit := by
    rw [trimmed, List.dropWhile_append_of_pos reads.wholeDigits]
  have scanned : scanWhole (text.dropWhile isspace) [] =
      .ok (some (whole, ((ofDecimal units * 10 ^ (8 - units.length) : Nat) : Int), after)) := by
    rcases shape with ⟨rfl, rfl⟩ | rfl
    · obtain ⟨noneTaken, allLeft⟩ := takeWhile_blanks blanks
      rw [List.nil_append, noneTaken, List.append_nil] at taken
      rw [List.nil_append, allLeft] at left
      rw [scanWhole_eq, taken, left]
      cases after with
      | nil => rfl
      | cons c rest =>
        have blank := blanks c List.mem_cons_self
        have notPoint : (c == point) = false := by
          apply beq_eq_false_iff_ne.mpr
          rintro rfl
          cases blank
        simp [blank, notPoint]
    · have stops : (text.dropWhile isspace).dropWhile isDigit = point :: (units ++ after) := by
        rw [left]
        rfl
      have read : units = ((units ++ after).takeWhile isDigit).take 8 := by
        rw [List.takeWhile_append_of_pos reads.unitsDigits, (takeWhile_blanks blanks).1, List.append_nil,
          List.take_of_length_le reads.unitsShort]
      rw [scanWhole_point stops units read, taken]
      simp [not_isDigit_point]
  rw [parseMoney_scanned scanned reads.wholeDigits unitsBound, if_pos ⟨List.all_eq_true.mpr blanks, reads.wholeShort⟩]
  rfl

theorem parseMoney_cases (text : List UInt8) :
    parseMoney text = .ok none ∨ ∃ whole units, MoneyText text whole units := by
  let before := text.takeWhile isspace
  let whole := (text.dropWhile isspace).takeWhile isDigit
  let left := (text.dropWhile isspace).dropWhile isDigit
  have split : text = before ++ (whole ++ left) := by
    rw [List.takeWhile_append_dropWhile, List.takeWhile_append_dropWhile]
  have blank : ∀ c ∈ before, isspace c = true := fun c => List.mem_takeWhile_imp
  have digits : ∀ c ∈ whole, isDigit c = true := fun c => List.mem_takeWhile_imp
  -- What follows the whole part decides: a point with its digits, blanks, or something else.
  by_cases pointed : ∃ rest, left = point :: rest
  · obtain ⟨rest, is⟩ := pointed
    let units := (rest.takeWhile isDigit).take 8
    have unitsDigits : ∀ c ∈ units, isDigit c = true := fun c mem => List.mem_takeWhile_imp (List.mem_of_mem_take mem)
    have unitsShort : units.length ≤ 8 := List.length_take_le _ _
    have inFront : units <+: rest := 
      List.IsPrefix.trans (List.take_prefix _ _) (List.takeWhile_prefix _)
    have result := parseMoney_scanned (scanWhole_point is units rfl) digits (units_le unitsDigits unitsShort)
    rw [List.nil_append] at result
    by_cases accepted : (rest.drop units.length).all isspace = true ∧ whole.length ≤ 10
    · refine .inr ⟨whole, units, digits, accepted.2, unitsDigits, unitsShort, before, point :: units,
        rest.drop units.length, ?_, blank, List.all_eq_true.mp accepted.1, .inr rfl⟩
      rw [List.cons_append, List.prefix_iff_eq_append.mp inFront, ← is]
      exact split
    · exact .inl (by rw [result, if_neg accepted])
  · by_cases accepted : left.all isspace = true ∧ whole.length ≤ 10
    · exact .inr ⟨whole, [], digits, accepted.2, by simp, by simp, before, [], left, split, blank,
        List.all_eq_true.mp accepted.1, .inl ⟨rfl, rfl⟩⟩
    · rcases scanWhole_unpointed (fun rest is => pointed ⟨rest, is⟩) with scanned | refused
      · rw [List.nil_append] at scanned
        exact .inl (by rw [parseMoney_scanned scanned digits (Nat.zero_le _), if_neg accepted])
      · exact .inl (by rw [parseMoney, refused, ok_bind]; rfl)

theorem parseMoney_iff (str : List UInt8) :
    (∃ result, parseMoneyString str = .ok result) ∧
      ∀ nRet, parseMoneyString str = .ok (some nRet) ↔
        ∃ whole units, MoneyText (cStr str) whole units ∧ (nRet : ℚ) = decimalNumber whole units * COIN.toInt := by
  rw [parseMoneyString]
  rcases parseMoney_cases (cStr str) with refused | ⟨whole, units, reads⟩
  · refine ⟨⟨none, refused⟩, ?_⟩
    intro nRet
    constructor
    · intro accepted
      rw [refused] at accepted
      cases accepted
    · rintro ⟨whole, units, reads, -⟩
      rw [parseMoney_of_moneyText reads] at refused
      cases refused
  · have result := parseMoney_of_moneyText reads
    refine ⟨⟨_, result⟩, ?_⟩
    intro nRet
    constructor
    · intro accepted
      rw [result, Except.ok.injEq, Option.some.injEq] at accepted
      refine ⟨whole, units, reads, ?_⟩
      rw [← accepted, Int.cast_natCast, inUnits_eq reads.unitsShort]
    · rintro ⟨whole, units, reads, value⟩
      rw [← inUnits_eq reads.unitsShort] at value
      rw [parseMoney_of_moneyText reads]
      congr 2
      exact_mod_cast value.symm

theorem trimMoney_eq (head : List UInt8) : ∀ (reversed : List UInt8), (∀ c ∈ reversed, isDigit c = true) →
    2 ≤ reversed.length → ∃ kept k, reversed = List.replicate k (digitOf 0) ++ kept ∧
      trimMoney (reversed ++ point :: head) = kept ++ point :: head
  | [], _, long => absurd long (by simp)
  | [_], _, long => absurd long (by simp)
  | [a, b], _, _ => ⟨[a, b], 0, rfl, by simp [trimMoney, not_isDigit_point]⟩
  | a :: b :: c :: rest, digits, _ => by
    have third : isDigit c = true := digits c (by simp)
    by_cases zero : a = digitOf 0
    · obtain ⟨kept, k, split, trimmed⟩ := trimMoney_eq head (b :: c :: rest)
        (fun d mem => digits d (List.mem_cons_of_mem _ mem)) (by simp)
      refine ⟨kept, k + 1, ?_, ?_⟩
      · rw [List.replicate_succ, List.cons_append, ← split, zero]
      · rw [← trimmed, zero]
        simp [trimMoney, third]
    · exact ⟨a :: b :: c :: rest, 0, rfl, by simp [trimMoney, zero]⟩

theorem isDigit_ne_zero (digit : isDigit c = true) : c ≠ 0 := by
  rintro rfl
  cases digit

theorem cStr_of_ne_zero {str : List UInt8} (nonzero : ∀ c ∈ str, c ≠ 0) : cStr str = str := by
  rw [cStr, List.takeWhile_eq_self_iff]
  intro c mem
  simpa using nonzero c mem

theorem formatMoney_eq (n : Nat) : ∃ kept k,
    formatMoney n false = toDecimal (n / 10 ^ 8) ++ point :: kept ∧
      padLeft 6 (toDecimal (n % 10 ^ 8)) = kept ++ List.replicate k (digitOf 0) := by
  let whole := toDecimal (n / 10 ^ 8)
  let printed := padLeft 6 (toDecimal (n % 10 ^ 8))
  have printedDigits : ∀ c ∈ printed, isDigit c = true := isDigit_of_mem_padLeft fun c => isDigit_of_mem_toDecimal
  have long : 2 ≤ printed.reverse.length := by
    rw [List.length_reverse, padLeft_length]
    omega
  obtain ⟨kept, k, split, trimmed⟩ := trimMoney_eq whole.reverse printed.reverse
    (fun c mem => printedDigits c (List.mem_reverse.mp mem)) long
  refine ⟨kept.reverse, k, ?_, ?_⟩
  · have coin : COIN.toInt.toNat = 10 ^ 8 := by decide
    have reversed : (whole ++ point :: printed).reverse = printed.reverse ++ point :: whole.reverse := by simp
    have notNegative : ¬ (n : Int) < 0 := by omega
    rw [formatMoney, if_neg notNegative, Int.natAbs_natCast, coin]
    simp only [Bool.false_and, Bool.false_eq_true, if_false]
    rw [reversed, trimmed]
    simp [whole]
  · calc printed = printed.reverse.reverse := (List.reverse_reverse _).symm
      _ = kept.reverse ++ List.replicate k (digitOf 0) := by
        rw [split, List.reverse_append, List.reverse_replicate]

theorem parseMoney_formatMoney {n : Nat} (inRange : n ≤ MAX_MONEY.toInt.toNat) :
    parseMoneyString (formatMoney n false) = .ok (some ((n / 10 ^ 8 * 10 ^ 8 +
      n % 10 ^ 8 * 10 ^ (8 - max 6 (toDecimal (n % 10 ^ 8)).length) : Nat) : Int)) := by
  have maxMoney : MAX_MONEY.toInt.toNat = 10 ^ 16 := by decide
  have remainderLength : (toDecimal (n % 10 ^ 8)).length ≤ 8 :=
    toDecimal_length_le (by omega) (Nat.mod_lt _ (by omega))
  obtain ⟨kept, k, text, printed⟩ := formatMoney_eq n
  have length : kept.length + k = max 6 (toDecimal (n % 10 ^ 8)).length := by
    rw [← padLeft_length, printed, List.length_append, List.length_replicate]
  have keptDigits : ∀ c ∈ kept, isDigit c = true := by
    intro c mem
    apply isDigit_of_mem_padLeft (fun c => isDigit_of_mem_toDecimal) c
    rw [printed]
    exact List.mem_append_left _ mem
  have reads : MoneyText (formatMoney n false) (toDecimal (n / 10 ^ 8)) kept := by
    refine ⟨fun c => isDigit_of_mem_toDecimal, toDecimal_length_le (by omega) (by omega), keptDigits, by omega,
      [], point :: kept, [], ?_, by simp, by simp, .inr rfl⟩
    rw [text, List.nil_append, List.append_nil]
  have terminated : cStr (formatMoney n false) = formatMoney n false := by
    apply cStr_of_ne_zero
    rw [text]
    intro c mem
    rcases List.mem_append.mp mem with inWhole | behind
    · exact isDigit_ne_zero (isDigit_of_mem_toDecimal inWhole)
    · rcases List.mem_cons.mp behind with rfl | inKept
      · decide
      · exact isDigit_ne_zero (keptDigits c inKept)
  have value : ofDecimal kept * 10 ^ (8 - kept.length) = n % 10 ^ 8 * 10 ^ (8 - (kept.length + k)) := by
    have same : ofDecimal kept * 10 ^ k = n % 10 ^ 8 := by
      rw [← ofDecimal_toDecimal (n % 10 ^ 8), ← ofDecimal_padLeft 6 (toDecimal _), printed, ofDecimal_append,
        ofDecimal_zeros, List.length_replicate, Nat.add_zero]
    have exponent : 8 - kept.length = k + (8 - (kept.length + k)) := by omega
    rw [← same, Nat.mul_assoc, ← pow_add, ← exponent]
  rw [parseMoneyString, terminated, parseMoney_of_moneyText reads, inUnits, value, ofDecimal_toDecimal, length]

/-- Only remainders of eight digits come back, and amounts without one. -/
theorem parseMoney_formatMoney_iff {n : Int} (nonneg : 0 ≤ n) (inRange : n ≤ MAX_MONEY.toInt) :
    parseMoneyString (formatMoney n false) = .ok (some n) ↔
      n % COIN.toInt = 0 ∨ COIN.toInt / 10 ≤ n % COIN.toInt := by
  obtain ⟨n, rfl⟩ := Int.eq_ofNat_of_zero_le nonneg
  rw [parseMoney_formatMoney (by omega), Except.ok.injEq, Option.some.injEq, coin_toInt]
  have decompose : n = n / 10 ^ 8 * 10 ^ 8 + n % 10 ^ 8 := (Nat.div_add_mod' n _).symm
  have small : n % 10 ^ 8 < 10 ^ 8 := Nat.mod_lt _ (by omega)
  by_cases large : 10 ^ 7 ≤ n % 10 ^ 8
  · have eight : (toDecimal (n % 10 ^ 8)).length = 8 :=
      le_antisymm (toDecimal_length_le (by omega) small) (lt_toDecimal_length large)
    rw [eight, show 8 - max 6 8 = 0 from rfl]
    omega
  · -- The last one or two places are missing, which multiplies the remainder by ten or a hundred.
    have missing : 8 - max 6 (toDecimal (n % 10 ^ 8)).length = 1 ∨ 8 - max 6 (toDecimal (n % 10 ^ 8)).length = 2 := by
      have := toDecimal_length_le (k := 7) (by omega) (Nat.not_le.mp large)
      omega
    rcases missing with one | two
    · rw [one]
      omega
    · rw [two]
      omega

theorem half_formatMoney : parseMoneyString (formatMoney 50000000 false) = .ok (some 50000000) :=
  (parseMoney_formatMoney_iff (by decide) (by decide)).mpr (.inr (by decide))

theorem unit_formatMoney : (0 : Int) ≤ 1 ∧ (1 : Int) ≤ MAX_MONEY.toInt ∧
    formatMoney 1 false = "0.000001".toList.map Char.toUInt8 ∧
    parseMoneyString (formatMoney 1 false) = .ok (some 100) := by decide +kernel

end RitCoin.Proof
