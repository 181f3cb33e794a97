import RitCoin.Proof.Money

namespace RitCoin.Proof
open Lib Model Model.Money

/-- The conversions write and read decimal numerals, the latter with an optional sign. -/
structure ExactConversions (qt : QtText) : Prop where
  number : ∀ n : Nat, n < 2 ^ 63 → qt.number n = toDecimal n
  unsigned : ∀ digits, digits ≠ [] → (∀ c ∈ digits, isDigit c = true) → ofDecimal digits < 2 ^ 63 →
    qt.toLongLong digits = some (ofDecimal digits : Int)
  positive : ∀ digits, digits ≠ [] → (∀ c ∈ digits, isDigit c = true) → ofDecimal digits < 2 ^ 63 →
    qt.toLongLong (plus :: digits) = some (ofDecimal digits : Int)
  negative : ∀ digits, digits ≠ [] → (∀ c ∈ digits, isDigit c = true) → ofDecimal digits < 2 ^ 63 →
    qt.toLongLong (minus :: digits) = some (-(ofDecimal digits : Int))

theorem valid_code (unit : DisplayUnit) : DisplayUnit.valid? unit.code = some unit := by
  cases unit <;> rfl

theorem factor_eq (unit : DisplayUnit) : unit.factor = 10 ^ unit.decimals := by
  cases unit <;> rfl

theorem decimals_bounds (unit : DisplayUnit) : 2 ≤ unit.decimals ∧ unit.decimals ≤ 8 := by
  cases unit <;> decide

theorem trimRemainder_eq : ∀ (reversed : List UInt8), ∃ k,
    reversed = List.replicate k (digitOf 0) ++ trimRemainder reversed
  | [] => ⟨0, rfl⟩
  | [_] => ⟨0, rfl⟩
  | [_, _] => ⟨0, rfl⟩
  | a :: b :: c :: rest => by
    by_cases zero : a = digitOf 0
    · obtain ⟨k, split⟩ := trimRemainder_eq (b :: c :: rest)
      refine ⟨k + 1, ?_⟩
      have trimmed : trimRemainder (a :: b :: c :: rest) = trimRemainder (b :: c :: rest) := by
        simp [trimRemainder, zero]
      rw [trimmed, List.replicate_succ, List.cons_append, ← split, zero]
    · exact ⟨0, by simp [trimRemainder, zero]⟩

theorem padRight_trimmed (text : List UInt8) : padRight text.length (trimRemainder text.reverse).reverse = text := by
  obtain ⟨k, split⟩ := trimRemainder_eq text.reverse
  have whole : text = (trimRemainder text.reverse).reverse ++ List.replicate k (digitOf 0) := by
    calc text = text.reverse.reverse := (List.reverse_reverse _).symm
      _ = (List.replicate k (digitOf 0) ++ trimRemainder text.reverse).reverse := by rw [← split]
      _ = (trimRemainder text.reverse).reverse ++ List.replicate k (digitOf 0) := by
        rw [List.reverse_append, List.reverse_replicate]
  have length := congrArg List.length whole
  rw [List.length_append, List.length_replicate] at length
  rw [padRight, length, Nat.add_sub_cancel_left]
  exact whole.symm

def signOf (n : Int) (fPlus : Bool) : QString :=
  if n < 0 then [minus] else if fPlus && decide (n > 0) then [plus] else []

theorem signOf_length (n : Int) (fPlus : Bool) : (signOf n fPlus).length ≤ 1 := by
  rw [signOf]
  split
  · exact le_rfl
  · split <;> simp

theorem point_not_mem_signOf (n : Int) (fPlus : Bool) : point ∉ signOf n fPlus := by
  rw [signOf]
  split
  · decide
  · split <;> decide

theorem toLongLong_signOf {qt : QtText} (exact : ExactConversions qt) (n : Int) (fPlus : Bool) {digits : QString}
    (nonempty : digits ≠ []) (each : ∀ c ∈ digits, isDigit c = true) (value : ofDecimal digits = n.natAbs)
    (small : n.natAbs < 2 ^ 63) : qt.toLongLong (signOf n fPlus ++ digits) = some n := by
  rw [← value] at small
  rw [signOf]
  split
  · rename_i negative
    rw [List.singleton_append, exact.negative digits nonempty each small, value]
    congr 1
    omega
  · have nonneg : (n.natAbs : Int) = n := by omega
    split
    · rw [List.singleton_append, exact.positive digits nonempty each small, value, nonneg]
    · rw [List.nil_append, exact.unsigned digits nonempty each small, value, nonneg]

theorem format_eq {qt : QtText} (exact : ExactConversions qt) (unit : DisplayUnit) (n : Int) (fPlus : Bool)
    (small : n.natAbs < 2 ^ 63) :
    format qt unit.code n fPlus = (signOf n fPlus ++ toDecimal (n.natAbs / unit.factor)) ++ point ::
      (trimRemainder (padLeft unit.decimals (toDecimal (n.natAbs % unit.factor))).reverse).reverse := by
  have quotient := exact.number (n.natAbs / unit.factor) (by
    have := Nat.div_le_self n.natAbs unit.factor
    omega)
  have remainder := exact.number (n.natAbs % unit.factor) (by
    have := Nat.mod_le n.natAbs unit.factor
    omega)
  rw [format, valid_code]
  simp only [quotient, remainder, signOf]
  split
  · rfl
  · split <;> rfl

theorem parse_parts (qt : QtText) (unit : DisplayUnit) {whole decimals : QString} (wholeClean : point ∉ whole)
    (decimalsClean : point ∉ decimals) (precise : decimals.length ≤ unit.decimals)
    (short : whole.length + unit.decimals ≤ 18) :
    parse qt unit.code (whole ++ point :: decimals) = qt.toLongLong (whole ++ padRight unit.decimals decimals) := by
  have clean : ∀ {text : QString}, point ∉ text → ∀ c ∈ text, (c == point) = false := by
    intro text absent c mem
    apply beq_eq_false_iff_ne.mpr
    rintro rfl
    exact absent mem
  have parts : (whole ++ point :: decimals).splitOn point = [whole, decimals] := by
    rw [List.splitOn, List.splitOnP_append_cons_of_forall_mem (clean wholeClean) _ (beq_self_eq_true _),
      List.splitOnP_eq_singleton (clean decimalsClean)]
  have length : (whole ++ padRight unit.decimals decimals).length ≤ 18 := by
    rw [padRight, List.length_append, List.length_append, List.length_replicate]
    omega
  rw [List.length_append, ← Nat.not_lt] at length
  rw [parse, valid_code]
  simp [parts, Nat.not_lt.mpr precise, length]

theorem parse_format (qt : QtText) (exact : ExactConversions qt) (unit : DisplayUnit) (n : Int) (fPlus : Bool)
    (inRange : |n| ≤ MAX_MONEY.toInt) : parse qt unit.code (format qt unit.code n fPlus) = some n := by
  have small : n.natAbs ≤ 10 ^ 16 := by
    have maxMoney : MAX_MONEY.toInt = 10 ^ 16 := by decide
    rw [maxMoney, Int.abs_eq_natAbs] at inRange
    omega
  obtain ⟨low, high⟩ := decimals_bounds unit
  let quotient := toDecimal (n.natAbs / unit.factor)
  let remainder := padLeft unit.decimals (toDecimal (n.natAbs % unit.factor))
  have quotientDigits : ∀ c ∈ quotient, isDigit c = true := fun c => isDigit_of_mem_toDecimal
  have remainderDigits : ∀ c ∈ remainder, isDigit c = true :=
    isDigit_of_mem_padLeft fun c => isDigit_of_mem_toDecimal
  have remainderLength : remainder.length = unit.decimals := by
    have positive : 0 < unit.factor := by
      rw [factor_eq]
      exact Nat.pow_pos (by omega)
    have fits : (toDecimal (n.natAbs % unit.factor)).length ≤ unit.decimals :=
      toDecimal_length_le (by omega) (factor_eq unit ▸ Nat.mod_lt _ positive)
    rw [padLeft_length, max_eq_left fits]
  have quotientLength : quotient.length ≤ 17 - unit.decimals := by
    apply toDecimal_length_le (by omega)
    rw [factor_eq, Nat.div_lt_iff_lt_mul (Nat.pow_pos (by omega)), ← pow_add, Nat.sub_add_cancel (by omega)]
    omega
  have restored := padRight_trimmed remainder
  rw [remainderLength] at restored
  have value : ofDecimal (quotient ++ remainder) = n.natAbs := by
    rw [ofDecimal_append, ofDecimal_toDecimal, ofDecimal_padLeft, ofDecimal_toDecimal, remainderLength, ← factor_eq]
    exact Nat.div_add_mod' _ _
  let kept := (trimRemainder remainder.reverse).reverse
  have inRemainder : ∀ c ∈ kept, c ∈ remainder := by
    intro c mem
    rw [← restored]
    exact List.mem_append_left _ mem
  have keptLength : kept.length ≤ unit.decimals := by
    have length : kept.length + _ = _ := (List.length_append ..).symm.trans (congrArg List.length restored)
    omega
  have noPoint : ∀ {text : QString}, (∀ c ∈ text, isDigit c = true) → point ∉ text := by
    intro text digits mem
    exact absurd (digits point mem) (by decide)
  have wholeClean : point ∉ signOf n fPlus ++ quotient := by
    rw [List.mem_append, not_or]
    exact ⟨point_not_mem_signOf n fPlus, noPoint quotientDigits⟩
  have wholeLength : (signOf n fPlus ++ quotient).length + unit.decimals ≤ 18 := by
    have := signOf_length n fPlus
    rw [List.length_append]
    omega
  rw [format_eq exact unit n fPlus (by omega), parse_parts qt unit wholeClean
    (noPoint fun c mem => remainderDigits c (inRemainder c mem)) keptLength wholeLength, restored, List.append_assoc]
  apply toLongLong_signOf exact n fPlus _ _ value (by omega)
  · intro empty
    have := congrArg List.length empty
    rw [List.length_append, remainderLength, List.length_nil] at this
    omega
  · intro c mem
    exact (List.mem_append.mp mem).elim (quotientDigits c) (remainderDigits c)

def decimalText : QtText where
  number n := if n < 0 then minus :: toDecimal n.natAbs else toDecimal n.natAbs
  toLongLong
    | [] => none
    | c :: rest =>
      let digits := if c == minus || c == plus then rest else c :: rest
      if digits.isEmpty || !digits.all isDigit || decide (2 ^ 63 ≤ ofDecimal digits) then none
      else some (if c == minus then -(ofDecimal digits : Int) else ofDecimal digits)

theorem decimalText_exact : ExactConversions decimalText where
  number n small := by
    have nonneg : ¬ (n : Int) < 0 := by omega
    simp [decimalText, nonneg]
  unsigned digits nonempty each small := by
    cases digits with
    | nil => exact absurd rfl nonempty
    | cons c rest =>
      have digit := each c List.mem_cons_self
      have all : (c :: rest).all isDigit = true := List.all_eq_true.mpr each
      simp only [decimalText, ne_of_isDigit digit minus rfl, ne_of_isDigit digit plus rfl, Bool.or_self,
        Bool.false_eq_true, if_false, all, Nat.not_le.mpr small]
      rfl
  positive digits nonempty each small := by
    have all : digits.all isDigit = true := List.all_eq_true.mpr each
    simp only [decimalText, beq_self_eq_true, Bool.or_true, if_true, all, Nat.not_le.mpr small]
    have differ : (plus == minus) = false := rfl
    simp [nonempty, differ]
  negative digits nonempty each small := by
    have all : digits.all isDigit = true := List.all_eq_true.mpr each
    simp only [decimalText, beq_self_eq_true, Bool.true_or, if_true, all, Nat.not_le.mpr small]
    simp [nonempty]

theorem debt_parse_format :
    parse decimalText DisplayUnit.BTC.code (format decimalText DisplayUnit.BTC.code (-50000000) false) =
      some (-50000000) :=
  parse_format decimalText decimalText_exact .BTC (-50000000) false (by decide)

end RitCoin.Proof
