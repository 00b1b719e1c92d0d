import Mathlib.Data.Nat.Cast.Field
import Mathlib.Tactic.NormNum
import Mathlib.Tactic.Ring
import ShaderLoom.Dialect.Standard
import ShaderLoom.Proofs.Rounding

/-!
# Floating-point literals read back

A whole number is written with all its digits, and any other number as a decimal in the interval
around it (`Binary64.bracket`), which is exactly what rounds to it (`Binary64.holds_iff_within`). So
the text of a finite pattern denotes a number that rounds to the pattern, and the sign with it
(`Dialect.literal_reads_back`).
-/
namespace ShaderLoom

namespace Binary64

section Decimals

variable {x : Binary64} {d : Decimal}

/-- The zeros behind a significand and its binary places make up its scale. -/
theorem scale_add_places (x : Binary64) : scaleOf x.pattern + x.places = 1074 + x.shift := by
  rw [scaleOf, ← exponentField_eq, places, shift, exponent]
  omega

/-- One unit in the last place is two to the zeros behind the significand, and to as many binary
places. -/
theorem unit_mul_places (x : Binary64) :
    2 ^ scaleOf x.pattern * least * 2 ^ x.places = 2 ^ x.shift := by
  have two : (2 : ℚ) ≠ 0 := two_ne_zero
  have exponents := scale_add_places x
  rw [least, ← zpow_natCast, ← zpow_natCast, ← zpow_natCast, ← zpow_add₀ two, ← zpow_add₀ two]
  congr 1
  omega

/-- The magnitude is the significand with its zeros and binary places. -/
theorem magnitude_eq_div (x : Binary64) :
    x.magnitude = x.significand * 2 ^ x.shift / 2 ^ x.places := by
  rw [magnitude_eq, magnitudeOf, unitsOf, significand_eq,
    eq_div_iff (pow_ne_zero _ two_ne_zero), ← unit_mul_places]
  push_cast
  ring

/-- A pattern that is no whole number has binary places and a significand. -/
theorem of_not_isWhole (fraction : x.isWhole = false) :
    0 < x.places ∧ x.shift = 0 ∧ ¬2 ^ x.places ∣ x.significand := by
  have indivisible : ¬2 ^ x.places ∣ x.significand := by
    rw [isWhole, beq_eq_false_iff_ne] at fraction
    exact fun divides => fraction (Nat.mod_eq_zero_of_dvd divides)
  have positive : 0 < x.places := by
    apply Nat.pos_of_ne_zero
    intro none
    rw [none] at indivisible
    exact indivisible (one_dvd _)
  refine ⟨positive, ?_, indivisible⟩
  rw [places] at positive
  rw [shift]
  omega

/-- The scale grows by one where the fraction field runs over, but not from the least exponent. -/
theorem scaleOf_succ (pattern : Nat) : scaleOf (pattern + 1) =
    scaleOf pattern +
      if (pattern + 1) % 2 ^ 52 = 0 ∧ 1 < (pattern + 1) / 2 ^ 52 then 1 else 0 := by
  unfold scaleOf
  split_ifs <;> omega

section Fraction

variable (fraction : x.isWhole = false)

include fraction

/-- A unit in the last place of a fraction. -/
theorem unit_eq_inv : 2 ^ scaleOf x.pattern * least = (2 ^ x.places)⁻¹ := by
  have isUnit := unit_mul_places x
  rw [(of_not_isWhole fraction).2.1, pow_zero] at isUnit
  exact eq_inv_of_mul_eq_one_left isUnit

/-- A fraction is not zero. -/
theorem pattern_pos : 0 < x.pattern := by
  apply Nat.pos_of_ne_zero
  intro isZero
  apply (of_not_isWhole fraction).2.2
  rw [significand_eq, isZero]
  exact dvd_zero _

/-- The upper end of the interval is half way to the next pattern. -/
theorem high_eq : (x.bracket.high : ℚ) / x.bracket.den = midpoint x.pattern := by
  have isUnit := unit_eq_inv fraction
  rw [midpoint, magnitudeOf, magnitudeOf, unitsOf_succ, unitsOf, ← significand_eq]
  show ((4 * x.significand + 2 : Nat) : ℚ) / (2 ^ (x.places + 2) : Nat) = _
  push_cast
  rw [add_mul, mul_assoc, isUnit]
  field_simp
  ring

/-- The lower end of the interval is half way to the pattern before. -/
theorem low_eq : (x.bracket.low : ℚ) / x.bracket.den = midpoint (x.pattern - 1) := by
  have isUnit := unit_eq_inv fraction
  obtain ⟨before, isPattern⟩ := Nat.exists_eq_succ_of_ne_zero (Nat.ne_of_gt (pattern_pos fraction))
  have one : 1 ≤ x.significand :=
    Nat.pos_of_ne_zero fun isZero => (of_not_isWhole fraction).2.2 (isZero ▸ dvd_zero _)
  have isMagnitude : magnitudeOf x.pattern = x.significand * (2 ^ x.places)⁻¹ := by
    rw [magnitudeOf, unitsOf, ← significand_eq, ← isUnit]
    push_cast
    ring
  -- The unit in the last place before may be half of that of the pattern.
  have isStep : magnitudeOf x.pattern = magnitudeOf before + 2 ^ scaleOf before * least := by
    rw [isPattern, magnitudeOf, magnitudeOf, unitsOf_succ]
    push_cast
    ring
  have isScale := scaleOf_succ before
  rw [← Nat.succ_eq_add_one, ← isPattern, ← fractionField_eq, ← exponentField_eq] at isScale
  rw [isPattern, Nat.succ_sub_one, midpoint, ← Nat.succ_eq_add_one, ← isPattern]
  show ((4 * x.significand - (if x.fractionField = 0 ∧ 1 < x.exponentField then 1 else 2) : Nat) :
    ℚ) / (2 ^ (x.places + 2) : Nat) = _
  have isLow : ∀ less, less ≤ 2 →
      ((4 * x.significand - less : Nat) : ℚ) / (2 ^ (x.places + 2) : Nat) =
        magnitudeOf x.pattern - less * (2 ^ x.places)⁻¹ / 4 := by
    intro less le
    rw [Nat.cast_sub (by omega), isMagnitude]
    push_cast
    field_simp
    ring
  split_ifs at isScale ⊢
  · rw [isLow 1 (by decide), ← isUnit, isScale, pow_succ]
    push_cast
    linarith
  · rw [isLow 2 (by decide), ← isUnit, isScale, Nat.add_zero]
    push_cast
    linarith

/-- The interval of a fraction is made of the decimals that lie between the middles around it. -/
theorem holds_iff_within : x.bracket.holds d ↔ Within d.number x.pattern := by
  have positive : (0 : ℚ) < x.bracket.den := Nat.cast_pos.mpr (Nat.two_pow_pos _)
  have scale : (0 : ℚ) < 10 ^ d.places := by positivity
  have low : (x.bracket.low * 10 ^ d.places ≤ d.digits * x.bracket.den ↔
      midpoint (x.pattern - 1) ≤ d.number) ∧
      (x.bracket.low * 10 ^ d.places < d.digits * x.bracket.den ↔
        midpoint (x.pattern - 1) < d.number) := by
    rw [← low_eq fraction, Decimal.number, div_le_div_iff₀ positive scale,
      div_lt_div_iff₀ positive scale]
    constructor <;> exact_mod_cast Iff.rfl
  have high : (d.digits * x.bracket.den ≤ x.bracket.high * 10 ^ d.places ↔
      d.number ≤ midpoint x.pattern) ∧
      (d.digits * x.bracket.den < x.bracket.high * 10 ^ d.places ↔
        d.number < midpoint x.pattern) := by
    rw [← high_eq fraction, Decimal.number, div_le_div_iff₀ scale positive,
      div_lt_div_iff₀ scale positive]
    constructor <;> exact_mod_cast Iff.rfl
  have closed : x.bracket.closed ↔ Even x.pattern := by
    rw [← even_significand_iff, Nat.even_iff]
    exact beq_iff_eq
  rw [Bracket.holds_iff, low.1, low.2, high.1, high.2]
  split_ifs with isClosed
  · exact ⟨fun within => ⟨within.1, within.2, fun _ => closed.mp isClosed⟩,
      fun within => ⟨within.low, within.high⟩⟩
  · rw [closed] at isClosed
    constructor
    · rintro ⟨above, below⟩
      exact ⟨above.le, below.le, fun isEnd => (isEnd.elim above.ne' below.ne).elim⟩
    · intro within
      exact ⟨within.low.lt_of_ne fun isEnd => isClosed (within.ends (.inl isEnd.symm)),
        within.high.lt_of_ne fun isEnd => isClosed (within.ends (.inr isEnd))⟩

/-- A fraction lies inside its interval. -/
theorem bracket_inside : x.bracket.low < x.bracket.num ∧ x.bracket.num < x.bracket.high ∧
    0 < x.bracket.den := by
  have one : 1 ≤ x.significand :=
    Nat.pos_of_ne_zero fun isZero => (of_not_isWhole fraction).2.2 (isZero ▸ dvd_zero _)
  refine ⟨?_, Nat.lt_add_of_pos_right Nat.two_pos, Nat.two_pow_pos _⟩
  show 4 * x.significand - (if x.fractionField = 0 ∧ 1 < x.exponentField then 1 else 2) <
    4 * x.significand
  split <;> omega

omit fraction in
/-- A fraction has no more decimal places than binary ones. -/
theorem bracket_dvd (x : Binary64) : x.bracket.den ∣ x.bracket.num * 10 ^ x.places := by
  show 2 ^ (x.places + 2) ∣ 4 * x.significand * 10 ^ x.places
  rw [show (10 : Nat) = 2 * 5 by rfl, Nat.mul_pow, Nat.pow_add]
  exact ⟨x.significand * 5 ^ x.places, by ring⟩

/-- No whole number lies in the interval of a fraction. -/
theorem places_pos_of_holds (holds : x.bracket.holds d) : 0 < d.places := by
  apply Nat.pos_of_ne_zero
  intro none
  obtain ⟨-, -, indivisible⟩ := of_not_isWhole fraction
  have atLeast : 4 * x.significand - 2 ≤ x.bracket.low := by
    show _ ≤ 4 * x.significand - (if x.fractionField = 0 ∧ 1 < x.exponentField then 1 else 2)
    split <;> omega
  have bounds : x.bracket.low ≤ d.digits * x.bracket.den ∧
      d.digits * x.bracket.den ≤ 4 * x.significand + 2 := by
    rw [Bracket.holds_iff, none, Nat.pow_zero, Nat.mul_one, Nat.mul_one] at holds
    split at holds
    · exact holds
    · exact ⟨holds.1.le, holds.2.le⟩
  have isMultiple : d.digits * x.bracket.den = 4 * (d.digits * 2 ^ x.places) := by
    show d.digits * 2 ^ (x.places + 2) = _
    ring
  have same : d.digits * 2 ^ x.places = x.significand := by omega
  exact indivisible (same ▸ Nat.dvd_mul_left _ _)

/-- The pattern after a fraction is finite. -/
theorem succ_lt : x.pattern + 1 < 2047 * 2 ^ 52 := by
  have positive := (of_not_isWhole fraction).1
  rw [places, exponent, exponentField_eq] at positive
  omega

end Fraction

/-- The whole number that a pattern denotes. -/
theorem whole_eq (isWhole : x.isWhole) : (x.whole : ℚ) = x.magnitude := by
  have divides : 2 ^ x.places ∣ x.significand * 2 ^ x.shift := by
    rw [Binary64.isWhole, beq_iff_eq] at isWhole
    exact (Nat.dvd_of_mod_eq_zero isWhole).mul_right _
  rw [magnitude_eq_div]
  show ((x.significand * 2 ^ x.shift / 2 ^ x.places : Nat) : ℚ) = _
  rw [Nat.cast_div divides (by positivity)]
  push_cast
  rfl

/-- A pattern denotes a whole number if it is found to. -/
theorem isWhole_iff (x : Binary64) : x.isWhole ↔ ∃ n : ℤ, x.value = n := by
  constructor
  · intro isWhole
    rw [value, ← whole_eq isWhole, signFactor]
    cases x.isNegative with
    | false => exact ⟨x.whole, by simp⟩
    | true => exact ⟨-x.whole, by simp⟩
  · rintro ⟨n, isValue⟩
    by_contra fraction
    rw [Bool.not_eq_true] at fraction
    obtain ⟨-, noZeros, indivisible⟩ := of_not_isWhole fraction
    apply indivisible
    have isMagnitude : x.magnitude = n.natAbs := by
      rw [← abs_value, isValue, Nat.cast_natAbs, Int.cast_abs]
    rw [magnitude_eq_div, noZeros, pow_zero, mul_one, div_eq_iff (by positivity)] at isMagnitude
    exact ⟨n.natAbs, by rw [Nat.mul_comm]; exact_mod_cast isMagnitude⟩

/-- The decimal of a fraction rounds to it, and none of fewer places does. -/
theorem decimal_of_fraction (finite : x.isFinite) (fraction : x.isWhole = false) :
    0 < x.decimal.places ∧ Rounds (signFactor x.isNegative * x.decimal.number) x ∧
      ∀ fewer : Decimal, fewer.places < x.decimal.places →
        ¬Rounds (signFactor x.isNegative * fewer.number) x := by
  obtain ⟨aboveLow, belowHigh, positive⟩ := bracket_inside fraction
  have isDecimal : x.decimal = x.bracket.fewestPlaces x.places := by
    rw [decimal, fraction]
    rfl
  obtain ⟨holds, fewest⟩ := Bracket.fewestPlaces_spec
    (Bracket.isSome_neighbour_of_dvd aboveLow belowHigh positive x.bracket_dvd)
  rw [← isDecimal] at holds fewest
  have within := (holds_iff_within fraction).mp holds
  have nextFinite := succ_lt fraction
  refine ⟨places_pos_of_holds fraction holds, ?_, ?_⟩
  · have aboveZero : 0 < midpoint (x.pattern - 1) := by
      have nonneg := magnitudeOf_nonneg (x.pattern - 1)
      have more := magnitudeOf_strictMono (Nat.lt_succ_self (x.pattern - 1))
      rw [midpoint]
      linarith
    have belowNext : midpoint x.pattern < magnitudeOf (x.pattern + 1) := by
      have more := magnitudeOf_strictMono (Nat.lt_succ_self x.pattern)
      rw [midpoint]
      linarith
    have small := magnitudeOf_lt nextFinite
    exact rounds_of_near finite (lt_of_lt_of_le aboveZero within.low)
      (lt_of_le_of_lt within.high (belowNext.trans small)) fun _ different => within.near different
  · intro fewer less rounds
    have patternPos := pattern_pos fraction
    have withinToo : Within fewer.number x.pattern :=
      within_of_near patternPos (rounds.near (by omega) (by omega))
        (rounds.near nextFinite (Nat.succ_ne_self _))
    have found := Bracket.isSome_neighbour_of_holds aboveLow belowHigh positive
      ((holds_iff_within fraction).mpr withinToo)
    rw [fewest _ less] at found
    cases found

/-- The decimal of a whole number is the number itself. -/
theorem decimal_of_whole (isWhole : x.isWhole) :
    0 < x.decimal.places ∧ x.decimal.number = x.magnitude := by
  have isDecimal : x.decimal = ⟨10 * x.whole, 1⟩ := by rw [decimal, if_pos isWhole]
  rw [isDecimal, Decimal.number, ← whole_eq isWhole]
  refine ⟨Nat.one_pos, ?_⟩
  push_cast
  field_simp

end Decimals

section Literals

/-- What is said of the text of a finite pattern, its places and the number that it denotes. -/
structure ReadsBack (x : Binary64) (places : Nat) (number : ℚ) : Prop where
  /-- There is a minus exactly if the sign bit is set, zeros included. -/
  denotes : Denotes x.text (x.bits.toNat.testBit 63) places number
  rounds : Rounds number x
  /-- Read with its sign, the text is of no other pattern. -/
  unique : ∀ y, Rounds number y → y.bits.toNat.testBit 63 = x.bits.toNat.testBit 63 → y = x
  /-- Whole numbers are written exactly. -/
  exact : (∃ n : ℤ, x.value = n) → number = x.value
  /-- Other numbers are written with the fewest places that read back. -/
  fewest : (¬∃ n : ℤ, x.value = n) → ∀ text fewer other, fewer < places →
    Denotes text (x.bits.toNat.testBit 63) fewer other → ¬Rounds other x

/-- The sign bit is the highest of 64. -/
theorem isNegative_eq_testBit (x : Binary64) : x.isNegative = x.bits.toNat.testBit 63 := by
  have bound := x.bits.toNat_lt
  rw [Bool.eq_iff_iff, isNegative_iff, Nat.testBit_eq_decide_div_mod_eq, decide_eq_true_iff]
  omega

/-- The text of a finite pattern reads back. -/
theorem exists_readsBack {x : Binary64} (finite : x.isFinite) :
    ∃ places number, x.ReadsBack places number := by
  have notNaN : x.isNaN = false := by
    rw [isFinite, bne_iff_ne] at finite
    rw [isNaN, beq_eq_false_iff_ne.mpr finite, Bool.false_and]
  have isText : x.text = (if x.isNegative then "-" else "") ++ x.decimal.text := by
    rw [text, notNaN, if_neg Bool.false_ne_true, if_pos finite]
  have denotes : 0 < x.decimal.places →
      Denotes x.text (x.bits.toNat.testBit 63) x.decimal.places
        (signFactor x.isNegative * x.decimal.number) := by
    intro positive
    rw [isText, ← isNegative_eq_testBit]
    exact x.decimal.denotes_text positive x.isNegative
  have unique : Rounds (signFactor x.isNegative * x.decimal.number) x → ∀ y,
      Rounds (signFactor x.isNegative * x.decimal.number) y →
        y.bits.toNat.testBit 63 = x.bits.toNat.testBit 63 → y = x := by
    intro rounds y roundsToo sameSign
    rw [← isNegative_eq_testBit, ← isNegative_eq_testBit] at sameSign
    exact roundsToo.unique rounds sameSign
  refine ⟨x.decimal.places, signFactor x.isNegative * x.decimal.number, ?_⟩
  cases isWhole : x.isWhole with
  | true =>
    obtain ⟨positive, isNumber⟩ := decimal_of_whole isWhole
    have isValue : signFactor x.isNegative * x.decimal.number = x.value := by rw [isNumber, value]
    have rounds : Rounds (signFactor x.isNegative * x.decimal.number) x := by
      rw [isValue]
      exact rounds_value finite
    exact ⟨denotes positive, rounds, unique rounds, fun _ => isValue,
      fun fraction => absurd ((isWhole_iff x).mp isWhole) fraction⟩
  | false =>
    obtain ⟨positive, rounds, fewest⟩ := decimal_of_fraction finite isWhole
    refine ⟨denotes positive, rounds, unique rounds, fun whole => ?_, ?_⟩
    · rw [(isWhole_iff x).mpr whole] at isWhole
      cases isWhole
    · rintro - text fewer other less denotesOther
      obtain ⟨d, rfl, rfl⟩ := Decimal.exists_of_denotes denotesOther
      rw [← isNegative_eq_testBit]
      exact fewest d less

end Literals

end Binary64

/-- A finite floating-point literal, single or double, is written as the same text in every dialect
that writes literals as is common, the double with its mark behind. The text is a decimal with a
point that rounds to the very pattern, exactly where that is a whole number, and it starts with a
minus exactly if the sign bit is set, which is when the literal counts as negative and ranks as
something prefixed. What is not finite is written in parentheses and without a mark. -/
theorem Dialect.literal_reads_back {dialect : Dialect}
    (common : dialect.literal = Literal.text dialect.doubleSuffix) (x : Binary64) :
    (x.isFinite →
      dialect.literal (.float x) = x.text ∧
      dialect.literal (.double x) = x.text ++ dialect.doubleSuffix ∧
      (∃ places number, x.ReadsBack places number) ∧
      ∀ literal ∈ [Literal.float x, .double x],
        literal.isNegative = x.bits.toNat.testBit 63 ∧
        ((Expr.literal literal).intrinsicRank? = some .before ↔
          ∃ rest, x.text.toList = '-' :: rest)) ∧
    (x.isFinite = false → ∃ inner,
      dialect.literal (.float x) = "(" ++ inner ++ ")" ∧
      dialect.literal (.double x) = "(" ++ inner ++ ")" ∧
      ∀ c ∈ inner.toList, c ≠ '(' ∧ c ≠ ')') := by
  rw [common]
  constructor
  · intro finite
    obtain ⟨places, number, readsBack⟩ := Binary64.exists_readsBack finite
    have isMinus := readsBack.denotes.minus_iff
    rw [← Binary64.isNegative_eq_testBit] at isMinus
    refine ⟨rfl, ?_, ⟨places, number, readsBack⟩, ?_⟩
    · rw [Literal.text, if_pos finite]
    · rw [← isMinus, ← Binary64.isNegative_eq_testBit]
      have ranked : ∀ literal : Literal, literal.isNegative = x.isNegative →
          ((Expr.literal literal).intrinsicRank? = some .before ↔ x.isNegative) := by
        intro literal same
        rw [Expr.intrinsicRank?, same]
        cases x.isNegative <;> decide
      simp only [List.forall_mem_cons, List.not_mem_nil, false_implies, implies_true, and_true]
      exact ⟨⟨rfl, ranked _ rfl⟩, rfl, ranked _ rfl⟩
  · intro endless
    have isText : ∃ inner, x.text = "(" ++ inner ++ ")" ∧
        ∀ c ∈ inner.toList, c ≠ '(' ∧ c ≠ ')' := by
      rw [Binary64.text, endless]
      split
      · exact ⟨"0.0 / 0.0", rfl, by simp⟩
      · rw [if_neg Bool.false_ne_true]
        split
        · exact ⟨"-1.0 / 0.0", rfl, by simp⟩
        · exact ⟨"1.0 / 0.0", rfl, by simp⟩
    obtain ⟨inner, isInner, plain⟩ := isText
    refine ⟨inner, isInner, ?_, plain⟩
    rw [Literal.text, endless, if_neg Bool.false_ne_true, String.append_empty, isInner]

/-- The standard dialects write literals as is common, so in both of them the double that is nearest
to a tenth reads back. -/
theorem Dialect.literal_reads_back_tenth :
    let x : Binary64 := ⟨0x3FB999999999999A⟩
    Dialect.glsl.literal = Literal.text Dialect.glsl.doubleSuffix ∧
      Dialect.hlsl.literal = Literal.text Dialect.hlsl.doubleSuffix ∧
      Dialect.glsl.literal (.double x) = x.text ++ "lf" ∧
      Dialect.hlsl.literal (.double x) = x.text ++ "L" ∧
      ∃ places number, x.ReadsBack places number := by
  intro x
  have finite : x.isFinite := by decide
  obtain ⟨-, glsl, readsBack, -⟩ :=
    (Dialect.literal_reads_back (rfl : Dialect.glsl.literal = _) x).1 finite
  obtain ⟨-, hlsl, -, -⟩ :=
    (Dialect.literal_reads_back (rfl : Dialect.hlsl.literal = _) x).1 finite
  exact ⟨rfl, rfl, glsl, hlsl, readsBack⟩

/-- Negative zero keeps its minus. -/
example : Dialect.glsl.literal (.double ⟨0x8000000000000000⟩) = "-0.0lf" := by
  decide +kernel

/-- The double that is nearest to a tenth is written as a tenth. -/
example : Dialect.hlsl.literal (.float ⟨0x3FB999999999999A⟩) = "0.1" := by decide +kernel

end ShaderLoom
