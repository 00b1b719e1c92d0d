import Mathlib.Algebra.Order.Field.Power
import Mathlib.Data.Nat.Cast.Field
import Mathlib.Tactic.Ring
import Mathlib.Tactic.NormNum
import Mathlib.Order.Monotone.Basic
import ShaderLoom.Proofs.Decimals

/-!
# What rounds to a floating-point number

Finite patterns without their sign, taken as numbers, are in the order of the magnitudes that they
denote, and from one to the next it is one unit in the last place (`Binary64.unitsOf_succ`). What
rounds to a pattern lies between the middles to its neighbours (`Binary64.Within`), so it rounds to
no other (`Binary64.Rounds.unique`).
-/
namespace ShaderLoom

namespace Binary64

/-- The magnitude of a finite pattern. The fraction field stands behind the point, after a zero if
the exponent field is empty and after a one if it is not. -/
def magnitude (x : Binary64) : ℚ :=
  if x.exponentField = 0 then x.fractionField / 2 ^ 52 * 2 ^ (-1022 : ℤ)
  else (1 + x.fractionField / 2 ^ 52) * 2 ^ (x.exponentField - 1023 : ℤ)

/-- The value of a finite pattern. -/
def value (x : Binary64) : ℚ := signFactor x.isNegative * x.magnitude

/-- Whether a number rounds to a finite pattern, but for the sign of zeros: the number is not so
great that it rounds to infinity, and no other value is nearer; of two that are equally near it is
the one with an even fraction. -/
structure Rounds (number : ℚ) (x : Binary64) : Prop where
  finite : x.isFinite
  below : |number| < 2 ^ 1024 - 2 ^ 970
  nearest : ∀ y : Binary64, y.isFinite → y.value ≠ x.value →
    |number - x.value| < |number - y.value| ∨
      |number - x.value| = |number - y.value| ∧ Even x.fractionField

section Patterns

/-- The power of two by which the significand of a pattern is scaled, in units of the least
positive value. -/
def scaleOf (pattern : Nat) : Nat := max (pattern / 2 ^ 52) 1 - 1

/-- The significand of a pattern. -/
def significandOf (pattern : Nat) : Nat :=
  if pattern / 2 ^ 52 = 0 then pattern % 2 ^ 52 else 2 ^ 52 + pattern % 2 ^ 52

/-- The magnitude of a pattern, in units of the least positive value. -/
def unitsOf (pattern : Nat) : Nat := significandOf pattern * 2 ^ scaleOf pattern

/-- The least positive value. -/
def least : ℚ := 2 ^ (-1074 : ℤ)

/-- The magnitude of a pattern. -/
def magnitudeOf (pattern : Nat) : ℚ := unitsOf pattern * least

/-- What lies half way between a pattern and the next. -/
def midpoint (pattern : Nat) : ℚ := (magnitudeOf pattern + magnitudeOf (pattern + 1)) / 2

/-- One pattern further it is one unit in the last place more. -/
theorem unitsOf_succ (pattern : Nat) :
    unitsOf (pattern + 1) = unitsOf pattern + 2 ^ scaleOf pattern := by
  have split := Nat.div_add_mod pattern (2 ^ 52)
  have bound : pattern % 2 ^ 52 < 2 ^ 52 := Nat.mod_lt _ (by decide)
  by_cases last : pattern % 2 ^ 52 + 1 = 2 ^ 52
  · -- The fraction field runs over, and with it the significand.
    have quotient : (pattern + 1) / 2 ^ 52 = pattern / 2 ^ 52 + 1 := by omega
    have remainder : (pattern + 1) % 2 ^ 52 = 0 := by omega
    unfold unitsOf significandOf scaleOf
    rw [quotient, remainder, if_neg (Nat.succ_ne_zero _)]
    by_cases least : pattern / 2 ^ 52 = 0
    · rw [if_pos least, least]
      simp
      omega
    · obtain ⟨exponent, isExponent⟩ := Nat.exists_eq_succ_of_ne_zero least
      have isMax : max (exponent + 1 + 1) 1 - 1 = exponent + 1 := by omega
      have isScale : max (exponent + 1) 1 - 1 = exponent := by omega
      have isFraction : pattern % 2 ^ 52 = 2 ^ 52 - 1 := by omega
      rw [if_neg least, isExponent, Nat.succ_eq_add_one, isMax, isScale, isFraction, Nat.pow_succ]
      ring
  · have quotient : (pattern + 1) / 2 ^ 52 = pattern / 2 ^ 52 := by omega
    have remainder : (pattern + 1) % 2 ^ 52 = pattern % 2 ^ 52 + 1 := by omega
    unfold unitsOf significandOf scaleOf
    rw [quotient, remainder]
    split <;> ring

/-- The least positive value is positive. -/
theorem least_pos : 0 < least := by
  unfold least
  positivity

/-- Greater patterns have greater magnitudes. -/
theorem magnitudeOf_strictMono : StrictMono magnitudeOf := by
  refine strictMono_nat_of_lt_succ fun pattern => ?_
  have more : unitsOf pattern < unitsOf (pattern + 1) := by
    rw [unitsOf_succ]
    exact Nat.lt_add_of_pos_right (Nat.two_pow_pos _)
  exact mul_lt_mul_of_pos_right (Nat.cast_lt.mpr more) least_pos

/-- No magnitude is below zero. -/
theorem magnitudeOf_nonneg (pattern : Nat) : 0 ≤ magnitudeOf pattern :=
  mul_nonneg (Nat.cast_nonneg _) least_pos.le

/-- The magnitudes of finite patterns are farther below where infinity begins than half a unit. -/
theorem magnitudeOf_lt {pattern : Nat} (finite : pattern < 2047 * 2 ^ 52) :
    magnitudeOf pattern < 2 ^ 1024 - 2 ^ 970 := by
  have le : magnitudeOf pattern ≤ magnitudeOf (2047 * 2 ^ 52 - 1) :=
    magnitudeOf_strictMono.monotone (by omega)
  refine lt_of_le_of_lt le ?_
  have isField : (2047 * 2 ^ 52 - 1) / 2 ^ 52 = 2046 := by norm_num
  have isFraction : (2047 * 2 ^ 52 - 1) % 2 ^ 52 = 2 ^ 52 - 1 := by norm_num
  have isScale : (2 : ℚ) ^ 2045 * least = 2 * 2 ^ 970 := by
    rw [least, ← zpow_natCast, ← zpow_add₀ two_ne_zero, ← pow_succ', ← zpow_natCast]
    rfl
  have isLimit : (2 : ℚ) ^ 1024 = 2 ^ 54 * 2 ^ 970 := by rw [← pow_add]
  have positive : (0 : ℚ) < 2 ^ 970 := by positivity
  rw [magnitudeOf, unitsOf, significandOf, scaleOf, isField, isFraction, if_neg (by decide),
    show max 2046 1 - 1 = 2045 by rfl, Nat.cast_mul, Nat.cast_pow, mul_assoc, Nat.cast_ofNat,
    isScale, isLimit]
  generalize (2 : ℚ) ^ 970 = c at positive ⊢
  norm_num
  linarith

end Patterns

section Fields

variable {x y : Binary64}

/-- All bits but the sign, as a number. -/
def pattern (x : Binary64) : Nat := x.bits.toNat % 2 ^ 63

/-- The exponent field is the upper part of the pattern. -/
theorem exponentField_eq (x : Binary64) : x.exponentField = x.pattern / 2 ^ 52 := by
  show x.bits.toNat / 2 ^ 52 % 2 ^ 11 = x.bits.toNat % 2 ^ 63 / 2 ^ 52
  omega

/-- The fraction field is the lower part of the pattern. -/
theorem fractionField_eq (x : Binary64) : x.fractionField = x.pattern % 2 ^ 52 := by
  show x.bits.toNat % 2 ^ 52 = x.bits.toNat % 2 ^ 63 % 2 ^ 52
  omega

/-- The significand is that of the pattern. -/
theorem significand_eq (x : Binary64) : x.significand = significandOf x.pattern := by
  rw [significand, significandOf, exponentField_eq, fractionField_eq]
  rfl

/-- The sign bit is the highest. -/
theorem isNegative_iff (x : Binary64) : x.isNegative ↔ 2 ^ 63 ≤ x.bits.toNat := by
  rw [isNegative, decide_eq_true_iff]
  rfl

/-- Finite patterns are those below the infinities. -/
theorem isFinite_iff (x : Binary64) : x.isFinite ↔ x.pattern < 2047 * 2 ^ 52 := by
  have bound : x.pattern < 2 ^ 63 := Nat.mod_lt _ (by decide)
  rw [isFinite, bne_iff_ne, exponentField_eq]
  omega

/-- Patterns with one sign that agree otherwise are the same. -/
theorem eq_of_pattern (sameSign : x.isNegative = y.isNegative) (same : x.pattern = y.pattern) :
    x = y := by
  have signs : 2 ^ 63 ≤ x.bits.toNat ↔ 2 ^ 63 ≤ y.bits.toNat := by
    rw [← isNegative_iff, ← isNegative_iff, sameSign]
  have xBound := x.bits.toNat_lt
  have yBound := y.bits.toNat_lt
  unfold pattern at same
  cases x
  cases y
  congr 1
  apply UInt64.toNat_inj.mp
  dsimp only at *
  omega

/-- Every pattern occurs with either sign. -/
theorem exists_of_pattern (minus : Bool) {pattern : Nat} (bound : pattern < 2 ^ 63) :
    ∃ x : Binary64, x.isNegative = minus ∧ x.pattern = pattern := by
  have isNat : (UInt64.ofNat (pattern + minus.toNat * 2 ^ 63)).toNat =
      pattern + minus.toNat * 2 ^ 63 := by
    apply UInt64.toNat_ofNat_of_lt'
    cases minus <;> simp [UInt64.size] <;> omega
  refine ⟨⟨.ofNat (pattern + minus.toNat * 2 ^ 63)⟩, ?_, ?_⟩
  · rw [Bool.eq_iff_iff, isNegative_iff, isNat]
    cases minus with
    | false => simpa using bound
    | true => simp
  · rw [Binary64.pattern, isNat, Nat.add_mul_mod_self_right, Nat.mod_eq_of_lt bound]

/-- The magnitude is that of the pattern. -/
theorem magnitude_eq (x : Binary64) : x.magnitude = magnitudeOf x.pattern := by
  have two : (2 : ℚ) ≠ 0 := two_ne_zero
  rw [magnitude, magnitudeOf, unitsOf, significandOf, scaleOf, ← exponentField_eq,
    ← fractionField_eq]
  cases x.exponentField with
  | zero =>
    have isPower : (2 : ℚ) ^ (-1022 : ℤ) = 2 ^ 52 * least := by
      rw [least, ← zpow_natCast, ← zpow_add₀ two]
      rfl
    rw [if_pos rfl, if_pos rfl, isPower]
    norm_num
    field_simp
  | succ exponent =>
    have isScale : max (exponent + 1) 1 - 1 = exponent := by omega
    have isPower : (2 : ℚ) ^ ((exponent + 1 : Nat) - 1023 : ℤ) =
        2 ^ 52 * 2 ^ exponent * least := by
      have split : ((exponent + 1 : Nat) - 1023 : ℤ) = (52 : Nat) + exponent + -1074 := by omega
      rw [least, split, zpow_add₀ two, zpow_add₀ two, zpow_natCast, zpow_natCast]
    rw [if_neg (Nat.succ_ne_zero _), if_neg (Nat.succ_ne_zero _), isScale, isPower]
    push_cast
    field_simp
    ring

/-- Equal magnitudes are those of equal patterns. -/
theorem magnitude_inj : x.magnitude = y.magnitude ↔ x.pattern = y.pattern := by
  rw [magnitude_eq, magnitude_eq, magnitudeOf_strictMono.injective.eq_iff]

/-- Patterns with one sign have the same value only if they are the same. -/
theorem eq_of_value (sameSign : x.isNegative = y.isNegative) (same : x.value = y.value) :
    x = y := by
  apply eq_of_pattern sameSign
  rw [← magnitude_inj]
  rw [value, value, sameSign] at same
  cases isSign : y.isNegative <;> simpa [signFactor, isSign] using same

end Fields

section Nearest

variable {number left right : ℚ}

/-- Which of two numbers is nearer depends on which side of their middle one is. -/
theorem abs_lt_iff : |number - left| < |number - right| ↔
    0 < (left - right) * (2 * number - left - right) := by
  rw [← sq_lt_sq, ← sub_pos]
  ring_nf

/-- Two numbers are equally near to their middle alone. -/
theorem abs_eq_iff (apart : left ≠ right) :
    |number - left| = |number - right| ↔ number = (left + right) / 2 := by
  have isProduct : |number - left| = |number - right| ↔
      (left - right) * (2 * number - left - right) = 0 := by
    rw [← sq_eq_sq_iff_abs_eq_abs, ← sub_eq_zero, ← neg_eq_zero]
    ring_nf
  rw [isProduct, mul_eq_zero, or_iff_right (sub_ne_zero.mpr apart)]
  constructor <;> intro <;> linarith

end Nearest

section Near

variable {number : ℚ} {pattern other : Nat}

/-- Whether a number is nearer to the magnitude of one pattern than to that of another, or as near
while the pattern is even. -/
def Near (number : ℚ) (pattern other : Nat) : Prop :=
  |number - magnitudeOf pattern| < |number - magnitudeOf other| ∨
    |number - magnitudeOf pattern| = |number - magnitudeOf other| ∧ Even pattern

/-- Whether a number lies between the middles around the magnitude of a pattern, and on one of them
only if the pattern is even. -/
structure Within (number : ℚ) (pattern : Nat) : Prop where
  low : midpoint (pattern - 1) ≤ number
  high : number ≤ midpoint pattern
  ends : number = midpoint (pattern - 1) ∨ number = midpoint pattern → Even pattern

/-- What is nearer to a pattern than to a greater one is no greater than their middle. -/
theorem near_iff_of_lt (less : pattern < other) :
    Near number pattern other ↔ number ≤ (magnitudeOf pattern + magnitudeOf other) / 2 ∧
      (number = (magnitudeOf pattern + magnitudeOf other) / 2 → Even pattern) := by
  have apart := magnitudeOf_strictMono less
  have nearer : |number - magnitudeOf pattern| < |number - magnitudeOf other| ↔
      number < (magnitudeOf pattern + magnitudeOf other) / 2 := by
    rw [abs_lt_iff, ← neg_mul_neg, mul_pos_iff_of_pos_left (neg_pos.mpr (sub_neg.mpr apart))]
    constructor <;> intro <;> linarith
  rw [Near, nearer, abs_eq_iff apart.ne, le_iff_lt_or_eq]
  grind

/-- What is nearer to a pattern than to a smaller one is no smaller than their middle. -/
theorem near_iff_of_gt (less : other < pattern) :
    Near number pattern other ↔ (magnitudeOf other + magnitudeOf pattern) / 2 ≤ number ∧
      (number = (magnitudeOf other + magnitudeOf pattern) / 2 → Even pattern) := by
  have apart := magnitudeOf_strictMono less
  have nearer : |number - magnitudeOf pattern| < |number - magnitudeOf other| ↔
      (magnitudeOf other + magnitudeOf pattern) / 2 < number := by
    rw [abs_lt_iff, mul_pos_iff_of_pos_left (sub_pos.mpr apart)]
    constructor <;> intro <;> linarith
  rw [Near, nearer, abs_eq_iff apart.ne', add_comm (magnitudeOf pattern), le_iff_lt_or_eq]
  grind

/-- What lies between the middles around a pattern is nearer to it than to any other. -/
theorem Within.near (within : Within number pattern) (different : other ≠ pattern) :
    Near number pattern other := by
  obtain less | less := Nat.lt_or_gt_of_ne different
  · -- A smaller pattern is no greater than the one before.
    have before : magnitudeOf other ≤ magnitudeOf (pattern - 1) :=
      magnitudeOf_strictMono.monotone (Nat.le_sub_one_of_lt less)
    have isMiddle : midpoint (pattern - 1) =
        (magnitudeOf (pattern - 1) + magnitudeOf pattern) / 2 := by
      rw [midpoint, Nat.sub_add_cancel (Nat.one_le_of_lt less)]
    have low := within.low
    rw [near_iff_of_gt less]
    refine ⟨by linarith, fun isEnd => within.ends (.inl ?_)⟩
    linarith
  · have after : magnitudeOf (pattern + 1) ≤ magnitudeOf other :=
      magnitudeOf_strictMono.monotone less
    have isMiddle : midpoint pattern = (magnitudeOf pattern + magnitudeOf (pattern + 1)) / 2 := rfl
    have high := within.high
    rw [near_iff_of_lt less]
    refine ⟨by linarith, fun isEnd => within.ends (.inr ?_)⟩
    linarith

/-- What is nearer to a pattern than to its neighbours lies between the middles around it. -/
theorem within_of_near (positive : 0 < pattern) (before : Near number pattern (pattern - 1))
    (after : Near number pattern (pattern + 1)) : Within number pattern := by
  have isMiddle : midpoint (pattern - 1) =
      (magnitudeOf (pattern - 1) + magnitudeOf pattern) / 2 := by
    rw [midpoint, Nat.sub_add_cancel positive]
  rw [near_iff_of_gt (Nat.sub_lt positive Nat.one_pos), ← isMiddle] at before
  rw [near_iff_of_lt (Nat.lt_succ_self _)] at after
  exact ⟨before.1, after.1, fun isEnd => isEnd.elim before.2 after.2⟩

end Near

section Rounds

variable {number : ℚ} {x : Binary64}

/-- The fraction of a pattern is even if the pattern is. -/
theorem even_fractionField_iff (x : Binary64) : Even x.fractionField ↔ Even x.pattern := by
  rw [Nat.even_iff, Nat.even_iff, fractionField_eq]
  omega

/-- The significand of a pattern is even if the pattern is. -/
theorem even_significand_iff (x : Binary64) : Even x.significand ↔ Even x.pattern := by
  rw [Nat.even_iff, Nat.even_iff, significand_eq, significandOf]
  split <;> omega

/-- The magnitude is the value without its sign. -/
theorem abs_value (x : Binary64) : |x.value| = x.magnitude := by
  have isAbs := abs_sign_mul x.isNegative x.magnitude 0
  rw [mul_zero, sub_zero, sub_zero] at isAbs
  rw [value, isAbs, magnitude_eq, abs_of_nonneg (magnitudeOf_nonneg _)]

/-- The value of a finite pattern rounds to it. -/
theorem rounds_value (finite : x.isFinite) : Rounds x.value x where
  finite := finite
  below := by
    rw [abs_value, magnitude_eq]
    exact magnitudeOf_lt ((isFinite_iff x).mp finite)
  nearest y _ apart := by
    left
    rw [sub_self, abs_zero, abs_pos]
    exact sub_ne_zero.mpr apart.symm

/-- With the sign of a pattern, a number rounds to it that is nearest to its magnitude. -/
theorem rounds_of_near (finite : x.isFinite) (positive : 0 < number)
    (below : number < 2 ^ 1024 - 2 ^ 970)
    (near : ∀ other ≠ x.pattern, Near number x.pattern other) :
    Rounds (signFactor x.isNegative * number) x where
  finite := finite
  below := by
    have isAbs := abs_sign_mul x.isNegative number 0
    rw [mul_zero, sub_zero, sub_zero, abs_of_pos positive] at isAbs
    rwa [isAbs]
  nearest y _ apart := by
    rw [even_fractionField_iff, value, magnitude_eq, abs_sign_mul]
    by_cases sameSign : y.isNegative = x.isNegative
    · rw [value, magnitude_eq, sameSign, abs_sign_mul]
      apply near
      intro same
      exact apart (congrArg value (eq_of_pattern sameSign same))
    · -- What has the other sign is on the other side of zero, and no nearer for that.
      have isValue : y.value = signFactor x.isNegative * -magnitudeOf y.pattern := by
        rw [value, magnitude_eq, Bool.eq_not_of_ne sameSign]
        cases x.isNegative <;> simp [signFactor]
      have nonneg := magnitudeOf_nonneg y.pattern
      rw [isValue, abs_sign_mul, sub_neg_eq_add, abs_of_nonneg (add_nonneg positive.le nonneg)]
      by_cases samePattern : y.pattern = x.pattern
      · left
        rw [samePattern] at isValue nonneg ⊢
        have nonzero : magnitudeOf x.pattern ≠ 0 := by
          intro isZero
          rw [isValue, value, magnitude_eq, isZero, neg_zero] at apart
          exact apart rfl
        rw [abs_lt]
        have := lt_of_le_of_ne nonneg nonzero.symm
        constructor <;> linarith
      · have farther : |number - magnitudeOf y.pattern| ≤ number + magnitudeOf y.pattern := by
          rw [abs_le]
          constructor <;> linarith
        obtain nearer | ⟨tie, isEven⟩ := near y.pattern samePattern
        · exact .inl (lt_of_lt_of_le nearer farther)
        · rw [← tie] at farther
          exact farther.lt_or_eq.imp_right fun same => ⟨same, isEven⟩

/-- The number that is left of one that rounds to a pattern without the sign is nearer to its
magnitude than to any other. -/
theorem Rounds.near (rounds : Rounds (signFactor x.isNegative * number) x) {other : Nat}
    (finite : other < 2047 * 2 ^ 52) (different : other ≠ x.pattern) :
    Near number x.pattern other := by
  obtain ⟨z, isSign, rfl⟩ := exists_of_pattern x.isNegative (show other < 2 ^ 63 by omega)
  have apart : z.value ≠ x.value := fun same =>
    different (congrArg pattern (eq_of_value isSign same))
  have nearest := rounds.nearest z ((isFinite_iff z).mpr finite) apart
  rw [even_fractionField_iff, value, value, isSign, abs_sign_mul, abs_sign_mul, magnitude_eq,
    magnitude_eq] at nearest
  exact nearest

end Rounds

section Unique

variable {number : ℚ} {x y : Binary64}

/-- No number rounds to two patterns of one sign. -/
theorem Rounds.not_lt (first : Rounds number x) (second : Rounds number y)
    (sameSign : x.isNegative = y.isNegative) : ¬x.pattern < y.pattern := by
  intro less
  have apart : y.value ≠ x.value := fun same =>
    Nat.ne_of_gt less (congrArg pattern (eq_of_value sameSign.symm same))
  -- Both can only be nearest if the number is in their middle and both fractions are even.
  obtain ⟨tie, isEven, isEvenToo⟩ : |number - x.value| = |number - y.value| ∧
      Even x.fractionField ∧ Even y.fractionField := by
    obtain nearer | ⟨tie, isEven⟩ := first.nearest y second.finite apart
    · obtain nearerToo | ⟨tie, -⟩ := second.nearest x first.finite apart.symm <;> linarith
    · obtain nearerToo | ⟨-, isEvenToo⟩ := second.nearest x first.finite apart.symm
      · linarith
      · exact ⟨tie, isEven, isEvenToo⟩
  have gap : x.pattern + 1 < y.pattern := by
    rw [Nat.even_iff, fractionField_eq] at isEven isEvenToo
    omega
  -- So there is a pattern between them, which is nearer.
  have small := (isFinite_iff y).mp second.finite
  obtain ⟨z, isSign, isPattern⟩ := exists_of_pattern x.isNegative
    (show x.pattern + 1 < 2 ^ 63 by omega)
  have finite : z.isFinite := by
    rw [isFinite_iff, isPattern]
    omega
  have other : z.value ≠ x.value := by
    intro same
    have samePattern := congrArg pattern (eq_of_value isSign same)
    omega
  have middle : number = (x.value + y.value) / 2 := (abs_eq_iff apart.symm).mp tie
  have nearer : |number - z.value| < |number - x.value| := by
    have above := magnitudeOf_strictMono (show x.pattern < z.pattern by omega)
    have below := magnitudeOf_strictMono (show z.pattern < y.pattern by omega)
    have isProduct : (z.value - x.value) * (2 * number - z.value - x.value) =
        (magnitudeOf z.pattern - magnitudeOf x.pattern) *
          (magnitudeOf y.pattern - magnitudeOf z.pattern) := by
      rw [show 2 * number - z.value - x.value = y.value - z.value by linarith, value, value, value,
        isSign, ← sameSign, ← mul_sub, ← mul_sub, mul_mul_mul_comm, signFactor_mul_self, one_mul,
        magnitude_eq, magnitude_eq, magnitude_eq]
    rw [abs_lt_iff, isProduct]
    exact mul_pos (sub_pos.mpr above) (sub_pos.mpr below)
  obtain nearerToo | ⟨tie, -⟩ := first.nearest z finite other <;> linarith

/-- What a number rounds to is one pattern, but for the sign of zeros. -/
theorem Rounds.unique (first : Rounds number x) (second : Rounds number y)
    (sameSign : x.isNegative = y.isNegative) : x = y :=
  eq_of_pattern sameSign (Nat.le_antisymm
    (Nat.le_of_not_lt (second.not_lt first sameSign.symm))
    (Nat.le_of_not_lt (first.not_lt second sameSign)))

end Unique

end Binary64

end ShaderLoom
