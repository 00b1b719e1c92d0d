import Mathlib.Algebra.Order.Field.Rat
import Mathlib.Data.Rat.Cast.Order
import Mathlib.Tactic.FieldSimp
import Mathlib.Tactic.Linarith
import Mathlib.Tactic.Positivity
import ShaderLoom.Literal

/-!
# Decimals and what they denote

A text of digits with a point among them denotes a number (`Denotes`), and a decimal is written as a
text that denotes it (`Decimal.denotes_text`). A search for a decimal in an interval finds one of
the fewest places (`Bracket.fewestPlaces_spec`).
-/
namespace ShaderLoom

/-- The factor that a sign stands for. -/
def signFactor (minus : Bool) : ℚ := if minus then -1 else 1

/-- A sign undoes itself. -/
theorem signFactor_mul_self (minus : Bool) : signFactor minus * signFactor minus = 1 := by
  cases minus <;> simp [signFactor]

/-- A sign keeps distances. -/
theorem abs_sign_mul (minus : Bool) (left right : ℚ) :
    |signFactor minus * left - signFactor minus * right| = |left - right| := by
  rw [← mul_sub, abs_mul]
  cases minus <;> simp [signFactor]

/-- Whether a text is an optional minus, one or more digits, a point and one or more digits, how
many those are, and which number it denotes. -/
def Denotes (text : String) (minus : Bool) (places : Nat) (number : ℚ) : Prop :=
  ∃ before after : List Char,
    text.toList = (if minus then ['-'] else []) ++ before ++ '.' :: after ∧
    before ≠ [] ∧ after ≠ [] ∧ after.length = places ∧ (∀ c ∈ before ++ after, c.isDigit) ∧
    number = signFactor minus *
      (Nat.ofDigitChars 10 before 0 + Nat.ofDigitChars 10 after 0 / 10 ^ places)

/-- A text that denotes a number starts with its minus, or with a digit. -/
theorem Denotes.minus_iff {text : String} {minus : Bool} {places : Nat} {number : ℚ}
    (denotes : Denotes text minus places number) : minus ↔ ∃ rest, text.toList = '-' :: rest := by
  obtain ⟨before, after, isText, nonempty, -, -, digits, -⟩ := denotes
  rw [isText]
  cases minus with
  | true => simp
  | false =>
    obtain ⟨first, others, rfl⟩ := List.exists_cons_of_ne_nil nonempty
    have isDigit := digits first (List.mem_append_left _ List.mem_cons_self)
    simp only [Bool.false_eq_true, if_false, List.nil_append, List.cons_append, List.cons.injEq,
      false_iff, not_exists, not_and]
    rintro rest rfl
    cases isDigit

/-- A number as digits, at least as many as asked for. -/
theorem toList_padded (width n : Nat) :
    (padded width n).toList =
      List.replicate (width - (Nat.toDigits 10 n).length) '0' ++ Nat.toDigits 10 n := by
  unfold padded
  rw [String.toList_append, String.toList_ofList, Nat.toString_eq_repr, ← String.length_toList,
    Nat.toList_repr]

/-- Leading zeros are digits and change no number; no number grows longer than it is asked to be. -/
theorem padded_spec {width n : Nat} (small : n < 10 ^ width) (positive : 0 < width) :
    (padded width n).toList.length = width ∧ (∀ c ∈ (padded width n).toList, c.isDigit) ∧
      Nat.ofDigitChars 10 (padded width n).toList 0 = n := by
  have short : (Nat.toDigits 10 n).length ≤ width :=
    (Nat.length_toDigits_le_iff (by decide) positive).mpr small
  rw [toList_padded]
  refine ⟨?_, ?_, ?_⟩
  · rw [List.length_append, List.length_replicate]
    omega
  · rw [List.forall_mem_append]
    constructor
    · intro c isZero
      rw [List.eq_of_mem_replicate isZero]
      rfl
    · exact fun c isDigit => Nat.isDigit_of_mem_toDigits (by decide) (by decide) isDigit
  · rw [Nat.ofDigitChars_append, Nat.ofDigitChars_replicate_zero, Nat.mul_zero,
      Nat.ofDigitChars_ten_toDigits]

namespace Decimal

/-- The number that a decimal stands for. -/
def number (d : Decimal) : ℚ := d.digits / 10 ^ d.places

/-- A decimal is what stands before the point and what stands after it. -/
theorem number_eq (d : Decimal) :
    d.number = (d.digits / 10 ^ d.places : Nat) +
      (d.digits % 10 ^ d.places : Nat) / 10 ^ d.places := by
  have split : (d.digits : ℚ) = 10 ^ d.places * (d.digits / 10 ^ d.places : Nat) +
      (d.digits % 10 ^ d.places : Nat) := by
    exact_mod_cast (Nat.div_add_mod d.digits (10 ^ d.places)).symm
  have positive : (10 : ℚ) ^ d.places ≠ 0 := pow_ne_zero _ (by norm_num)
  rw [number, split, add_div, mul_div_cancel_left₀ _ positive]

/-- A decimal that has places is written as a text that denotes it. -/
theorem denotes_text (d : Decimal) (positive : 0 < d.places) (minus : Bool) :
    Denotes ((if minus then "-" else "") ++ d.text) minus d.places
      (signFactor minus * d.number) := by
  have small : d.digits % 10 ^ d.places < 10 ^ d.places := Nat.mod_lt _ (Nat.pow_pos (by decide))
  obtain ⟨length, digits, isNumber⟩ := padded_spec small positive
  refine ⟨Nat.toDigits 10 (d.digits / 10 ^ d.places),
    (padded d.places (d.digits % 10 ^ d.places)).toList, ?_, Nat.toDigits_ne_nil, ?_, length, ?_,
    ?_⟩
  · rw [String.toList_append, text, String.toList_append, String.toList_append,
      Nat.toString_eq_repr, Nat.toList_repr]
    cases minus <;> simp
  · rw [← List.length_pos_iff, length]
    exact positive
  · rw [List.forall_mem_append]
    exact ⟨fun c isDigit => Nat.isDigit_of_mem_toDigits (by decide) (by decide) isDigit, digits⟩
  · rw [isNumber, Nat.ofDigitChars_ten_toDigits, number_eq]

/-- What a text denotes is a decimal of as many places. -/
theorem exists_of_denotes {text : String} {minus : Bool} {places : Nat} {number : ℚ}
    (denotes : Denotes text minus places number) :
    ∃ d : Decimal, d.places = places ∧ number = signFactor minus * d.number := by
  obtain ⟨before, after, -, -, -, -, -, rfl⟩ := denotes
  refine ⟨⟨Nat.ofDigitChars 10 before 0 * 10 ^ places + Nat.ofDigitChars 10 after 0, places⟩, rfl,
    ?_⟩
  have positive : (10 : ℚ) ^ places ≠ 0 := pow_ne_zero _ (by norm_num)
  rw [number, Nat.cast_add, Nat.cast_mul, Nat.cast_pow, Nat.cast_ofNat, add_div,
    mul_div_cancel_right₀ _ positive]

end Decimal

namespace Bracket

variable {b : Bracket} {bound places : Nat} {d : Decimal}

/-- What it is to lie in an interval, with or without its ends. -/
theorem holds_iff : b.holds d ↔ if b.closed then
    b.low * 10 ^ d.places ≤ d.digits * b.den ∧ d.digits * b.den ≤ b.high * 10 ^ d.places
    else b.low * 10 ^ d.places < d.digits * b.den ∧ d.digits * b.den < b.high * 10 ^ d.places := by
  unfold holds
  cases b.closed <;> simp

/-- A neighbour that is found lies in the interval. -/
theorem holds_of_neighbour (found : b.neighbour? places = some d) :
    d.places = places ∧ b.holds d := by
  unfold neighbour? at found
  dsimp only at found
  split_ifs at found with below both above
  · cases found
    exact ⟨rfl, (Bool.and_eq_true_iff.mp both).1⟩
  · cases found
    exact ⟨rfl, below⟩
  · cases found
    exact ⟨rfl, above⟩

/-- A neighbour is found if one of the two lies in the interval. -/
theorem isSome_neighbour_iff : (b.neighbour? places).isSome ↔
    b.holds ⟨b.num * 10 ^ places / b.den, places⟩ ∨
      b.holds ⟨b.num * 10 ^ places / b.den + 1, places⟩ := by
  show _ ↔ b.holds ⟨b.num * Nat.pow 10 places / b.den, places⟩ ∨
    b.holds ⟨b.num * Nat.pow 10 places / b.den + 1, places⟩
  unfold neighbour?
  dsimp only
  split_ifs <;> simp_all

section Inside

variable (aboveLow : b.low < b.num) (belowHigh : b.num < b.high) (positive : 0 < b.den)

include aboveLow belowHigh positive

/-- If a decimal of some places lies in the interval around a value, so does one of the neighbours
of the value. -/
theorem isSome_neighbour_of_holds {digits : Nat} (holds : b.holds ⟨digits, places⟩) :
    (b.neighbour? places).isSome := by
  have scale : 0 < 10 ^ places := Nat.pow_pos (by decide)
  have above := Nat.mul_lt_mul_of_pos_right aboveLow scale
  have below := Nat.mul_lt_mul_of_pos_right belowHigh scale
  have floor := Nat.div_mul_le_self (b.num * 10 ^ places) b.den
  have ceiling := Nat.lt_mul_of_div_lt (Nat.lt_add_one (b.num * 10 ^ places / b.den)) positive
  rw [isSome_neighbour_iff]
  simp only [holds_iff] at holds ⊢
  -- Between a decimal in the interval and the value lies the neighbour on that side.
  by_cases side : digits ≤ b.num * 10 ^ places / b.den
  · have between := Nat.mul_le_mul_right b.den side
    left
    split_ifs at holds ⊢ <;> omega
  · have between : (b.num * 10 ^ places / b.den + 1) * b.den ≤ digits * b.den :=
      Nat.mul_le_mul_right _ (Nat.lt_of_not_le side)
    right
    split_ifs at holds ⊢ <;> omega

/-- A value that is a decimal of some places is a neighbour of itself. -/
theorem isSome_neighbour_of_dvd (exact : b.den ∣ b.num * 10 ^ places) :
    (b.neighbour? places).isSome := by
  have scale : 0 < 10 ^ places := Nat.pow_pos (by decide)
  have above := Nat.mul_lt_mul_of_pos_right aboveLow scale
  have below := Nat.mul_lt_mul_of_pos_right belowHigh scale
  have holds : b.holds ⟨b.num * 10 ^ places / b.den, places⟩ := by
    simp only [holds_iff, Nat.div_mul_cancel exact]
    split_ifs <;> omega
  exact isSome_neighbour_of_holds aboveLow belowHigh positive holds

end Inside

/-- The search finds the first neighbour there is. -/
theorem fewestPlaces_spec (found : (b.neighbour? bound).isSome) :
    b.holds (b.fewestPlaces bound) ∧
      ∀ fewer < (b.fewestPlaces bound).places, b.neighbour? fewer = none := by
  have searched : ((List.range (bound + 1)).findSome? b.neighbour?).isSome := by
    rw [List.findSome?_isSome_iff]
    exact ⟨bound, List.self_mem_range_succ, found⟩
  obtain ⟨d, isFirst⟩ := Option.isSome_iff_exists.mp searched
  have isFewest : b.fewestPlaces bound = d := by
    rw [fewestPlaces, isFirst]
    rfl
  obtain ⟨before, places, after, isRange, isNeighbour, none⟩ :=
    List.findSome?_eq_some_iff.mp isFirst
  obtain ⟨rfl, holds⟩ := holds_of_neighbour isNeighbour
  rw [isFewest]
  refine ⟨holds, fun fewer less => none fewer ?_⟩
  have ordered := List.pairwise_lt_range (n := bound + 1)
  have isLast : d.places ∈ List.range (bound + 1) := by
    rw [isRange]
    exact List.mem_append_right _ List.mem_cons_self
  have isEarly : fewer ∈ List.range (bound + 1) :=
    List.mem_range.mpr (less.trans (List.mem_range.mp isLast))
  rw [isRange] at ordered isEarly
  obtain isBefore | isAfter := List.mem_append.mp isEarly
  · exact isBefore
  · obtain rfl | isAfter := List.mem_cons.mp isAfter
    · exact absurd less (Nat.lt_irrefl _)
    · have later := List.rel_of_pairwise_cons (List.pairwise_append.mp ordered).2.1 isAfter
      exact absurd less (Nat.lt_asymm later)

end Bracket

end ShaderLoom
