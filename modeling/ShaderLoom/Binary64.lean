/-!
# Binary64 values

A floating-point number is kept as its 64 bits, so that two zeros and all the patterns that are
no number stay apart. A finite pattern denotes its significand times a power of two
(`Binary64.significand`, `Binary64.exponent`); everything below is natural-number arithmetic
on the three fields of the pattern.
-/
namespace ShaderLoom

/-- A 64-bit floating-point pattern. -/
structure Binary64 where
  /-- Sign, exponent field and fraction field, from the top bit down. -/
  bits : UInt64
deriving DecidableEq, Repr

namespace Binary64

/-- The sign bit; zeros and patterns that are no number have one too. -/
def isNegative (x : Binary64) : Bool := Nat.pow 2 63 ≤ x.bits.toNat

/-- The eleven bits after the sign. -/
def exponentField (x : Binary64) : Nat := x.bits.toNat / Nat.pow 2 52 % Nat.pow 2 11

/-- The lowest 52 bits. -/
def fractionField (x : Binary64) : Nat := x.bits.toNat % Nat.pow 2 52

/-- The full exponent field marks what is not finite. -/
def isFinite (x : Binary64) : Bool := x.exponentField != 2047

/-- Neither a number nor an infinity. -/
def isNaN (x : Binary64) : Bool := x.exponentField == 2047 && x.fractionField != 0

/-- The whole significand; below the least exponent there is no leading one. -/
def significand (x : Binary64) : Nat :=
  if x.exponentField = 0 then x.fractionField else Nat.pow 2 52 + x.fractionField

/-- A finite pattern denotes its significand times two to this power, up to sign. -/
def exponent (x : Binary64) : Int := (max x.exponentField 1 : Nat) - 1075

/-- How many binary places the significand has after its point. -/
def places (x : Binary64) : Nat := (-x.exponent).toNat

/-- The zeros that follow the significand before the point. -/
def shift (x : Binary64) : Nat := x.exponent.toNat

/-- Whether a finite pattern denotes a whole number. -/
def isWhole (x : Binary64) : Bool := x.significand % Nat.pow 2 x.places == 0

/-- The magnitude of a whole number. -/
def whole (x : Binary64) : Nat := x.significand * Nat.pow 2 x.shift / Nat.pow 2 x.places

end Binary64

end ShaderLoom
