import ShaderLoom.Binary64
import ShaderLoom.Decimal

/-!
# Literals

A finite float is written in positional notation with a point, so that it always reads back as
floating point: a whole number with all its digits and one zero after the point, any other with
the fewest places that read back as the same pattern. A pattern that is not finite has no literal
form and is written as the division that yields it.
-/
namespace ShaderLoom

namespace Binary64

/-- The values that round to a pattern, over the denominator `2 ^ (places + 2)`: half way to the
neighbours on either side, ends included when the significand is even. Below a power of two the
neighbour is half as far. -/
def bracket (x : Binary64) : Bracket where
  num := 4 * x.significand
  low := 4 * x.significand - (if x.fractionField = 0 ∧ 1 < x.exponentField then 1 else 2)
  high := 4 * x.significand + 2
  den := Nat.pow 2 (x.places + 2)
  closed := x.significand % 2 == 0

/-- The magnitude of a finite pattern as a decimal. Binary places are decimal places too, so the
search never needs more of them than the significand has. -/
def decimal (x : Binary64) : Decimal :=
  if x.isWhole then ⟨10 * x.whole, 1⟩ else x.bracket.fewestPlaces x.places

/-- A pattern as floating-point text. -/
def text (x : Binary64) : String :=
  if x.isNaN then "(0.0 / 0.0)"
  else if x.isFinite then (if x.isNegative then "-" else "") ++ x.decimal.text
  else if x.isNegative then "(-1.0 / 0.0)"
  else "(1.0 / 0.0)"

end Binary64

/-- A literal value. -/
inductive Literal where
  | bool (value : Bool)
  | int (value : Int)
  | uint (value : Nat)
  /-- Single precision, kept with the precision it was given in. -/
  | float (value : Binary64)
  | double (value : Binary64)
deriving DecidableEq, Repr

/-- A negative literal is written with a leading minus and binds like a prefixed operator. -/
def Literal.isNegative : Literal → Bool
  | .int value => value < 0
  | .float value => value.isNegative
  | .double value => value.isNegative
  | .bool _ => false
  | .uint _ => false

end ShaderLoom
