/-!
# Ranks

The rank of an expression says how tightly its outermost operator binds: a higher level binds
tighter. An operand is put in parentheses when it binds looser than the place it stands in
(`Rank.needsParens`). An operator whose level a target leaves undefined is in parentheses
wherever it is an operand, and around its own operands everything looser than a postfix
expression is.
-/
namespace ShaderLoom

/-- How tightly an expression binds. -/
inductive Rank where
  | undefined
  | level (value : Nat)
deriving DecidableEq, Repr

namespace Rank

/-- The level of a place in brackets, which takes any expression. -/
def lowest : Rank := .level 0
/-- The level of a comma list. -/
def comma : Rank := .level 1
/-- The level of assignments. -/
def assign : Rank := .level 2
/-- The level of the conditional operator. -/
def ternary : Rank := .level 3
/-- The level of logical or. -/
def logicalOr : Rank := .level 4
/-- The level of logical exclusive or. -/
def logicalXor : Rank := .level 5
/-- The level of logical and. -/
def logicalAnd : Rank := .level 6
/-- The level of bitwise or. -/
def bitOr : Rank := .level 7
/-- The level of bitwise exclusive or. -/
def bitXor : Rank := .level 8
/-- The level of bitwise and. -/
def bitAnd : Rank := .level 9
/-- The level of equality tests. -/
def equality : Rank := .level 10
/-- The level of order comparisons. -/
def relational : Rank := .level 11
/-- The level of shifts. -/
def shift : Rank := .level 12
/-- The level of sums. -/
def additive : Rank := .level 13
/-- The level of products. -/
def multiplicative : Rank := .level 14
/-- The level of operators written before their operand. -/
def before : Rank := .level 15
/-- The level of operators written after their operand, subscripts, members and calls. -/
def after : Rank := .level 16
/-- The level of names and literals. -/
def primary : Rank := .level 17

/-- Whether `child` needs parentheses where an operand of rank `parent` is expected. -/
def needsParens : Rank → Rank → Bool
  | _, .undefined => true
  | .undefined, .level child => child < 16
  | .level parent, .level child => child < parent

/-- The order of two ranks; an undefined rank compares with itself only. -/
def compare? : Rank → Rank → Option Ordering
  | .level left, .level right => some (compare left right)
  | .undefined, .undefined => some .eq
  | _, _ => none

end Rank

end ShaderLoom
