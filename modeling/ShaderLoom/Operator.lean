import ShaderLoom.Rank

/-!
# Operators

Binary and unary operators with their common symbols and ranks. A target may give an operator
another symbol or another rank, never another grouping: assignments group to the right,
all other binary operators to the left.
-/
namespace ShaderLoom

/-- The side on which a chain of one operator nests. -/
inductive Assoc where
  | left
  | right
deriving DecidableEq, Repr

/-- An operator between two operands. -/
inductive BinaryOp where
  | add
  | sub
  | mul
  | div
  | mod
  | eq
  | notEq
  | lt
  | ltEq
  | gt
  | gtEq
  | and
  | or
  | xor
  | bitAnd
  | bitOr
  | bitXor
  | shl
  | shr
  | assign
  | addAssign
  | subAssign
  | mulAssign
  | divAssign
  | modAssign
  | bitAndAssign
  | bitOrAssign
  | bitXorAssign
  | shlAssign
  | shrAssign
deriving DecidableEq, Repr

namespace BinaryOp

/-- The common spelling of an operator. -/
def symbol : BinaryOp → String
  | .add => "+"
  | .sub => "-"
  | .mul => "*"
  | .div => "/"
  | .mod => "%"
  | .eq => "=="
  | .notEq => "!="
  | .lt => "<"
  | .ltEq => "<="
  | .gt => ">"
  | .gtEq => ">="
  | .and => "&&"
  | .or => "||"
  | .xor => "^^"
  | .bitAnd => "&"
  | .bitOr => "|"
  | .bitXor => "^"
  | .shl => "<<"
  | .shr => ">>"
  | .assign => "="
  | .addAssign => "+="
  | .subAssign => "-="
  | .mulAssign => "*="
  | .divAssign => "/="
  | .modAssign => "%="
  | .bitAndAssign => "&="
  | .bitOrAssign => "|="
  | .bitXorAssign => "^="
  | .shlAssign => "<<="
  | .shrAssign => ">>="

/-- The common rank of an operator. -/
def rank : BinaryOp → Rank
  | .mul | .div | .mod => .multiplicative
  | .add | .sub => .additive
  | .shl | .shr => .shift
  | .lt | .ltEq | .gt | .gtEq => .relational
  | .eq | .notEq => .equality
  | .bitAnd => .bitAnd
  | .bitXor => .bitXor
  | .bitOr => .bitOr
  | .and => .logicalAnd
  | .xor => .logicalXor
  | .or => .logicalOr
  | .assign | .addAssign | .subAssign | .mulAssign | .divAssign | .modAssign
  | .bitAndAssign | .bitOrAssign | .bitXorAssign | .shlAssign | .shrAssign => .assign

/-- Whether an operator stores into its left operand. -/
def isAssignment : BinaryOp → Bool
  | .assign | .addAssign | .subAssign | .mulAssign | .divAssign | .modAssign
  | .bitAndAssign | .bitOrAssign | .bitXorAssign | .shlAssign | .shrAssign => true
  | _ => false

/-- Assignments group to the right, all else to the left. -/
def assoc (op : BinaryOp) : Assoc := if op.isAssignment then .right else .left

end BinaryOp

/-- Whether a unary operator stands before or after its operand. -/
inductive Fixity where
  | before
  | after
deriving DecidableEq, Repr

/-- An operator of one operand. -/
inductive UnaryOp where
  | neg
  | not
  | bitNot
  | increment
  | decrement
deriving DecidableEq, Repr

namespace UnaryOp

/-- The common spelling of an operator, the same on either side of its operand. -/
def symbol : UnaryOp → String
  | .neg => "-"
  | .not => "!"
  | .bitNot => "~"
  | .increment => "++"
  | .decrement => "--"

/-- The common rank of an operator, which its side alone decides. -/
def rank (_ : UnaryOp) : Fixity → Rank
  | .before => .before
  | .after => .after

end UnaryOp

end ShaderLoom
