import ShaderLoom.Id
import ShaderLoom.Ty
import ShaderLoom.Operator
import ShaderLoom.Literal

/-!
# Expressions

An expression is a tree. Its leaves are literals and references to variables; a reference holds
the number of the variable alone, and what it is written as is decided when the shader is
rendered. A construction makes the value of a variable: as a statement it may declare the
variable, as an operand it is the value itself.
-/
namespace ShaderLoom

/-- The stage of life of a constructed value. -/
inductive Status where
  /-- A name without a value. -/
  | declaration
  /-- A name bound to a value. -/
  | initialisation
  /-- No statement of its own; written where it is used. -/
  | temporary
  /-- Stands for one other expression until a use decides. -/
  | forward
deriving DecidableEq, Repr

/-- How a construction is written. -/
structure Flags where
  /-- The type name stands before the arguments. -/
  displayType : Bool
  /-- The arguments stand in parentheses. -/
  parenthesis : Bool
  /-- A later declaration of one header, written without its type. -/
  multipleInits : Bool
  /-- A parameter of a function. -/
  functionArgument : Bool
deriving DecidableEq, Repr

namespace Flags

/-- No flag. -/
def none : Flags := ⟨false, false, false, false⟩

/-- A type name and arguments in parentheses, like a call. -/
def call : Flags := ⟨true, true, false, false⟩

/-- A parameter and nothing else. -/
def parameter : Flags := ⟨false, false, false, true⟩

/-- The flags as one number, a binary digit to a flag. -/
def bits (flags : Flags) : Nat :=
  flags.displayType.toNat + 2 * flags.parenthesis.toNat + 4 * flags.multipleInits.toNat +
    8 * flags.functionArgument.toNat

end Flags

/-- What a construction says apart from its arguments. -/
structure Construction where
  /-- The variable it makes the value of. -/
  var : VarId
  /-- The type of the value. -/
  ty : Ty
  /-- The status it was made with; the registry holds the current one. -/
  status : Status
  flags : Flags
  qualifier : Option Qualifier
deriving DecidableEq, Repr

/-- What a call calls. -/
inductive Callee where
  /-- A function the target provides, by its common name. -/
  | builtin (name : String)
  /-- A function of this build. -/
  | function (id : VarId)
deriving DecidableEq, Repr

/-- One component of a vector. -/
inductive Component where
  | x
  | y
  | z
  | w
deriving DecidableEq, Repr

namespace Component

/-- The letter a component is written with. -/
def letter : Component → Char
  | .x => 'x'
  | .y => 'y'
  | .z => 'z'
  | .w => 'w'

/-- The component a position, colour or texture letter names. -/
def ofChar? : Char → Option Component
  | 'x' | 'r' | 's' => some .x
  | 'y' | 'g' | 't' => some .y
  | 'z' | 'b' | 'p' => some .z
  | 'w' | 'a' | 'q' => some .w
  | _ => none

end Component

/-- An expression. -/
inductive Expr where
  | literal (value : Literal)
  /-- A variable by number. -/
  | ref (id : VarId)
  /-- The value of a variable, made from arguments. -/
  | construct (made : Construction) (args : List Expr)
  | binary (op : BinaryOp) (lhs rhs : Expr)
  | unary (op : UnaryOp) (fixity : Fixity) (operand : Expr)
  | ternary (condition yes no : Expr)
  | subscript (object index : Expr)
  | member (object : Expr) (name : String)
  /-- Components of a vector in any order, repeated or not. -/
  | swizzle (object : Expr) (components : List Component)
  | call (callee : Callee) (args : List Expr)

namespace Expr

/-- An integer. -/
def int (value : Int) : Expr := .literal (.int value)

/-- A single-precision number, given by its pattern. -/
def float (bits : UInt64) : Expr := .literal (.float ⟨bits⟩)

/-- The assignment of a value to a target. -/
def assign (target value : Expr) : Expr := .binary .assign target value

/-- A call of a function the target provides. -/
def builtin (name : String) (args : List Expr) : Expr := .call (.builtin name) args

/-- The components that the letters of a pattern name; other letters count for nothing. -/
def swizzleOf (object : Expr) (pattern : String) : Expr :=
  .swizzle object (pattern.toList.filterMap Component.ofChar?)

/-- What the expression constructs, if it is a construction. -/
def construction? : Expr → Option Construction
  | .construct made _ => some made
  | _ => none

/-- The argument that a forward of exactly one argument stands for. -/
def passThrough? : Expr → Option Expr
  | .construct made [only] => if made.status = .forward then some only else none
  | _ => none

/-- The rank that neither a target nor the life of a variable can change. -/
def intrinsicRank? : Expr → Option Rank
  | .literal value => some (if value.isNegative then .before else .primary)
  | .subscript _ _ => some .after
  | .member _ _ => some .after
  | .swizzle _ _ => some .after
  | .call _ _ => some .after
  | .ternary _ _ _ => some .ternary
  | .ref _ => none
  | .construct _ _ => none
  | .binary _ _ _ => none
  | .unary _ _ _ => none

end Expr

end ShaderLoom
