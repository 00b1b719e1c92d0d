import ShaderLoom.Dialect
import ShaderLoom.Text.Names

/-!
# Writing expressions

An operand is put in parentheses when it binds looser than its place, and on the side away from
the grouping of its operator also when it binds just as tightly, so that `a - (b - c)` keeps its
meaning and `-(-x)` never becomes `--x`. A reference takes the rank of what it is written as.

A reference may stand for a construction whose arguments hold references in turn. One step of
writing follows the expression at hand (`writeWith`, `rankWith`) and leaves what references stand
for to a given function; `writeWithin` and `rankWithin` iterate the step to a depth. A chain of
values each inside the next that never comes back to a value is no longer than there are
variables, so that depth is always enough for it (`Shader.write`).
-/
namespace ShaderLoom

/-- The rank of the place of an argument, where only a comma list needs parentheses. -/
def argumentRank : Rank := .assign

/-- An operand in its place. The rank of the operand is asked for before its text. -/
def enclosed (parent : Rank) (wrapTies : Bool) (rank : Naming Rank) (text : Naming String) :
    Naming String := do
  let child ← rank
  let text ← text
  if parent.needsParens child || (wrapTies && child == parent) then pure ("(" ++ text ++ ")")
  else pure text

namespace Shader

variable (shader : Shader) (dialect : Dialect)

/-- The rank of an expression as it will be written, given the ranks of inlined values. -/
def rankWith (deep : Expr → Naming Rank) : Expr → Naming Rank
  | .binary op _ _ => pure (dialect.binaryRank op)
  | .unary op fixity _ => pure (dialect.unaryRank op fixity)
  | .ref id => do
    match ← shader.binding id with
    | .named _ => pure .primary
    | .inlined value => deep value
  | .construct made [only] =>
    if made.status ≠ .forward ∧ made.flags.parenthesis then pure .after
    else rankWith deep only
  | .construct made _ => pure (if made.flags.parenthesis then .after else .comma)
  | .literal value => pure (if value.isNegative then .before else .primary)
  | .ternary _ _ _ => pure .ternary
  | .subscript _ _ => pure .after
  | .member _ _ => pure .after
  | .swizzle _ _ => pure .after
  | .call _ _ => pure .after

/-- The rank of an expression, with values inlined to a depth. -/
def rankWithin : Nat → Expr → Naming Rank
  | 0, _ => throw .endlessValue
  | depth + 1, expr => shader.rankWith dialect (rankWithin depth) expr

mutual

/-- The text of an expression, given the texts and ranks of inlined values. -/
def writeWith (deep : Expr → Naming String) (rank : Expr → Naming Rank) :
    Expr → Naming String
  | .literal value => pure (dialect.literal value)
  | .ref id => do
    match ← shader.binding id with
    | .named name => pure name
    | .inlined value => deep value
  | .construct made [only] => do
    if made.status = .forward then writeWith deep rank only
    else
      let typeName := if made.flags.displayType then dialect.typeName made.ty else ""
      if made.flags.parenthesis then
        let arg ← enclosed argumentRank false (shader.rankWith dialect rank only)
          (writeWith deep rank only)
        pure (typeName ++ "(" ++ arg ++ ")")
      else
        let value ← writeWith deep rank only
        pure (typeName ++ value)
  | .construct made args => do
    let typeName := if made.flags.displayType then dialect.typeName made.ty else ""
    if made.flags.parenthesis then
      let args ← writeArgs deep rank args
      pure (typeName ++ "(" ++ ", ".intercalate args ++ ")")
    else if args.isEmpty then throw (.invalidConstructor made.var)
    else
      let args ← writeArgs deep rank args
      pure (typeName ++ ", ".intercalate args)
  | .binary op lhs rhs => do
    let parent := dialect.binaryRank op
    let lhs ← enclosed parent (op.assoc == .right) (shader.rankWith dialect rank lhs)
      (writeWith deep rank lhs)
    let rhs ← enclosed parent (op.assoc == .left) (shader.rankWith dialect rank rhs)
      (writeWith deep rank rhs)
    pure (lhs ++ " " ++ dialect.binarySymbol op ++ " " ++ rhs)
  | .unary op fixity operand => do
    let text ← enclosed (dialect.unaryRank op fixity) (fixity == .before)
      (shader.rankWith dialect rank operand) (writeWith deep rank operand)
    match fixity with
    | .before => pure (dialect.unarySymbol op ++ text)
    | .after => pure (text ++ dialect.unarySymbol op)
  | .ternary condition yes no => do
    let condition ← enclosed .ternary true (shader.rankWith dialect rank condition)
      (writeWith deep rank condition)
    let yes ← enclosed .lowest false (shader.rankWith dialect rank yes) (writeWith deep rank yes)
    let no ← enclosed .ternary false (shader.rankWith dialect rank no) (writeWith deep rank no)
    pure (condition ++ " ? " ++ yes ++ " : " ++ no)
  | .subscript object index => do
    let object ← enclosed .after false (shader.rankWith dialect rank object)
      (writeWith deep rank object)
    let index ← enclosed .lowest false (shader.rankWith dialect rank index)
      (writeWith deep rank index)
    pure (object ++ "[" ++ index ++ "]")
  | .member object name => do
    let object ← enclosed .after false (shader.rankWith dialect rank object)
      (writeWith deep rank object)
    pure (object ++ "." ++ name)
  | .swizzle object components => do
    let object ← enclosed .after false (shader.rankWith dialect rank object)
      (writeWith deep rank object)
    pure (object ++ "." ++ String.ofList (components.map Component.letter))
  | .call callee args => do
    let name ← match callee with
      | .builtin name => pure (dialect.builtin name)
      | .function id => shader.nameOf id
    let args ← writeArgs deep rank args
    pure (name ++ "(" ++ ", ".intercalate args ++ ")")

/-- The texts of arguments, each in the place of an argument. -/
def writeArgs (deep : Expr → Naming String) (rank : Expr → Naming Rank) :
    List Expr → Naming (List String)
  | [] => pure []
  | arg :: rest => do
    let arg ← enclosed argumentRank false (shader.rankWith dialect rank arg)
      (writeWith deep rank arg)
    let rest ← writeArgs deep rank rest
    pure (arg :: rest)

end

/-- The text of an expression, with values inlined to a depth. -/
def writeWithin : Nat → Expr → Naming String
  | 0, _ => throw .endlessValue
  | depth + 1, expr =>
    shader.writeWith dialect (writeWithin depth) (shader.rankWithin dialect depth) expr

/-- The depth that suffices for every value that does not contain itself. -/
def inlineDepth : Nat := shader.registry.size + 1

/-- The rank of an expression as it will be written. -/
def rankOf (expr : Expr) : Naming Rank := shader.rankWithin dialect shader.inlineDepth expr

/-- The text of an expression in a place that takes any. -/
def write (expr : Expr) : Naming String := shader.writeWithin dialect shader.inlineDepth expr

end Shader

end ShaderLoom
