import ShaderLoom.Instruction

/-!
# Dialects

A dialect is everything that differs between the languages a shader is written in: symbols and
ranks of operators, names of types, declarators, keywords of qualifiers, literals, names of provided
functions, keyword statements, the line before everything else and the form of interface blocks.
What a dialect does not say for itself is said as most languages of this family say it.
-/
namespace ShaderLoom

/-- The form of an interface block. -/
inductive InterfaceStyle where
  /-- A qualified block with its instance behind it. -/
  | block
  /-- A struct, and a constant buffer of it. -/
  | constantBuffer
deriving DecidableEq, Repr

/-- The keyword a qualifier commonly has. -/
def Qualifier.keyword : Qualifier → String
  | .input => "in"
  | .output => "out"
  | .inout => "inout"
  | .uniform => "uniform"
  | .const => "const"
  | .shared => "shared"

/-- A declared name with its type, as it is commonly written where types are named so. The outermost
dimension of an array stands behind the name. -/
def Ty.declarator (typeName : Ty → String) (ty : Ty) (name : String) : String :=
  match ty with
  | .array elem length => typeName elem ++ " " ++ name ++ extent length
  | _ => typeName ty ++ " " ++ name

/-- A literal as it is commonly written. Double precision is marked where a literal form exists. -/
def Literal.text (doubleSuffix : String) : Literal → String
  | .bool value => if value then "true" else "false"
  | .int value => toString value
  | .uint value => toString value ++ "u"
  | .float value => value.text
  | .double value => value.text ++ if value.isFinite then doubleSuffix else ""

/-- A keyword statement without its semicolon, as it is commonly written. -/
def Special.text : Special → String
  | .breakLoop => "break"
  | .continueLoop => "continue"
  | .discard => "discard"
  | .vendor text => text

/-- A language a shader can be written in. -/
structure Dialect where
  name : String
  /-- The line before everything else, if any. -/
  preamble : Option String := none
  binarySymbol : BinaryOp → String := BinaryOp.symbol
  binaryRank : BinaryOp → Rank := BinaryOp.rank
  unarySymbol : UnaryOp → String := UnaryOp.symbol
  unaryRank : UnaryOp → Fixity → Rank := UnaryOp.rank
  /-- A type where an expression is expected. -/
  typeName : Ty → String
  /-- A declared name with its type. -/
  declarator : Ty → String → String := Ty.declarator typeName
  qualifier : Qualifier → String := Qualifier.keyword
  /-- What marks a literal of double precision. -/
  doubleSuffix : String
  literal : Literal → String := Literal.text doubleSuffix
  /-- What a provided function is called, by its common name. -/
  builtin : String → String := fun name => name
  /-- A keyword statement without its semicolon. -/
  special : Special → String := Special.text
  interfaceStyle : InterfaceStyle := .block

end ShaderLoom
