import ShaderLoom.Dialect

/-!
# Dialects made from others

A dialect can be made from another by overriding part of it. Names of types and keywords of
qualifiers stay those of the dialect underneath. Declarators, literals and keyword statements that
are not said anew are the common ones, made from the names and the suffix of the new dialect.
-/
namespace ShaderLoom

/-- What is said anew. -/
structure Overrides where
  /-- A new preamble, which may be to have none. -/
  preamble : Option (Option String) := none
  binarySymbol : BinaryOp → Option String := fun _ => none
  binaryRank : BinaryOp → Option Rank := fun _ => none
  unarySymbol : UnaryOp → Option String := fun _ => none
  unaryRank : UnaryOp → Fixity → Option Rank := fun _ _ => none
  doubleSuffix : Option String := none
  builtin : String → Option String := fun _ => none
  interfaceStyle : Option InterfaceStyle := none
  declarator : Option (Ty → String → String) := none
  literal : Option (Literal → String) := none
  special : Option (Special → String) := none

/-- The dialect `base` with overrides. -/
def Dialect.override (base : Dialect) (o : Overrides) : Dialect where
  name := "custom"
  preamble := o.preamble.getD base.preamble
  binarySymbol op := (o.binarySymbol op).getD (base.binarySymbol op)
  binaryRank op := (o.binaryRank op).getD (base.binaryRank op)
  unarySymbol op := (o.unarySymbol op).getD (base.unarySymbol op)
  unaryRank op fixity := (o.unaryRank op fixity).getD (base.unaryRank op fixity)
  typeName := base.typeName
  declarator := o.declarator.getD (Ty.declarator base.typeName)
  qualifier := base.qualifier
  doubleSuffix := o.doubleSuffix.getD base.doubleSuffix
  literal := o.literal.getD (Literal.text (o.doubleSuffix.getD base.doubleSuffix))
  builtin name := (o.builtin name).getD (base.builtin name)
  special := o.special.getD Special.text
  interfaceStyle := o.interfaceStyle.getD base.interfaceStyle

end ShaderLoom
