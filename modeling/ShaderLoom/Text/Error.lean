import ShaderLoom.Instruction

/-!
# Why a shader cannot be written

A shader whose tree and registry agree can be written. These are the ways in which they can
disagree.
-/
namespace ShaderLoom

/-- Why a shader cannot be written. -/
inductive RenderError where
  /-- A reference to a variable the registry does not have. -/
  | unregisteredVariable (id : VarId)
  | unknownBlock (id : BlockId)
  /-- A declaration without a value where a value is needed. -/
  | invalidConstructor (id : VarId)
  /-- A parameter among statements. -/
  | strayParameter
  /-- An instruction that is no statement in the header of a loop. -/
  | inForHeader (kind : Kind)
  /-- An instruction that is no parameter in a parameter list. -/
  | inParameterList (kind : Kind)
  | missingLoopCondition
  /-- A value that contains itself; it has no finite text. -/
  | endlessValue
deriving DecidableEq, Repr

/-- The message of a failure. -/
def RenderError.message : RenderError → String
  | .unregisteredVariable id => "reference to unregistered variable " ++ id.text
  | .unknownBlock id => "unknown block " ++ id.label
  | .invalidConstructor id => "constructor of " ++ id.text ++ " has no value to inline"
  | .strayParameter => "parameter is not allowed in a statement block"
  | .inForHeader kind => kind.text ++ " is not allowed in a for header"
  | .inParameterList kind => kind.text ++ " is not allowed in a parameter list"
  | .missingLoopCondition => "do-while loop was never given a condition"
  | .endlessValue => "value contains itself"

end ShaderLoom
