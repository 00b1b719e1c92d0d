/-!
# Types

A type is fully resolved: scalars, vectors, matrices, samplers, arrays of any type and structs
by name. Each target spells types its own way; the spelling here belongs to no target and is
what messages use. The category of a type groups variables for automatic naming, one stem
letter to a category.
-/
namespace ShaderLoom

/-- What one component holds. -/
inductive Scalar where
  | bool
  | int
  | uint
  | float
  | double
deriving DecidableEq, Repr

/-- The keyword of a scalar, the same in every target. -/
def Scalar.keyword : Scalar → String
  | .bool => "bool"
  | .int => "int"
  | .uint => "uint"
  | .float => "float"
  | .double => "double"

/-- The shape of what a sampler reads. -/
inductive SamplerDim where
  | d1
  | d2
  | d3
  | cube
  | d2Array
  | d2Shadow
deriving DecidableEq, Repr

/-- The shape as messages write it. -/
def SamplerDim.text : SamplerDim → String
  | .d1 => "D1"
  | .d2 => "D2"
  | .d3 => "D3"
  | .cube => "Cube"
  | .d2Array => "D2Array"
  | .d2Shadow => "D2Shadow"

/-- A fully resolved type. -/
inductive Ty where
  | void
  | scalar (kind : Scalar)
  /-- Some components of one kind; two to four of them in a shader that makes sense. -/
  | vector (kind : Scalar) (size : Nat)
  /-- Columns, each of as many components as there are rows. -/
  | matrix (kind : Scalar) (cols rows : Nat)
  /-- An image that can be read at a position. -/
  | sampler (dim : SamplerDim)
  /-- An array of `elem`; without a length it is unsized. -/
  | array (elem : Ty) (length : Option Nat)
  /-- A struct declared under this name. -/
  | struct (name : String)
deriving DecidableEq, Repr

/-- What a variable is named after when it has no name of its own. -/
inductive Category where
  | scalar
  | vector
  | matrix
  | sampler
  | array
  /-- Functions, whatever they return. -/
  | function
  /-- Structs, interface blocks and values of type `void`. -/
  | other
deriving DecidableEq, Repr

/-- The letter that automatic names of a category start with. -/
def Category.stem : Category → String
  | .scalar => "x"
  | .vector => "v"
  | .matrix => "m"
  | .sampler => "s"
  | .array => "a"
  | .function => "f"
  | .other => "o"

/-- The place of a category among all seven. -/
def Category.index : Category → Fin 7
  | .scalar => 0
  | .vector => 1
  | .matrix => 2
  | .sampler => 3
  | .array => 4
  | .function => 5
  | .other => 6

/-- The brackets of an array dimension; an unsized one has nothing between them. -/
def extent : Option Nat → String
  | some length => "[" ++ toString length ++ "]"
  | none => "[]"

namespace Ty

/-- The float vector of `size` components. -/
def vec (size : Nat) : Ty := .vector .float size

/-- The scalar boolean type; a boolean vector is not one. -/
def isBool : Ty → Bool
  | .scalar .bool => true
  | _ => false

/-- Whether a type is `void`. -/
def isVoid : Ty → Bool
  | .void => true
  | _ => false

/-- The category of a value of this type. -/
def category : Ty → Category
  | .scalar _ => .scalar
  | .vector _ _ => .vector
  | .matrix _ _ _ => .matrix
  | .sampler _ => .sampler
  | .array _ _ => .array
  | .void => .other
  | .struct _ => .other

/-- A type as messages write it. -/
def text : Ty → String
  | .void => "void"
  | .scalar kind => kind.keyword
  | .vector kind size => kind.keyword ++ toString size
  | .matrix kind cols rows => kind.keyword ++ toString cols ++ "x" ++ toString rows
  | .sampler dim => "sampler" ++ dim.text
  | .array elem length => elem.text ++ extent length
  | .struct name => name

end Ty

/-- How a variable or a parameter is stored and passed. -/
inductive Qualifier where
  | input
  | output
  | inout
  | uniform
  | const
  | shared
deriving DecidableEq, Repr

end ShaderLoom
