import ShaderLoom.Dialect

/-!
# GLSL and HLSL

The two standard dialects: GLSL 4.50, and HLSL of shader model 5.1. HLSL has no logical exclusive
or, and writes inequality for it, which is the same on booleans; it counts the rows of a matrix
before its columns.
-/
namespace ShaderLoom

/-- The letter before `vec` and `mat` that tells what the components are. -/
def Scalar.vectorLetter : Scalar → String
  | .bool => "b"
  | .int => "i"
  | .uint => "u"
  | .float => ""
  | .double => "d"

/-- The GLSL name of a sampler. -/
def SamplerDim.glslName : SamplerDim → String
  | .d1 => "sampler1D"
  | .d2 => "sampler2D"
  | .d3 => "sampler3D"
  | .cube => "samplerCube"
  | .d2Array => "sampler2DArray"
  | .d2Shadow => "sampler2DShadow"

/-- The GLSL name of a type. -/
def Ty.glslName : Ty → String
  | .void => "void"
  | .scalar kind => kind.keyword
  | .vector kind size => kind.vectorLetter ++ "vec" ++ toString size
  | .matrix kind cols rows =>
    kind.vectorLetter ++ "mat" ++ toString cols ++
      if cols = rows then "" else "x" ++ toString rows
  | .sampler dim => dim.glslName
  | .array elem length => elem.glslName ++ extent length
  | .struct name => name

/-- The HLSL name of a texture. -/
def SamplerDim.hlslName : SamplerDim → String
  | .d1 => "Texture1D"
  | .d2 => "Texture2D"
  | .d2Shadow => "Texture2D"
  | .d3 => "Texture3D"
  | .cube => "TextureCube"
  | .d2Array => "Texture2DArray"

/-- The HLSL name of a type. -/
def Ty.hlslName : Ty → String
  | .void => "void"
  | .scalar kind => kind.keyword
  | .vector kind size => kind.keyword ++ toString size
  | .matrix kind cols rows => kind.keyword ++ toString rows ++ "x" ++ toString cols
  | .sampler dim => dim.hlslName
  | .array elem length => elem.hlslName ++ extent length
  | .struct name => name

/-- The HLSL name of a provided function; most are called as they commonly are. -/
def hlslBuiltin (name : String) : String :=
  match name with
  | "mix" => "lerp"
  | "fract" => "frac"
  | "inversesqrt" => "rsqrt"
  | "dFdx" => "ddx"
  | "dFdy" => "ddy"
  | "mod" => "fmod"
  | other => other

namespace Dialect

/-- GLSL 4.50. -/
def glsl : Dialect where
  name := "glsl"
  preamble := some "#version 450"
  typeName := Ty.glslName
  doubleSuffix := "lf"

/-- HLSL, shader model 5.1. -/
def hlsl : Dialect where
  name := "hlsl"
  binarySymbol
    | .xor => "!="
    | op => op.symbol
  binaryRank
    | .xor => .equality
    | op => op.rank
  typeName := Ty.hlslName
  qualifier
    | .const => "static const"
    | .shared => "groupshared"
    | other => other.keyword
  doubleSuffix := "L"
  builtin := hlslBuiltin
  interfaceStyle := .constantBuffer

end Dialect

end ShaderLoom
