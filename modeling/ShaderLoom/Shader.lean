import ShaderLoom.Tree
import ShaderLoom.Registry

/-!
# Finished shaders

A shader is a closed tree of blocks together with the variables it speaks of. A variable whose
value is written where it is used stands for the construction that was pushed as a statement for
it, the last such if there are several (`Shader.inlined?`).
-/
namespace ShaderLoom

/-- A finished build. -/
structure Shader where
  tree : Tree
  registry : Registry

namespace Shader

/-- A variable by number. -/
def var? (shader : Shader) (id : VarId) : Option Record := shader.registry.get? id

/-- Every construction that stands as a statement, in the order of the blocks. -/
def constructions (shader : Shader) : List Expr :=
  shader.tree.blocks.toList.flatMap fun block =>
    block.instructions.toList.filterMap fun
      | .statement (.construct made args) => some (.construct made args)
      | _ => none

/-- The last statement that constructs a variable. -/
def constructionOf? (shader : Shader) (id : VarId) : Option Expr :=
  shader.constructions.reverse.find? fun expr => expr.construction?.any (·.var == id)

/-- The construction that a reference to a variable is replaced by, if it is. -/
def inlined? (shader : Shader) (id : VarId) : Option Expr :=
  if (shader.var? id).any (·.isInlined) then shader.constructionOf? id else none

/-- The names that variables were given. -/
def givenNames (shader : Shader) : List String :=
  shader.registry.records.toList.filterMap (·.name)

end Shader

end ShaderLoom
