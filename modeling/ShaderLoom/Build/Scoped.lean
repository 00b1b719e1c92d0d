import ShaderLoom.Build.Value
import ShaderLoom.Build.Branch
import ShaderLoom.Build.Loop
import ShaderLoom.Build.Function

/-!
# Scopes that close themselves

Each helper opens a scope, runs what belongs inside it and closes the scope again. They work in
every monad that can make the calls of a build, so what runs inside may do other things too. The
first failure ends the helper with that failure.
-/
namespace ShaderLoom.Build

variable {m : Type → Type} [Monad m] [MonadLiftT Build m]

/-- A chain of one condition. -/
def ifThen (condition : Expr) (yes : m Unit) : m Unit := do
  beginIf condition
  yes
  endIf

/-- A condition and its `else`. -/
def ifElse (condition : Expr) (yes no : m Unit) : m Unit := do
  beginIf condition
  yes
  endIfSubBlock
  beginElse
  no
  endIfSubBlock

/-- A loop that tests before its body. -/
def whileDo (condition : Expr) (body : m Unit) : m Unit := do
  beginWhile condition
  body
  endWhile

/-- A loop with the clauses of its header. -/
def forDo (clauses : ForClauses) (body : m Unit) : m Unit := do
  beginForClauses clauses
  body
  endFor

/-- A switch with a body to each label. -/
def switchOn (selector : Expr) (cases : List (Option Literal × m Unit)) : m Unit := do
  beginSwitch selector
  cases.forM fun (label, body) => do
    addCase label
    body
  endSwitch

/-- A function and its first overload. -/
def beginFuncWith (name : String) (returns : Ty) (params : List Ty) : Build VarId := do
  let var ← beginFunc name returns
  nextOverload params
  pure var

/-- A named parameter. -/
structure Param where
  ty : Ty
  name : String
  /-- How it is passed, if that is said. -/
  qualifier : Option Qualifier

/-- A function of one overload; its body gets the variables of its parameters in order. -/
def function (name : String) (returns : Ty) (params : List Param)
    (body : List VarId → m Unit) : m VarId := do
  let var ← beginFuncWith name returns (params.map (·.ty))
  let vars ← params.mapM fun param =>
    (declareParam param.ty (some param.name) param.qualifier : m VarId)
  body vars
  endFunc
  pure var

end ShaderLoom.Build
