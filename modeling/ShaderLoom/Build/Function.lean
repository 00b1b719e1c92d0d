import ShaderLoom.Build.Session

/-!
# Building functions

A function has no body until an overload is opened. Opening one moves into its parameter list, or
straight into its body if it has no parameters. A return that does not fit the return type of its
function is not refused; what was expected and what was found is noted on it.
-/
namespace ShaderLoom.Build

/-- Declare a function; functions do not nest. -/
def beginFunc (name : String) (returns : Ty) : Build VarId :=
  guarded do
    modify Session.settle
    if (← get).scopes.any Frame.isFunction then throw (.nestedFunction name)
    let parent ← prepare .function false
    let var ← create returns .function (some name) .declaration
    register (·.pin var)
    let site ← commit parent (.function ⟨var, name, returns, []⟩)
    openScope (.function site parent var none) parent
    pure var

/-- Fail if parameters of this overload are still to come. -/
def requireComplete (var : VarId) (overload : Option OpenOverload) (found : Step) :
    Build Unit := do
  match overload with
  | some overload =>
    if overload.inSignature then
      throw (.nonArgumentInSignature (.call found) ((← get).registry.nameOrNumber var)
        overload.missing)
  | none => pure ()

/-- Open the next overload of the innermost function. -/
def nextOverload (params : List Ty) : Build Unit :=
  guarded do
    modify Session.settle
    match (← get).scopes with
    | .function site parent var overload :: _ =>
      requireComplete var overload .nextOverload
      match (← get).tree.instruction? site with
      | some (.function decl) =>
        let args ← newBlock parent .funcArgs
        let body ← newBlock parent (.body decl.returns)
        amend site (·.addOverload ⟨params, args, body⟩)
        replaceScope (.function site parent var (some ⟨args, body, params.length, 0⟩))
          (if params.isEmpty then body else args)
      | _ => throw (.unbalanced .beginFunc .nextOverload)
    | _ => throw (.unbalanced .beginFunc .nextOverload)

/-- Close the innermost function. -/
def endFunc : Build Unit :=
  guarded do
    modify Session.settle
    match (← get).scopes with
    | .function _ parent var overload :: _ =>
      if overload.isNone then throw (.noOverload ((← get).registry.nameOrNumber var))
      requireComplete var overload .endFunc
      closeScope parent
    | _ => throw (.unbalanced .beginFunc .endFunc)

/-- Push a return of a value of type `found`. -/
def pushReturn (value : Option Expr) (found : Ty) : Build Unit := do
  let block ← prepare .ret false
  match (← get).tree.returnType? block with
  | none => throw (.notInFunction "return")
  | some expected =>
    let _ ← commit block (.ret value (if expected = found then none else some ⟨expected, found⟩))

/-- Push a return of a value of the given type. -/
def returnValue (value : Expr) (ty : Ty) : Build Unit := guarded (pushReturn (some value) ty)

/-- Push a return without a value. -/
def returnVoid : Build Unit := guarded (pushReturn none .void)

end ShaderLoom.Build
