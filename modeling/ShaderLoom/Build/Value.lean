import ShaderLoom.Build.Session

/-!
# Building values

A constructed value gets a variable, and a statement that constructs it. Whether that statement
declares the variable, stands as a bare expression or vanishes into the place where the value is
used, the registry decides from how the variable is used later. A qualified value and a parameter
are pinned from the start.
-/
namespace ShaderLoom

/-- Everything that makes one value. -/
structure ValueSpec where
  ty : Ty
  /-- The status it starts in. -/
  status : Status
  /-- How it is written. -/
  flags : Flags
  qualifier : Option Qualifier
  /-- The name it is given, if any. -/
  name : Option String
  /-- What it is made from. -/
  args : List Expr

namespace Build

/-- Make a value and push the statement that constructs it. -/
def emitValue (spec : ValueSpec) : Build VarId := do
  if spec.status = .forward ∧ spec.args.length ≠ 1 then
    throw (.forwardArity spec.ty spec.args.length)
  let var ← create spec.ty spec.ty.category spec.name spec.status
  if spec.qualifier.isSome || spec.flags.functionArgument then
    register (·.pin var)
  append (.statement (.construct
    { var, ty := spec.ty, status := spec.status, flags := spec.flags,
      qualifier := spec.qualifier } spec.args))
  pure var

/-- Make a value of any shape. -/
def emit (spec : ValueSpec) : Build VarId := guarded (emitValue spec)

/-- A value `T(args)`, written in place if it is consumed at once and never used otherwise. -/
def construct (ty : Ty) (args : List Expr) : Build VarId :=
  emit { ty, status := .initialisation, flags := .call, qualifier := none, name := none, args }

/-- A value `T(args)` with a name, never written in place. -/
def constructNamed (ty : Ty) (name : String) (args : List Expr) : Build VarId :=
  emit { ty, status := .initialisation, flags := .call, qualifier := none, name := some name,
         args }

/-- A variable without a value. -/
def declare (ty : Ty) (name : Option String) : Build VarId :=
  emit { ty, status := .declaration, flags := .none, qualifier := none, name, args := [] }

/-- A value that stands for one expression: its use decides how it is written. -/
def forward (ty : Ty) (value : Expr) : Build VarId :=
  emit { ty, status := .forward, flags := .none, qualifier := none, name := none,
         args := [value] }

/-- A qualified variable without a value. -/
def declareGlobal (qualifier : Qualifier) (ty : Ty) (name : String) : Build VarId :=
  emit { ty, status := .declaration, flags := .none, qualifier := some qualifier,
         name := some name, args := [] }

/-- A named constant. -/
def declareConst (ty : Ty) (name : String) (value : Expr) : Build VarId :=
  emit { ty, status := .initialisation, flags := .none, qualifier := some .const,
         name := some name, args := [value] }

/-- The next parameter of the open parameter list. -/
def declareParam (ty : Ty) (name : Option String) (qualifier : Option Qualifier) : Build VarId :=
  emit { ty, status := .declaration, flags := .parameter, qualifier, name, args := [] }

/-- An expression `T(args)` that is never declared. -/
def inline (ty : Ty) (args : List Expr) : Build Expr :=
  guarded do
    let var ← create ty ty.category none .temporary
    register (·.pin var)
    pure (.construct { var, ty, status := .temporary, flags := .call, qualifier := none } args)

/-- A reference to a variable by name. -/
def use (id : VarId) : Build Expr :=
  guarded do
    register (·.use id)
    pure (.ref id)

/-- A reference to a variable once and for all: a value consumed at once is written in place. -/
def consume (id : VarId) : Build Expr :=
  guarded do
    register (·.consume id)
    pure (.ref id)

/-- Push an expression as a statement. -/
def push (expr : Expr) : Build Unit := guarded (append (.statement expr))

/-- Declare a struct and return the type that names it. -/
def declareStruct (name : String) (fields : List Field) : Build Ty :=
  guarded do
    append (.struct ⟨name, fields⟩)
    pure (.struct name)

/-- Declare an interface block and return the variable of its instance. -/
def declareInterface (qualifier : Qualifier) (name : String) (fields : List Field)
    (inst : String) : Build VarId :=
  guarded do
    let var ← create (.struct name) .other (some inst) .declaration
    register (·.pin var)
    append (.interface ⟨var, qualifier, name, fields⟩)
    pure var

end Build

end ShaderLoom
