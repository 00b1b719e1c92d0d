import ShaderLoom.Build.Session

/-!
# Building loops and keyword statements

The header of a `for` loop is given as clauses, or recorded: its statements are pushed like any
others, between `beginForArgs` and `beginForBody`, and sorted into clauses when the loop is
rendered. A condition can also be given beside the recorded header. A `break` needs a loop body
or a switch case around it, a `continue` a loop body, both within the same function, and a
`discard` needs a function.
-/
namespace ShaderLoom

/-- Whether a keyword that leaves or repeats a loop may stand inside these scopes, innermost first:
there is a loop body before the nearest function, or a switch case if that counts too. -/
def inBreakable (switchCounts : Bool) : List Frame → Bool
  | [] => false
  | .forLoop _ _ _ _ .body :: _ => true
  | .whileLoop _ _ :: _ => true
  | .doWhile _ _ :: _ => true
  | .switch _ _ (some _) :: rest => switchCounts || inBreakable switchCounts rest
  | .function _ _ _ _ :: _ => false
  | _ :: rest => inBreakable switchCounts rest

namespace Build

/-- Open a loop whose header is recorded. -/
def beginFor : Build Unit :=
  guarded do
    let parent ← prepare .forLoop false
    let args ← newBlock parent .forArgs
    let body ← newBlock parent .plain
    let policy := (← get).options.policy
    let site ← commit parent (.forLoop (.recorded args none policy) body)
    openScope (.forLoop site parent (some args) body .created) parent

/-- Open a loop with the clauses of its header and move into its body. -/
def beginForClauses (clauses : ForClauses) : Build Unit :=
  guarded do
    let parent ← prepare .forLoop false
    let body ← newBlock parent .plain
    let site ← commit parent (.forLoop (.clauses clauses) body)
    openScope (.forLoop site parent none body .body) body

/-- A clause `T name = value` that declares a variable in the header of a loop. -/
def forInit (ty : Ty) (name : Option String) (value : Expr) : Build (VarId × Expr) :=
  guarded do
    let var ← create ty ty.category name .initialisation
    register (·.pin var)
    pure (var, .construct
      { var, ty, status := .initialisation, flags := .none, qualifier := none } [value])

/-- Move into the recorded header of the innermost loop. -/
def beginForArgs : Build Unit :=
  guarded do
    match (← get).scopes with
    | .forLoop site parent (some args) body .created :: _ =>
      replaceScope (.forLoop site parent (some args) body .args) args
    | .forLoop _ _ _ _ phase :: _ => throw (.forPhase phase .beginForArgs)
    | _ => throw (.unbalanced .beginFor .beginForArgs)

/-- Give the innermost loop a condition beside its recorded header. -/
def stackForCondition (condition : Expr) : Build Unit :=
  guarded do
    match (← get).scopes with
    | .forLoop _ _ _ _ .body :: _ => throw (.forPhase .body .stackForCondition)
    | .forLoop site _ _ _ _ :: _ => amend site (·.stackCondition condition)
    | _ => throw (.unbalanced .beginFor .stackForCondition)

/-- Move into the body of the innermost loop, with or without its header. -/
def beginForBody : Build Unit :=
  guarded do
    match (← get).scopes with
    | .forLoop _ _ _ _ .body :: _ => throw (.forPhase .body .beginForBody)
    | .forLoop site parent args body _ :: _ =>
      replaceScope (.forLoop site parent args body .body) body
    | _ => throw (.unbalanced .beginFor .beginForBody)

/-- Close the innermost loop, from its body. -/
def endFor : Build Unit :=
  guarded do
    modify Session.settle
    match (← get).scopes with
    | .forLoop _ parent _ _ .body :: _ => closeScope parent
    | .forLoop _ _ _ _ phase :: _ => throw (.forPhase phase .endFor)
    | _ => throw (.unbalanced .beginFor .endFor)

/-- Open a loop that tests before its body. -/
def beginWhile (condition : Expr) : Build Unit :=
  guarded do
    let parent ← prepare .whileLoop false
    let body ← newBlock parent .plain
    let site ← commit parent (.whileLoop condition body)
    openScope (.whileLoop site parent) body

/-- Close the innermost loop that tests before its body. -/
def endWhile : Build Unit :=
  guarded do
    modify Session.settle
    match (← get).scopes with
    | .whileLoop _ parent :: _ => closeScope parent
    | _ => throw (.unbalanced .beginWhile .endWhile)

/-- Open a loop that tests after its body. -/
def beginDoWhile : Build Unit :=
  guarded do
    let parent ← prepare .doWhile false
    let body ← newBlock parent .plain
    let site ← commit parent (.doWhile body none)
    openScope (.doWhile site parent) body

/-- Close the innermost loop that tests after its body, giving its condition. -/
def endDoWhile (condition : Expr) : Build Unit :=
  guarded do
    modify Session.settle
    match (← get).scopes with
    | .doWhile site parent :: _ =>
      amend site (·.closeDoWhile condition)
      closeScope parent
    | _ => throw (.unbalanced .beginDoWhile .endDoWhile)

/-- Why a keyword statement cannot stand inside these scopes, if it cannot. -/
def misplaced? (scopes : List Frame) : Special → Option BuildError
  | .breakLoop => if inBreakable true scopes then none else some (.notInLoop "break")
  | .continueLoop => if inBreakable false scopes then none else some (.notInLoop "continue")
  | .discard => if scopes.any Frame.isFunction then none else some (.notInFunction "discard")
  | .vendor _ => none

/-- Push a keyword statement. -/
def addStatement (stmt : Special) : Build Unit :=
  guarded do
    match misplaced? (← get).scopes stmt with
    | some error => throw error
    | none => append (.special stmt)

end Build

end ShaderLoom
