import ShaderLoom.Text.Expr

/-!
# Loop headers

The statements of a recorded header are sorted into clauses in the order in which they stand. The
header starts among its inits: declared values go there, and so does one plain expression if it
comes first and no condition was given beside the header. The first forward ends the inits. If it
is boolean it is the condition, and boolean constructions right after it replace it; anything else
starts the increments, and all that follows is one.
-/
namespace ShaderLoom

/-- How far the sorting of a header has come. -/
inductive HeaderPhase where
  | inits
  | condition
  | increments
deriving DecidableEq, Repr

/-- A header sorted so far. -/
structure Sorting where
  phase : HeaderPhase
  inits : List Expr
  /-- The last condition found. -/
  captured : Option Expr
  increments : List Expr

namespace Sorting

/-- Nothing sorted yet. -/
def start : Sorting := ⟨.inits, [], none, []⟩

/-- One more increment, after which nothing else comes. -/
def toIncrements (sorting : Sorting) (expr : Expr) : Sorting :=
  { sorting with phase := .increments, increments := sorting.increments ++ [expr] }

/-- One more condition, in place of the one before. -/
def toCondition (sorting : Sorting) (expr : Expr) : Sorting :=
  { sorting with phase := .condition, captured := some expr }

/-- One more init. -/
def toInits (sorting : Sorting) (expr : Expr) : Sorting :=
  { sorting with inits := sorting.inits ++ [expr] }

/-- Sort one statement; `stacked` says whether a condition was given beside the header. -/
def add (stacked : Bool) (sorting : Sorting) (expr : Expr) : Sorting :=
  match expr.construction?, sorting.phase with
  | none, .inits =>
    if sorting.inits.isEmpty && !stacked then sorting.toInits expr else sorting.toIncrements expr
  | none, _ => sorting.toIncrements expr
  | some made, .inits =>
    if made.status ≠ .forward then sorting.toInits expr
    else if made.ty.isBool then sorting.toCondition expr
    else sorting.toIncrements expr
  | some made, .condition =>
    if made.ty.isBool then sorting.toCondition expr else sorting.toIncrements expr
  | some _, .increments => sorting.toIncrements expr

end Sorting

/-- The expressions of a list of instructions that are all statements. -/
def headerStatements : List Instruction → Except RenderError (List Expr)
  | [] => .ok []
  | .statement expr :: rest => return expr :: (← headerStatements rest)
  | other :: _ => .error (.inForHeader other.kind)

/-- The condition of a loop, from the one in its header and the one given beside it. -/
def ConditionPolicy.choose (policy : ConditionPolicy) (captured stacked : Option Expr) :
    Option Expr :=
  match policy with
  | .preferCaptured => captured.or stacked
  | .preferStacked => stacked.or captured

/-- Sort a recorded header into clauses. -/
def partition (instructions : List Instruction) (stacked : Option Expr)
    (policy : ConditionPolicy) : Except RenderError ForClauses := do
  let sorting := (← headerStatements instructions).foldl (Sorting.add stacked.isSome) .start
  pure ⟨sorting.inits, policy.choose sorting.captured stacked, sorting.increments⟩

/-- A clause behind a semicolon; an empty one takes no space. -/
def clauseText (text : String) : String := if text.isEmpty then "" else " " ++ text

namespace Shader

variable (shader : Shader) (dialect : Dialect)

/-- The clauses of a header, however it was given. -/
def clauses : ForHeader → Except RenderError ForClauses
  | .clauses clauses => .ok clauses
  | .recorded args stacked policy =>
    match shader.tree.block? args with
    | none => .error (.unknownBlock args)
    | some block => partition block.instructions.toList stacked policy

/-- The name and type of a declared variable, behind its qualifier. -/
def writeDeclaration (made : Construction) : Naming String := do
  let name ← shader.nameOf made.var
  let declarator := dialect.declarator made.ty name
  match made.qualifier with
  | some qualifier => pure (dialect.qualifier qualifier ++ " " ++ declarator)
  | none => pure declarator

/-- One init of a header. A declared variable that follows another init is written without its
type, which cannot be said again. -/
def writeInit (follows : Bool) (expr : Expr) : Naming String := do
  match expr with
  | .construct made args =>
    if made.status = .declaration ∨ made.status = .initialisation then
      let target ←
        if follows || made.flags.multipleInits then shader.nameOf made.var
        else shader.writeDeclaration dialect made
      if args.isEmpty then pure target
      else
        let value ← shader.write dialect expr
        pure (target ++ " = " ++ value)
    else shader.write dialect expr
  | _ => shader.write dialect expr

/-- The inits of a header in order; `follows` says whether another init came before. -/
def writeInits (follows : Bool) : List Expr → Naming (List String)
  | [] => pure []
  | expr :: rest => do
    let text ← shader.writeInit dialect follows expr
    let rest ← writeInits true rest
    pure (text :: rest)

/-- The three clauses of a header, separated by semicolons. -/
def writeHeader (clauses : ForClauses) : Naming String := do
  let inits ← shader.writeInits dialect false clauses.inits
  let condition ← match clauses.condition with
    | some condition => shader.write dialect condition
    | none => pure ""
  let increments ← clauses.increments.mapM (shader.write dialect)
  pure (", ".intercalate inits ++ ";" ++ clauseText condition ++ ";" ++
    clauseText (", ".intercalate increments))

end Shader

end ShaderLoom
