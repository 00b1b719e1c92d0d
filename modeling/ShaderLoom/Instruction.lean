import ShaderLoom.Expr

/-!
# Instructions

An instruction is one unit of a block. One that opens scopes does not hold what is in them: it
holds the numbers of its blocks, and the tree holds the blocks.
-/
namespace ShaderLoom

/-- A return whose value has another type than its function returns. -/
structure Mismatch where
  /-- The type its function returns. -/
  expected : Ty
  /-- The type of the value. -/
  found : Ty
deriving DecidableEq, Repr

/-- A statement that is one keyword, or text taken as it is. -/
inductive Special where
  | breakLoop
  | continueLoop
  | discard
  /-- Text of one vendor's own. -/
  | vendor (text : String)
deriving DecidableEq, Repr

/-- One case of a chain of conditions; the closing `else` has no condition. -/
structure IfCase where
  condition : Option Expr
  body : BlockId

/-- Which condition a loop takes when its header holds one and another was given beside it. -/
inductive ConditionPolicy where
  | preferCaptured
  | preferStacked
deriving DecidableEq, Repr

/-- The three clauses of a loop header. -/
structure ForClauses where
  /-- What is done once before the loop. -/
  inits : List Expr
  /-- What is tested before every round, if anything. -/
  condition : Option Expr
  /-- What is done after every round. -/
  increments : List Expr

/-- How the header of a loop was given. -/
inductive ForHeader where
  /-- As statements in a block of their own, sorted into clauses when the loop is rendered. -/
  | recorded (args : BlockId) (stacked : Option Expr) (policy : ConditionPolicy)
  /-- As the clauses themselves. -/
  | clauses (clauses : ForClauses)

/-- One case of a switch; the default has no label. -/
structure SwitchCase where
  label : Option Literal
  body : BlockId
deriving DecidableEq, Repr

/-- One parameter list of a function with the body that goes with it. -/
structure Overload where
  /-- The types of its parameters. -/
  params : List Ty
  /-- The block of its parameters. -/
  args : BlockId
  body : BlockId
deriving DecidableEq, Repr

/-- A function: its overloads share a name and a return type. -/
structure FunctionDecl where
  /-- What calls refer to. -/
  var : VarId
  name : String
  /-- The type every overload returns. -/
  returns : Ty
  overloads : List Overload
deriving DecidableEq, Repr

/-- A named member of a struct or an interface block. -/
structure Field where
  ty : Ty
  name : String
deriving DecidableEq, Repr

/-- A struct type. -/
structure StructDecl where
  name : String
  fields : List Field
deriving DecidableEq, Repr

/-- A block of members shared with the program around the shader. -/
structure InterfaceDecl where
  /-- The instance through which its members are reached. -/
  var : VarId
  qualifier : Qualifier
  name : String
  fields : List Field
deriving DecidableEq, Repr

/-- What an instruction is, apart from what it says. -/
inductive Kind where
  | statement
  | ret
  | special
  | branch
  | forLoop
  | whileLoop
  | doWhile
  | switch
  | function
  | struct
  | interface
deriving DecidableEq, Repr

/-- A kind as messages write it. -/
def Kind.text : Kind → String
  | .statement => "statement"
  | .ret => "return"
  | .special => "special"
  | .branch => "if"
  | .forLoop => "for"
  | .whileLoop => "while"
  | .doWhile => "do-while"
  | .switch => "switch"
  | .function => "function"
  | .struct => "struct"
  | .interface => "interface"

/-- One unit of a block. -/
inductive Instruction where
  /-- An expression by itself; a construction here may declare its variable. -/
  | statement (expr : Expr)
  | ret (value : Option Expr) (mismatch : Option Mismatch)
  | special (stmt : Special)
  /-- A chain of conditions; only its last case may be without one. -/
  | branch (cases : List IfCase)
  | forLoop (header : ForHeader) (body : BlockId)
  | whileLoop (condition : Expr) (body : BlockId)
  /-- The condition is known once the body is closed. -/
  | doWhile (body : BlockId) (condition : Option Expr)
  | switch (selector : Expr) (cases : List SwitchCase)
  | function (decl : FunctionDecl)
  | struct (decl : StructDecl)
  | interface (decl : InterfaceDecl)

namespace Instruction

/-- The kind of an instruction. -/
def kind : Instruction → Kind
  | .statement _ => .statement
  | .ret _ _ => .ret
  | .special _ => .special
  | .branch _ => .branch
  | .forLoop _ _ => .forLoop
  | .whileLoop _ _ => .whileLoop
  | .doWhile _ _ => .doWhile
  | .switch _ _ => .switch
  | .function _ => .function
  | .struct _ => .struct
  | .interface _ => .interface

/-- What a statement constructs, if it is a construction. -/
def construction? : Instruction → Option Construction
  | .statement expr => expr.construction?
  | _ => none

/-- Whether an instruction is a construction that carries the parameter flag. -/
def isParameter (instr : Instruction) : Bool :=
  instr.construction?.any (·.flags.functionArgument)

/-- Whether an instruction stands apart from its neighbours at top level. -/
def standsApart : Instruction → Bool
  | .function _ => true
  | .struct _ => true
  | .interface _ => true
  | _ => false

/-- Add a case at the end of a chain of conditions. -/
def addIfCase (case : IfCase) : Instruction → Instruction
  | .branch cases => .branch (cases ++ [case])
  | other => other

/-- Add a case at the end of a switch. -/
def addSwitchCase (case : SwitchCase) : Instruction → Instruction
  | .switch selector cases => .switch selector (cases ++ [case])
  | other => other

/-- Whether an instruction is a switch that has its default case. -/
def hasDefault : Instruction → Bool
  | .switch _ cases => cases.any (·.label.isNone)
  | _ => false

/-- Add an overload at the end of a function. -/
def addOverload (overload : Overload) : Instruction → Instruction
  | .function decl => .function { decl with overloads := decl.overloads ++ [overload] }
  | other => other

/-- Give a loop with a recorded header a condition beside it. -/
def stackCondition (condition : Expr) : Instruction → Instruction
  | .forLoop (.recorded args _ policy) body =>
    .forLoop (.recorded args (some condition) policy) body
  | other => other

/-- Give a loop that tests at its end its condition. -/
def closeDoWhile (condition : Expr) : Instruction → Instruction
  | .doWhile body _ => .doWhile body (some condition)
  | other => other

end Instruction

/-- Whether a chain of conditions ends in an `else`. -/
def endsInElse (cases : List IfCase) : Bool := cases.getLast?.any (·.condition.isNone)

end ShaderLoom
