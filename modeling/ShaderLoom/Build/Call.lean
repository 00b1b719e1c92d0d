import ShaderLoom.Build.Value
import ShaderLoom.Build.Branch
import ShaderLoom.Build.Loop
import ShaderLoom.Build.Function

/-!
# Calls as values

Every call that drives a build, as one type. A build is the list of its calls: what can be said of
every reachable state is said by induction on such a list.
-/
namespace ShaderLoom

/-- One call that drives a build. -/
inductive Call where
  | emit (spec : ValueSpec)
  | construct (ty : Ty) (args : List Expr)
  | constructNamed (ty : Ty) (name : String) (args : List Expr)
  | declare (ty : Ty) (name : Option String)
  | forward (ty : Ty) (value : Expr)
  | declareGlobal (qualifier : Qualifier) (ty : Ty) (name : String)
  | declareConst (ty : Ty) (name : String) (value : Expr)
  | declareParam (ty : Ty) (name : Option String) (qualifier : Option Qualifier)
  | inline (ty : Ty) (args : List Expr)
  | use (id : VarId)
  | consume (id : VarId)
  | push (expr : Expr)
  | declareStruct (name : String) (fields : List Field)
  | declareInterface (qualifier : Qualifier) (name : String) (fields : List Field)
    (inst : String)
  | beginIf (condition : Expr)
  | beginElseIf (condition : Expr)
  | beginElse
  | endIfSubBlock
  | endIf
  | beginSwitch (selector : Expr)
  | addCase (label : Option Literal)
  | endSwitch
  | beginFor
  | beginForClauses (clauses : ForClauses)
  | forInit (ty : Ty) (name : Option String) (value : Expr)
  | beginForArgs
  | stackForCondition (condition : Expr)
  | beginForBody
  | endFor
  | beginWhile (condition : Expr)
  | endWhile
  | beginDoWhile
  | endDoWhile (condition : Expr)
  | addStatement (stmt : Special)
  | beginFunc (name : String) (returns : Ty)
  | nextOverload (params : List Ty)
  | endFunc
  | returnValue (value : Expr) (ty : Ty)
  | returnVoid
  | reset

/-- What a call answers. -/
inductive Reply where
  /-- Nothing but that it was done. -/
  | done
  /-- A new variable. -/
  | var (id : VarId)
  /-- An expression to be used in later calls. -/
  | value (expr : Expr)
  /-- A new variable and the expression that declares it. -/
  | bound (id : VarId) (expr : Expr)
  /-- A new type. -/
  | ty (ty : Ty)

/-- Make a call. -/
def Call.run : Call → Build Reply
  | .emit spec => .var <$> Build.emit spec
  | .construct ty args => .var <$> Build.construct ty args
  | .constructNamed ty name args => .var <$> Build.constructNamed ty name args
  | .declare ty name => .var <$> Build.declare ty name
  | .forward ty value => .var <$> Build.forward ty value
  | .declareGlobal qualifier ty name => .var <$> Build.declareGlobal qualifier ty name
  | .declareConst ty name value => .var <$> Build.declareConst ty name value
  | .declareParam ty name qualifier => .var <$> Build.declareParam ty name qualifier
  | .inline ty args => .value <$> Build.inline ty args
  | .use id => .value <$> Build.use id
  | .consume id => .value <$> Build.consume id
  | .push expr => (fun _ => .done) <$> Build.push expr
  | .declareStruct name fields => .ty <$> Build.declareStruct name fields
  | .declareInterface qualifier name fields inst =>
    .var <$> Build.declareInterface qualifier name fields inst
  | .beginIf condition => (fun _ => .done) <$> Build.beginIf condition
  | .beginElseIf condition => (fun _ => .done) <$> Build.beginElseIf condition
  | .beginElse => (fun _ => .done) <$> Build.beginElse
  | .endIfSubBlock => (fun _ => .done) <$> Build.endIfSubBlock
  | .endIf => (fun _ => .done) <$> Build.endIf
  | .beginSwitch selector => (fun _ => .done) <$> Build.beginSwitch selector
  | .addCase label => (fun _ => .done) <$> Build.addCase label
  | .endSwitch => (fun _ => .done) <$> Build.endSwitch
  | .beginFor => (fun _ => .done) <$> Build.beginFor
  | .beginForClauses clauses => (fun _ => .done) <$> Build.beginForClauses clauses
  | .forInit ty name value => (fun made => .bound made.1 made.2) <$> Build.forInit ty name value
  | .beginForArgs => (fun _ => .done) <$> Build.beginForArgs
  | .stackForCondition condition => (fun _ => .done) <$> Build.stackForCondition condition
  | .beginForBody => (fun _ => .done) <$> Build.beginForBody
  | .endFor => (fun _ => .done) <$> Build.endFor
  | .beginWhile condition => (fun _ => .done) <$> Build.beginWhile condition
  | .endWhile => (fun _ => .done) <$> Build.endWhile
  | .beginDoWhile => (fun _ => .done) <$> Build.beginDoWhile
  | .endDoWhile condition => (fun _ => .done) <$> Build.endDoWhile condition
  | .addStatement stmt => (fun _ => .done) <$> Build.addStatement stmt
  | .beginFunc name returns => .var <$> Build.beginFunc name returns
  | .nextOverload params => (fun _ => .done) <$> Build.nextOverload params
  | .endFunc => (fun _ => .done) <$> Build.endFunc
  | .returnValue value ty => (fun _ => .done) <$> Build.returnValue value ty
  | .returnVoid => (fun _ => .done) <$> Build.returnVoid
  | .reset => (fun _ => .done) <$> Build.reset

end ShaderLoom
