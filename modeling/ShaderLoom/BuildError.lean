import ShaderLoom.Instruction

/-!
# Why a build fails

A build fails when a call does not fit where the build stands. The first failure is final: every
later call reports it again, wrapped in `BuildError.poisoned`. A return of the wrong type is no
failure; it is noted on the return itself.
-/
namespace ShaderLoom

/-- A call that can be out of place, or be missing. -/
inductive Step where
  | beginIf
  | beginElseIf
  | beginElse
  | endIfSubBlock
  | endIf
  | beginFor
  | beginForArgs
  | stackForCondition
  | beginForBody
  | endFor
  | beginWhile
  | endWhile
  | beginDoWhile
  | endDoWhile
  | beginSwitch
  | addCase
  | endSwitch
  | beginFunc
  | nextOverload
  | endFunc
deriving DecidableEq, Repr

/-- A call as messages write it. -/
def Step.text : Step → String
  | .beginIf => "begin_if"
  | .beginElseIf => "begin_else_if"
  | .beginElse => "begin_else"
  | .endIfSubBlock => "end_if_sub_block"
  | .endIf => "end_if"
  | .beginFor => "begin_for"
  | .beginForArgs => "begin_for_args"
  | .stackForCondition => "stack_for_condition"
  | .beginForBody => "begin_for_body"
  | .endFor => "end_for"
  | .beginWhile => "begin_while"
  | .endWhile => "end_while"
  | .beginDoWhile => "begin_do_while"
  | .endDoWhile => "end_do_while"
  | .beginSwitch => "begin_switch"
  | .addCase => "add_case"
  | .endSwitch => "end_switch"
  | .beginFunc => "begin_func"
  | .nextOverload => "next_overload"
  | .endFunc => "end_func"

/-- How far a loop with a recorded header has come. -/
inductive ForPhase where
  /-- Neither header nor body was entered. -/
  | created
  /-- In the header. -/
  | args
  /-- In the body. -/
  | body
deriving DecidableEq, Repr

/-- A phase as messages write it. -/
def ForPhase.text : ForPhase → String
  | .created => "created"
  | .args => "args"
  | .body => "body"

/-- What came where a parameter was expected: an instruction, or a call that needs the parameter
list complete. -/
inductive Intruder where
  | instruction (kind : Kind)
  | call (step : Step)
deriving DecidableEq, Repr

/-- An intruder as messages write it. -/
def Intruder.text : Intruder → String
  | .instruction kind => kind.text
  | .call step => step.text

/-- Why a build fails. -/
inductive BuildError where
  /-- A call that closes or continues a scope, without that scope on top. -/
  | unbalanced (expected found : Step)
  | elseWithoutIf (found : Step)
  | elseAfterElse (found : Step)
  /-- A call that the current phase of a loop does not allow. -/
  | forPhase (phase : ForPhase) (found : Step)
  | duplicateDefault
  /-- An instruction in a switch before its first case. -/
  | outsideCase (kind : Kind)
  /-- An instruction in a loop before its header or body was entered. -/
  | outsideForPhase (kind : Kind)
  /-- Something in a function before its first overload. -/
  | noOverload (function : String)
  | nonArgumentInSignature (found : Intruder) (function : String) (missing : Nat)
  /-- A parameter where no parameter list is open. -/
  | notInSignature
  | nestedFunction (name : String)
  /-- A return or a discard outside every function. -/
  | notInFunction (keyword : String)
  /-- A break or a continue outside every loop. -/
  | notInLoop (keyword : String)
  | unknownVariable (id : VarId)
  /-- A forward of none or several expressions. -/
  | forwardArity (ty : Ty) (count : Nat)
  /-- The build ended inside a scope of this kind. -/
  | unclosedScope (kind : Kind)
  /-- A call after the build had failed. -/
  | poisoned (first : BuildError)
deriving DecidableEq, Repr

/-- A word as messages quote it. -/
def quoted (word : String) : String := "`" ++ word ++ "`"

/-- The message of a failure. -/
def BuildError.message : BuildError → String
  | .unbalanced expected found =>
    quoted found.text ++ " called without a matching " ++ quoted expected.text
  | .elseWithoutIf found => quoted found.text ++ " has no open `if` to attach to"
  | .elseAfterElse found => quoted found.text ++ " after the terminal `else` of the same chain"
  | .forPhase phase found =>
    "for loop is in the " ++ phase.text ++ " phase, " ++ quoted found.text ++
      " is not allowed there"
  | .duplicateDefault => "switch already has a `default` case"
  | .outsideCase kind => kind.text ++ " pushed inside a switch before its first `add_case`"
  | .outsideForPhase kind =>
    kind.text ++ " pushed into a for loop before `begin_for_args` or `begin_for_body`"
  | .noOverload function =>
    "function " ++ quoted function ++ " has no open overload; call `next_overload` first"
  | .nonArgumentInSignature found function missing =>
    found.text ++ " pushed while function " ++ quoted function ++ " still expects " ++
      toString missing ++ " argument(s)"
  | .notInSignature => "`declare_param` called outside of a function signature"
  | .nestedFunction name => "function " ++ quoted name ++ " declared inside another function"
  | .notInFunction keyword => quoted keyword ++ " outside of a function"
  | .notInLoop keyword => quoted keyword ++ " outside of a loop"
  | .unknownVariable id => "unknown variable " ++ id.text
  | .forwardArity ty count =>
    "constructor of type " ++ quoted ty.text ++ " forwards " ++ toString count ++
      " arguments; a forward wraps exactly one"
  | .unclosedScope kind => "build finished with an unclosed " ++ quoted kind.text
  | .poisoned first => "build already failed: " ++ first.message

end ShaderLoom
