import ShaderLoom.Demo
import ShaderLoom.Dialect.Standard
import ShaderLoom.Text.Shader

/-!
# Emitting a demo

The arguments of the `emit` command are read from left to right. An `-o` takes the argument after
it, whatever that is. The last dialect, indent width and output path given count; there is exactly
one demo name, a word that does not start with a minus. The leftmost argument that does not fit
decides the failure.
-/
namespace ShaderLoom

/-- A standard dialect as the command line names it. -/
inductive Target where
  | glsl
  | hlsl
deriving DecidableEq, Repr

/-- The name of a target. -/
def Target.name : Target → String
  | .glsl => "glsl"
  | .hlsl => "hlsl"

/-- The dialect of a target. -/
def Target.dialect : Target → Dialect
  | .glsl => .glsl
  | .hlsl => .hlsl

/-- Why a command fails. -/
inductive CommandError where
  | unknownDemo (name : String)
  | unknownDialect (name : String)
  | invalidIndent (width : String)
  | unexpectedArgument (arg : String)
  | missingDemo
  | build (error : BuildError)
  | render (error : RenderError)
  /-- The output could not be written, for a reason in the words of the system. -/
  | write (path reason : String)
deriving DecidableEq, Repr

/-- The message of a failure. -/
def CommandError.message : CommandError → String
  | .unknownDemo name => "unknown demo " ++ quoted name ++ " (run `veslc list` to see the demos)"
  | .unknownDialect name => "unknown dialect " ++ quoted name ++ " (expected glsl or hlsl)"
  | .invalidIndent width => "invalid indent width " ++ quoted width
  | .unexpectedArgument arg => "unexpected argument " ++ quoted arg
  | .missingDemo => "missing demo name"
  | .build error => "failed to build shader: " ++ error.message
  | .render error => "failed to render shader: " ++ error.message
  | .write path reason => "failed to write " ++ path ++ ": " ++ reason

/-- The target of a name. -/
def Target.ofName (name : String) : Except CommandError Target :=
  match name with
  | "glsl" => .ok .glsl
  | "hlsl" => .ok .hlsl
  | other => .error (.unknownDialect other)

/-- What a text goes on with after a mark it starts with. -/
def afterMark? (mark text : String) : Option String :=
  if mark.toList.isPrefixOf text.toList then
    some (String.ofList (text.toList.drop mark.toList.length))
  else none

/-- The value of a decimal digit. -/
def digitValue? (c : Char) : Option Nat :=
  if c.isDigit then some (c.toNat - '0'.toNat) else none

/-- The number that decimal digits denote, after a number read so far. -/
def readDigits (value : Nat) : List Char → Option Nat
  | [] => some value
  | c :: rest => do readDigits (value * 10 + (← digitValue? c)) rest

/-- A width: decimal digits, at least one, behind a plus or nothing, below 2 ^ 64. -/
def readWidth? (text : String) : Option Nat := do
  let digits := match text.toList with
    | '+' :: rest => rest
    | chars => chars
  if digits.isEmpty then none
  else
    let value ← readDigits 0 digits
    if value < UInt64.size then some value else none

/-- What the `emit` command is to do. -/
structure EmitArgs where
  /-- The name of the demo, which need not exist. -/
  demo : String
  target : Target
  layout : Layout
  /-- Where to write, if not to standard output. -/
  output : Option String
deriving DecidableEq, Repr

namespace EmitArgs

/-- The arguments read so far. -/
structure Reading where
  demo : Option String
  target : Target
  layout : Layout
  output : Option String
deriving DecidableEq, Repr

/-- No arguments read. -/
def Reading.start : Reading := ⟨none, .glsl, .standard, none⟩

/-- Read one argument other than an `-o` and its path. -/
def Reading.read (sofar : Reading) (arg : String) : Except CommandError Reading :=
  match afterMark? "--dialect=" arg with
  | some name => do
    let target ← Target.ofName name
    pure { sofar with target }
  | none =>
    match afterMark? "--indent=" arg with
    | some text =>
      match readWidth? text with
      | some width => .ok { sofar with layout := { sofar.layout with indentWidth := width } }
      | none => .error (.invalidIndent text)
    | none =>
      if arg = "--no-preamble" then
        .ok { sofar with layout := { sofar.layout with preamble := false } }
      else if arg.toList.head? ≠ some '-' ∧ sofar.demo.isNone then
        .ok { sofar with demo := some arg }
      else .error (.unexpectedArgument arg)

/-- Read arguments after others. -/
def readFrom (sofar : Reading) : List String → Except CommandError EmitArgs
  | [] =>
    match sofar.demo with
    | some demo => .ok ⟨demo, sofar.target, sofar.layout, sofar.output⟩
    | none => .error .missingDemo
  | [arg] => do readFrom (← sofar.read arg) []
  | arg :: next :: rest =>
    if arg = "-o" then readFrom { sofar with output := some next } rest
    else do readFrom (← sofar.read arg) (next :: rest)

/-- Read the arguments of the `emit` command. -/
def ofArgs (args : List String) : Except CommandError EmitArgs := readFrom .start args

end EmitArgs

/-- Build a demo and write it as text. -/
def renderDemo (name : String) (target : Target) (layout : Layout) :
    Except CommandError String :=
  match Demo.find? name with
  | none => .error (.unknownDemo name)
  | some demo =>
    match Build.shader demo.calls with
    | .error error => .error (.build error)
    | .ok shader =>
      match shader.render target.dialect layout with
      | .error error => .error (.render error)
      | .ok text => .ok text

end ShaderLoom
