import ShaderLoom.Build.Scoped

/-!
# Demo shaders

Four small shaders, each built by a sequence of calls, that together use most of what a build
offers.
-/
namespace ShaderLoom

/-- A shader that can be asked for by name. -/
structure Demo where
  name : String
  description : String
  calls : Build Unit

namespace Demo

open Build

/-- A single-precision number. -/
def number (value : Float) : Expr := .float value.toBits

/-- Numbers in order. -/
def numbers (values : List Float) : List Expr := values.map number

/-- A named variable with its value written as it is. -/
def bind (ty : Ty) (name : String) (value : Expr) : Build VarId :=
  emit { ty, status := .initialisation, flags := .none, qualifier := none, name := some name,
         args := [value] }

/-- Assign a value to a variable. -/
def store (target : VarId) (value : Expr) : Build Unit := do
  let target ← use target
  push (.assign target value)

/-- A two-tone gradient; its right half is scaled by a value consumed at once. -/
def gradient : Build Unit := do
  let uv ← declareGlobal .input (.vec 2) "uv"
  let time ← declareGlobal .uniform (.scalar .float) "time"
  let color ← declareGlobal .output (.vec 4) "color"
  let _ ← function "main" .void [] fun _ => do
    let low ← inline (.vec 3) (numbers [0.1, 0.2, 0.5])
    let high ← inline (.vec 3) (numbers [1.0, 0.6, 0.2])
    let height := Expr.swizzleOf (← use uv) "y"
    let base ← bind (.vec 3) "base" (.builtin "mix" [low, high, height])
    let left := Expr.binary .lt (Expr.swizzleOf (← use uv) "x") (number 0.5)
    ifElse left
      (do
        let rgb ← use base
        let value ← inline (.vec 4) [rgb, number 1.0]
        store color value)
      (do
        let rgb ← use base
        let wave := Expr.builtin "sin" [← use time]
        let pulse ← forward (.scalar .float) (.builtin "abs" [wave])
        let scaled := Expr.binary .mul rgb (← consume pulse)
        let value ← inline (.vec 4) [scaled, number 1.0]
        store color value)

/-- A blur along one row, with a recorded loop header in a function of two parameters. -/
def blur : Build Unit := do
  let image ← declareGlobal .uniform (.sampler .d2) "image"
  let uv ← declareGlobal .input (.vec 2) "uv"
  let color ← declareGlobal .output (.vec 4) "color"
  let sampleRow ← beginFuncWith "sample_row" (.vec 4) [.vec 2, .scalar .float]
  let center ← declareParam (.vec 2) (some "center") none
  let spacing ← declareParam (.scalar .float) (some "spacing") none
  let sum ← constructNamed (.vec 4) "sum" [number 0.0]
  beginFor
  beginForArgs
  let i ← bind (.scalar .int) "i" (.int (-2))
  let _ ← forward (.scalar .bool) (.binary .ltEq (← use i) (.int 2))
  let _ ← forward (.scalar .int) (.unary .increment .after (← use i))
  beginForBody
  let index ← inline (.scalar .float) [← use i]
  let shift := Expr.binary .mul index (← use spacing)
  let offset ← inline (.vec 2) [shift, number 0.0]
  let coord := Expr.binary .add (← use center) offset
  let texel := Expr.builtin "texture" [← use image, coord]
  push (.binary .addAssign (← use sum) texel)
  endFor
  returnValue (.binary .div (← use sum) (number 5.0)) (.vec 4)
  endFunc
  let _ ← function "main" .void [] fun _ => do
    store color (.call (.function sampleRow) [← use uv, number 0.01])

/-- Set the colour of a material. -/
def setAlbedo (material : VarId) (rgb : List Float) : Build Unit := do
  let target := Expr.member (← use material) "albedo"
  let value ← inline (.vec 3) (numbers rgb)
  push (.assign target value)

/-- A material chosen by a switch over a setting. -/
def palette : Build Unit := do
  let modes ← declareConst (.scalar .int) "MODES" (.int 3)
  let material ← declareStruct "Material"
    [⟨.vec 3, "albedo"⟩, ⟨.scalar .float, "roughness"⟩]
  let settings ← declareInterface .uniform "Settings"
    [⟨.scalar .int, "mode"⟩, ⟨.scalar .float, "exposure"⟩] "settings"
  let color ← declareGlobal .output (.vec 4) "color"
  let pick ← beginFuncWith "pick" material [.scalar .int]
  let mode ← declareParam (.scalar .int) (some "mode") none
  let result ← declare material (some "result")
  switchOn (← use mode)
    [(some (.int 0), do
        setAlbedo result [1.0, 0.2, 0.2]
        addStatement .breakLoop),
     (some (.int 1), do
        setAlbedo result [0.2, 1.0, 0.2]
        addStatement .breakLoop),
     (none, setAlbedo result [1.0, 1.0, 1.0])]
  push (.assign (.member (← use result) "roughness") (number 0.5))
  returnValue (← use result) material
  endFunc
  let _ ← function "main" .void [] fun _ => do
    let mode := Expr.member (← use settings) "mode"
    let wrapped := Expr.binary .mod mode (← use modes)
    let chosen ← bind material "chosen" (.call (.function pick) [wrapped])
    let albedo := Expr.member (← use chosen) "albedo"
    let exposure := Expr.member (← use settings) "exposure"
    let lit ← inline (.vec 4) [.binary .mul albedo exposure, number 1.0]
    store color lit

/-- Both loops that test a condition, and an early discard. -/
def threshold : Build Unit := do
  let cutoff ← declareGlobal .uniform (.scalar .float) "cutoff"
  let intensity ← declareGlobal .input (.scalar .float) "intensity"
  let _ ← function "main" .void [] fun _ => do
    let level ← bind (.scalar .float) "level" (← use intensity)
    whileDo (.binary .gt (← use level) (number 1.0)) do
      push (.binary .subAssign (← use level) (number 1.0))
    beginDoWhile
    push (.binary .mulAssign (← use level) (number 2.0))
    endDoWhile (.binary .lt (← use level) (← use cutoff))
    ifThen (.binary .gt (← use level) (← use cutoff)) (addStatement .discard)

/-- All demos, in the order in which they are listed. -/
def all : List Demo :=
  [{ name := "gradient", description := "two-tone gradient with a pulsing right half",
     calls := gradient },
   { name := "blur", description := "horizontal five-tap blur through a helper function",
     calls := blur },
   { name := "palette",
     description := "material lookup through a switch, struct and uniform block",
     calls := palette },
   { name := "threshold", description := "while and do-while loops with an early discard",
     calls := threshold }]

/-- The demo of a name. -/
def find? (name : String) : Option Demo := all.find? (·.name == name)

end Demo

end ShaderLoom
