import ShaderLoom.Command

/-!
# The program

Prints what the plan for its arguments says, or saves it.
-/
namespace ShaderLoom

/-- Why saving failed, in the words of the system where it has any. -/
def saveFailure : IO.Error → String
  | .noFileOrDirectory _ code words => systemReason words code.toNat
  | .inappropriateType _ code words => systemReason words code.toNat
  | .invalidArgument _ code words => systemReason words code.toNat
  | .permissionDenied _ code words => systemReason words code.toNat
  | .resourceExhausted _ code words => systemReason words code.toNat
  | .noSuchThing _ code words => systemReason words code.toNat
  | .resourceBusy code words => systemReason words code.toNat
  | .hardwareFault code words => systemReason words code.toNat
  | .otherError code words => systemReason words code.toNat
  | other => toString other

/-- Save a text at a path. -/
def save (path text : String) : IO (Except String Unit) := do
  try
    IO.FS.writeFile path text
    pure (.ok ())
  catch error => pure (.error (saveFailure error))

end ShaderLoom

/-- Run the command line. -/
def main (args : List String) : IO UInt32 := do
  let report ← match ShaderLoom.Command.plan args with
    | .finish report => pure report
    | .save path text => ShaderLoom.Command.saved path <$> ShaderLoom.save path text
  IO.print report.out
  IO.eprint report.err
  pure report.code
