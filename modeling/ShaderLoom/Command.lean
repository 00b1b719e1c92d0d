import ShaderLoom.Command.Emit
import ShaderLoom.Command.Disk

/-!
# The command line

The arguments of the program decide a plan: texts for the two output streams and an exit code, or
a text to be saved at a path. Saving is left to who runs the plan; whether it succeeded decides
the report.
-/
namespace ShaderLoom

/-- What a run of the program leaves behind. -/
structure Report where
  code : UInt32
  out : String
  err : String
deriving DecidableEq, Repr

/-- What a run of the program is to do. -/
inductive Plan where
  | finish (report : Report)
  | save (path text : String)
deriving DecidableEq, Repr

namespace Command

/-- Lines of text. -/
def lines (content : List String) : String := String.join (content.map (· ++ "\n"))

/-- How to use the program. -/
def usage : String := lines
  ["VESL shader generator",
   "",
   "Usage: veslc <command> [options]",
   "",
   "Commands:",
   "  emit <demo>          Build a demo shader and print its source",
   "  list                 List the demo shaders",
   "  help                 Show this help message",
   "  version              Show version information",
   "",
   "Emit options:",
   "  --dialect=<name>     Target dialect: glsl (default), hlsl",
   "  --indent=<width>     Spaces per indentation level (default: 4)",
   "  --no-preamble        Omit the dialect preamble",
   "  -o <path>            Write to a file instead of stdout",
   "",
   "Set RUST_LOG (e.g. RUST_LOG=vesl_build=debug) to trace the build."]

/-- How to use the `emit` command. -/
def emitUsage : String :=
  "Usage: veslc emit <demo> [--dialect=glsl|hlsl] [--indent=N] [-o FILE]"

/-- A demo in the list, its name padded to `width`. -/
def listing (width : Nat) (demo : Demo) : String :=
  "  " ++ demo.name ++ String.ofList (List.replicate (width - demo.name.length) ' ') ++ "  " ++
    demo.description

/-- The list of demos. -/
def demoList : String :=
  let width := (Demo.all.map (·.name.length)).foldl max 0
  lines ("Demos:" :: Demo.all.map (listing width))

/-- A report of success. -/
def success (out : String) : Report := ⟨0, out, ""⟩

/-- A report of failure. -/
def failure (error : CommandError) (more : List String) : Report :=
  ⟨1, "", lines (("error: " ++ error.message) :: more)⟩

/-- The plan of the `emit` command. -/
def emitPlan (args : List String) : Plan :=
  match EmitArgs.ofArgs args with
  | .error error => .finish (failure error [emitUsage])
  | .ok args =>
    match renderDemo args.demo args.target args.layout with
    | .error error => .finish (failure error [])
    | .ok text =>
      match args.output with
      | some path => .save path text
      | none => .finish (success text)

/-- The plan for the arguments of the program. -/
def plan : List String → Plan
  | [] => .finish (success usage)
  | command :: args =>
    match command with
    | "emit" => emitPlan args
    | "list" => .finish (success demoList)
    | "help" | "--help" | "-h" => .finish (success usage)
    | "version" | "--version" | "-V" => .finish (success (lines ["veslc 0.1.0-alpha.1"]))
    | other => .finish ⟨1, usage, lines ["error: unknown command " ++ quoted other, ""]⟩

/-- The report after an attempt to save, which failed for a reason or succeeded. -/
def saved (path : String) : Except String Unit → Report
  | .ok () => success ""
  | .error reason => failure (.write path reason) []

/-- Run the program on a disk. A text saved to one of the two streams of the program shows up
there. -/
def runOn (disk : Disk) (args : List String) : Report × Disk :=
  match plan args with
  | .finish report => (report, disk)
  | .save path text =>
    match disk.locate path with
    | .error failure => (saved path (.error failure.reason), disk)
    | .ok (.inside name) => (saved path (.ok ()), disk.store name text)
    | .ok .elsewhere => (saved path (.ok ()), disk)
    | .ok .nowhere => (saved path (.ok ()), disk)
    | .ok .output => ({ saved path (.ok ()) with out := text }, disk)
    | .ok .errors => ({ saved path (.ok ()) with err := text }, disk)

end Command

end ShaderLoom
