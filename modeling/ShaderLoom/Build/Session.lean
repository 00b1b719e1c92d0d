import ShaderLoom.Shader

/-!
# The state of a build

A build is driven by a flat sequence of calls. It stands in one block, the current one, and holds
the scopes that are open, innermost first. Opening a scope moves into it, closing it moves back
to the block it was opened in, and all else is appended to the current block in call order.

A chain of conditions whose last case was closed stays open, waiting for an `else`; any call that
reaches the block around it closes the chain first (`Session.settle`). While the parameter list of
a function is open the build stands in it, and moves to the body by itself when the last
parameter has come (`Session.commit`).

The first failure is kept, and from then on every call fails with it and changes nothing
(`Build.guarded`).
-/
namespace ShaderLoom

/-- The overload whose parameters or body are being built. -/
structure OpenOverload where
  /-- The block of its parameters. -/
  args : BlockId
  /-- The block of its body. -/
  body : BlockId
  /-- How many parameters it has. -/
  expected : Nat
  /-- How many of them have come. -/
  received : Nat
deriving DecidableEq, Repr

/-- How many parameters are still to come. -/
def OpenOverload.missing (overload : OpenOverload) : Nat := overload.expected - overload.received

/-- Whether parameters are still to come. -/
def OpenOverload.inSignature (overload : OpenOverload) : Bool :=
  overload.received < overload.expected

/-- An open scope: the instruction that opened it, the block around it, and how far it has come. -/
inductive Frame where
  /-- A chain of conditions; `waiting` when its last case is closed. -/
  | branch (site : Address) (parent : BlockId) (waiting : Bool)
  /-- A loop with a header; given as clauses, the header has no block. -/
  | forLoop (site : Address) (parent : BlockId) (args : Option BlockId) (body : BlockId)
    (phase : ForPhase)
  | whileLoop (site : Address) (parent : BlockId)
  | doWhile (site : Address) (parent : BlockId)
  /-- A switch and the case that is open, if there is one yet. -/
  | switch (site : Address) (parent : BlockId) (openCase : Option BlockId)
  /-- A function and the overload that is open, if there is one yet. -/
  | function (site : Address) (parent : BlockId) (var : VarId) (overload : Option OpenOverload)
deriving DecidableEq, Repr

namespace Frame

/-- The kind of instruction that opened the scope. -/
def kind : Frame → Kind
  | .branch _ _ _ => .branch
  | .forLoop _ _ _ _ _ => .forLoop
  | .whileLoop _ _ => .whileLoop
  | .doWhile _ _ => .doWhile
  | .switch _ _ _ => .switch
  | .function _ _ _ _ => .function

/-- Whether the scope is a chain of conditions waiting for an `else`. -/
def isWaiting : Frame → Bool
  | .branch _ _ waiting => waiting
  | _ => false

/-- Whether the scope is a function. -/
def isFunction : Frame → Bool
  | .function _ _ _ _ => true
  | _ => false

end Frame

/-- What a build can be told beforehand. -/
structure BuildOptions where
  /-- Which of two conditions a loop takes. -/
  policy : ConditionPolicy
  /-- Whether declarations nobody reads are left out. -/
  elideDead : Bool
deriving DecidableEq, Repr

/-- A captured condition wins, and declarations nobody reads are left out. -/
def BuildOptions.standard : BuildOptions := ⟨.preferCaptured, true⟩

/-- The state of a build. -/
structure Session where
  tree : Tree
  registry : Registry
  options : BuildOptions
  /-- The block that the next instruction goes to. -/
  current : BlockId
  /-- The open scopes, innermost first. -/
  scopes : List Frame
  /-- The first failure. -/
  failure : Option BuildError

namespace Session

/-- The state every build starts in. -/
def start (options : BuildOptions) : Session :=
  { tree := .empty, registry := .empty, options, current := .root, scopes := [], failure := none }

/-- How many scopes are open, waiting chains included. -/
def depth (s : Session) : Nat := s.scopes.length

/-- Close the chains of conditions that wait for an `else` in the current block. -/
def settle (s : Session) : Session := { s with scopes := s.scopes.dropWhile Frame.isWaiting }

/-- Why an instruction cannot be appended now, if it cannot. A parameter goes into an open
parameter list and nowhere else, and nothing else goes there. -/
def refusal? (s : Session) (kind : Kind) (isParameter : Bool) : Option BuildError :=
  let elsewhere := if isParameter then some .notInSignature else none
  match s.scopes.head? with
  | some (.switch _ _ none) => some (.outsideCase kind)
  | some (.forLoop _ _ _ _ .created) => some (.outsideForPhase kind)
  | some (.function _ _ var none) => some (.noOverload (s.registry.nameOrNumber var))
  | some (.function _ _ var (some overload)) =>
    if overload.inSignature then
      if isParameter then none
      else some (.nonArgumentInSignature (.instruction kind) (s.registry.nameOrNumber var)
        overload.missing)
    else elsewhere
  | _ => elsewhere

/-- Count an instruction that went into `block` towards the parameter list that is open there, and
move to the body when the list is complete. -/
def countParameter (s : Session) (block : BlockId) : Session :=
  match s.scopes with
  | .function site parent var (some overload) :: rest =>
    if block = overload.args then
      let counted := { overload with received := overload.received + 1 }
      { s with
        scopes := .function site parent var (some counted) :: rest
        current := if counted.inSignature then s.current else overload.body }
    else s
  | _ => s

/-- Append an instruction to a block. -/
def commit (s : Session) (block : BlockId) (instr : Instruction) : Session :=
  countParameter { s with
    tree := s.tree.push block instr
    registry := s.registry.recordPush (instr.construction?.map Construction.var) } block

end Session

/-- A call on the state of a build; a failing call may already have changed the state. -/
abbrev Build := EStateM BuildError Session

namespace Build

/-- Run a call unless the build has failed; keep its failure if it fails. -/
def guarded {α : Type} (call : Build α) : Build α := fun s =>
  match s.failure with
  | some first => .error (.poisoned first) s
  | none =>
    match call s with
    | .ok value s => .ok value s
    | .error error s => .error error { s with failure := some error }

/-- The block an instruction of this kind is to be appended to, if it may be appended now. -/
def prepare (kind : Kind) (isParameter : Bool) : Build BlockId := do
  modify Session.settle
  let s ← get
  match s.refusal? kind isParameter with
  | some error => throw error
  | none => pure s.current

/-- A new empty block under `parent`. -/
def newBlock (parent : BlockId) (kind : BlockKind) : Build BlockId := do
  let s ← get
  set { s with tree := s.tree.addBlock parent kind }
  pure s.tree.next

/-- Append an instruction that may be appended, and tell where it stands. -/
def commit (block : BlockId) (instr : Instruction) : Build Address := do
  let s ← get
  set (s.commit block instr)
  pure ⟨block, s.tree.length block⟩

/-- Amend the instruction at an address. -/
def amend (site : Address) (change : Instruction → Instruction) : Build Unit :=
  modify fun s => { s with tree := s.tree.amend site change }

/-- Open a scope and move to a block. -/
def openScope (frame : Frame) (block : BlockId) : Build Unit :=
  modify fun s => { s with scopes := frame :: s.scopes, current := block }

/-- Put another frame in place of the innermost one and move to a block. -/
def replaceScope (frame : Frame) (block : BlockId) : Build Unit :=
  modify fun s => { s with scopes := frame :: s.scopes.tail, current := block }

/-- Close the innermost scope and move to a block. -/
def closeScope (block : BlockId) : Build Unit :=
  modify fun s => { s with scopes := s.scopes.tail, current := block }

/-- A new variable. -/
def create (ty : Ty) (category : Category) (name : Option String) (status : Status) :
    Build VarId := do
  let s ← get
  set { s with registry := s.registry.create ty category name status }
  pure s.registry.next

/-- Change the registry, or fail as the change does. -/
def register (change : Registry → Except BuildError Registry) : Build Unit := do
  let s ← get
  match change s.registry with
  | .ok registry => set { s with registry }
  | .error error => throw error

/-- Append an instruction to the current block. What is constructed in the header of a loop is a
loop counter and keeps its name. -/
def append (instr : Instruction) : Build Unit := do
  let block ← prepare instr.kind instr.isParameter
  let s ← get
  match instr.construction? with
  | some made =>
    if (s.tree.block? block).any (·.kind == .forArgs) then register (·.pin made.var)
  | none => pure ()
  let _ ← commit block instr

/-- Forget everything and start over. -/
def reset : Build Unit :=
  modify fun s =>
    { s with
      tree := .empty
      registry := s.registry.clear
      current := .root
      scopes := []
      failure := none }

/-- Starting over leads to where every build starts, with the same options. -/
theorem reset_eq : reset = modify fun s => .start s.options := rfl

/-- End the build: no scope may be open but chains that wait for an `else`. -/
def finish : Build Shader := do
  guarded do
    modify Session.settle
    match (← get).scopes with
    | [] => pure ()
    | frame :: _ => throw (.unclosedScope frame.kind)
  let s ← get
  pure ⟨s.tree, if s.options.elideDead then s.registry.elideDead.1 else s.registry⟩

/-- The shader that a sequence of calls builds from nothing. -/
def shader (calls : Build Unit) : Except BuildError Shader :=
  match (calls *> finish) (.start .standard) with
  | .ok shader _ => .ok shader
  | .error error _ => .error error

end Build

end ShaderLoom
