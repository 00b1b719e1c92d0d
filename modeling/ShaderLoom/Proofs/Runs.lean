import Mathlib.Data.List.DropRight
import ShaderLoom.Proofs.Growth
import ShaderLoom.Build.Call

/-!
# What successful calls do

For every call of a build, exactly when it succeeds and what state it leaves. A call that opens a
scope makes the blocks of its instruction, appends the instruction and moves inside
(`Session.opened`); a call that continues a scope makes further blocks, adds them to the instruction
that opened it and moves on (`Session.grown`); a call that closes a scope moves back to the block
around it.
-/
namespace ShaderLoom

/-- Where a frame's instruction stands. -/
def Frame.site : Frame → Address
  | .branch site _ _ => site
  | .forLoop site _ _ _ _ => site
  | .whileLoop site _ => site
  | .doWhile site _ => site
  | .switch site _ _ => site
  | .function site _ _ _ => site

/-- The block around a frame's scope. -/
def Frame.parent : Frame → BlockId
  | .branch _ parent _ => parent
  | .forLoop _ parent _ _ _ => parent
  | .whileLoop _ parent => parent
  | .doWhile _ parent => parent
  | .switch _ parent _ => parent
  | .function _ parent _ _ => parent

/-- Whether an instruction may be appended while a frame is the innermost one: a parameter to an
open parameter list, and anything else to what takes statements. -/
def Frame.accepts (isParameter : Bool) : Frame → Bool
  | .switch _ _ none => false
  | .forLoop _ _ _ _ .created => false
  | .function _ _ _ none => false
  | .function _ _ _ (some overload) => overload.inSignature == isParameter
  | _ => !isParameter

/-- The registry with the variable of a new value, pinned if it is qualified or a parameter. -/
def Registry.admitted (registry : Registry) (spec : ValueSpec) : Except BuildError Registry :=
  let created := registry.create spec.ty spec.ty.category spec.name spec.status
  if spec.qualifier.isSome || spec.flags.functionArgument then created.pin registry.next
  else .ok created

/-- The statement that constructs a value. -/
def ValueSpec.statement (spec : ValueSpec) (var : VarId) : Instruction :=
  .statement (.construct
    { var, ty := spec.ty, status := spec.status, flags := spec.flags,
      qualifier := spec.qualifier } spec.args)

namespace Session

/-- Where the next instruction will stand. -/
def site (s : Session) : Address := ⟨s.current, s.tree.length s.current⟩

/-- Whether an instruction may be appended now. -/
def accepts (s : Session) (isParameter : Bool) : Bool :=
  s.scopes.head?.elim (!isParameter) (Frame.accepts isParameter)

/-- Nothing refuses an instruction where it is accepted. -/
theorem refusal?_eq_none_iff (s : Session) (kind : Kind) (isParameter : Bool) :
    s.refusal? kind isParameter = none ↔ s.accepts isParameter := by
  unfold refusal? accepts
  cases s.scopes.head? with
  | none => cases isParameter <;> simp
  | some frame =>
    cases frame with
    | forLoop site parent args body phase =>
      cases phase <;> cases isParameter <;> simp [Frame.accepts]
    | switch site parent openCase =>
      cases openCase <;> cases isParameter <;> simp [Frame.accepts]
    | function site parent var overload =>
      cases overload with
      | none => simp [Frame.accepts]
      | some overload =>
        cases isParameter <;> cases inside : overload.inSignature <;>
          simp [Frame.accepts, inside]
    | _ => cases isParameter <;> simp [Frame.accepts]

/-- The state in which the registry has seen a statement before it is pushed: what is constructed in
the header of a loop is pinned. -/
def noted (s : Session) (instr : Instruction) : Except BuildError Session :=
  match instr.construction? with
  | some made =>
    if (s.tree.block? s.current).any (·.kind == .forArgs) then
      match s.registry.pin made.var with
      | .ok registry => .ok { s with registry }
      | .error error => .error error
    else .ok s
  | none => .ok s

/-- A scope opened in the current block: its blocks are made, its instruction is appended, and the
build moves to `inner`. -/
def opened (s : Session) (kinds : List BlockKind) (instr : Instruction) (frame : Frame)
    (inner : BlockId) : Session :=
  let committed :=
    { s with tree := s.tree.addBlocks s.current kinds }.commit s.current instr
  { committed with scopes := frame :: committed.scopes, current := inner }

/-- The innermost scope continued: blocks are made, its instruction is amended, `frame` takes its
place, and the build moves to `inner`. -/
def grown (s : Session) (kinds : List BlockKind) (change : Instruction → Instruction)
    (frame : Frame) (inner : BlockId) : Session :=
  { s with
    tree := (s.tree.addBlocks frame.parent kinds).amend frame.site change
    scopes := frame :: s.scopes.tail
    current := inner }

/-- Another frame in place of the innermost one, and a move to `inner`. -/
def entered (s : Session) (frame : Frame) (inner : BlockId) : Session :=
  { s with scopes := frame :: s.scopes.tail, current := inner }

/-- The innermost scope closed, and a move to the block around it. -/
def closed (s : Session) (parent : BlockId) : Session :=
  { s with scopes := s.scopes.tail, current := parent }

/-- Once closed, the waiting chains stay closed. -/
@[simp]
theorem settle_settle (s : Session) : s.settle.settle = s.settle := by
  unfold settle
  rw [List.dropWhile_idempotent]

/-- Closing waiting chains leaves the tree. -/
@[simp]
theorem settle_tree (s : Session) : s.settle.tree = s.tree := rfl

/-- Closing waiting chains leaves the registry. -/
@[simp]
theorem settle_registry (s : Session) : s.settle.registry = s.registry := rfl

/-- Closing waiting chains leaves the options. -/
@[simp]
theorem settle_options (s : Session) : s.settle.options = s.options := rfl

/-- Closing waiting chains does not move. -/
@[simp]
theorem settle_current (s : Session) : s.settle.current = s.current := rfl

/-- Closing waiting chains leaves the failure. -/
@[simp]
theorem settle_failure (s : Session) : s.settle.failure = s.failure := rfl

end Session

namespace Build

variable {α β : Type} {s after : Session}

/-- One thing after another succeeds when both do. -/
@[simp]
theorem bind_ok_iff {first : Build α} {next : α → Build β} {result : β} :
    (first >>= next) s = .ok result after ↔
      ∃ value middle, first s = .ok value middle ∧ next value middle = .ok result after := by
  change EStateM.bind first next s = _ ↔ _
  unfold EStateM.bind
  cases first s <;> simp

/-- One thing after another fails when either does. -/
theorem bind_error_iff {first : Build α} {next : α → Build β} {s after : Session}
    {error : BuildError} :
    (first >>= next) s = .error error after ↔
      first s = .error error after ∨
        ∃ value middle, first s = .ok value middle ∧ next value middle = .error error after := by
  change EStateM.bind first next s = _ ↔ _
  unfold EStateM.bind
  cases first s <;> simp

/-- An answer changes nothing. -/
@[simp]
theorem pure_ok_iff {value result : α} :
    (pure value : Build α) s = .ok result after ↔ result = value ∧ after = s := by
  change EStateM.Result.ok value s = _ ↔ _
  simp [eq_comm]

/-- A changed answer comes with the same state. -/
@[simp]
theorem map_ok_iff {change : α → β} {call : Build α} {result : β} :
    (change <$> call) s = .ok result after ↔
      ∃ value, call s = .ok value after ∧ result = change value := by
  change EStateM.map change call s = _ ↔ _
  unfold EStateM.map
  cases call s <;> simp [eq_comm, and_comm]

/-- The state is its own answer. -/
@[simp]
theorem get_ok_iff {state : Session} :
    (get : Build Session) s = .ok state after ↔ state = s ∧ after = s := by
  change EStateM.Result.ok s s = _ ↔ _
  simp [eq_comm]

/-- The state is put in place. -/
@[simp]
theorem set_ok_iff {state : Session} {answer : PUnit} :
    (set state : Build PUnit) s = .ok answer after ↔ after = state := by
  change EStateM.Result.ok _ state = _ ↔ _
  simp [eq_comm]

/-- The state is changed. -/
@[simp]
theorem modify_ok_iff {change : Session → Session} {answer : PUnit} :
    (modify change : Build PUnit) s = .ok answer after ↔ after = change s := by
  change EStateM.Result.ok _ (change s) = _ ↔ _
  simp [eq_comm]

/-- A failure is no success. -/
@[simp]
theorem throw_ok_iff {error : BuildError} {result : α} :
    (throw error : Build α) s = .ok result after ↔ False := by
  change EStateM.Result.error error s = _ ↔ _
  simp

/-- A choice succeeds as the side that is taken. -/
@[simp]
theorem ite_ok_iff {choice : Prop} [Decidable choice] {yes no : Build α} {result : α} :
    (if choice then yes else no) s = .ok result after ↔
      choice ∧ yes s = .ok result after ∨ ¬choice ∧ no s = .ok result after := by
  by_cases taken : choice <;> simp [taken]

/-- A guarded call succeeds as the call does, on a build that has not failed. -/
@[simp]
theorem guarded_ok_iff {call : Build α} {result : α} :
    guarded call s = .ok result after ↔ s.failure = none ∧ call s = .ok result after := by
  unfold guarded
  cases s.failure with
  | some first => simp
  | none => cases call s <;> simp

/-- An instruction is appended to the current block, once the waiting chains are closed and if
nothing refuses it. -/
@[simp]
theorem prepare_ok_iff {kind : Kind} {isParameter : Bool} {block : BlockId} :
    prepare kind isParameter s = .ok block after ↔
      s.settle.accepts isParameter ∧ block = s.current ∧ after = s.settle := by
  unfold prepare
  simp only [bind_ok_iff, modify_ok_iff, get_ok_iff]
  rw [← s.settle.refusal?_eq_none_iff kind]
  cases refused : s.settle.refusal? kind isParameter with
  | some error => simp [refused]
  | none => simp [refused]

/-- A new block gets the next number. -/
@[simp]
theorem newBlock_ok_iff {parent block : BlockId} {kind : BlockKind} :
    newBlock parent kind s = .ok block after ↔
      block = s.tree.next ∧ after = { s with tree := s.tree.addBlock parent kind } := by
  simp [newBlock, and_comm]

/-- An instruction goes to the end of its block. -/
@[simp]
theorem commit_ok_iff {block : BlockId} {instr : Instruction} {site : Address} :
    commit block instr s = .ok site after ↔
      site = ⟨block, s.tree.length block⟩ ∧ after = s.commit block instr := by
  simp [commit, and_comm]

/-- A new variable gets the next number. -/
@[simp]
theorem create_ok_iff {ty : Ty} {category : Category} {name : Option String} {status : Status}
    {var : VarId} :
    create ty category name status s = .ok var after ↔
      var = s.registry.next ∧
        after = { s with registry := s.registry.create ty category name status } := by
  simp [create, and_comm]

/-- A change of the registry succeeds as the change does. -/
@[simp]
theorem register_ok_iff {change : Registry → Except BuildError Registry} {answer : Unit} :
    register change s = .ok answer after ↔
      ∃ registry, change s.registry = .ok registry ∧ after = { s with registry } := by
  unfold register
  cases changed : change s.registry <;> simp [changed]

/-- A change of the registry fails as the change does, and changes nothing then. -/
theorem register_error_iff {change : Registry → Except BuildError Registry} {error : BuildError} :
    register change s = .error error after ↔ change s.registry = .error error ∧ after = s := by
  cases changed : change s.registry with
  | ok registry =>
    have ran : register change s = .ok () { s with registry } :=
      register_ok_iff.mpr ⟨registry, changed, rfl⟩
    simp [ran]
  | error cause =>
    have ran : register change s = .error cause s := by
      refine bind_error_iff.mpr (.inr ⟨s, s, rfl, ?_⟩)
      rw [changed]
      rfl
    simp [ran, eq_comm]

/-- An appended instruction is pushed to the current block, after the construction it may be was
noted. -/
@[simp]
theorem append_ok_iff {instr : Instruction} {answer : Unit} :
    append instr s = .ok answer after ↔
      s.settle.accepts instr.isParameter ∧
        ∃ ready, s.settle.noted instr = .ok ready ∧ after = ready.commit s.current instr := by
  unfold append Session.noted
  cases instr.construction? with
  | none => simp
  | some made =>
    by_cases inHeader : (s.tree.block? s.current).any (·.kind == .forArgs)
    · cases pinned : s.registry.pin made.var <;> simp [inHeader, pinned]
    · simp [inHeader]

/-- A scope is opened and entered. -/
@[simp]
theorem openScope_ok_iff {frame : Frame} {block : BlockId} {answer : Unit} :
    openScope frame block s = .ok answer after ↔
      after = { s with scopes := frame :: s.scopes, current := block } :=
  modify_ok_iff

/-- The innermost scope is continued. -/
@[simp]
theorem replaceScope_ok_iff {frame : Frame} {block : BlockId} {answer : Unit} :
    replaceScope frame block s = .ok answer after ↔ after = s.entered frame block :=
  modify_ok_iff

/-- The innermost scope is left. -/
@[simp]
theorem closeScope_ok_iff {block : BlockId} {answer : Unit} :
    closeScope block s = .ok answer after ↔ after = s.closed block :=
  modify_ok_iff

/-- An instruction is amended. -/
@[simp]
theorem amend_ok_iff {site : Address} {change : Instruction → Instruction} {answer : Unit} :
    amend site change s = .ok answer after ↔
      after = { s with tree := s.tree.amend site change } :=
  modify_ok_iff

section Branch

variable {answer : Unit}

/-- A chain of conditions opens where a branch can be appended, with one case. -/
theorem beginIf_ok_iff {condition : Expr} :
    beginIf condition s = .ok answer after ↔
      s.failure = none ∧ s.settle.accepts false ∧
        after = s.settle.opened [.plain] (.branch [⟨some condition, s.tree.next⟩])
          (.branch s.site s.current false) s.tree.next := by
  simp [beginIf, Session.opened, Session.site]

/-- The cases of a chain are those of the instruction at its address. -/
@[simp]
theorem ifCases_ok_iff {site : Address} {found : Step} {cases : List IfCase} :
    ifCases site found s = .ok cases after ↔
      s.tree.instruction? site = some (.branch cases) ∧ after = s := by
  unfold ifCases
  simp only [bind_ok_iff, get_ok_iff]
  cases isAt : s.tree.instruction? site with
  | none => simp [isAt]
  | some instr => cases instr <;> simp [isAt, eq_comm (a := cases)]

/-- A case is added to the innermost chain of conditions, which has no `else` and waits or stands
in its last case. -/
@[simp]
theorem addIfCase_ok_iff {condition : Option Expr} {found : Step} :
    addIfCase condition found s = .ok answer after ↔
      ∃ site parent waiting rest cases, s.scopes = .branch site parent waiting :: rest ∧
        s.tree.instruction? site = some (.branch cases) ∧ endsInElse cases = false ∧
        (waiting = false → cases.getLast?.any (·.body == s.current)) ∧
        after = s.grown [.plain] (Instruction.addIfCase ⟨condition, s.tree.next⟩)
          (.branch site parent false) s.tree.next := by
  unfold addIfCase
  simp only [bind_ok_iff, get_ok_iff]
  cases isScopes : s.scopes with
  | nil => simp [isScopes]
  | cons frame rest =>
    cases frame with
    | branch site parent waiting =>
      cases waiting <;>
        simp [isScopes, Session.grown, Session.entered, Frame.parent, Frame.site]
    | _ => simp [isScopes]

/-- A case with a condition is added as a case is. -/
theorem beginElseIf_ok_iff {condition : Expr} :
    beginElseIf condition s = .ok answer after ↔
      s.failure = none ∧ addIfCase (some condition) .beginElseIf s = .ok answer after := by
  rw [beginElseIf, guarded_ok_iff]

/-- A last case is added as a case is. -/
theorem beginElse_ok_iff :
    beginElse s = .ok answer after ↔
      s.failure = none ∧ addIfCase none .beginElse s = .ok answer after := by
  rw [beginElse, guarded_ok_iff]

/-- The last case of the innermost chain is closed, and with it the chain if the case was its
`else`. -/
theorem endIfSubBlock_ok_iff :
    endIfSubBlock s = .ok answer after ↔
      s.failure = none ∧ ∃ site parent rest cases,
        s.settle.scopes = .branch site parent false :: rest ∧
        s.tree.instruction? site = some (.branch cases) ∧
        after = if endsInElse cases then s.settle.closed parent
          else s.settle.entered (.branch site parent true) parent := by
  unfold endIfSubBlock
  simp only [guarded_ok_iff, bind_ok_iff, modify_ok_iff, get_ok_iff]
  cases isScopes : s.settle.scopes with
  | nil => simp [isScopes]
  | cons frame rest =>
    cases frame with
    | branch site parent waiting =>
      cases waiting
      · simp [isScopes, eq_ite_iff]
      · simp [isScopes]
    | _ => simp [isScopes]

/-- The innermost chain is closed, from its last case or while it waits. -/
theorem endIf_ok_iff :
    endIf s = .ok answer after ↔
      s.failure = none ∧ ∃ site parent waiting rest,
        s.scopes = .branch site parent waiting :: rest ∧
        after = s.closed (if waiting then s.current else parent) := by
  unfold endIf
  simp only [guarded_ok_iff, bind_ok_iff, get_ok_iff]
  cases isScopes : s.scopes with
  | nil => simp [isScopes]
  | cons frame rest =>
    cases frame with
    | branch site parent waiting => cases waiting <;> simp [isScopes]
    | _ => simp [isScopes]

/-- A switch opens where one can be appended, and takes nothing yet. -/
theorem beginSwitch_ok_iff {selector : Expr} :
    beginSwitch selector s = .ok answer after ↔
      s.failure = none ∧ s.settle.accepts false ∧
        after = s.settle.opened [] (.switch selector []) (.switch s.site s.current none)
          s.current := by
  simp only [beginSwitch, guarded_ok_iff, bind_ok_iff, prepare_ok_iff, commit_ok_iff,
    openScope_ok_iff]
  simp
  exact fun _ _ => Iff.rfl

/-- A case is added to the innermost switch, which has no second default. -/
theorem addCase_ok_iff {label : Option Literal} :
    addCase label s = .ok answer after ↔
      s.failure = none ∧ ∃ site parent openCase rest,
        s.settle.scopes = .switch site parent openCase :: rest ∧
        (label.isNone → (s.tree.instruction? site).any (·.hasDefault) = false) ∧
        after = s.settle.grown [.plain] (Instruction.addSwitchCase ⟨label, s.tree.next⟩)
          (.switch site parent (some s.tree.next)) s.tree.next := by
  unfold addCase
  simp only [guarded_ok_iff, bind_ok_iff, modify_ok_iff, get_ok_iff]
  cases isScopes : s.settle.scopes with
  | nil => simp [isScopes]
  | cons frame rest =>
    cases frame with
    | switch site parent openCase =>
      simp [isScopes, Session.grown, Session.entered, Frame.parent, Frame.site]
    | _ => simp [isScopes]

/-- The innermost switch is closed. -/
theorem endSwitch_ok_iff :
    endSwitch s = .ok answer after ↔
      s.failure = none ∧ ∃ site parent openCase rest,
        s.settle.scopes = .switch site parent openCase :: rest ∧
        after = s.settle.closed parent := by
  unfold endSwitch
  simp only [guarded_ok_iff, bind_ok_iff, modify_ok_iff, get_ok_iff]
  cases isScopes : s.settle.scopes with
  | nil => simp [isScopes]
  | cons frame rest => cases frame <;> simp [isScopes]

end Branch

section Loop

variable {answer : Unit}

/-- A loop whose header is recorded opens where a loop can be appended, and takes nothing yet. -/
theorem beginFor_ok_iff :
    beginFor s = .ok answer after ↔
      s.failure = none ∧ s.settle.accepts false ∧
        after = s.settle.opened [.forArgs, .plain]
          (.forLoop (.recorded s.tree.next none s.options.policy) ⟨s.tree.size + 1⟩)
          (.forLoop s.site s.current (some s.tree.next) ⟨s.tree.size + 1⟩ .created)
          s.current := by
  simp [beginFor, Session.opened, Session.site]

/-- A loop with clauses opens where a loop can be appended, in its body. -/
theorem beginForClauses_ok_iff {clauses : ForClauses} :
    beginForClauses clauses s = .ok answer after ↔
      s.failure = none ∧ s.settle.accepts false ∧
        after = s.settle.opened [.plain] (.forLoop (.clauses clauses) s.tree.next)
          (.forLoop s.site s.current none s.tree.next .body) s.tree.next := by
  simp [beginForClauses, Session.opened, Session.site]

/-- The header of the innermost loop is entered before anything else of it. -/
theorem beginForArgs_ok_iff :
    beginForArgs s = .ok answer after ↔
      s.failure = none ∧ ∃ site parent args body rest,
        s.scopes = .forLoop site parent (some args) body .created :: rest ∧
        after = s.entered (.forLoop site parent (some args) body .args) args := by
  unfold beginForArgs
  simp only [guarded_ok_iff, bind_ok_iff, get_ok_iff]
  cases isScopes : s.scopes with
  | nil => simp [isScopes]
  | cons frame rest =>
    cases frame with
    | forLoop site parent args body phase =>
      cases args <;> cases phase <;> simp [isScopes]
    | _ => simp [isScopes]

/-- The innermost loop gets its condition before its body is entered. -/
theorem stackForCondition_ok_iff {condition : Expr} :
    stackForCondition condition s = .ok answer after ↔
      s.failure = none ∧ ∃ site parent args body phase rest,
        s.scopes = .forLoop site parent args body phase :: rest ∧ phase ≠ .body ∧
        after = s.grown [] (Instruction.stackCondition condition)
          (.forLoop site parent args body phase) s.current := by
  unfold stackForCondition
  simp only [guarded_ok_iff, bind_ok_iff, get_ok_iff]
  cases isScopes : s.scopes with
  | nil => simp [isScopes]
  | cons frame rest =>
    cases frame with
    | forLoop site parent args body phase =>
      cases phase <;> simp [isScopes, Session.grown, Frame.site]
    | _ => simp [isScopes]

/-- The body of the innermost loop is entered once. -/
theorem beginForBody_ok_iff :
    beginForBody s = .ok answer after ↔
      s.failure = none ∧ ∃ site parent args body phase rest,
        s.scopes = .forLoop site parent args body phase :: rest ∧ phase ≠ .body ∧
        after = s.entered (.forLoop site parent args body .body) body := by
  unfold beginForBody
  simp only [guarded_ok_iff, bind_ok_iff, get_ok_iff]
  cases isScopes : s.scopes with
  | nil => simp [isScopes]
  | cons frame rest =>
    cases frame with
    | forLoop site parent args body phase => cases phase <;> simp [isScopes]
    | _ => simp [isScopes]

/-- The innermost loop is closed from its body. -/
theorem endFor_ok_iff :
    endFor s = .ok answer after ↔
      s.failure = none ∧ ∃ site parent args body rest,
        s.settle.scopes = .forLoop site parent args body .body :: rest ∧
        after = s.settle.closed parent := by
  unfold endFor
  simp only [guarded_ok_iff, bind_ok_iff, modify_ok_iff, get_ok_iff]
  cases isScopes : s.settle.scopes with
  | nil => simp [isScopes]
  | cons frame rest =>
    cases frame with
    | forLoop site parent args body phase => cases phase <;> simp [isScopes]
    | _ => simp [isScopes]

/-- A loop that tests before its body opens where one can be appended. -/
theorem beginWhile_ok_iff {condition : Expr} :
    beginWhile condition s = .ok answer after ↔
      s.failure = none ∧ s.settle.accepts false ∧
        after = s.settle.opened [.plain] (.whileLoop condition s.tree.next)
          (.whileLoop s.site s.current) s.tree.next := by
  simp [beginWhile, Session.opened, Session.site]

/-- The innermost loop that tests before its body is closed. -/
theorem endWhile_ok_iff :
    endWhile s = .ok answer after ↔
      s.failure = none ∧ ∃ site parent rest,
        s.settle.scopes = .whileLoop site parent :: rest ∧ after = s.settle.closed parent := by
  unfold endWhile
  simp only [guarded_ok_iff, bind_ok_iff, modify_ok_iff, get_ok_iff]
  cases isScopes : s.settle.scopes with
  | nil => simp [isScopes]
  | cons frame rest => cases frame <;> simp [isScopes]

/-- A loop that tests after its body opens where one can be appended. -/
theorem beginDoWhile_ok_iff :
    beginDoWhile s = .ok answer after ↔
      s.failure = none ∧ s.settle.accepts false ∧
        after = s.settle.opened [.plain] (.doWhile s.tree.next none)
          (.doWhile s.site s.current) s.tree.next := by
  simp [beginDoWhile, Session.opened, Session.site]

/-- The innermost loop that tests after its body gets its condition and is closed. -/
theorem endDoWhile_ok_iff {condition : Expr} :
    endDoWhile condition s = .ok answer after ↔
      s.failure = none ∧ ∃ site parent rest,
        s.settle.scopes = .doWhile site parent :: rest ∧
        after = (s.settle.grown [] (Instruction.closeDoWhile condition) (.doWhile site parent)
          s.current).closed parent := by
  unfold endDoWhile
  simp only [guarded_ok_iff, bind_ok_iff, modify_ok_iff, get_ok_iff]
  cases isScopes : s.settle.scopes with
  | nil => simp [isScopes]
  | cons frame rest =>
    cases frame <;> simp [isScopes, Session.grown, Session.closed, Frame.site]

/-- A keyword statement is appended where it may stand. -/
theorem addStatement_ok_iff {stmt : Special} :
    addStatement stmt s = .ok answer after ↔
      s.failure = none ∧ misplaced? s.scopes stmt = none ∧
        s.settle.accepts false ∧
        after = s.settle.commit s.current (.special stmt) := by
  unfold addStatement
  simp only [guarded_ok_iff, bind_ok_iff, get_ok_iff]
  cases placed : misplaced? s.scopes stmt with
  | some error => simp [placed]
  | none =>
    simp [placed, Session.noted, Instruction.construction?, Instruction.isParameter]

end Loop

section Function

variable {answer : Unit}

/-- A function opens where one can be appended and no function is open, and has no overload yet. -/
theorem beginFunc_ok_iff {name : String} {returns : Ty} {var : VarId} :
    beginFunc name returns s = .ok var after ↔
      s.failure = none ∧ s.settle.scopes.any Frame.isFunction = false ∧
        s.settle.accepts false ∧ ∃ registry,
          (s.registry.create returns .function (some name) .declaration).pin s.registry.next =
            .ok registry ∧
          after = { s.settle with registry }.opened []
            (.function ⟨s.registry.next, name, returns, []⟩)
            (.function s.site s.current s.registry.next none) s.current ∧
          var = s.registry.next := by
  unfold beginFunc
  simp only [guarded_ok_iff, bind_ok_iff, modify_ok_iff, get_ok_iff]
  cases nested : s.settle.scopes.any Frame.isFunction with
  | true => simp [nested]
  | false => simp [nested, Session.opened, Session.site]

/-- Nothing is missing when the parameter list that is open, if one is, is complete. -/
@[simp]
theorem requireComplete_ok_iff {var : VarId} {overload : Option OpenOverload} {found : Step} :
    requireComplete var overload found s = .ok answer after ↔
      (∀ opened ∈ overload, opened.inSignature = false) ∧ after = s := by
  unfold requireComplete
  cases overload <;> simp

/-- An overload is added to the innermost function once the parameter list before it is
complete. -/
theorem nextOverload_ok_iff {params : List Ty} :
    nextOverload params s = .ok answer after ↔
      s.failure = none ∧ ∃ site parent var overload rest decl,
        s.settle.scopes = .function site parent var overload :: rest ∧
        (∀ opened ∈ overload, opened.inSignature = false) ∧
        s.tree.instruction? site = some (.function decl) ∧
        after = s.settle.grown [.funcArgs, .body decl.returns]
          (Instruction.addOverload ⟨params, s.tree.next, ⟨s.tree.size + 1⟩⟩)
          (.function site parent var
            (some ⟨s.tree.next, ⟨s.tree.size + 1⟩, params.length, 0⟩))
          (if params.isEmpty then ⟨s.tree.size + 1⟩ else s.tree.next) := by
  unfold nextOverload
  simp only [guarded_ok_iff, bind_ok_iff, modify_ok_iff, get_ok_iff]
  cases isScopes : s.settle.scopes with
  | nil => simp [isScopes]
  | cons frame rest =>
    cases frame with
    | function site parent var overload =>
      cases isAt : s.tree.instruction? site with
      | none => simp [isScopes, isAt]
      | some instr =>
        cases instr <;>
          simp [isScopes, isAt, Session.grown, Session.entered, Frame.parent, Frame.site]
    | _ => simp [isScopes]

/-- The innermost function is closed when it has an overload and no parameter is missing. -/
theorem endFunc_ok_iff :
    endFunc s = .ok answer after ↔
      s.failure = none ∧ ∃ site parent var opened rest,
        s.settle.scopes = .function site parent var (some opened) :: rest ∧
        opened.inSignature = false ∧ after = s.settle.closed parent := by
  unfold endFunc
  simp only [guarded_ok_iff, bind_ok_iff, modify_ok_iff, get_ok_iff]
  cases isScopes : s.settle.scopes with
  | nil => simp [isScopes]
  | cons frame rest =>
    cases frame with
    | function site parent var overload => cases overload <;> simp [isScopes]
    | _ => simp [isScopes]

/-- A return is appended inside a function, with the mismatch of its type noted. -/
theorem pushReturn_ok_iff {value : Option Expr} {found : Ty} :
    pushReturn value found s = .ok answer after ↔
      s.settle.accepts false ∧ ∃ expected,
        s.tree.returnType? s.current = some expected ∧
        after = s.settle.commit s.current
          (.ret value (if expected = found then none else some ⟨expected, found⟩)) := by
  unfold pushReturn
  simp only [bind_ok_iff, prepare_ok_iff, get_ok_iff]
  cases isReturn : s.tree.returnType? s.current <;> simp [isReturn]

/-- A value is returned as a return is pushed. -/
theorem returnValue_ok_iff {value : Expr} {ty : Ty} :
    returnValue value ty s = .ok answer after ↔
      s.failure = none ∧ pushReturn (some value) ty s = .ok answer after := by
  rw [returnValue, guarded_ok_iff]

/-- Nothing is returned as a return is pushed. -/
theorem returnVoid_ok_iff :
    returnVoid s = .ok answer after ↔
      s.failure = none ∧ pushReturn none .void s = .ok answer after := by
  rw [returnVoid, guarded_ok_iff]

end Function

section Value

variable {answer : Unit} {var : VarId}

/-- The variable of a new value, pinned if it is qualified or a parameter. -/
theorem emitValue_ok_iff {spec : ValueSpec} :
    emitValue spec s = .ok var after ↔
      (spec.status = .forward → spec.args.length = 1) ∧ ∃ registry,
        s.registry.admitted spec = .ok registry ∧
        append (spec.statement s.registry.next) { s with registry } = .ok () after ∧
        var = s.registry.next := by
  unfold emitValue Registry.admitted ValueSpec.statement
  by_cases isPinned : spec.qualifier.isSome || spec.flags.functionArgument
  · simp [isPinned]
  · simp [isPinned]

/-- A value is made as `emitValue` makes it. -/
theorem emit_ok_iff {spec : ValueSpec} :
    emit spec s = .ok var after ↔ s.failure = none ∧ emitValue spec s = .ok var after := by
  rw [emit, guarded_ok_iff]

/-- A value that is never declared changes the registry only. -/
theorem inline_ok_iff {ty : Ty} {args : List Expr} {expr : Expr} :
    inline ty args s = .ok expr after ↔
      s.failure = none ∧ ∃ registry,
        (s.registry.create ty ty.category none .temporary).pin s.registry.next = .ok registry ∧
        after = { s with registry } ∧
        expr = .construct
          { var := s.registry.next, ty, status := .temporary, flags := .call, qualifier := none }
          args := by
  simp [inline, and_comm, and_assoc]

/-- A use changes the registry only. -/
theorem use_ok_iff {id : VarId} {expr : Expr} :
    use id s = .ok expr after ↔
      s.failure = none ∧ expr = .ref id ∧ ∃ registry,
        s.registry.use id = .ok registry ∧ after = { s with registry } := by
  simp [use, and_comm]

/-- A consumption changes the registry only. -/
theorem consume_ok_iff {id : VarId} {expr : Expr} :
    consume id s = .ok expr after ↔
      s.failure = none ∧ expr = .ref id ∧ ∃ registry,
        s.registry.consume id = .ok registry ∧ after = { s with registry } := by
  simp [consume, and_comm]

/-- A clause that declares a variable changes the registry only. -/
theorem forInit_ok_iff {ty : Ty} {name : Option String} {value : Expr} {made : VarId × Expr} :
    forInit ty name value s = .ok made after ↔
      s.failure = none ∧ ∃ registry,
        (s.registry.create ty ty.category name .initialisation).pin s.registry.next =
          .ok registry ∧
        after = { s with registry } ∧
        made = (s.registry.next, .construct
          { var := s.registry.next, ty, status := .initialisation, flags := .none,
            qualifier := none } [value]) := by
  simp [forInit, and_comm, and_assoc]

/-- An expression is pushed as a statement is appended. -/
theorem push_ok_iff {expr : Expr} :
    push expr s = .ok answer after ↔
      s.failure = none ∧ append (.statement expr) s = .ok answer after := by
  rw [push, guarded_ok_iff]

/-- A struct is declared by appending it. -/
theorem declareStruct_ok_iff {name : String} {fields : List Field} {ty : Ty} :
    declareStruct name fields s = .ok ty after ↔
      s.failure = none ∧ append (.struct ⟨name, fields⟩) s = .ok () after ∧
        ty = .struct name := by
  simp [declareStruct, and_comm]

/-- An interface is declared by appending it, once its instance has a variable. -/
theorem declareInterface_ok_iff {qualifier : Qualifier} {name inst : String}
    {fields : List Field} :
    declareInterface qualifier name fields inst s = .ok var after ↔
      s.failure = none ∧ ∃ registry,
        (s.registry.create (.struct name) .other (some inst) .declaration).pin s.registry.next =
          .ok registry ∧
        append (.interface ⟨s.registry.next, qualifier, name, fields⟩) { s with registry } =
          .ok () after ∧
        var = s.registry.next := by
  simp [declareInterface, and_comm, and_assoc]

end Value

/-- A build starts over with the options it had. -/
@[simp]
theorem reset_ok_iff {answer : Unit} : reset s = .ok answer after ↔ after = .start s.options := by
  rw [reset_eq]
  exact modify_ok_iff

/-- A build ends when no scope is open but waiting chains. -/
theorem finish_ok_iff {shader : Shader} :
    finish s = .ok shader after ↔
      s.failure = none ∧ s.settle.scopes = [] ∧ after = s.settle ∧
        shader = ⟨s.tree, if s.options.elideDead then s.registry.elideDead.1 else s.registry⟩ := by
  unfold finish
  simp only [guarded_ok_iff, bind_ok_iff, modify_ok_iff, get_ok_iff]
  cases isScopes : s.settle.scopes with
  | nil =>
    simp [isScopes, and_comm]
    exact fun _ _ => Iff.rfl
  | cons frame rest => simp [isScopes]

end Build

end ShaderLoom
