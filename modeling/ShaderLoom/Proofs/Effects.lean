import Mathlib.Data.List.Perm.Subperm
import ShaderLoom.Proofs.Footprint
import ShaderLoom.Proofs.Lifecycle

/-!
# What a call does

A successful call does one of three things to the tree (`Session.Effect`): it leaves the tree as it
is, it pushes one instruction to the current block, or it amends the instruction that opened the
innermost scope. To the registry it does the same as a short history of events (`Session.notes`),
and a push after them if it pushes. What an instruction holds of expressions is what the call was
given.
-/
namespace ShaderLoom

open Registry (Event)

/-- The expressions in the clauses of a loop header. -/
def ForClauses.exprs (clauses : ForClauses) : List Expr :=
  clauses.inits ++ clauses.condition.toList ++ clauses.increments

namespace Instruction

/-- The expressions an instruction holds. -/
def exprs : Instruction → List Expr
  | .statement expr => [expr]
  | .ret value _ => value.toList
  | .branch cases => cases.flatMap (·.condition.toList)
  | .forLoop (.recorded _ stacked _) _ => stacked.toList
  | .forLoop (.clauses clauses) _ => clauses.exprs
  | .whileLoop condition _ => [condition]
  | .doWhile _ condition => condition.toList
  | .switch selector _ => [selector]
  | _ => []

/-- The kinds of the blocks in the slots of an instruction. -/
def kinds : Instruction → List BlockKind
  | .branch cases => cases.map fun _ => .plain
  | .forLoop (.recorded _ _ _) _ => [.forArgs, .plain]
  | .forLoop (.clauses _) _ => [.plain]
  | .whileLoop _ _ => [.plain]
  | .doWhile _ _ => [.plain]
  | .switch _ cases => cases.map fun _ => .plain
  | .function decl => decl.overloads.flatMap fun _ => [.funcArgs, .body decl.returns]
  | _ => []

/-- The variable that an instruction declares for itself, if it does. -/
def names? : Instruction → Option VarId
  | .function decl => some decl.var
  | .interface decl => some decl.var
  | _ => none

/-- The variable whose value an instruction constructs, if it constructs one. -/
def built? (instr : Instruction) : Option VarId := instr.construction?.map Construction.var

end Instruction

/-- A variable that comes into being. -/
structure Newcomer where
  ty : Ty
  category : Category
  name : Option String
  status : Status
  /-- Whether its status is pinned at once. -/
  pinned : Bool

/-- What the registry sees of a new variable that gets the number `id`. -/
def Newcomer.events (new : Newcomer) (id : VarId) : List Event :=
  .create new.ty new.category new.name new.status :: if new.pinned then [.pin id] else []

/-- The expression that constructs a value. -/
def ValueSpec.value (spec : ValueSpec) (var : VarId) : Expr :=
  .construct
    { var, ty := spec.ty, status := spec.status, flags := spec.flags, qualifier := spec.qualifier }
    spec.args

/-- The variable of a new value. -/
def ValueSpec.newcomer (spec : ValueSpec) : Newcomer :=
  ⟨spec.ty, spec.ty.category, spec.name, spec.status,
    spec.qualifier.isSome || spec.flags.functionArgument⟩

namespace Call

/-- The expressions a call is given. -/
def exprs : Call → List Expr
  | .emit spec => spec.args
  | .construct _ args => args
  | .constructNamed _ _ args => args
  | .forward _ value => [value]
  | .declareConst _ _ value => [value]
  | .inline _ args => args
  | .push expr => [expr]
  | .beginIf condition => [condition]
  | .beginElseIf condition => [condition]
  | .beginSwitch selector => [selector]
  | .beginForClauses clauses => clauses.exprs
  | .forInit _ _ value => [value]
  | .stackForCondition condition => [condition]
  | .beginWhile condition => [condition]
  | .endDoWhile condition => [condition]
  | .returnValue value _ => [value]
  | _ => []

/-- The value that a call makes and pushes, if it is one that does. -/
def spec? : Call → Option ValueSpec
  | .emit spec => some spec
  | .construct ty args =>
    some { ty, status := .initialisation, flags := .call, qualifier := none, name := none, args }
  | .constructNamed ty name args =>
    some { ty, status := .initialisation, flags := .call, qualifier := none, name := some name,
           args }
  | .declare ty name =>
    some { ty, status := .declaration, flags := .none, qualifier := none, name, args := [] }
  | .forward ty value =>
    some { ty, status := .forward, flags := .none, qualifier := none, name := none,
           args := [value] }
  | .declareGlobal qualifier ty name =>
    some { ty, status := .declaration, flags := .none, qualifier := some qualifier,
           name := some name, args := [] }
  | .declareConst ty name value =>
    some { ty, status := .initialisation, flags := .none, qualifier := some .const,
           name := some name, args := [value] }
  | .declareParam ty name qualifier =>
    some { ty, status := .declaration, flags := .parameter, qualifier, name, args := [] }
  | _ => none

/-- The variable that a call creates, if it creates one. -/
def creates? : Call → Option Newcomer
  | .inline ty _ => some ⟨ty, ty.category, none, .temporary, true⟩
  | .forInit ty name _ => some ⟨ty, ty.category, name, .initialisation, true⟩
  | .declareInterface _ name _ inst => some ⟨.struct name, .other, some inst, .declaration, true⟩
  | .beginFunc name returns => some ⟨returns, .function, some name, .declaration, true⟩
  | call => call.spec?.map ValueSpec.newcomer

/-- Whether a call appends an instruction. -/
def appends : Call → Bool
  | .push _ => true
  | .declareStruct _ _ => true
  | .declareInterface _ _ _ _ => true
  | .beginIf _ => true
  | .beginSwitch _ => true
  | .beginFor => true
  | .beginForClauses _ => true
  | .beginWhile _ => true
  | .beginDoWhile => true
  | .addStatement _ => true
  | .beginFunc _ _ => true
  | .returnValue _ _ => true
  | .returnVoid => true
  | call => call.spec?.isSome

/-- What the registry sees of a call that reads a variable. -/
def reads : Call → List Event
  | .use id => [.use id]
  | .consume id => [.consume id]
  | _ => []

/-- A call that makes and pushes a value runs as its value is made. -/
theorem run_of_spec? {call : Call} {spec : ValueSpec} (isSpec : call.spec? = some spec) :
    call.run = Reply.var <$> Build.emit spec := by
  cases call <;> cases isSpec <;> rfl

/-- Such a call is given the arguments of its value. -/
theorem exprs_of_spec? {call : Call} {spec : ValueSpec} (isSpec : call.spec? = some spec) :
    call.exprs = spec.args := by
  cases call <;> cases isSpec <;> rfl

/-- Such a call creates the variable of its value. -/
theorem creates?_of_spec? {call : Call} {spec : ValueSpec} (isSpec : call.spec? = some spec) :
    call.creates? = some spec.newcomer := by
  cases call <;> cases isSpec <;> rfl

/-- Such a call appends the statement that constructs its value. -/
theorem appends_of_spec? {call : Call} {spec : ValueSpec} (isSpec : call.spec? = some spec) :
    call.appends := by
  cases call <;> cases isSpec <;> rfl

/-- Such a call reads no variable. -/
theorem reads_of_spec? {call : Call} {spec : ValueSpec} (isSpec : call.spec? = some spec) :
    call.reads = [] := by
  cases call <;> cases isSpec <;> rfl

end Call

namespace Session

/-- Whether the build stands in the recorded header of a loop. -/
def inHeader (s : Session) : Bool := (s.tree.block? s.current).any (·.kind == .forArgs)

/-- The statement that a call pushes, if it pushes one: the expression it is given, or the value it
makes. -/
def statement? (s : Session) : Call → Option Expr
  | .push expr => some expr
  | call => call.spec?.map (·.value s.registry.next)

/-- What the registry sees of an instruction before it is pushed: in the header of a loop the
variable of a construction is pinned. -/
def pins (s : Session) (built : Option VarId) : List Event :=
  if s.inHeader then built.toList.map .pin else []

/-- What the registry sees of a call before the push that it may end with. -/
def notes (s : Session) (call : Call) : List Event :=
  call.creates?.elim [] (·.events s.registry.next) ++ call.reads ++
    s.pins ((s.statement? call).bind fun expr => expr.construction?.map Construction.var)

/-- The instruction that a call pushes: its statement, or one that is no statement and holds what
the call was given. -/
inductive Appends (s : Session) (call : Call) : Instruction → Prop where
  | statement {expr : Expr} (given : s.statement? call = some expr) :
    s.Appends call (.statement expr)
  | other {instr : Instruction} (given : s.statement? call = none)
    (plain : instr.kind ≠ .statement) (exprs : instr.exprs = call.exprs)
    (names : instr.names? = none ∨
      call.creates?.isSome ∧ instr.names? = some s.registry.next) :
    s.Appends call instr

/-- What a call does to the tree and to the registry. -/
inductive Effect (s : Session) (call : Call) (after : Session) : Prop where
  /-- The tree stays as it is. -/
  | kept (still : call.appends = false) (tree : after.tree = s.tree)
    (registry : after.registry = s.registry.follow (s.notes call))
  /-- An instruction is pushed to the current block, after the blocks of its slots were made. -/
  | pushed (instr : Instruction) (appends : call.appends) (adds : s.Appends call instr)
    (accepted : s.settle.accepts instr.isParameter)
    (slots : instr.slots = s.tree.fresh instr.kinds.length)
    (tree : after.tree = (s.tree.addBlocks s.current instr.kinds).push s.current instr)
    (registry : after.registry = (s.registry.follow (s.notes call)).recordPush instr.built?)
  /-- The instruction that opened a scope is amended, after the blocks of its new slots were
  made. -/
  | amended (frame : Frame) (kinds : List BlockKind) (change : Instruction → Instruction)
    (instr : Instruction) (still : call.appends = false) (isOpen : frame ∈ s.scopes)
    (found : s.tree.instruction? frame.site = some instr) (opens : instr.kind.opens)
    (same : (change instr).kind = instr.kind)
    (slots : (change instr).slots = instr.slots ++ s.tree.fresh kinds.length)
    (grown : (change instr).kinds = instr.kinds ++ kinds)
    (exprs : (change instr).exprs.Subperm (instr.exprs ++ call.exprs))
    (names : (change instr).names? = instr.names?)
    (tree : after.tree = (s.tree.addBlocks frame.site.block kinds).amend frame.site change)
    (registry : after.registry = s.registry.follow (s.notes call)) (quiet : s.notes call = [])

/-- A call that makes and pushes a value pushes its construction. -/
theorem statement?_of_spec? (s : Session) {call : Call} {spec : ValueSpec}
    (isSpec : call.spec? = some spec) :
    s.statement? call = some (spec.value s.registry.next) := by
  cases call <;> cases isSpec <;> rfl

/-- Nothing is pinned without a construction. -/
@[simp]
theorem pins_none (s : Session) : s.pins none = [] := by
  unfold pins
  split <;> rfl

/-- The registry sees a push of what the instruction constructs. -/
@[simp]
theorem commit_registry (s : Session) (block : BlockId) (instr : Instruction) :
    (s.commit block instr).registry = s.registry.recordPush instr.built? := by
  unfold commit countParameter
  split
  · split <;> rfl
  · rfl

/-- An event that is not refused does what it says. -/
theorem step_of_apply {registry changed : Registry} {event : Event}
    (applied : registry.apply event = .ok changed) : registry.step event = changed := by
  unfold Registry.step
  rw [applied]

/-- A new variable that is pinned at once came by two events. -/
theorem follow_pinned {registry changed : Registry} (new : Newcomer) (isPinned : new.pinned)
    (pinned : (registry.create new.ty new.category new.name new.status).pin registry.next =
      .ok changed) : registry.follow (new.events registry.next) = changed := by
  rw [Newcomer.events, if_pos isPinned, Registry.follow_cons, Registry.follow_cons,
    Registry.follow_nil]
  exact step_of_apply pinned

/-- The variable of a new value came by events. -/
theorem follow_admitted {registry changed : Registry} {spec : ValueSpec}
    (admitted : registry.admitted spec = .ok changed) :
    registry.follow (spec.newcomer.events registry.next) = changed := by
  unfold Registry.admitted at admitted
  by_cases isPinned : spec.qualifier.isSome || spec.flags.functionArgument
  · rw [if_pos isPinned] at admitted
    exact follow_pinned spec.newcomer isPinned admitted
  · rw [if_neg isPinned] at admitted
    have free : spec.newcomer.pinned = false := by simpa [ValueSpec.newcomer] using isPinned
    rw [Newcomer.events, free]
    exact Except.ok.inj admitted

/-- What is noted before a push is what is pinned. -/
theorem follow_noted {s ready : Session} {instr : Instruction}
    (isNoted : s.noted instr = .ok ready) :
    ready.tree = s.tree ∧ ready.registry = s.registry.follow (s.pins instr.built?) := by
  unfold noted at isNoted
  unfold pins Instruction.built? inHeader
  cases isMade : instr.construction? with
  | none =>
    rw [isMade] at isNoted
    obtain rfl := Except.ok.inj isNoted
    constructor
    · rfl
    · simp
  | some made =>
    rw [isMade] at isNoted
    by_cases inside : (s.tree.block? s.current).any (·.kind == .forArgs)
    · simp only [inside, if_true] at isNoted
      split at isNoted
      case h_2 => cases isNoted
      case h_1 registry pinned =>
        obtain rfl := Except.ok.inj isNoted
        constructor
        · rfl
        · simp [inside, show s.registry.step (.pin made.var) = registry from step_of_apply pinned]
    · simp only [inside] at isNoted
      obtain rfl := Except.ok.inj isNoted
      constructor
      · rfl
      · simp [inside]

/-- The registry sees of a call that pushes no statement which variable it creates and reads. -/
theorem notes_of_no_statement {s : Session} {call : Call} (statement : s.statement? call = none) :
    s.notes call = call.creates?.elim [] (·.events s.registry.next) ++ call.reads := by
  simp [notes, statement]

/-- The registry sees nothing of a call that neither creates nor reads a variable and pushes no
statement. -/
theorem notes_eq_nil {s : Session} {call : Call} (creates : call.creates? = none)
    (reads : call.reads = []) (statement : s.statement? call = none) : s.notes call = [] := by
  simp [notes, creates, reads, statement]

section Effect

variable {s after : Session} {call : Call} {instr : Instruction}

/-- A call that only moves on has no effect. -/
theorem effect_still (tree : after.tree = s.tree) (registry : after.registry = s.registry)
    (still : call.appends = false) (quiet : s.notes call = []) : s.Effect call after := by
  refine .kept still tree ?_
  rw [quiet, registry]
  rfl

/-- A call that appends an instruction pushes it, after what it notes beforehand. -/
theorem effect_append {registry : Registry} (before : List Event)
    (ran : Build.append instr { s with registry } = .ok () after)
    (followed : s.registry.follow before = registry) (appends : call.appends)
    (adds : s.Appends call instr) (kinds : instr.kinds = []) (slots : instr.slots = [])
    (notes : s.notes call = before ++ s.pins instr.built?) : s.Effect call after := by
  obtain ⟨accepted, ready, noted, rfl⟩ := Build.append_ok_iff.mp ran
  obtain ⟨tree, noted⟩ := follow_noted noted
  refine .pushed instr appends adds accepted ?_ ?_ ?_
  · rw [kinds, slots]
    rfl
  · rw [commit_tree, tree, kinds]
    rfl
  · rw [commit_registry, noted, notes, Registry.follow_append, followed]
    rfl

/-- An instruction that is no statement and opens no scope is pushed as it is. -/
theorem effect_commit (committed : after = s.settle.commit s.current instr)
    (accepted : s.settle.accepts false) (appends : call.appends) (adds : s.Appends call instr)
    (kinds : instr.kinds = []) (slots : instr.slots = []) (noValue : instr.construction? = none)
    (quiet : s.notes call = []) : s.Effect call after := by
  subst committed
  refine .pushed instr appends adds ?_ ?_ ?_ ?_
  · simpa [Instruction.isParameter, noValue] using accepted
  · rw [kinds, slots]
    rfl
  · rw [commit_tree, kinds]
    rfl
  · rw [commit_registry, quiet]
    rfl

/-- A call that opens a scope pushes its instruction. -/
theorem effect_opened {registry : Registry} {kinds : List BlockKind} {frame : Frame}
    {inner : BlockId}
    (opened : after = { s.settle with registry }.opened kinds instr frame inner)
    (followed : s.registry.follow (s.notes call) = registry) (accepted : s.settle.accepts false)
    (isKinds : instr.kinds = kinds) (slots : instr.slots = s.tree.fresh kinds.length)
    (noValue : instr.construction? = none) (appends : call.appends) (adds : s.Appends call instr) :
    s.Effect call after := by
  subst opened followed isKinds
  refine .pushed instr appends adds ?_ slots ?_ ?_
  · simpa [Instruction.isParameter, noValue] using accepted
  · simp [Session.opened]
  · simp [Session.opened]

/-- A call that opens a scope and creates no variable pushes its instruction and does no more. -/
theorem effect_begin {kinds : List BlockKind} {frame : Frame} {inner : BlockId}
    (opened : after = s.settle.opened kinds instr frame inner) (accepted : s.settle.accepts false)
    (quiet : s.notes call = []) (isKinds : instr.kinds = kinds)
    (slots : instr.slots = s.tree.fresh kinds.length) (noValue : instr.construction? = none)
    (appends : call.appends) (adds : s.Appends call instr) : s.Effect call after := by
  refine effect_opened opened ?_ accepted isKinds slots noValue appends adds
  rw [quiet]
  rfl

/-- A call that continues a scope amends the instruction that opened it. -/
theorem effect_grown (placed : s.Placed) {frame new : Frame} {kinds : List BlockKind}
    {change : Instruction → Instruction} (isOpen : frame ∈ s.scopes)
    (found : s.tree.instruction? frame.site = some instr)
    (tree : after.tree = (s.tree.addBlocks new.parent kinds).amend new.site change)
    (registry : after.registry = s.registry) (site : new.site = frame.site)
    (parent : new.parent = frame.parent) (still : call.appends = false)
    (quiet : s.notes call = []) (opens : instr.kind.opens)
    (same : (change instr).kind = instr.kind)
    (slots : (change instr).slots = instr.slots ++ s.tree.fresh kinds.length)
    (grown : (change instr).kinds = instr.kinds ++ kinds)
    (exprs : (change instr).exprs.Subperm (instr.exprs ++ call.exprs))
    (names : (change instr).names? = instr.names?) : s.Effect call after := by
  have around := (placed.stacking.instruction isOpen).1
  refine .amended frame kinds change instr still isOpen found opens same slots grown exprs names
    ?_ ?_ quiet
  · rw [tree, site, parent, around]
  · rw [quiet, registry]
    rfl

/-- A frame that is innermost once waiting chains are closed is one of the open scopes. -/
theorem mem_scopes_of_settle {frame : Frame} {rest : List Frame}
    (top : s.settle.scopes = frame :: rest) : frame ∈ s.scopes := by
  have isSuffix : frame :: rest <:+ s.scopes := by
    rw [← top]
    exact List.dropWhile_suffix _
  exact isSuffix.subset List.mem_cons_self

end Effect

end Session

namespace Build

open Session

variable {s after : Session}

/-- A call that makes and pushes a value has the effect of a push. -/
theorem effect_spec {call : Call} {reply : Reply} {spec : ValueSpec}
    (isSpec : call.spec? = some spec) (ran : call.run s = .ok reply after) :
    s.Effect call after := by
  have given := statement?_of_spec? s isSpec
  rw [Call.run_of_spec? isSpec] at ran
  obtain ⟨var, ran, -⟩ := map_ok_iff.mp ran
  obtain ⟨-, ran⟩ := emit_ok_iff.mp ran
  obtain ⟨-, registry, admitted, ran, -⟩ := emitValue_ok_iff.mp ran
  refine effect_append (spec.newcomer.events s.registry.next) ran (follow_admitted admitted)
    (Call.appends_of_spec? isSpec) (.statement given) rfl rfl ?_
  rw [notes, Call.creates?_of_spec? isSpec, Call.reads_of_spec? isSpec, given, List.append_nil]
  rfl

/-- A value that is never declared is a new variable and nothing else. -/
theorem effect_inline {ty : Ty} {args : List Expr} {expr : Expr}
    (ran : inline ty args s = .ok expr after) : s.Effect (.inline ty args) after := by
  obtain ⟨-, registry, pinned, rfl, -⟩ := inline_ok_iff.mp ran
  refine .kept rfl rfl ?_
  rw [notes_of_no_statement rfl]
  exact (follow_pinned ⟨ty, ty.category, none, .temporary, true⟩ rfl pinned).symm

/-- A clause that declares a variable is a new variable and nothing else. -/
theorem effect_forInit {ty : Ty} {name : Option String} {value : Expr} {made : VarId × Expr}
    (ran : forInit ty name value s = .ok made after) :
    s.Effect (.forInit ty name value) after := by
  obtain ⟨-, registry, pinned, rfl, -⟩ := forInit_ok_iff.mp ran
  refine .kept rfl rfl ?_
  rw [notes_of_no_statement rfl]
  exact (follow_pinned ⟨ty, ty.category, name, .initialisation, true⟩ rfl pinned).symm

/-- A use is one event. -/
theorem effect_use {id : VarId} {expr : Expr} (ran : use id s = .ok expr after) :
    s.Effect (.use id) after := by
  obtain ⟨-, -, registry, used, rfl⟩ := use_ok_iff.mp ran
  refine .kept rfl rfl ?_
  rw [notes_of_no_statement rfl]
  exact (step_of_apply (show s.registry.apply (.use id) = .ok registry from used)).symm

/-- A consumption is one event. -/
theorem effect_consume {id : VarId} {expr : Expr} (ran : consume id s = .ok expr after) :
    s.Effect (.consume id) after := by
  obtain ⟨-, -, registry, consumed, rfl⟩ := consume_ok_iff.mp ran
  refine .kept rfl rfl ?_
  rw [notes_of_no_statement rfl]
  exact (step_of_apply (show s.registry.apply (.consume id) = .ok registry from consumed)).symm

/-- An expression is pushed as a statement. -/
theorem effect_push {expr : Expr} {answer : Unit} (ran : push expr s = .ok answer after) :
    s.Effect (.push expr) after := by
  obtain ⟨-, ran⟩ := push_ok_iff.mp ran
  exact effect_append [] ran rfl rfl (.statement rfl) rfl rfl rfl

/-- A struct is pushed. -/
theorem effect_declareStruct {name : String} {fields : List Field} {ty : Ty}
    (ran : declareStruct name fields s = .ok ty after) :
    s.Effect (.declareStruct name fields) after := by
  obtain ⟨-, ran, -⟩ := declareStruct_ok_iff.mp ran
  exact effect_append [] ran rfl rfl (.other rfl Kind.noConfusion rfl (.inl rfl)) rfl rfl rfl

/-- An interface is pushed, once its instance has a variable. -/
theorem effect_declareInterface {qualifier : Qualifier} {name inst : String}
    {fields : List Field} {var : VarId}
    (ran : declareInterface qualifier name fields inst s = .ok var after) :
    s.Effect (.declareInterface qualifier name fields inst) after := by
  obtain ⟨-, registry, pinned, ran, -⟩ := declareInterface_ok_iff.mp ran
  have followed := follow_pinned ⟨.struct name, .other, some inst, .declaration, true⟩ rfl pinned
  refine effect_append _ ran followed rfl (.other rfl Kind.noConfusion rfl (.inr ⟨rfl, rfl⟩)) rfl
    rfl ?_
  show s.notes _ = _ ++ s.pins none
  rw [pins_none, notes_of_no_statement rfl]
  rfl

/-- A keyword statement is pushed. -/
theorem effect_addStatement {stmt : Special} {answer : Unit}
    (ran : addStatement stmt s = .ok answer after) : s.Effect (.addStatement stmt) after := by
  obtain ⟨-, -, accepted, committed⟩ := addStatement_ok_iff.mp ran
  exact effect_commit committed accepted rfl (.other rfl Kind.noConfusion rfl (.inl rfl)) rfl rfl
    rfl (notes_eq_nil rfl rfl rfl)

/-- A return is pushed. -/
theorem effect_pushReturn {call : Call} {value : Option Expr} {found : Ty} {answer : Unit}
    (ran : pushReturn value found s = .ok answer after)
    (isReturn : call = .returnVoid ∧ value = none ∨
      ∃ given, call = .returnValue given found ∧ value = some given) : s.Effect call after := by
  obtain ⟨accepted, expected, -, committed⟩ := pushReturn_ok_iff.mp ran
  obtain ⟨rfl, rfl⟩ | ⟨given, rfl, rfl⟩ := isReturn
  · exact effect_commit committed accepted rfl (.other rfl Kind.noConfusion rfl (.inl rfl)) rfl
      rfl rfl (notes_eq_nil rfl rfl rfl)
  · exact effect_commit committed accepted rfl (.other rfl Kind.noConfusion rfl (.inl rfl)) rfl
      rfl rfl (notes_eq_nil rfl rfl rfl)

/-- A chain of conditions is pushed with the block of its first case. -/
theorem effect_beginIf {condition : Expr} {answer : Unit}
    (ran : beginIf condition s = .ok answer after) : s.Effect (.beginIf condition) after := by
  obtain ⟨-, accepted, opened⟩ := beginIf_ok_iff.mp ran
  exact effect_begin opened accepted (notes_eq_nil rfl rfl rfl) rfl rfl rfl rfl
    (.other rfl Kind.noConfusion rfl (.inl rfl))

/-- A case is added to a chain of conditions with its block. -/
theorem effect_addIfCase (placed : s.Placed) {call : Call} {condition : Option Expr} {found : Step}
    {answer : Unit} (ran : addIfCase condition found s = .ok answer after)
    (isCase : call = .beginElse ∧ condition = none ∨
      ∃ given, call = .beginElseIf given ∧ condition = some given) : s.Effect call after := by
  obtain ⟨site, parent, waiting, rest, cases, top, isAt, -, -, rfl⟩ := addIfCase_ok_iff.mp ran
  have isOpen : Frame.branch site parent waiting ∈ s.scopes := by
    rw [top]
    exact List.mem_cons_self
  have exprs : (Instruction.branch (cases ++ [⟨condition, s.tree.next⟩])).exprs =
      (Instruction.branch cases).exprs ++ condition.toList := by
    simp [Instruction.exprs]
  obtain ⟨rfl, rfl⟩ | ⟨given, rfl, rfl⟩ := isCase
  all_goals
    refine effect_grown placed isOpen isAt rfl rfl rfl rfl rfl (notes_eq_nil rfl rfl rfl) rfl rfl
      ?_ ?_ (exprs ▸ List.Subperm.refl _) rfl
    · simp [Instruction.slots, Instruction.addIfCase]
    · simp [Instruction.kinds, Instruction.addIfCase]

/-- A switch is pushed without blocks. -/
theorem effect_beginSwitch {selector : Expr} {answer : Unit}
    (ran : beginSwitch selector s = .ok answer after) :
    s.Effect (.beginSwitch selector) after := by
  obtain ⟨-, accepted, opened⟩ := beginSwitch_ok_iff.mp ran
  exact effect_begin opened accepted (notes_eq_nil rfl rfl rfl) rfl rfl rfl rfl
    (.other rfl Kind.noConfusion rfl (.inl rfl))

/-- A case is added to a switch with its block. -/
theorem effect_addCase (placed : s.Placed) {label : Option Literal} {answer : Unit}
    (ran : addCase label s = .ok answer after) : s.Effect (.addCase label) after := by
  obtain ⟨-, site, parent, openCase, rest, top, -, rfl⟩ := addCase_ok_iff.mp ran
  obtain ⟨instr, isAt, fits⟩ := placed.settled_instruction top
  obtain ⟨selector, cases, rfl, -⟩ := Frame.fits_switch_iff.mp fits
  refine effect_grown placed (mem_scopes_of_settle top) isAt rfl rfl rfl rfl rfl
    (notes_eq_nil rfl rfl rfl) rfl rfl ?_ ?_ ?_ rfl
  · simp [Instruction.slots, Instruction.addSwitchCase]
  · simp [Instruction.kinds, Instruction.addSwitchCase]
  · exact List.Subperm.refl _

/-- A loop with a recorded header is pushed with the blocks of its header and its body. -/
theorem effect_beginFor {answer : Unit} (ran : beginFor s = .ok answer after) :
    s.Effect .beginFor after := by
  obtain ⟨-, accepted, opened⟩ := beginFor_ok_iff.mp ran
  exact effect_begin opened accepted (notes_eq_nil rfl rfl rfl) rfl rfl rfl rfl
    (.other rfl Kind.noConfusion rfl (.inl rfl))

/-- A loop with clauses is pushed with the block of its body. -/
theorem effect_beginForClauses {clauses : ForClauses} {answer : Unit}
    (ran : beginForClauses clauses s = .ok answer after) :
    s.Effect (.beginForClauses clauses) after := by
  obtain ⟨-, accepted, opened⟩ := beginForClauses_ok_iff.mp ran
  exact effect_begin opened accepted (notes_eq_nil rfl rfl rfl) rfl rfl rfl rfl
    (.other rfl Kind.noConfusion rfl (.inl rfl))

/-- A loop with a recorded header takes a condition, in place of the one it may have had. -/
theorem effect_stackForCondition (placed : s.Placed) {condition : Expr} {answer : Unit}
    (ran : stackForCondition condition s = .ok answer after) :
    s.Effect (.stackForCondition condition) after := by
  obtain ⟨-, site, parent, args, body, phase, rest, top, outside, rfl⟩ :=
    stackForCondition_ok_iff.mp ran
  have isOpen : Frame.forLoop site parent args body phase ∈ s.scopes := by
    rw [top]
    exact List.mem_cons_self
  obtain ⟨-, instr, isAt, fits⟩ := placed.stacking.instruction isOpen
  obtain ⟨header, stacked, policy, rfl, -⟩ := (Frame.fits_forLoop_iff outside).mp fits
  refine effect_grown placed isOpen isAt rfl rfl rfl rfl rfl (notes_eq_nil rfl rfl rfl) rfl rfl
    rfl rfl ?_ rfl
  exact (List.sublist_append_right _ _).subperm

/-- A loop that tests before its body is pushed with the block of its body. -/
theorem effect_beginWhile {condition : Expr} {answer : Unit}
    (ran : beginWhile condition s = .ok answer after) : s.Effect (.beginWhile condition) after := by
  obtain ⟨-, accepted, opened⟩ := beginWhile_ok_iff.mp ran
  exact effect_begin opened accepted (notes_eq_nil rfl rfl rfl) rfl rfl rfl rfl
    (.other rfl Kind.noConfusion rfl (.inl rfl))

/-- A loop that tests after its body is pushed with the block of its body. -/
theorem effect_beginDoWhile {answer : Unit} (ran : beginDoWhile s = .ok answer after) :
    s.Effect .beginDoWhile after := by
  obtain ⟨-, accepted, opened⟩ := beginDoWhile_ok_iff.mp ran
  exact effect_begin opened accepted (notes_eq_nil rfl rfl rfl) rfl rfl rfl rfl
    (.other rfl Kind.noConfusion rfl (.inl rfl))

/-- A loop that tests after its body takes its condition. -/
theorem effect_endDoWhile (placed : s.Placed) {condition : Expr} {answer : Unit}
    (ran : endDoWhile condition s = .ok answer after) :
    s.Effect (.endDoWhile condition) after := by
  obtain ⟨-, site, parent, rest, top, rfl⟩ := endDoWhile_ok_iff.mp ran
  obtain ⟨instr, isAt, fits⟩ := placed.settled_instruction top
  obtain ⟨body, earlier, rfl⟩ := Frame.fits_doWhile_iff.mp fits
  refine effect_grown placed (mem_scopes_of_settle top) isAt rfl rfl rfl rfl rfl
    (notes_eq_nil rfl rfl rfl) rfl rfl rfl rfl ?_ rfl
  exact (List.sublist_append_right _ _).subperm

/-- A function is pushed without overloads, once it has a variable. -/
theorem effect_beginFunc {name : String} {returns : Ty} {var : VarId}
    (ran : beginFunc name returns s = .ok var after) :
    s.Effect (.beginFunc name returns) after := by
  obtain ⟨-, -, accepted, registry, pinned, opened, -⟩ := beginFunc_ok_iff.mp ran
  refine effect_opened opened ?_ accepted rfl rfl rfl rfl
    (.other rfl Kind.noConfusion rfl (.inr ⟨rfl, rfl⟩))
  rw [notes_of_no_statement rfl]
  exact follow_pinned ⟨returns, .function, some name, .declaration, true⟩ rfl pinned

/-- An overload is added to a function with the blocks of its parameters and its body. -/
theorem effect_nextOverload (placed : s.Placed) {params : List Ty} {answer : Unit}
    (ran : nextOverload params s = .ok answer after) : s.Effect (.nextOverload params) after := by
  obtain ⟨-, site, parent, var, overload, rest, decl, top, -, isAt, rfl⟩ :=
    nextOverload_ok_iff.mp ran
  refine effect_grown placed (mem_scopes_of_settle top) isAt rfl rfl rfl rfl rfl
    (notes_eq_nil rfl rfl rfl) rfl rfl ?_ ?_ ?_ rfl
  · simp [Instruction.slots, Instruction.addOverload]
  · simp [Instruction.kinds, Instruction.addOverload]
  · exact List.nil_subperm

end Build

open Session

/-- A call has the effect of the operation it stands for. -/
theorem effect_map {α : Type} {change : α → Reply} {operation : Build α} {s after : Session}
    {reply : Reply} {call : Call} (ran : (change <$> operation) s = .ok reply after)
    (effect : ∀ value, operation s = .ok value after → s.Effect call after) :
    s.Effect call after := by
  obtain ⟨value, ran, -⟩ := Build.map_ok_iff.mp ran
  exact effect value ran

/-- What every successful call but a fresh start does. -/
theorem Call.effect {call : Call} {s after : Session} {reply : Reply} (placed : s.Placed)
    (ran : call.run s = .ok reply after) (goesOn : call ≠ .reset) : s.Effect call after := by
  cases call with
  | emit | construct | constructNamed | declare | forward | declareGlobal | declareConst
  | declareParam => exact Build.effect_spec rfl ran
  | inline => exact effect_map ran fun _ => Build.effect_inline
  | use => exact effect_map ran fun _ => Build.effect_use
  | consume => exact effect_map ran fun _ => Build.effect_consume
  | push => exact effect_map ran fun _ => Build.effect_push
  | declareStruct => exact effect_map ran fun _ => Build.effect_declareStruct
  | declareInterface => exact effect_map ran fun _ => Build.effect_declareInterface
  | beginIf => exact effect_map ran fun _ => Build.effect_beginIf
  | beginElseIf condition =>
    exact effect_map ran fun _ ran => Build.effect_addIfCase placed
      (Build.beginElseIf_ok_iff.mp ran).2 (.inr ⟨condition, rfl, rfl⟩)
  | beginElse =>
    exact effect_map ran fun _ ran => Build.effect_addIfCase placed
      (Build.beginElse_ok_iff.mp ran).2 (.inl ⟨rfl, rfl⟩)
  | endIfSubBlock =>
    refine effect_map ran fun _ ran => ?_
    obtain ⟨-, site, parent, rest, cases, -, -, rfl⟩ := Build.endIfSubBlock_ok_iff.mp ran
    by_cases isElse : endsInElse cases
    · rw [if_pos isElse]
      exact effect_still rfl rfl rfl (notes_eq_nil rfl rfl rfl)
    · rw [if_neg isElse]
      exact effect_still rfl rfl rfl (notes_eq_nil rfl rfl rfl)
  | endIf =>
    refine effect_map ran fun _ ran => ?_
    obtain ⟨-, site, parent, waiting, rest, -, rfl⟩ := Build.endIf_ok_iff.mp ran
    exact effect_still rfl rfl rfl (notes_eq_nil rfl rfl rfl)
  | beginSwitch => exact effect_map ran fun _ => Build.effect_beginSwitch
  | addCase => exact effect_map ran fun _ => Build.effect_addCase placed
  | endSwitch =>
    refine effect_map ran fun _ ran => ?_
    obtain ⟨-, site, parent, openCase, rest, -, rfl⟩ := Build.endSwitch_ok_iff.mp ran
    exact effect_still rfl rfl rfl (notes_eq_nil rfl rfl rfl)
  | beginFor => exact effect_map ran fun _ => Build.effect_beginFor
  | beginForClauses => exact effect_map ran fun _ => Build.effect_beginForClauses
  | forInit => exact effect_map ran fun _ => Build.effect_forInit
  | beginForArgs =>
    refine effect_map ran fun _ ran => ?_
    obtain ⟨-, site, parent, args, body, rest, -, rfl⟩ := Build.beginForArgs_ok_iff.mp ran
    exact effect_still rfl rfl rfl (notes_eq_nil rfl rfl rfl)
  | stackForCondition => exact effect_map ran fun _ => Build.effect_stackForCondition placed
  | beginForBody =>
    refine effect_map ran fun _ ran => ?_
    obtain ⟨-, site, parent, args, body, phase, rest, -, -, rfl⟩ :=
      Build.beginForBody_ok_iff.mp ran
    exact effect_still rfl rfl rfl (notes_eq_nil rfl rfl rfl)
  | endFor =>
    refine effect_map ran fun _ ran => ?_
    obtain ⟨-, site, parent, args, body, rest, -, rfl⟩ := Build.endFor_ok_iff.mp ran
    exact effect_still rfl rfl rfl (notes_eq_nil rfl rfl rfl)
  | beginWhile => exact effect_map ran fun _ => Build.effect_beginWhile
  | endWhile =>
    refine effect_map ran fun _ ran => ?_
    obtain ⟨-, site, parent, rest, -, rfl⟩ := Build.endWhile_ok_iff.mp ran
    exact effect_still rfl rfl rfl (notes_eq_nil rfl rfl rfl)
  | beginDoWhile => exact effect_map ran fun _ => Build.effect_beginDoWhile
  | endDoWhile => exact effect_map ran fun _ => Build.effect_endDoWhile placed
  | addStatement => exact effect_map ran fun _ => Build.effect_addStatement
  | beginFunc => exact effect_map ran fun _ => Build.effect_beginFunc
  | nextOverload => exact effect_map ran fun _ => Build.effect_nextOverload placed
  | endFunc =>
    refine effect_map ran fun _ ran => ?_
    obtain ⟨-, site, parent, var, opened, rest, -, -, rfl⟩ := Build.endFunc_ok_iff.mp ran
    exact effect_still rfl rfl rfl (notes_eq_nil rfl rfl rfl)
  | returnValue value ty =>
    exact effect_map ran fun _ ran => Build.effect_pushReturn (Build.returnValue_ok_iff.mp ran).2
      (.inr ⟨value, rfl, rfl⟩)
  | returnVoid =>
    exact effect_map ran fun _ ran => Build.effect_pushReturn (Build.returnVoid_ok_iff.mp ran).2
      (.inl ⟨rfl, rfl⟩)
  | reset => exact absurd rfl goesOn

end ShaderLoom
