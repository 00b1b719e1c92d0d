import Mathlib.Logic.Relation
import ShaderLoom.Proofs.Runs

/-!
# Builds as moves

Every call that succeeds is a sequence of a few kinds of moves (`Move`): the registry changes, a
waiting chain is closed, a plain instruction is appended, and a scope is opened, grown, entered or
left. What every move keeps holds in every state that calls can reach without a failure
(`Session.reached_of_moves`).
-/
namespace ShaderLoom

/-- Whether an instruction of this kind opens a scope. -/
def Kind.opens : Kind → Bool
  | .branch | .forLoop | .whileLoop | .doWhile | .switch | .function => true
  | .statement | .ret | .special | .struct | .interface => false

namespace Instruction

/-- Every chain of conditions has a case and no case after an `else`, and a switch has one default
at most. -/
def Sound : Instruction → Prop
  | .branch cases => cases ≠ [] ∧ ∀ case ∈ cases.dropLast, case.condition.isSome
  | .switch _ cases => cases.countP (·.label.isNone) ≤ 1
  | _ => True

/-- A loop that tests after its body has its condition, and a function has an overload. -/
def Complete : Instruction → Prop
  | .doWhile _ condition => condition.isSome
  | .function decl => decl.overloads ≠ []
  | _ => True

end Instruction

namespace Frame

/-- Whether a frame and an instruction are of one kind and agree in all they both hold. -/
def Fits : Frame → Instruction → Prop
  | .branch _ _ waiting, .branch cases => cases ≠ [] ∧ (waiting → endsInElse cases = false)
  | .forLoop _ _ (some args) body _, .forLoop (.recorded args' _ _) body' =>
    args' = args ∧ body' = body
  | .forLoop _ _ none body phase, .forLoop (.clauses _) body' => body' = body ∧ phase = .body
  | .whileLoop _ _, .whileLoop _ _ => True
  | .doWhile _ _, .doWhile _ _ => True
  | .switch _ _ openCase, .switch _ cases => openCase = cases.getLast?.map SwitchCase.body
  | .function _ _ var overload, .function decl =>
    decl.var = var ∧
      (overload.map fun opened => (opened.args, opened.body, opened.expected)) =
        (decl.overloads.getLast?.map fun last => (last.args, last.body, last.params.length)) ∧
      ∀ opened ∈ overload, opened.args ≠ opened.body
  | _, _ => False

/-- The block a build stands in while a frame is its innermost one, if the frame's instruction
tells. -/
def seat? : Frame → Instruction → Option BlockId
  | .branch _ parent true, _ => some parent
  | .branch _ _ false, .branch cases => cases.getLast?.map IfCase.body
  | .forLoop _ parent _ _ .created, _ => some parent
  | .forLoop _ _ args _ .args, _ => args
  | .forLoop _ _ _ body .body, _ => some body
  | .whileLoop _ _, .whileLoop _ body => some body
  | .doWhile _ _, .doWhile body _ => some body
  | .switch _ parent openCase, _ => some (openCase.getD parent)
  | .function _ parent _ none, _ => some parent
  | .function _ _ _ (some opened), _ =>
    some (if opened.inSignature then opened.args else opened.body)
  | _, _ => none

/-- The overload that is open while a frame is there, if it is the frame of a function. -/
def overload? : Frame → Option OpenOverload
  | .function _ _ _ overload => overload
  | _ => none

/-- A frame fits an instruction and together they tell where the build stands. -/
structure Holds (frame : Frame) (instr : Instruction) (block : BlockId) : Prop where
  fits : frame.Fits instr
  seat : frame.seat? instr = some block

/-- A frame that fits an instruction is of its kind. -/
theorem Fits.kind_eq {frame : Frame} {instr : Instruction} (fits : frame.Fits instr) :
    instr.kind = frame.kind := by
  unfold Fits at fits
  split at fits <;> first | rfl | exact fits.elim

section Fits

variable {site : Address} {parent body : BlockId} {instr : Instruction}

/-- The frame of a chain of conditions fits chains. -/
theorem fits_branch_iff {waiting : Bool} :
    (Frame.branch site parent waiting).Fits instr ↔
      ∃ cases, instr = .branch cases ∧ cases ≠ [] ∧
        (waiting → endsInElse cases = false) := by
  cases instr <;> simp [Fits]

/-- The frame of a loop that is not in its body fits loops with a recorded header. -/
theorem fits_forLoop_iff {args : Option BlockId} {phase : ForPhase} (outside : phase ≠ .body) :
    (Frame.forLoop site parent args body phase).Fits instr ↔
      ∃ header stacked policy, instr = .forLoop (.recorded header stacked policy) body ∧
        args = some header := by
  cases instr with
  | forLoop header body' =>
    cases args <;> cases header <;> simp [Fits, outside, and_comm, eq_comm]
  | _ => cases args <;> simp [Fits]

/-- The frame of a loop that tests before its body fits such loops. -/
theorem fits_whileLoop_iff :
    (Frame.whileLoop site parent).Fits instr ↔
      ∃ condition body, instr = .whileLoop condition body := by
  cases instr <;> simp [Fits]

/-- The frame of a loop that tests after its body fits such loops. -/
theorem fits_doWhile_iff :
    (Frame.doWhile site parent).Fits instr ↔ ∃ body condition, instr = .doWhile body condition := by
  cases instr <;> simp [Fits]

/-- The frame of a switch fits switches whose last case is the open one. -/
theorem fits_switch_iff {openCase : Option BlockId} :
    (Frame.switch site parent openCase).Fits instr ↔
      ∃ selector cases, instr = .switch selector cases ∧
        openCase = cases.getLast?.map SwitchCase.body := by
  cases instr <;> simp [Fits]

/-- The frame of a function fits functions whose last overload is the open one. -/
theorem fits_function_iff {var : VarId} {overload : Option OpenOverload} :
    (Frame.function site parent var overload).Fits instr ↔
      ∃ decl, instr = .function decl ∧ decl.var = var ∧
        (overload.map fun opened => (opened.args, opened.body, opened.expected)) =
          (decl.overloads.getLast?.map fun last => (last.args, last.body, last.params.length)) ∧
        ∀ opened ∈ overload, opened.args ≠ opened.body := by
  cases instr <;> simp [Fits]

end Fits

end Frame

/-- What it takes to open a scope with an instruction and a frame. -/
structure Session.Opens (s : Session) (kinds : List BlockKind) (instr : Instruction)
    (frame : Frame) (inner : BlockId) : Prop where
  settled : s.settle = s
  accepted : s.accepts false
  slots : instr.slots = s.tree.fresh kinds.length
  site : frame.site = s.site
  parent : frame.parent = s.current
  holds : frame.Holds instr inner
  calm : frame.isWaiting = false
  sound : instr.Sound
  /-- Functions do not nest. -/
  single : frame.isFunction → s.scopes.any Frame.isFunction = false
  /-- A function opens without an overload. -/
  unopened : frame.overload? = none

/-- What it takes to grow a scope: the instruction that opened it takes the new blocks. -/
structure Session.Grows (s : Session) (kinds : List BlockKind)
    (change : Instruction → Instruction) (old new : Frame) (inner : BlockId) : Prop where
  site : new.site = old.site
  parent : new.parent = old.parent
  kind : new.kind = old.kind
  calm : new.isWaiting = false
  holds : ∀ instr, s.tree.instruction? old.site = some instr → old.Holds instr s.current →
    new.Holds (change instr) inner
  slots : ∀ instr, s.tree.instruction? old.site = some instr → old.Holds instr s.current →
    (change instr).slots = instr.slots ++ s.tree.fresh kinds.length
  sound : ∀ instr, s.tree.instruction? old.site = some instr → old.Holds instr s.current →
    instr.Sound → (change instr).Sound
  /-- No case follows an `else`. -/
  openEnded : old.kind = .branch → ∀ cases,
    s.tree.instruction? old.site = some (.branch cases) → endsInElse cases = false
  /-- A function gets an overload none of whose parameters has come, once those of the one before
  it have all come. -/
  overloads : old.kind = .function → (∀ opened ∈ old.overload?, opened.inSignature = false) ∧
    ∃ params, change = Instruction.addOverload ⟨params, s.tree.next, ⟨s.tree.size + 1⟩⟩ ∧
      new.overload? = some ⟨s.tree.next, ⟨s.tree.size + 1⟩, params.length, 0⟩

/-- What it takes to go on in a scope without growing it. -/
structure Session.Enters (s : Session) (old new : Frame) (inner : BlockId) : Prop where
  site : new.site = old.site
  parent : new.parent = old.parent
  kind : new.kind = old.kind
  holds : ∀ instr, s.tree.instruction? old.site = some instr → old.Holds instr s.current →
    new.Holds instr inner
  /-- In a function there is nothing to go on to but a further overload. -/
  apart : old.kind ≠ .function

/-- One move of a build. -/
inductive Move : Session → Session → Prop where
  /-- The registry changes. -/
  | register {s : Session} (registry : Registry) : Move s { s with registry }
  /-- A waiting chain is closed. -/
  | settle {s : Session} {frame : Frame} {rest : List Frame} (top : s.scopes = frame :: rest)
    (waiting : frame.isWaiting) : Move s { s with scopes := rest }
  /-- An instruction that opens no scope is appended. -/
  | append {s : Session} {instr : Instruction} (settled : s.settle = s)
    (plain : instr.kind.opens = false)
    (accepted : s.accepts instr.isParameter) :
    Move s (s.commit s.current instr)
  /-- A scope is opened. -/
  | begin {s : Session} {kinds : List BlockKind} {instr : Instruction} {frame : Frame}
    {inner : BlockId} (opens : s.Opens kinds instr frame inner) :
    Move s (s.opened kinds instr frame inner)
  /-- The innermost scope gets more blocks. -/
  | grow {s : Session} {kinds : List BlockKind} {change : Instruction → Instruction}
    {old new : Frame} {rest : List Frame} {inner : BlockId} (top : s.scopes = old :: rest)
    (grows : s.Grows kinds change old new inner) : Move s (s.grown kinds change new inner)
  /-- The build moves on in the innermost scope. -/
  | enter {s : Session} {old new : Frame} {rest : List Frame} {inner : BlockId}
    (top : s.scopes = old :: rest) (enters : s.Enters old new inner) :
    Move s (s.entered new inner)
  /-- The innermost scope is left. -/
  | leave {s : Session} {frame : Frame} {rest : List Frame} (top : s.scopes = frame :: rest)
    (complete : ∀ instr, s.tree.instruction? frame.site = some instr →
      frame.Holds instr s.current → instr.Complete)
    (signed : ∀ opened ∈ frame.overload?, opened.inSignature = false) :
    Move s (s.closed frame.parent)

/-- Any number of moves. -/
abbrev Moves : Session → Session → Prop := Relation.ReflTransGen Move

namespace Build

variable {s after : Session}

/-- Waiting chains are closed one by one. -/
theorem moves_settle (s : Session) : Moves s s.settle := by
  suffices closing : ∀ (scopes : List Frame) (s : Session), s.scopes = scopes →
      Moves s { s with scopes := scopes.dropWhile Frame.isWaiting } from closing s.scopes s rfl
  intro scopes
  induction scopes with
  | nil =>
    rintro s isScopes
    rw [List.dropWhile_nil, ← isScopes]
  | cons frame rest ih =>
    intro s isScopes
    by_cases waiting : frame.isWaiting
    · rw [List.dropWhile_cons_of_pos waiting]
      exact .head (.settle isScopes waiting) (ih { s with scopes := rest } rfl)
    · rw [List.dropWhile_cons_of_neg waiting, ← isScopes]

/-- Before a statement is pushed nothing but the registry changes. -/
theorem noted_eq {instr : Instruction} {ready : Session} (noted : s.noted instr = .ok ready) :
    ∃ registry, ready = { s with registry } := by
  unfold Session.noted at noted
  split at noted
  · split at noted
    · split at noted
      case h_1 registry _ => exact ⟨registry, (Except.ok.inj noted).symm⟩
      case h_2 => cases noted
    · exact ⟨s.registry, (Except.ok.inj noted).symm⟩
  · exact ⟨s.registry, (Except.ok.inj noted).symm⟩

/-- An instruction that opens no scope is appended in moves. -/
theorem moves_append {instr : Instruction} (plain : instr.kind.opens = false)
    (ran : append instr s = .ok () after) : Moves s after := by
  obtain ⟨accepted, ready, noted, rfl⟩ := append_ok_iff.mp ran
  obtain ⟨registry, rfl⟩ := noted_eq noted
  have settled : { s.settle with registry }.settle = { s.settle with registry } := by
    rw [Session.settle, Session.settle, List.dropWhile_idempotent]
  exact ((moves_settle s).tail (.register registry)).tail
    (.append settled plain accepted)

/-- An instruction that cannot be a construction is pushed in moves. -/
theorem moves_commit {instr : Instruction} (plain : instr.kind.opens = false)
    (accepted : s.settle.accepts instr.isParameter) :
    Moves s (s.settle.commit s.current instr) :=
  (moves_settle s).tail (.append s.settle_settle plain accepted)

/-- A scope is opened in moves. -/
theorem moves_opened {kinds : List BlockKind} {instr : Instruction} {frame : Frame}
    {inner : BlockId} (opens : s.settle.Opens kinds instr frame inner) :
    Moves s (s.settle.opened kinds instr frame inner) :=
  (moves_settle s).tail (.begin opens)

/-- A value is made in moves. -/
theorem moves_emit {spec : ValueSpec} {var : VarId} (ran : emit spec s = .ok var after) :
    Moves s after := by
  obtain ⟨-, ran⟩ := emit_ok_iff.mp ran
  obtain ⟨-, registry, -, ran, -⟩ := emitValue_ok_iff.mp ran
  exact .head (.register registry) (moves_append rfl ran)

/-- A value that is never declared is one move. -/
theorem moves_inline {ty : Ty} {args : List Expr} {expr : Expr}
    (ran : inline ty args s = .ok expr after) : Moves s after := by
  obtain ⟨-, registry, -, rfl, -⟩ := inline_ok_iff.mp ran
  exact .single (.register registry)

/-- A use is one move. -/
theorem moves_use {id : VarId} {expr : Expr} (ran : use id s = .ok expr after) :
    Moves s after := by
  obtain ⟨-, -, registry, -, rfl⟩ := use_ok_iff.mp ran
  exact .single (.register registry)

/-- A consumption is one move. -/
theorem moves_consume {id : VarId} {expr : Expr} (ran : consume id s = .ok expr after) :
    Moves s after := by
  obtain ⟨-, -, registry, -, rfl⟩ := consume_ok_iff.mp ran
  exact .single (.register registry)

/-- A chain of conditions opens with its first case. -/
theorem opens_beginIf (settled : s.settle = s) (accepted : s.accepts false) (condition : Expr) :
    s.Opens [.plain] (.branch [⟨some condition, s.tree.next⟩])
      (.branch s.site s.current false) s.tree.next where
  settled
  accepted
  slots := rfl
  site := rfl
  parent := rfl
  holds := ⟨⟨List.cons_ne_nil _ _, fun waiting => nomatch waiting⟩, rfl⟩
  calm := rfl
  sound := ⟨List.cons_ne_nil _ _, fun _ isCase => nomatch isCase⟩
  single := fun isFunction => nomatch isFunction
  unopened := rfl

/-- A chain of conditions is opened in moves. -/
theorem moves_beginIf {condition : Expr} (ran : beginIf condition s = .ok () after) :
    Moves s after := by
  obtain ⟨-, accepted, rfl⟩ := beginIf_ok_iff.mp ran
  exact moves_opened (opens_beginIf s.settle_settle accepted _)

/-- A case is added to a chain of conditions in one move. -/
theorem moves_addIfCase {condition : Option Expr} {found : Step}
    (ran : addIfCase condition found s = .ok () after) : Moves s after := by
  obtain ⟨site, parent, waiting, rest, cases, top, isAt, openEnded, -, rfl⟩ :=
    addIfCase_ok_iff.mp ran
  have isCases : ∀ instr, s.tree.instruction? site = some instr → instr = .branch cases := by
    intro instr found
    rw [isAt] at found
    exact (Option.some.inj found).symm
  refine .single (.grow top {
    site := rfl
    parent := rfl
    kind := rfl
    calm := rfl
    holds := ?_
    slots := ?_
    sound := ?_
    openEnded := ?_
    overloads := Kind.noConfusion })
  · intro instr found _
    obtain rfl := isCases instr found
    constructor
    · simp [Frame.Fits, Instruction.addIfCase]
    · simp [Frame.seat?, Instruction.addIfCase]
  · intro instr found _
    obtain rfl := isCases instr found
    simp [Instruction.addIfCase, Instruction.slots]
  · intro instr found _ sound
    obtain rfl := isCases instr found
    refine ⟨by simp, ?_⟩
    rw [List.dropLast_concat]
    intro case isCase
    rw [← List.dropLast_append_getLast sound.1, List.mem_append, List.mem_singleton] at isCase
    obtain isEarlier | rfl := isCase
    · exact sound.2 case isEarlier
    · rw [endsInElse, List.getLast?_eq_some_getLast sound.1] at openEnded
      simpa [Option.isSome_iff_ne_none] using openEnded
  · intro _ others found
    obtain rfl := Instruction.branch.inj (isCases _ found)
    exact openEnded

/-- A case of a chain of conditions is closed in moves. -/
theorem moves_endIfSubBlock (ran : endIfSubBlock s = .ok () after) : Moves s after := by
  obtain ⟨-, site, parent, rest, cases, top, isAt, rfl⟩ := endIfSubBlock_ok_iff.mp ran
  refine (moves_settle s).tail ?_
  by_cases closing : endsInElse cases
  · rw [if_pos closing]
    refine .leave top ?_ fun _ isOpen => nomatch isOpen
    intro instr _ holds
    obtain ⟨cases, rfl, -⟩ := Frame.fits_branch_iff.mp holds.fits
    trivial
  · rw [if_neg closing]
    refine .enter top {
      site := rfl
      parent := rfl
      kind := rfl
      holds := ?_
      apart := Kind.noConfusion }
    intro instr found holds
    rw [Session.settle_tree, Frame.site, isAt] at found
    obtain rfl := Option.some.inj found
    obtain ⟨nonempty, -⟩ := holds.fits
    exact ⟨⟨nonempty, fun _ => by simpa using closing⟩, rfl⟩

/-- A chain of conditions is closed in one move. -/
theorem moves_endIf (ran : endIf s = .ok () after) : Moves s after := by
  obtain ⟨-, site, parent, waiting, rest, top, rfl⟩ := endIf_ok_iff.mp ran
  cases waiting with
  | true =>
    have left := Move.settle top rfl
    unfold Session.closed
    rw [top]
    exact .single left
  | false =>
    refine .single (.leave top ?_ fun _ isOpen => nomatch isOpen)
    intro instr _ holds
    obtain ⟨cases, rfl, -⟩ := Frame.fits_branch_iff.mp holds.fits
    trivial

/-- A switch opens without a case. -/
theorem opens_beginSwitch (settled : s.settle = s) (accepted : s.accepts false) (selector : Expr) :
    s.Opens [] (.switch selector []) (.switch s.site s.current none) s.current where
  settled
  accepted
  slots := rfl
  site := rfl
  parent := rfl
  holds := ⟨rfl, rfl⟩
  calm := rfl
  sound := Nat.zero_le 1
  single := fun isFunction => nomatch isFunction
  unopened := rfl

/-- A switch is opened in moves. -/
theorem moves_beginSwitch {selector : Expr} (ran : beginSwitch selector s = .ok () after) :
    Moves s after := by
  obtain ⟨-, accepted, rfl⟩ := beginSwitch_ok_iff.mp ran
  exact moves_opened (opens_beginSwitch s.settle_settle accepted _)

/-- A case is added to a switch in moves. -/
theorem moves_addCase {label : Option Literal} (ran : addCase label s = .ok () after) :
    Moves s after := by
  obtain ⟨-, site, parent, openCase, rest, top, isOnly, rfl⟩ := addCase_ok_iff.mp ran
  refine (moves_settle s).tail (.grow top {
    site := rfl
    parent := rfl
    kind := rfl
    calm := rfl
    holds := ?_
    slots := ?_
    sound := ?_
    openEnded := Kind.noConfusion
    overloads := Kind.noConfusion })
  · intro instr _ holds
    obtain ⟨selector, cases, rfl, -⟩ := Frame.fits_switch_iff.mp holds.fits
    constructor
    · simp [Frame.Fits, Instruction.addSwitchCase]
    · rfl
  · intro instr _ holds
    obtain ⟨selector, cases, rfl, -⟩ := Frame.fits_switch_iff.mp holds.fits
    simp [Instruction.addSwitchCase, Instruction.slots]
  · intro instr found holds sound
    obtain ⟨selector, cases, rfl, -⟩ := Frame.fits_switch_iff.mp holds.fits
    rw [Session.settle_tree, Frame.site] at found
    rw [found] at isOnly
    unfold Instruction.Sound at sound
    cases label with
    | some literal => simpa [Instruction.addSwitchCase, Instruction.Sound] using sound
    | none =>
      have noDefault : cases.countP (·.label.isNone) = 0 := by
        simpa [Instruction.hasDefault, List.countP_eq_zero] using isOnly rfl
      simp [Instruction.addSwitchCase, Instruction.Sound, noDefault]

/-- A switch is closed in moves. -/
theorem moves_endSwitch (ran : endSwitch s = .ok () after) : Moves s after := by
  obtain ⟨-, site, parent, openCase, rest, top, rfl⟩ := endSwitch_ok_iff.mp ran
  refine (moves_settle s).tail (.leave top ?_ fun _ isOpen => nomatch isOpen)
  intro instr _ holds
  obtain ⟨selector, cases, rfl, -⟩ := Frame.fits_switch_iff.mp holds.fits
  trivial

/-- A loop whose header is recorded opens around it. -/
theorem opens_beginFor (settled : s.settle = s) (accepted : s.accepts false)
    (policy : ConditionPolicy) :
    s.Opens [.forArgs, .plain]
      (.forLoop (.recorded s.tree.next none policy) ⟨s.tree.size + 1⟩)
      (.forLoop s.site s.current (some s.tree.next) ⟨s.tree.size + 1⟩ .created) s.current where
  settled
  accepted
  slots := rfl
  site := rfl
  parent := rfl
  holds := ⟨⟨rfl, rfl⟩, rfl⟩
  calm := rfl
  sound := trivial
  single := fun isFunction => nomatch isFunction
  unopened := rfl

/-- A loop whose header is recorded is opened in moves. -/
theorem moves_beginFor (ran : beginFor s = .ok () after) : Moves s after := by
  obtain ⟨-, accepted, rfl⟩ := beginFor_ok_iff.mp ran
  exact moves_opened (opens_beginFor s.settle_settle accepted _)

/-- A loop with clauses opens in its body. -/
theorem opens_beginForClauses (settled : s.settle = s) (accepted : s.accepts false)
    (clauses : ForClauses) :
    s.Opens [.plain] (.forLoop (.clauses clauses) s.tree.next)
      (.forLoop s.site s.current none s.tree.next .body) s.tree.next where
  settled
  accepted
  slots := rfl
  site := rfl
  parent := rfl
  holds := ⟨⟨rfl, rfl⟩, rfl⟩
  calm := rfl
  sound := trivial
  single := fun isFunction => nomatch isFunction
  unopened := rfl

/-- A loop with clauses is opened in moves. -/
theorem moves_beginForClauses {clauses : ForClauses}
    (ran : beginForClauses clauses s = .ok () after) : Moves s after := by
  obtain ⟨-, accepted, rfl⟩ := beginForClauses_ok_iff.mp ran
  exact moves_opened (opens_beginForClauses s.settle_settle accepted _)

/-- A clause that declares a variable is one move. -/
theorem moves_forInit {ty : Ty} {name : Option String} {value : Expr} {made : VarId × Expr}
    (ran : forInit ty name value s = .ok made after) : Moves s after := by
  obtain ⟨-, registry, -, rfl, -⟩ := forInit_ok_iff.mp ran
  exact .single (.register registry)

/-- The header of a loop is entered in one move. -/
theorem moves_beginForArgs (ran : beginForArgs s = .ok () after) : Moves s after := by
  obtain ⟨-, site, parent, args, body, rest, top, rfl⟩ := beginForArgs_ok_iff.mp ran
  refine .single (.enter top {
    site := rfl
    parent := rfl
    kind := rfl
    holds := ?_
    apart := Kind.noConfusion })
  intro instr _ holds
  obtain ⟨header, stacked, policy, rfl, isHeader⟩ :=
    (Frame.fits_forLoop_iff ForPhase.noConfusion).mp holds.fits
  exact ⟨⟨(Option.some.inj isHeader).symm, rfl⟩, rfl⟩

/-- A loop gets its condition in one move. -/
theorem moves_stackForCondition {condition : Expr}
    (ran : stackForCondition condition s = .ok () after) : Moves s after := by
  obtain ⟨-, site, parent, args, body, phase, rest, top, outside, rfl⟩ :=
    stackForCondition_ok_iff.mp ran
  refine .single (.grow top {
    site := rfl
    parent := rfl
    kind := rfl
    calm := rfl
    holds := ?_
    slots := ?_
    sound := ?_
    openEnded := Kind.noConfusion
    overloads := Kind.noConfusion })
  · intro instr _ holds
    obtain ⟨header, stacked, policy, rfl, rfl⟩ := (Frame.fits_forLoop_iff outside).mp holds.fits
    refine ⟨⟨rfl, rfl⟩, ?_⟩
    have seat := holds.seat
    cases phase <;> exact seat
  · intro instr _ holds
    obtain ⟨header, stacked, policy, rfl, rfl⟩ := (Frame.fits_forLoop_iff outside).mp holds.fits
    rfl
  · intro instr _ holds _
    obtain ⟨header, stacked, policy, rfl, rfl⟩ := (Frame.fits_forLoop_iff outside).mp holds.fits
    trivial

/-- The body of a loop is entered in one move. -/
theorem moves_beginForBody (ran : beginForBody s = .ok () after) : Moves s after := by
  obtain ⟨-, site, parent, args, body, phase, rest, top, outside, rfl⟩ :=
    beginForBody_ok_iff.mp ran
  refine .single (.enter top {
    site := rfl
    parent := rfl
    kind := rfl
    holds := ?_
    apart := Kind.noConfusion })
  intro instr _ holds
  obtain ⟨header, stacked, policy, rfl, rfl⟩ := (Frame.fits_forLoop_iff outside).mp holds.fits
  exact ⟨⟨rfl, rfl⟩, rfl⟩

/-- A loop with a header is closed in moves. -/
theorem moves_endFor (ran : endFor s = .ok () after) : Moves s after := by
  obtain ⟨-, site, parent, args, body, rest, top, rfl⟩ := endFor_ok_iff.mp ran
  refine (moves_settle s).tail (.leave top ?_ fun _ isOpen => nomatch isOpen)
  intro instr _ holds
  have isLoop := holds.fits.kind_eq
  cases instr <;> trivial

/-- A loop that tests before its body opens in it. -/
theorem opens_beginWhile (settled : s.settle = s) (accepted : s.accepts false) (condition : Expr) :
    s.Opens [.plain] (.whileLoop condition s.tree.next) (.whileLoop s.site s.current)
      s.tree.next where
  settled
  accepted
  slots := rfl
  site := rfl
  parent := rfl
  holds := ⟨trivial, rfl⟩
  calm := rfl
  sound := trivial
  single := fun isFunction => nomatch isFunction
  unopened := rfl

/-- A loop that tests before its body is opened in moves. -/
theorem moves_beginWhile {condition : Expr} (ran : beginWhile condition s = .ok () after) :
    Moves s after := by
  obtain ⟨-, accepted, rfl⟩ := beginWhile_ok_iff.mp ran
  exact moves_opened (opens_beginWhile s.settle_settle accepted _)

/-- A loop that tests before its body is closed in moves. -/
theorem moves_endWhile (ran : endWhile s = .ok () after) : Moves s after := by
  obtain ⟨-, site, parent, rest, top, rfl⟩ := endWhile_ok_iff.mp ran
  refine (moves_settle s).tail (.leave top ?_ fun _ isOpen => nomatch isOpen)
  intro instr _ holds
  obtain ⟨condition, body, rfl⟩ := Frame.fits_whileLoop_iff.mp holds.fits
  trivial

/-- A loop that tests after its body opens in it. -/
theorem opens_beginDoWhile (settled : s.settle = s) (accepted : s.accepts false) :
    s.Opens [.plain] (.doWhile s.tree.next none) (.doWhile s.site s.current) s.tree.next where
  settled
  accepted
  slots := rfl
  site := rfl
  parent := rfl
  holds := ⟨trivial, rfl⟩
  calm := rfl
  sound := trivial
  single := fun isFunction => nomatch isFunction
  unopened := rfl

/-- A loop that tests after its body is opened in moves. -/
theorem moves_beginDoWhile (ran : beginDoWhile s = .ok () after) : Moves s after := by
  obtain ⟨-, accepted, rfl⟩ := beginDoWhile_ok_iff.mp ran
  exact moves_opened (opens_beginDoWhile s.settle_settle accepted)

/-- A loop that tests after its body gets its condition and is closed in moves. -/
theorem moves_endDoWhile {condition : Expr} (ran : endDoWhile condition s = .ok () after) :
    Moves s after := by
  obtain ⟨-, site, parent, rest, top, rfl⟩ := endDoWhile_ok_iff.mp ran
  refine ((moves_settle s).tail (.grow top {
    site := rfl
    parent := rfl
    kind := rfl
    calm := rfl
    holds := ?_
    slots := ?_
    sound := ?_
    openEnded := Kind.noConfusion
    overloads := Kind.noConfusion })).tail
      (@Move.leave _ (.doWhile site parent) _ rfl ?_ fun _ isOpen => nomatch isOpen)
  · intro instr _ holds
    obtain ⟨body, condition, rfl⟩ := Frame.fits_doWhile_iff.mp holds.fits
    exact ⟨trivial, holds.seat⟩
  · intro instr _ holds
    obtain ⟨body, condition, rfl⟩ := Frame.fits_doWhile_iff.mp holds.fits
    rfl
  · intro instr _ holds _
    obtain ⟨body, condition, rfl⟩ := Frame.fits_doWhile_iff.mp holds.fits
    trivial
  · intro instr found holds
    obtain ⟨body, closing, rfl⟩ := Frame.fits_doWhile_iff.mp holds.fits
    -- The loop has just been amended, whatever stood at its address before.
    rw [Session.grown, Tree.instruction?_amend, if_pos rfl, Option.map_eq_some_iff] at found
    obtain ⟨before, -, isLoop⟩ := found
    cases before <;> cases isLoop
    trivial

/-- A function opens without an overload, and inside no function. -/
theorem opens_beginFunc (settled : s.settle = s) (accepted : s.accepts false)
    (single : s.scopes.any Frame.isFunction = false) (var : VarId) (name : String)
    (returns : Ty) :
    s.Opens [] (.function ⟨var, name, returns, []⟩) (.function s.site s.current var none)
      s.current where
  settled
  accepted
  slots := rfl
  site := rfl
  parent := rfl
  holds := ⟨⟨rfl, rfl, fun _ isOpen => nomatch isOpen⟩, rfl⟩
  calm := rfl
  sound := trivial
  single := fun _ => single
  unopened := rfl

/-- A function is opened in moves. -/
theorem moves_beginFunc {name : String} {returns : Ty} {var : VarId}
    (ran : beginFunc name returns s = .ok var after) : Moves s after := by
  obtain ⟨-, single, accepted, registry, -, rfl, -⟩ := beginFunc_ok_iff.mp ran
  have settled : { s.settle with registry }.settle = { s.settle with registry } := by
    rw [Session.settle, Session.settle, List.dropWhile_idempotent]
  have opens := opens_beginFunc settled accepted single s.registry.next name returns
  exact ((moves_settle s).tail (.register registry)).tail (.begin opens)

/-- An overload is opened in moves. -/
theorem moves_nextOverload {params : List Ty} (ran : nextOverload params s = .ok () after) :
    Moves s after := by
  obtain ⟨-, site, parent, var, overload, rest, decl, top, complete, isAt, rfl⟩ :=
    nextOverload_ok_iff.mp ran
  refine (moves_settle s).tail (.grow top {
    site := rfl
    parent := rfl
    kind := rfl
    calm := rfl
    holds := ?_
    slots := ?_
    sound := ?_
    openEnded := Kind.noConfusion
    overloads := fun _ => ⟨complete, params, rfl, rfl⟩ })
  · intro instr _ holds
    obtain ⟨decl, rfl, isVar, -⟩ := Frame.fits_function_iff.mp holds.fits
    constructor
    · simp [Frame.Fits, Instruction.addOverload, isVar, Tree.next]
    · cases params <;> rfl
  · intro instr _ holds
    obtain ⟨decl, rfl, -⟩ := Frame.fits_function_iff.mp holds.fits
    simp [Instruction.addOverload, Instruction.slots]
  · intro instr _ holds _
    obtain ⟨decl, rfl, -⟩ := Frame.fits_function_iff.mp holds.fits
    trivial

/-- A function is closed in moves. -/
theorem moves_endFunc (ran : endFunc s = .ok () after) : Moves s after := by
  obtain ⟨-, site, parent, var, opened, rest, top, complete, rfl⟩ := endFunc_ok_iff.mp ran
  have signed : ∀ overload ∈ some opened, overload.inSignature = false := by
    rintro overload ⟨⟩
    exact complete
  refine (moves_settle s).tail (.leave top ?_ signed)
  intro instr _ holds
  obtain ⟨decl, rfl, -, isLast, -⟩ := Frame.fits_function_iff.mp holds.fits
  show decl.overloads ≠ []
  intro none
  rw [none] at isLast
  cases isLast

/-- A return is pushed in moves. -/
theorem moves_pushReturn {value : Option Expr} {found : Ty}
    (ran : pushReturn value found s = .ok () after) : Moves s after := by
  obtain ⟨accepted, expected, -, rfl⟩ := pushReturn_ok_iff.mp ran
  exact moves_commit rfl accepted

/-- A keyword statement is pushed in moves. -/
theorem moves_addStatement {stmt : Special} (ran : addStatement stmt s = .ok () after) :
    Moves s after := by
  obtain ⟨-, -, accepted, rfl⟩ := addStatement_ok_iff.mp ran
  exact moves_commit rfl accepted

/-- An interface is declared in moves. -/
theorem moves_declareInterface {qualifier : Qualifier} {name inst : String}
    {fields : List Field} {var : VarId}
    (ran : declareInterface qualifier name fields inst s = .ok var after) : Moves s after := by
  obtain ⟨-, registry, -, ran, -⟩ := declareInterface_ok_iff.mp ran
  exact .head (.register registry) (moves_append rfl ran)

end Build

/-- A call moves as the call that answers for it. -/
theorem moves_map {α : Type} {change : α → Reply} {call : Build α} {s after : Session}
    {reply : Reply} (ran : (change <$> call) s = .ok reply after)
    (moves : ∀ value, call s = .ok value after → Moves s after) : Moves s after := by
  obtain ⟨value, ran, -⟩ := Build.map_ok_iff.mp ran
  exact moves value ran

/-- Every call but a fresh start is made of moves. -/
theorem Call.moves {call : Call} {s after : Session} {reply : Reply}
    (ran : call.run s = .ok reply after) (goesOn : call ≠ .reset) : Moves s after := by
  cases call with
  | emit spec => exact moves_map ran fun _ => Build.moves_emit
  | construct ty args => exact moves_map ran fun _ => Build.moves_emit
  | constructNamed ty name args => exact moves_map ran fun _ => Build.moves_emit
  | declare ty name => exact moves_map ran fun _ => Build.moves_emit
  | forward ty value => exact moves_map ran fun _ => Build.moves_emit
  | declareGlobal qualifier ty name => exact moves_map ran fun _ => Build.moves_emit
  | declareConst ty name value => exact moves_map ran fun _ => Build.moves_emit
  | declareParam ty name qualifier => exact moves_map ran fun _ => Build.moves_emit
  | inline ty args => exact moves_map ran fun _ => Build.moves_inline
  | use id => exact moves_map ran fun _ => Build.moves_use
  | consume id => exact moves_map ran fun _ => Build.moves_consume
  | push expr =>
    exact moves_map ran fun _ ran => Build.moves_append rfl (Build.push_ok_iff.mp ran).2
  | declareStruct name fields =>
    exact moves_map ran fun _ ran =>
      Build.moves_append rfl (Build.declareStruct_ok_iff.mp ran).2.1
  | declareInterface qualifier name fields inst =>
    exact moves_map ran fun _ => Build.moves_declareInterface
  | beginIf condition => exact moves_map ran fun _ => Build.moves_beginIf
  | beginElseIf condition =>
    exact moves_map ran fun _ ran => Build.moves_addIfCase (Build.beginElseIf_ok_iff.mp ran).2
  | beginElse =>
    exact moves_map ran fun _ ran => Build.moves_addIfCase (Build.beginElse_ok_iff.mp ran).2
  | endIfSubBlock => exact moves_map ran fun _ => Build.moves_endIfSubBlock
  | endIf => exact moves_map ran fun _ => Build.moves_endIf
  | beginSwitch selector => exact moves_map ran fun _ => Build.moves_beginSwitch
  | addCase label => exact moves_map ran fun _ => Build.moves_addCase
  | endSwitch => exact moves_map ran fun _ => Build.moves_endSwitch
  | beginFor => exact moves_map ran fun _ => Build.moves_beginFor
  | beginForClauses clauses => exact moves_map ran fun _ => Build.moves_beginForClauses
  | forInit ty name value => exact moves_map ran fun _ => Build.moves_forInit
  | beginForArgs => exact moves_map ran fun _ => Build.moves_beginForArgs
  | stackForCondition condition => exact moves_map ran fun _ => Build.moves_stackForCondition
  | beginForBody => exact moves_map ran fun _ => Build.moves_beginForBody
  | endFor => exact moves_map ran fun _ => Build.moves_endFor
  | beginWhile condition => exact moves_map ran fun _ => Build.moves_beginWhile
  | endWhile => exact moves_map ran fun _ => Build.moves_endWhile
  | beginDoWhile => exact moves_map ran fun _ => Build.moves_beginDoWhile
  | endDoWhile condition => exact moves_map ran fun _ => Build.moves_endDoWhile
  | addStatement stmt => exact moves_map ran fun _ => Build.moves_addStatement
  | beginFunc name returns => exact moves_map ran fun _ => Build.moves_beginFunc
  | nextOverload params => exact moves_map ran fun _ => Build.moves_nextOverload
  | endFunc => exact moves_map ran fun _ => Build.moves_endFunc
  | returnValue value ty =>
    exact moves_map ran fun _ ran => Build.moves_pushReturn (Build.returnValue_ok_iff.mp ran).2
  | returnVoid =>
    exact moves_map ran fun _ ran => Build.moves_pushReturn (Build.returnVoid_ok_iff.mp ran).2
  | reset => exact absurd rfl goesOn

/-- The state a call leaves, whether it succeeds or fails. -/
def Session.step (s : Session) (call : Call) : Session :=
  match call.run s with
  | .ok _ after => after
  | .error _ after => after

/-- The state that a sequence of calls leaves, from the start of a build. -/
def Session.reached (options : BuildOptions) (calls : List Call) : Session :=
  calls.foldl Session.step (.start options)

/-- A failing guarded call leaves its failure. -/
theorem failure_of_guarded {α : Type} {change : α → Reply} {call : Build α} {s after : Session}
    {error : BuildError} (failed : (change <$> Build.guarded call) s = .error error after) :
    after.failure ≠ none := by
  change EStateM.map change (Build.guarded call) s = _ at failed
  unfold EStateM.map Build.guarded at failed
  cases isFailure : s.failure with
  | some first =>
    rw [isFailure] at failed
    cases failed
    rw [isFailure]
    exact Option.some_ne_none first
  | none =>
    rw [isFailure] at failed
    cases ran : call s with
    | ok value middle => simp [ran] at failed
    | error error middle =>
      simp only [ran, EStateM.Result.error.injEq] at failed
      rw [← failed.2]
      exact Option.some_ne_none error

/-- A failing call leaves its failure. -/
theorem Call.failure_of_error {call : Call} {s after : Session} {error : BuildError}
    (failed : call.run s = .error error after) : after.failure ≠ none := by
  cases call with
  | reset => cases failed
  | _ => exact failure_of_guarded failed

/-- A guarded call succeeds only on a build that has not failed. -/
theorem sane_of_guarded {α : Type} {change : α → Reply} {call : Build α} {s after : Session}
    {reply : Reply} (ran : (change <$> Build.guarded call) s = .ok reply after) :
    s.failure = none := by
  obtain ⟨value, ran, -⟩ := Build.map_ok_iff.mp ran
  exact (Build.guarded_ok_iff.mp ran).1

/-- No call but a fresh start succeeds on a build that has failed. -/
theorem Call.sane_of_ok {call : Call} {s after : Session} {reply : Reply}
    (ran : call.run s = .ok reply after) (goesOn : call ≠ .reset) : s.failure = none := by
  cases call with
  | reset => exact absurd rfl goesOn
  | _ => exact sane_of_guarded ran

/-- What every move keeps, any number of moves keep. -/
theorem Moves.keeps {holds : Session → Prop}
    (through : ∀ s after, holds s → Move s after → holds after) {s after : Session}
    (before : holds s) (moves : Moves s after) : holds after := by
  induction moves with
  | refl => exact before
  | tail _ move ih => exact through _ _ ih move

/-- What holds at the start and through every move holds wherever calls lead without failing. -/
theorem Session.reached_of_moves {holds : Session → Prop}
    (atStart : ∀ options, holds (.start options))
    (through : ∀ s after, holds s → Move s after → holds after) (options : BuildOptions)
    (calls : List Call) (sane : (reached options calls).failure = none) :
    holds (reached options calls) := by
  induction calls using List.reverseRecOn with
  | nil => exact atStart options
  | append_singleton calls call ih =>
    have isStep : reached options (calls ++ [call]) = (reached options calls).step call := by
      simp [reached]
    rw [isStep] at sane ⊢
    unfold step at sane ⊢
    cases ran : call.run (reached options calls) with
    | error error after =>
      rw [ran] at sane
      exact absurd sane (Call.failure_of_error ran)
    | ok reply after =>
      by_cases fresh : call = .reset
      · subst fresh
        obtain ⟨_, isReset, -⟩ := Build.map_ok_iff.mp ran
        rw [Build.reset_ok_iff.mp isReset]
        exact atStart _
      · exact (Call.moves ran fresh).keeps through (ih (Call.sane_of_ok ran fresh))

end ShaderLoom
