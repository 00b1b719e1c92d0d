import ShaderLoom.Proofs.Playing

/-!
# Statements outside functions

Every statement is played in any build that is ready for its setting, adds its one instruction, and
leaves the build ready for the next (`Stmt.Plays`). Chains of conditions and the cases of a switch
are played from the end of a case on (`Chain.Plays`, `Cases.Plays`).
-/
namespace ShaderLoom

namespace Frame

/-- What surrounds the statements of a scope that is no function, in a scope opened in a setting. -/
def inside (setting : Setting) : Frame → Setting
  | .forLoop _ _ _ _ .body => setting.inLoop
  | .whileLoop _ _ => setting.inLoop
  | .doWhile _ _ => setting.inLoop
  | .switch _ _ (some _) => setting.inCase
  | _ => setting

variable {frame : Frame} {setting : Setting} {rest : List Frame}

/-- A scope that is no function is inside what it was opened in. -/
theorem returns_inside (frame : Frame) (setting : Setting) :
    (frame.inside setting).returns = setting.returns := by
  cases frame with
  | forLoop site parent args body phase => cases phase <;> rfl
  | switch site parent openCase => cases openCase <;> rfl
  | _ => rfl

/-- What can be left inside a scope that is no function. -/
theorem breaks_inside (plain : frame.isFunction = false)
    (breaks : inBreakable true rest = setting.breaks) :
    inBreakable true (frame :: rest) = (frame.inside setting).breaks := by
  cases frame with
  | forLoop site parent args body phase =>
    cases phase <;> simp [inBreakable, inside, Setting.inLoop, breaks]
  | switch site parent openCase =>
    cases openCase <;> simp [inBreakable, inside, Setting.inCase, breaks]
  | function => cases plain
  | _ => simp [inBreakable, inside, Setting.inLoop, breaks]

/-- What can be repeated inside a scope that is no function. -/
theorem continues_inside (plain : frame.isFunction = false)
    (continues : inBreakable false rest = setting.continues) :
    inBreakable false (frame :: rest) = (frame.inside setting).continues := by
  cases frame with
  | forLoop site parent args body phase =>
    cases phase <;> simp [inBreakable, inside, Setting.inLoop, continues]
  | switch site parent openCase =>
    cases openCase <;> simp [inBreakable, inside, Setting.inCase, continues]
  | function => cases plain
  | _ => simp [inBreakable, inside, Setting.inLoop, continues]

end Frame

namespace Instruction

/-- Take new parts one after another. -/
def addAll {α : Type} (add : α → Instruction → Instruction) (new : List α)
    (instr : Instruction) : Instruction :=
  new.foldl (fun changed part => add part changed) instr

/-- Cases are added at the end of a chain of conditions. -/
theorem addAll_branch (cases new : List IfCase) :
    addAll addIfCase new (.branch cases) = .branch (cases ++ new) := by
  induction new generalizing cases with
  | nil => rw [addAll, List.foldl_nil, List.append_nil]
  | cons case new ih =>
    have added := ih (cases ++ [case])
    rw [List.append_assoc] at added
    exact added

/-- Cases are added at the end of a switch. -/
theorem addAll_switch (selector : Expr) (cases new : List SwitchCase) :
    addAll addSwitchCase new (.switch selector cases) = .switch selector (cases ++ new) := by
  induction new generalizing cases with
  | nil => rw [addAll, List.foldl_nil, List.append_nil]
  | cons case new ih =>
    have added := ih (cases ++ [case])
    rw [List.append_assoc] at added
    exact added

/-- Overloads are added at the end of a function. -/
theorem addAll_function (var : VarId) (name : String) (returns : Ty)
    (overloads new : List Overload) :
    addAll addOverload new (.function ⟨var, name, returns, overloads⟩) =
      .function ⟨var, name, returns, overloads ++ new⟩ := by
  induction new generalizing overloads with
  | nil => rw [addAll, List.foldl_nil, List.append_nil]
  | cons overload new ih =>
    have added := ih (overloads ++ [overload])
    rw [List.append_assoc] at added
    exact added

/-- A loop has the condition that it was given, if any. -/
theorem elim_stackCondition (args block : BlockId) (policy : ConditionPolicy)
    (stacked : Option Expr) :
    stacked.elim (.forLoop (.recorded args none policy) block)
      (fun condition => stackCondition condition (.forLoop (.recorded args none policy) block)) =
      .forLoop (.recorded args stacked policy) block := by
  cases stacked <;> rfl

end Instruction

namespace Session

variable {s middle after : Session} {setting : Setting} {frame old : Frame} {inner : BlockId}
  {kinds : List BlockKind} {instr : Instruction} {change later : Instruction → Instruction}
  {instrs : List Instruction} {shows showsToo : Tree → Registry → Prop}

/-- A new scope stands in the setting it was opened in. -/
theorem Ready.around (ready : s.Ready setting) (opens : s.Opens kinds instr frame inner) :
    (s.opened kinds instr frame inner).Around frame setting := by
  have moves : Moves s (s.opened kinds instr frame inner) := .single (.begin opens)
  have placed := ready.grounded.placed
  have isOpened := opened_eq (placed.outsideSignature opens.accepted) kinds instr frame inner
  have isScopes : (s.opened kinds instr frame inner).scopes = frame :: s.scopes := by
    rw [isOpened]
  exact {
    sane := by rw [moves.failure_eq, ready.sane]
    grounded := ready.grounded.begin opens
    top := by rw [isScopes, List.tail_cons]
    breaks := by rw [isScopes, List.tail_cons, ready.breaks]
    continues := by rw [isScopes, List.tail_cons, ready.continues]
    inFunction := by rw [isScopes, List.tail_cons, ready.inFunction]
    returns := by
      rw [opens.parent, moves.tree_keeps.returnType?_eq ready.grounded.linked
        placed.current_known, ready.returns] }

/-- A scope that is no function takes statements in the setting that it makes. -/
theorem Around.ready (around : s.Around frame setting) (calm : frame.isWaiting = false)
    (plain : frame.isFunction = false) (accepts : frame.accepts false) {block : Block}
    (found : s.tree.block? s.current = some block) (parent : block.parent = some frame.parent)
    (nested : ∀ returns, block.kind ≠ .body returns) : s.Ready (frame.inside setting) := by
  exact {
    sane := around.sane
    grounded := around.grounded
    settled := around.settled calm
    accepts := by
      rw [Session.accepts, around.top]
      exact accepts
    breaks := by
      rw [around.top]
      exact Frame.breaks_inside plain around.breaks
    continues := by
      rw [around.top]
      exact Frame.continues_inside plain around.continues
    inFunction := by
      rw [around.top, List.any_cons, plain, Bool.false_or, around.inFunction,
        Frame.returns_inside]
    returns := by
      rw [around.grounded.linked.returnType?_under found parent nested, around.returns,
        Frame.returns_inside] }

/-- The new blocks of an opened scope are empty. -/
theorem block?_opened (known : s.current.index < s.tree.size) (position : Nat) {kind : BlockKind}
    (isKind : kinds[position]? = some kind) :
    (s.opened kinds instr frame inner).tree.block? ⟨s.tree.size + position⟩ =
      some ⟨⟨s.tree.size + position⟩, some s.current, kind, #[]⟩ := by
  rw [opened, commit_tree, Tree.block?_push, if_neg, Tree.block?_addBlocks_new isKind]
  rintro same
  rw [← same] at known
  exact Nat.not_lt.mpr (Nat.le_add_right _ _) known

/-- The new blocks of a grown scope are empty. -/
theorem Around.block?_grown (around : s.Around old setting) (frame : Frame) (inner : BlockId)
    (site : frame.site = old.site) (position : Nat) {kind : BlockKind}
    (isKind : kinds[position]? = some kind) :
    (s.grown kinds change frame inner).tree.block? ⟨s.tree.size + position⟩ =
      some ⟨⟨s.tree.size + position⟩, some frame.parent, kind, #[]⟩ := by
  have known := around.parent_known
  have stacking := around.grounded.placed.stacking
  rw [around.top] at stacking
  rw [grown, Tree.block?_amend, if_neg, Tree.block?_addBlocks_new isKind]
  rintro same
  rw [site, stacking.1] at same
  rw [← same] at known
  exact Nat.not_lt.mpr (Nat.le_add_right _ _) known

/-- The instruction of a grown scope is changed. -/
theorem instruction?_grown (s : Session) (kinds : List BlockKind)
    (change : Instruction → Instruction) (frame : Frame) (inner : BlockId) :
    (s.grown kinds change frame inner).tree.instruction? frame.site =
      (s.tree.instruction? frame.site).map change := by
  rw [grown, Tree.instruction?_amend, if_pos rfl, Tree.instruction?_addBlocks]

/-- A statement with one block adds its instruction once its block is built. -/
theorem Ends.adds_body (ready : s.Ready setting) {kind : BlockKind}
    (opens : s.Opens [kind] instr frame s.tree.next)
    (adds : (s.opened [kind] instr frame s.tree.next).Adds middle instrs shows)
    (ends : Ends middle.tree.size middle after frame change showsToo) :
    s.Adds after [change instr] (fun tree registry =>
      tree.instructions? s.tree.next = some instrs ∧ shows tree registry ∧
        showsToo tree registry) := by
  have known := ready.grounded.placed.current_known
  have found : (s.opened [kind] instr frame s.tree.next).tree.block? s.tree.next =
      some ⟨s.tree.next, some s.current, kind, #[]⟩ := block?_opened known 0 rfl
  have larger := adds.moves.tree_keeps.size_le
  have isSize := (ready.grounded.placed.extends_begin opens).size
  refine (ends.after_adds adds found rfl ?_ ?_ ?_ ?_ ?_).adds_opened ready opens
  · omega
  · exact Nat.le_refl _
  · show s.tree.size < _
    rw [isSize] at larger
    exact larger
  · rw [opens.parent]
    exact known
  · exact fun _ _ below => below

/-- A scope goes on after one more block was built. -/
theorem Ends.after_body (around : s.Around old setting) {kind : BlockKind}
    (moves : Moves s (s.grown [kind] change frame s.tree.next)) (site : frame.site = old.site)
    (parent : frame.parent = old.parent)
    (adds : (s.grown [kind] change frame s.tree.next).Adds middle instrs shows)
    (ends : Ends middle.tree.size middle after frame later showsToo) :
    Ends s.tree.size s after old (fun instr => later (change instr)) (fun tree registry =>
      tree.instructions? s.tree.next = some instrs ∧ shows tree registry ∧
        showsToo tree registry) := by
  have found : (s.grown [kind] change frame s.tree.next).tree.block? s.tree.next =
      some ⟨s.tree.next, some frame.parent, kind, #[]⟩ :=
    around.block?_grown frame _ site 0 rfl
  have larger := adds.moves.tree_keeps.size_le
  have isSize : (s.grown [kind] change frame s.tree.next).tree.size = s.tree.size + 1 := by
    simp [grown]
  refine (ends.after_adds adds found rfl ?_ ?_ ?_ ?_ ?_).after_grown around moves site parent
    (Nat.le_refl _)
  · omega
  · exact Nat.le_refl _
  · show s.tree.size < _
    omega
  · rw [parent]
    exact around.parent_known
  · exact fun _ _ below => below

end Session

/-- Whether a statement can be played wherever it fits, adding the instruction that shows it. -/
def Stmt.Plays (stmt : Stmt) : Prop :=
  ∀ (s : Session) (setting : Setting), s.Ready setting → stmt.fits setting →
    ∃ after instr, Build.play stmt.calls s = .ok () after ∧
      s.Adds after [instr] fun tree registry => stmt.Shows tree registry setting.returns instr

/-- Whether a program can be played wherever it fits, adding the instructions that show it. -/
def Program.Plays (program : Program) : Prop :=
  ∀ (s : Session) (setting : Setting), s.Ready setting → program.fits setting →
    ∃ after instrs, Build.play program.calls s = .ok () after ∧
      s.Adds after instrs fun tree registry => program.Shows tree registry setting.returns instrs

section Leaves

open Build

variable {s : Session} {setting : Setting}

/-- An expression that constructs nothing is pushed as it is. -/
theorem Session.Ready.plays_push (ready : s.Ready setting) {expr : Expr}
    (plain : expr.construction?.isNone) :
    (Call.push expr).run s = .ok .done (s.commit s.current (.statement expr)) ∧
      s.Adds (s.commit s.current (.statement expr)) [.statement expr] (fun _ _ => True) := by
  have noConstruction : expr.construction? = none := Option.isNone_iff_eq_none.mp plain
  have isParameter : (Instruction.statement expr).isParameter = false := by
    simp [Instruction.isParameter, Instruction.construction?, noConstruction]
  refine ⟨run_done (push_ok_iff.mpr ⟨ready.sane, append_ok_iff.mpr ⟨?_, s, ?_, rfl⟩⟩), ?_⟩
  · rw [ready.settled, isParameter]
    exact ready.accepts
  · rw [ready.settled]
    simp [Session.noted, Instruction.construction?, noConstruction]
  · exact Session.adds_commit ready rfl isParameter

/-- Expressions that construct nothing are pushed one after another, and make no block. -/
theorem Session.Ready.plays_pushes (ready : s.Ready setting) {exprs : List Expr}
    (plain : exprs.all (·.construction?.isNone)) :
    ∃ after, play (exprs.map .push) s = .ok () after ∧ after.tree.size = s.tree.size ∧
      s.Adds after (exprs.map .statement) (fun _ _ => True) := by
  induction exprs generalizing s with
  | nil => exact ⟨s, play_nil, rfl, s.adds_nil⟩
  | cons expr exprs ih =>
    rw [List.all_cons, Bool.and_eq_true] at plain
    obtain ⟨ran, adds⟩ := ready.plays_push plain.1
    obtain ⟨after, played, sameSize, addsRest⟩ :=
      ih (ready.stays adds.moves adds.scopes adds.current) plain.2
    refine ⟨after, play_cons ran played, ?_, ?_⟩
    · rw [sameSize, Session.commit_tree, Tree.size_push]
    · exact (adds.trans ready.grounded.placed.current_known addsRest).imp fun _ _ _ => trivial

/-- An expression statement is played. -/
theorem plays_expr (expr : Expr) : (Stmt.expr expr).Plays := by
  intro s setting ready fits
  obtain ⟨ran, adds⟩ := ready.plays_push fits
  exact ⟨_, _, play_cons ran play_nil, adds.imp fun _ _ _ => rfl⟩

/-- A keyword stands where its setting admits it. -/
theorem Session.Ready.misplaced? (ready : s.Ready setting) {stmt : Special}
    (admitted : setting.admits stmt) : misplaced? s.scopes stmt = none := by
  cases stmt with
  | breakLoop => simp_all [Build.misplaced?, ready.breaks, Setting.admits]
  | continueLoop => simp_all [Build.misplaced?, ready.continues, Setting.admits]
  | discard =>
    have inFunction := ready.inFunction
    rw [Setting.admits] at admitted
    rw [admitted] at inFunction
    simp [Build.misplaced?, inFunction]
  | vendor text => rfl

/-- A keyword statement is played. -/
theorem plays_special (stmt : Special) : (Stmt.special stmt).Plays := by
  intro s setting ready fits
  have ran : addStatement stmt s = .ok () (s.commit s.current (.special stmt)) := by
    refine addStatement_ok_iff.mpr ⟨ready.sane, ready.misplaced? fits, ?_, ?_⟩
    · rw [ready.settled]
      exact ready.accepts
    · rw [ready.settled]
  refine ⟨_, .special stmt, play_cons (run_done ran) play_nil, ?_⟩
  exact (Session.adds_commit ready rfl rfl).imp fun _ _ _ => rfl

/-- A return is pushed inside a function. -/
theorem Session.Ready.plays_return (ready : s.Ready setting) (fits : setting.returns.isSome)
    (value : Option (Expr × Ty)) :
    ∃ instr, pushReturn (value.map Prod.fst) (value.elim .void Prod.snd) s =
        .ok () (s.commit s.current instr) ∧
      s.Adds (s.commit s.current instr) [instr]
        fun tree registry => (Stmt.ret value).Shows tree registry setting.returns instr := by
  obtain ⟨expected, isExpected⟩ := Option.isSome_iff_exists.mp fits
  refine ⟨.ret (value.map Prod.fst) (if expected = value.elim .void Prod.snd then none
    else some ⟨expected, value.elim .void Prod.snd⟩),
    pushReturn_ok_iff.mpr ⟨?_, expected, ?_, ?_⟩, ?_⟩
  · rw [ready.settled]
    exact ready.accepts
  · rw [ready.returns, isExpected]
  · rw [ready.settled]
  · exact (Session.adds_commit ready rfl rfl).imp fun _ _ _ => ⟨expected, isExpected, rfl⟩

/-- A return is played. -/
theorem plays_ret (value : Option (Expr × Ty)) : (Stmt.ret value).Plays := by
  intro s setting ready fits
  obtain ⟨instr, ran, adds⟩ := ready.plays_return fits value
  refine ⟨_, instr, ?_, adds⟩
  cases value with
  | none => exact play_cons (run_done (returnVoid_ok_iff.mpr ⟨ready.sane, ran⟩)) play_nil
  | some value => exact play_cons (run_done (returnValue_ok_iff.mpr ⟨ready.sane, ran⟩)) play_nil

end Leaves

section Scopes

open Build

variable {s middle : Session} {setting : Setting} {frame : Frame} {instr : Instruction}
  {instrs : List Instruction} {body : Program} {shows : Tree → Registry → Prop}

/-- A scope stays in its setting while a piece of a program is built inside it. -/
theorem Session.Around.adds (around : s.Around frame setting) (adds : s.Adds middle instrs shows) :
    middle.Around frame setting := by
  refine around.stays frame adds.moves ?_ rfl
  rw [adds.scopes]
  exact around.top

/-- Closing waiting chains changes nothing where none waits. -/
theorem Session.Ready.settle_accepts (ready : s.Ready setting) : s.settle.accepts false := by
  rw [ready.settled]
  exact ready.accepts

/-- Closing waiting chains leaves a scope that is none innermost. -/
theorem Session.Around.settle_top (around : s.Around frame setting)
    (calm : frame.isWaiting = false) : s.settle.scopes = frame :: s.scopes.tail := by
  rw [around.settled calm]
  exact around.top

/-- What is built inside a scope leaves the instruction that opened it. -/
theorem Session.Around.instruction?_adds (around : s.Around frame setting)
    (adds : s.Adds middle instrs shows) (inside : s.current ≠ frame.parent) :
    middle.tree.instruction? frame.site = s.tree.instruction? frame.site := by
  refine adds.alters.instruction?_eq ?_ ?_
  · rw [around.inParent]
    exact around.parent_known
  · rw [around.inParent]
    exact inside.symm

/-- The body of a scope that has just been opened is played. -/
theorem Session.Ready.plays_body (ready : s.Ready setting)
    (opens : s.Opens [.plain] instr frame s.tree.next) (plain : frame.isFunction = false)
    (accepts : frame.accepts false) (plays : body.Plays)
    (fits : body.fits (frame.inside setting)) :
    ∃ middle instrs,
      play body.calls (s.opened [.plain] instr frame s.tree.next) = .ok () middle ∧
      middle.Around frame setting ∧ middle.tree.instruction? s.site = some instr ∧
      (s.opened [.plain] instr frame s.tree.next).Adds middle instrs
        fun tree registry => body.Shows tree registry setting.returns instrs := by
  have around := ready.around opens
  have found : (s.opened [.plain] instr frame s.tree.next).tree.block? s.tree.next =
      some ⟨s.tree.next, some s.current, .plain, #[]⟩ :=
    Session.block?_opened ready.grounded.placed.current_known 0 rfl
  have inside := around.ready opens.calm plain accepts found (by rw [opens.parent])
    (fun _ => BlockKind.noConfusion)
  obtain ⟨middle, instrs, played, adds⟩ := plays _ _ inside fits
  rw [Frame.returns_inside] at adds
  refine ⟨middle, instrs, played, around.adds adds, ?_, adds⟩
  have apart : s.tree.next ≠ frame.parent := by
    rw [opens.parent]
    exact Tree.next_ne ready.grounded.placed.current_known
  rw [← opens.site, around.instruction?_adds adds apart, opens.site,
    (ready.grounded.placed.extends_begin opens).instruction_self]

/-- The body of a new block of an open scope is played. -/
theorem Session.Around.plays_grown {old : Frame} {change : Instruction → Instruction}
    (around : s.Around old setting) (frame : Frame)
    (moves : Moves s (s.grown [.plain] change frame s.tree.next)) (site : frame.site = old.site)
    (parent : frame.parent = old.parent) (calm : frame.isWaiting = false)
    (plain : frame.isFunction = false) (accepts : frame.accepts false) (plays : body.Plays)
    (fits : body.fits (frame.inside setting)) :
    ∃ middle instrs,
      play body.calls (s.grown [.plain] change frame s.tree.next) = .ok () middle ∧
      middle.Around frame setting ∧
      middle.tree.instruction? frame.site = (s.tree.instruction? frame.site).map change ∧
      (s.grown [.plain] change frame s.tree.next).Adds middle instrs
        fun tree registry => body.Shows tree registry setting.returns instrs := by
  have opened : (s.grown [.plain] change frame s.tree.next).Around frame setting :=
    around.stays frame moves rfl parent
  have found : (s.grown [.plain] change frame s.tree.next).tree.block? s.tree.next =
      some ⟨s.tree.next, some frame.parent, .plain, #[]⟩ :=
    around.block?_grown frame _ site 0 rfl
  have ready := opened.ready calm plain accepts found rfl (fun _ => BlockKind.noConfusion)
  obtain ⟨middle, instrs, played, adds⟩ := plays _ _ ready fits
  rw [Frame.returns_inside] at adds
  refine ⟨middle, instrs, played, opened.adds adds, ?_, adds⟩
  have apart : s.tree.next ≠ frame.parent := by
    rw [parent]
    exact Tree.next_ne around.parent_known
  rw [opened.instruction?_adds adds apart, Session.instruction?_grown]

/-- A statement with one body is played: what opens its scope, its body and what leaves it. -/
theorem Session.Ready.plays_scope (ready : s.Ready setting) {first last : Call}
    {change : Instruction → Instruction} (opens : s.Opens [.plain] instr frame s.tree.next)
    (plain : frame.isFunction = false) (accepts : frame.accepts false)
    (began : first.run s = .ok .done (s.opened [.plain] instr frame s.tree.next))
    (ended : ∀ middle : Session, middle.Around frame setting → ∃ after,
      last.run middle = .ok .done after ∧
        Session.Ends middle.tree.size middle after frame change fun _ _ => True)
    (plays : body.Plays) (fits : body.fits (frame.inside setting)) :
    ∃ after instrs, play (first :: (body.calls ++ [last])) s = .ok () after ∧
      s.Adds after [change instr] fun tree registry =>
        tree.instructions? s.tree.next = some instrs ∧
          body.Shows tree registry setting.returns instrs := by
  obtain ⟨middle, instrs, played, around, -, adds⟩ :=
    ready.plays_body opens plain accepts plays fits
  obtain ⟨after, left, ends⟩ := ended middle around
  refine ⟨after, instrs, play_cons began (play_append played (play_cons left play_nil)), ?_⟩
  refine (ends.adds_body ready opens adds).imp ?_
  rintro tree registry ⟨isBody, shows, _⟩
  exact ⟨isBody, shows⟩

/-- A loop that tests before its body is played. -/
theorem plays_whileLoop (condition : Expr) (plays : body.Plays) :
    (Stmt.whileLoop condition body).Plays := by
  intro s setting ready fits
  have began : (Call.beginWhile condition).run s = .ok .done (s.opened [.plain]
      (.whileLoop condition s.tree.next) (.whileLoop s.site s.current) s.tree.next) :=
    run_done (beginWhile_ok_iff.mpr ⟨ready.sane, ready.settle_accepts, by rw [ready.settled]⟩)
  have ended : ∀ middle : Session, middle.Around (.whileLoop s.site s.current) setting →
      ∃ after, Call.endWhile.run middle = .ok .done after ∧
        Session.Ends middle.tree.size middle after (.whileLoop s.site s.current)
          (fun instr => instr) fun _ _ => True := by
    intro middle around
    have left : endWhile middle = .ok () (middle.closed s.current) :=
      endWhile_ok_iff.mpr ⟨around.sane, s.site, s.current, _, around.settle_top rfl,
        by rw [around.settled rfl]⟩
    exact ⟨_, run_done left,
      Session.ends_closed (.whileLoop s.site s.current) _ (moves_endWhile left)⟩
  obtain ⟨after, instrs, played, adds⟩ :=
    ready.plays_scope (opens_beginWhile ready.settled ready.accepts condition) rfl rfl
      began ended plays fits
  refine ⟨after, _, played, adds.imp ?_⟩
  rintro tree registry ⟨isBody, shows⟩
  exact ⟨s.tree.next, instrs, rfl, isBody, shows⟩

/-- A loop with clauses is played. -/
theorem plays_forClauses (clauses : ForClauses) (plays : body.Plays) :
    (Stmt.forClauses clauses body).Plays := by
  intro s setting ready fits
  have began : (Call.beginForClauses clauses).run s = .ok .done (s.opened [.plain]
      (.forLoop (.clauses clauses) s.tree.next)
      (.forLoop s.site s.current none s.tree.next .body) s.tree.next) :=
    run_done (beginForClauses_ok_iff.mpr
      ⟨ready.sane, ready.settle_accepts, by rw [ready.settled]⟩)
  have ended : ∀ middle : Session,
      middle.Around (.forLoop s.site s.current none s.tree.next .body) setting →
      ∃ after, Call.endFor.run middle = .ok .done after ∧
        Session.Ends middle.tree.size middle after
          (.forLoop s.site s.current none s.tree.next .body) (fun instr => instr)
          fun _ _ => True := by
    intro middle around
    have left : endFor middle = .ok () (middle.closed s.current) :=
      endFor_ok_iff.mpr ⟨around.sane, s.site, s.current, none, s.tree.next, _,
        around.settle_top rfl, by rw [around.settled rfl]⟩
    exact ⟨_, run_done left, Session.ends_closed
      (.forLoop s.site s.current none s.tree.next .body) _ (moves_endFor left)⟩
  obtain ⟨after, instrs, played, adds⟩ :=
    ready.plays_scope (opens_beginForClauses ready.settled ready.accepts clauses) rfl rfl
      began ended plays fits
  refine ⟨after, _, played, adds.imp ?_⟩
  rintro tree registry ⟨isBody, shows⟩
  exact ⟨s.tree.next, instrs, rfl, isBody, shows⟩

/-- A loop that tests after its body is played. -/
theorem plays_doWhile (condition : Expr) (plays : body.Plays) :
    (Stmt.doWhile body condition).Plays := by
  intro s setting ready fits
  have began : Call.beginDoWhile.run s = .ok .done (s.opened [.plain]
      (.doWhile s.tree.next none) (.doWhile s.site s.current) s.tree.next) :=
    run_done (beginDoWhile_ok_iff.mpr ⟨ready.sane, ready.settle_accepts, by rw [ready.settled]⟩)
  have ended : ∀ middle : Session, middle.Around (.doWhile s.site s.current) setting →
      ∃ after, (Call.endDoWhile condition).run middle = .ok .done after ∧
        Session.Ends middle.tree.size middle after (.doWhile s.site s.current)
          (Instruction.closeDoWhile condition) fun _ _ => True := by
    intro middle around
    have left : endDoWhile condition middle = .ok ()
        ((middle.grown [] (Instruction.closeDoWhile condition) (.doWhile s.site s.current)
          middle.current).closed s.current) :=
      endDoWhile_ok_iff.mpr ⟨around.sane, s.site, s.current, _, around.settle_top rfl,
        by rw [around.settled rfl]⟩
    exact ⟨_, run_done left, around.ends_grown (Nat.le_refl _) (moves_endDoWhile left)⟩
  obtain ⟨after, instrs, played, adds⟩ :=
    ready.plays_scope (opens_beginDoWhile ready.settled ready.accepts) rfl rfl began
      ended plays fits
  refine ⟨after, _, played, adds.imp ?_⟩
  rintro tree registry ⟨isBody, shows⟩
  exact ⟨s.tree.next, instrs, rfl, isBody, shows⟩

end Scopes

/-- Whether the other cases of a chain of conditions can be played from an open case. -/
def Chain.Plays (chain : Chain) : Prop :=
  ∀ (s : Session) (setting : Setting) (style : ChainStyle) (site : Address) (parent : BlockId)
    (cases : List IfCase), s.Around (.branch site parent false) setting →
    s.tree.instruction? site = some (.branch cases) → endsInElse cases = false →
    chain.fits setting →
    ∃ after new, Build.play (chain.calls style) s = .ok () after ∧
      Session.Ends s.tree.size s after (.branch site parent false)
        (Instruction.addAll Instruction.addIfCase new)
        fun tree registry => chain.Shows tree registry setting.returns new

section Branches

open Build

variable {s middle : Session} {setting : Setting} {frame : Frame} {instr : Instruction}
  {instrs : List Instruction} {body : Program} {shows : Tree → Registry → Prop}
  {site : Address} {parent : BlockId} {cases : List IfCase}

/-- The innermost scope puts the build where it is. -/
theorem Session.Around.holds (around : s.Around frame setting)
    (isAt : s.tree.instruction? frame.site = some instr) : frame.Holds instr s.current := by
  have stacking := around.grounded.placed.stacking
  rw [around.top] at stacking
  obtain ⟨-, ⟨found, isFound, holds⟩, -⟩ := stacking
  rw [isAt] at isFound
  obtain rfl := Option.some.inj isFound
  exact holds

/-- A case that is not the last is closed, if the style asks for it. -/
theorem Session.Around.pause (around : s.Around (.branch site parent false) setting)
    (isAt : s.tree.instruction? site = some (.branch cases))
    (openEnded : endsInElse cases = false) (style : ChainStyle) :
    ∃ paused waiting, play style.pause s = .ok () paused ∧
      paused.Around (.branch site parent waiting) setting ∧ paused.tree = s.tree ∧
      (waiting = false → paused.current = s.current) ∧
      ∀ after change shows,
        Session.Ends s.tree.size paused after (.branch site parent waiting) change shows →
          Session.Ends s.tree.size s after (.branch site parent false) change shows := by
  -- Only the closing style leaves the case; the chain then waits in the block around it.
  cases style with
  | flowing =>
    exact ⟨s, false, play_nil, around, rfl, fun _ => rfl, fun _ _ _ ends => ends⟩
  | closing =>
    have ended : endIfSubBlock s = .ok () (s.entered (.branch site parent true) parent) := by
      refine endIfSubBlock_ok_iff.mpr ⟨around.sane, site, parent, _, cases,
        around.settle_top rfl, isAt, ?_⟩
      rw [openEnded, around.settled rfl]
      rfl
    have moves := moves_endIfSubBlock ended
    refine ⟨_, true, play_cons (run_done ended) play_nil,
      around.stays (.branch site parent true) moves rfl rfl, rfl, ?_, ?_⟩
    · exact fun calm => nomatch calm
    · exact fun _ _ _ ends => ends.after_entered (.branch site parent false) moves rfl rfl

/-- A chain of conditions is closed, from its last case or while it waits. -/
theorem Session.Around.endIf {waiting : Bool}
    (around : s.Around (.branch site parent waiting) setting) :
    Build.endIf s = .ok () (s.closed parent) := by
  refine endIf_ok_iff.mpr ⟨around.sane, site, parent, waiting, _, around.top, ?_⟩
  cases waiting with
  | false => rfl
  | true =>
    have stacking := around.grounded.placed.stacking
    rw [around.top] at stacking
    obtain ⟨-, ⟨instr, -, holds⟩, -⟩ := stacking
    rw [if_pos rfl, holds.eq_parent rfl]
    rfl

/-- The next case of a chain of conditions is opened and its body is played. -/
theorem Session.Around.adds_case (around : s.Around (.branch site parent false) setting)
    (isAt : s.tree.instruction? site = some (.branch cases))
    (openEnded : endsInElse cases = false) (style : ChainStyle) (condition : Option Expr)
    (found : Step) (plays : body.Plays) (fits : body.fits setting) :
    ∃ paused opened middle instrs, play style.pause s = .ok () paused ∧
      paused.failure = none ∧ addIfCase condition found paused = .ok () opened ∧
      play body.calls opened = .ok () middle ∧
      middle.Around (.branch site parent false) setting ∧
      middle.tree.instruction? site =
        some (.branch (cases ++ [⟨condition, s.tree.next⟩])) ∧
      ∀ after change shows,
        Session.Ends middle.tree.size middle after (.branch site parent false) change shows →
          Session.Ends s.tree.size s after (.branch site parent false)
            (fun instr => change (instr.addIfCase ⟨condition, s.tree.next⟩))
            fun tree registry => tree.instructions? s.tree.next = some instrs ∧
              body.Shows tree registry setting.returns instrs ∧ shows tree registry := by
  obtain ⟨paused, waiting, isPaused, aroundPaused, sameTree, stands, resumes⟩ :=
    around.pause isAt openEnded style
  have isLast : (cases.getLast?.map IfCase.body) = some s.current := (around.holds isAt).seat
  have ran : addIfCase condition found paused = .ok () (paused.grown [.plain]
      (Instruction.addIfCase ⟨condition, s.tree.next⟩) (.branch site parent false)
      s.tree.next) := by
    rw [← sameTree] at isAt ⊢
    refine addIfCase_ok_iff.mpr ⟨site, parent, waiting, _, cases, aroundPaused.top, isAt,
      openEnded, ?_, rfl⟩
    intro calm
    rw [stands calm]
    obtain ⟨last, isLast, isBody⟩ := Option.map_eq_some_iff.mp isLast
    simp [isLast, isBody]
  have moves := moves_addIfCase ran
  rw [← sameTree] at isAt ran moves resumes ⊢
  obtain ⟨middle, instrs, played, aroundMiddle, isStill, adds⟩ :=
    aroundPaused.plays_grown (.branch site parent false) moves rfl rfl rfl rfl rfl plays fits
  refine ⟨paused, _, middle, instrs, isPaused, aroundPaused.sane, ran, played, aroundMiddle, ?_,
    fun _ _ _ ends => resumes _ _ _ (ends.after_body aroundPaused moves rfl rfl adds)⟩
  rw [Frame.site] at isStill
  rw [isStill, isAt]
  rfl

/-- A chain of conditions is played to its end. -/
theorem plays_done : Chain.done.Plays := by
  intro s setting style site parent cases around isAt openEnded fits
  obtain ⟨paused, waiting, isPaused, aroundPaused, -, -, resumes⟩ :=
    around.pause isAt openEnded style
  have ended := aroundPaused.endIf
  have ends := Session.ends_closed (.branch site parent waiting) s.tree.size
    (moves_endIf ended)
  refine ⟨_, [], play_append isPaused (play_cons (run_done ended) play_nil), ?_⟩
  exact (resumes _ _ _ ends).imp fun _ _ _ => rfl

/-- A case with a condition is played, and the cases after it. -/
theorem plays_elseIf (condition : Expr) {others : Chain} (plays : body.Plays)
    (playsOthers : others.Plays) : (Chain.elseIf condition body others).Plays := by
  intro s setting style site parent cases around isAt openEnded fits
  rw [Chain.fits, Bool.and_eq_true] at fits
  obtain ⟨paused, opened, middle, instrs, isPaused, sane, ran, played, aroundMiddle, isStill,
    resumes⟩ := around.adds_case isAt openEnded style (some condition) .beginElseIf plays fits.1
  have openStill : endsInElse (cases ++ [⟨some condition, s.tree.next⟩]) = false := by
    simp [endsInElse]
  obtain ⟨after, new, playedOthers, ends⟩ :=
    playsOthers middle setting style site parent _ aroundMiddle isStill openStill fits.2
  have began := beginElseIf_ok_iff.mpr ⟨sane, ran⟩
  refine ⟨after, ⟨some condition, s.tree.next⟩ :: new, play_append isPaused
    (play_cons (run_done began) (play_append played playedOthers)), ?_⟩
  refine (resumes _ _ _ ends).imp ?_
  rintro tree registry ⟨isBody, shows, showsOthers⟩
  exact ⟨s.tree.next, instrs, new, rfl, isBody, shows, showsOthers⟩

/-- A chain of conditions that ends in its `else` is closed in either style. -/
theorem Session.Around.close_else (around : s.Around (.branch site parent false) setting)
    (isAt : s.tree.instruction? site = some (.branch cases)) (closed : endsInElse cases)
    (style : ChainStyle) :
    ∃ after, play [style.close] s = .ok () after ∧
      Session.Ends s.tree.size s after (.branch site parent false) (fun instr => instr)
        (fun _ _ => True) := by
  cases style with
  | closing =>
    have ended : endIfSubBlock s = .ok () (s.closed parent) := by
      refine endIfSubBlock_ok_iff.mpr ⟨around.sane, site, parent, _, cases,
        around.settle_top rfl, isAt, ?_⟩
      rw [if_pos closed, around.settled rfl]
    exact ⟨_, play_cons (run_done ended) play_nil,
      Session.ends_closed (.branch site parent false) s.tree.size (moves_endIfSubBlock ended)⟩
  | flowing =>
    have ended := around.endIf
    exact ⟨_, play_cons (run_done ended) play_nil,
      Session.ends_closed (.branch site parent false) s.tree.size (moves_endIf ended)⟩

/-- An `else` is played to its end. -/
theorem plays_otherwise (plays : body.Plays) : (Chain.otherwise body).Plays := by
  intro s setting style site parent cases around isAt openEnded fits
  obtain ⟨paused, opened, middle, instrs, isPaused, sane, ran, played, aroundMiddle, isStill,
    resumes⟩ := around.adds_case isAt openEnded style none .beginElse plays fits
  obtain ⟨after, ended, ends⟩ := aroundMiddle.close_else isStill (by simp [endsInElse]) style
  have began := beginElse_ok_iff.mpr ⟨sane, ran⟩
  refine ⟨after, [⟨none, s.tree.next⟩], play_append isPaused
    (play_cons (run_done began) (play_append played ended)), ?_⟩
  refine (resumes _ _ _ ends).imp ?_
  rintro tree registry ⟨isBody, shows, _⟩
  exact ⟨s.tree.next, instrs, rfl, isBody, shows⟩

/-- A chain of conditions is played, in either style. -/
theorem plays_branch (style : ChainStyle) (condition : Expr) {others : Chain}
    (plays : body.Plays) (playsOthers : others.Plays) :
    (Stmt.branch style condition body others).Plays := by
  intro s setting ready fits
  rw [Stmt.fits, Bool.and_eq_true] at fits
  have opens := opens_beginIf ready.settled ready.accepts condition
  have began : beginIf condition s = .ok () (s.opened [.plain]
      (.branch [⟨some condition, s.tree.next⟩]) (.branch s.site s.current false) s.tree.next) :=
    beginIf_ok_iff.mpr ⟨ready.sane, ready.settle_accepts, by rw [ready.settled]⟩
  obtain ⟨middle, instrs, played, around, isAt, adds⟩ :=
    ready.plays_body opens rfl rfl plays fits.1
  obtain ⟨after, new, playedOthers, ends⟩ :=
    playsOthers middle setting style s.site s.current _ around isAt rfl fits.2
  refine ⟨after, .branch (⟨some condition, s.tree.next⟩ :: new),
    play_cons (run_done began) (play_append played playedOthers), ?_⟩
  have addsAll := ends.adds_body ready opens adds
  rw [Instruction.addAll_branch] at addsAll
  refine addsAll.imp ?_
  rintro tree registry ⟨isBody, shows, showsOthers⟩
  exact ⟨s.tree.next, instrs, new, rfl, isBody, shows, showsOthers⟩

end Branches

section Headers

open Build

variable {s : Session} {setting : Setting} {body : Program} {site : Address}
  {parent block : BlockId} {args : Option BlockId}

/-- The condition beside the header of a loop is given, if there is one. -/
theorem Session.Around.plays_stacked
    (around : s.Around (.forLoop site parent args block .args) setting) (stacked : Option Expr) :
    ∃ middle, play (stacked.map .stackForCondition).toList s = .ok () middle ∧
      middle.Around (.forLoop site parent args block .args) setting ∧
      (∀ id, id ≠ parent → middle.tree.block? id = s.tree.block? id) ∧
      ∀ base after later shows, base ≤ s.tree.size →
        Session.Ends base middle after (.forLoop site parent args block .args) later shows →
        Session.Ends base s after (.forLoop site parent args block .args)
          (fun instr => later (stacked.elim instr instr.stackCondition)) shows := by
  cases stacked with
  | none =>
    exact ⟨s, play_nil, around, fun _ _ => rfl, fun _ _ _ _ _ ends => ends⟩
  | some condition =>
    have ran : stackForCondition condition s = .ok () (s.grown []
        (Instruction.stackCondition condition) (.forLoop site parent args block .args)
        s.current) :=
      stackForCondition_ok_iff.mpr ⟨around.sane, site, parent, args, block, .args, _,
        around.top, ForPhase.noConfusion, rfl⟩
    have moves := moves_stackForCondition ran
    refine ⟨_, play_cons (run_done ran) play_nil,
      around.stays (.forLoop site parent args block .args) moves rfl rfl, ?_, ?_⟩
    · intro id isOther
      rw [Session.grown, Tree.block?_amend, if_neg, Tree.addBlocks_nil]
      rw [around.inParent]
      exact isOther
    · intro base after later shows lower ends
      exact ends.after_grown around moves rfl rfl lower

/-- The body of a loop is played after its header, to the end of the loop. -/
theorem Session.Around.plays_forBody
    (around : s.Around (.forLoop site parent args block .args) setting)
    (found : s.tree.block? block = some ⟨block, some parent, .plain, #[]⟩)
    (outside : parent.index < block.index) (plays : body.Plays)
    (fits : body.fits setting.inLoop) :
    ∃ after instrs, play (.beginForBody :: (body.calls ++ [.endFor])) s = .ok () after ∧
      Session.Ends block.index s after (.forLoop site parent args block .args)
        (fun instr => instr) fun tree registry => tree.instructions? block = some instrs ∧
          body.Shows tree registry setting.returns instrs := by
  have entered : beginForBody s =
      .ok () (s.entered (.forLoop site parent args block .body) block) :=
    beginForBody_ok_iff.mpr ⟨around.sane, site, parent, args, block, .args, _, around.top,
      ForPhase.noConfusion, rfl⟩
  have moves := moves_beginForBody entered
  have inBody := around.stays (.forLoop site parent args block .body) moves rfl rfl
  have ready := inBody.ready rfl rfl rfl found rfl (fun _ => BlockKind.noConfusion)
  obtain ⟨middle, instrs, played, adds⟩ := plays _ _ ready fits
  have aroundMiddle := inBody.adds adds
  have ended : endFor middle = .ok () (middle.closed parent) :=
    endFor_ok_iff.mpr ⟨aroundMiddle.sane, site, parent, args, block, _,
      aroundMiddle.settle_top rfl, by rw [aroundMiddle.settled rfl]⟩
  refine ⟨_, instrs, play_cons (run_done entered)
    (play_append played (play_cons (run_done ended) play_nil)), ?_⟩
  have known : block.index < middle.tree.size :=
    Nat.lt_of_lt_of_le ready.grounded.placed.current_known adds.moves.tree_keeps.size_le
  have ends := Session.ends_closed (.forLoop site parent args block .body)
    middle.tree.size (moves_endFor ended)
  have built := ends.after_adds adds found rfl (Nat.le_of_lt known) (Nat.le_refl _) known outside
    (fun _ _ below => below)
  refine (built.after_entered (.forLoop site parent args block .args) moves rfl rfl).imp ?_
  rintro tree registry ⟨isBody, shows, _⟩
  exact ⟨isBody, shows⟩

/-- The header of a loop is played, and the loop after it. -/
theorem Session.Around.plays_header {args : BlockId}
    (around : s.Around (.forLoop site parent (some args) block .created) setting)
    (foundArgs : s.tree.block? args = some ⟨args, some parent, .forArgs, #[]⟩)
    (foundBody : s.tree.block? block = some ⟨block, some parent, .plain, #[]⟩)
    (outside : parent.index < args.index) (isNext : block.index = args.index + 1)
    (isSize : s.tree.size = block.index + 1) {header : List Expr}
    (plain : header.all (·.construction?.isNone)) (stacked : Option Expr) (plays : body.Plays)
    (fits : body.fits setting.inLoop) :
    ∃ after instrs,
      play (.beginForArgs :: (header.map .push ++ ((stacked.map .stackForCondition).toList ++
        .beginForBody :: (body.calls ++ [.endFor])))) s = .ok () after ∧
      Session.Ends args.index s after (.forLoop site parent (some args) block .created)
        (fun instr => stacked.elim instr instr.stackCondition) fun tree registry =>
          tree.instructions? args = some (header.map .statement) ∧
          tree.instructions? block = some instrs ∧
          body.Shows tree registry setting.returns instrs := by
  have entered : beginForArgs s =
      .ok () (s.entered (.forLoop site parent (some args) block .args) args) :=
    beginForArgs_ok_iff.mpr ⟨around.sane, site, parent, args, block, _, around.top, rfl⟩
  have moves := moves_beginForArgs entered
  have inArgs := around.stays (.forLoop site parent (some args) block .args) moves rfl rfl
  have ready := inArgs.ready rfl rfl rfl foundArgs rfl (fun _ => BlockKind.noConfusion)
  obtain ⟨headed, played, sameSize, adds⟩ := ready.plays_pushes plain
  have aroundHeaded := inArgs.adds adds
  obtain ⟨given, playedCondition, aroundGiven, others, resumes⟩ :=
    aroundHeaded.plays_stacked stacked
  have isBody : given.tree.block? block = some ⟨block, some parent, .plain, #[]⟩ := by
    have isOther : block ≠ args := by
      rintro rfl
      omega
    rw [others block (by rintro rfl; omega), adds.alters.others block ?_ isOther]
    · exact foundBody
    · show block.index < s.tree.size
      omega
  obtain ⟨after, instrs, playedBody, ends⟩ :=
    aroundGiven.plays_forBody isBody (by omega) plays fits
  refine ⟨after, instrs, play_cons (run_done entered)
    (play_append played (play_append playedCondition playedBody)), ?_⟩
  have sameSize : headed.tree.size = s.tree.size := sameSize
  -- The body has the higher number: it is accounted for before the header that was built first.
  have stackedEnds := resumes _ _ _ _ (by omega) ends
  have built := stackedEnds.after_adds adds foundArgs rfl ?_ (Nat.le_refl _) ?_ outside ?_
  · refine (built.after_entered (.forLoop site parent (some args) block .created) moves rfl
      rfl).imp ?_
    rintro tree registry ⟨isArgs, _, isBody, shows⟩
    exact ⟨isArgs, isBody, shows⟩
  · show args.index ≤ block.index
    omega
  · show args.index < block.index
    omega
  · intro index above below
    have above : s.tree.size ≤ index := above
    omega

/-- A loop with a recorded header is played. -/
theorem plays_forLoop (header : List Expr) (stacked : Option Expr) (plays : body.Plays) :
    (Stmt.forLoop header stacked body).Plays := by
  intro s setting ready fits
  rw [Stmt.fits, Bool.and_eq_true] at fits
  have opens := opens_beginFor ready.settled ready.accepts s.options.policy
  have began : beginFor s = .ok () (s.opened [.forArgs, .plain]
      (.forLoop (.recorded s.tree.next none s.options.policy) ⟨s.tree.size + 1⟩)
      (.forLoop s.site s.current (some s.tree.next) ⟨s.tree.size + 1⟩ .created) s.current) :=
    beginFor_ok_iff.mpr ⟨ready.sane, ready.settle_accepts, by rw [ready.settled]⟩
  have known := ready.grounded.placed.current_known
  obtain ⟨after, instrs, played, ends⟩ := (ready.around opens).plays_header
    (Session.block?_opened known 0 rfl) (Session.block?_opened known 1 rfl) known rfl
    (ready.grounded.placed.extends_begin opens).size fits.1 stacked plays fits.2
  refine ⟨after, .forLoop (.recorded s.tree.next stacked s.options.policy) ⟨s.tree.size + 1⟩,
    play_cons (run_done began) played, ?_⟩
  have adds := ends.adds_opened ready opens
  rw [Instruction.elim_stackCondition] at adds
  refine adds.imp ?_
  rintro tree registry ⟨isArgs, isBody, shows⟩
  exact ⟨s.tree.next, ⟨s.tree.size + 1⟩, instrs, s.options.policy, rfl, isArgs, isBody, shows⟩

end Headers

/-- Whether the cases of a switch can be played after those it has, to the end of the switch. -/
def Cases.Plays (cases : Cases) : Prop :=
  ∀ (s : Session) (setting : Setting) (site : Address) (parent : BlockId)
    (openCase : Option BlockId) (selector : Expr) (given : List SwitchCase),
    s.Around (.switch site parent openCase) setting →
    s.tree.instruction? site = some (.switch selector given) →
    given.countP (·.label.isNone) + cases.defaults ≤ 1 → cases.fits setting.inCase →
    ∃ after new, Build.play (cases.calls ++ [.endSwitch]) s = .ok () after ∧
      Session.Ends s.tree.size s after (.switch site parent openCase)
        (Instruction.addAll Instruction.addSwitchCase new)
        fun tree registry => cases.Shows tree registry setting.returns new

section Switches

open Build

variable {body : Program}

/-- A switch is played to its end. -/
theorem plays_noCases : Cases.nil.Plays := by
  intro s setting site parent openCase selector given around isAt single fits
  have ended : endSwitch s = .ok () (s.closed parent) :=
    endSwitch_ok_iff.mpr ⟨around.sane, site, parent, openCase, _, around.settle_top rfl,
      by rw [around.settled rfl]⟩
  have ends := Session.ends_closed (.switch site parent openCase) s.tree.size
    (moves_endSwitch ended)
  exact ⟨_, [], play_cons (run_done ended) play_nil, ends.imp fun _ _ _ => rfl⟩

/-- A case of a switch is played, and the cases after it. -/
theorem plays_case (label : Option Literal) {rest : Cases} (plays : body.Plays)
    (playsRest : rest.Plays) : (Cases.cons label body rest).Plays := by
  intro s setting site parent openCase selector given around isAt single fits
  rw [Cases.fits, Bool.and_eq_true] at fits
  rw [Cases.defaults] at single
  have noDefault : label.isNone → (s.tree.instruction? site).any (·.hasDefault) = false := by
    intro isDefault
    rw [if_pos isDefault] at single
    have noneGiven : given.countP (·.label.isNone) = 0 := by omega
    rw [isAt, Option.any_some, Instruction.hasDefault, List.any_eq_false]
    exact List.countP_eq_zero.mp noneGiven
  have ran : addCase label s = .ok () (s.grown [.plain]
      (Instruction.addSwitchCase ⟨label, s.tree.next⟩) (.switch site parent (some s.tree.next))
      s.tree.next) :=
    addCase_ok_iff.mpr ⟨around.sane, site, parent, openCase, _, around.settle_top rfl, noDefault,
      by rw [around.settled rfl]⟩
  have moves := moves_addCase ran
  obtain ⟨middle, instrs, played, aroundMiddle, isStill, adds⟩ := around.plays_grown
    (.switch site parent (some s.tree.next)) moves rfl rfl rfl rfl rfl plays fits.1
  rw [Frame.site, isAt] at isStill
  have singleStill : List.countP (fun case : SwitchCase => case.label.isNone)
      (given ++ [⟨label, s.tree.next⟩]) + rest.defaults ≤ 1 := by
    simp only [List.countP_append, List.countP_singleton]
    omega
  obtain ⟨after, new, playedRest, ends⟩ := playsRest middle setting site parent
    (some s.tree.next) selector _ aroundMiddle isStill singleStill fits.2
  refine ⟨after, ⟨label, s.tree.next⟩ :: new, ?_, ?_⟩
  · rw [Cases.calls, List.cons_append, List.append_assoc]
    exact play_cons (run_done ran) (play_append played playedRest)
  · refine (ends.after_body around moves rfl rfl adds).imp ?_
    rintro tree registry ⟨isBody, shows, showsRest⟩
    exact ⟨s.tree.next, instrs, new, rfl, isBody, shows, showsRest⟩

/-- A switch is played. -/
theorem plays_switch (selector : Expr) {cases : Cases} (plays : cases.Plays) :
    (Stmt.switch selector cases).Plays := by
  intro s setting ready fits
  rw [Stmt.fits, Bool.and_eq_true, decide_eq_true_iff] at fits
  have opens := opens_beginSwitch ready.settled ready.accepts selector
  have began : beginSwitch selector s = .ok () (s.opened [] (.switch selector [])
      (.switch s.site s.current none) s.current) :=
    beginSwitch_ok_iff.mpr ⟨ready.sane, ready.settle_accepts, by rw [ready.settled]⟩
  have extended := ready.grounded.placed.extends_begin opens
  obtain ⟨after, new, played, ends⟩ := plays _ setting s.site s.current none selector []
    (ready.around opens) extended.instruction_self (by simpa using fits.1) fits.2
  rw [extended.size] at ends
  refine ⟨after, .switch selector new, play_cons (run_done began) played, ?_⟩
  have adds := ends.adds_opened ready opens
  rw [Instruction.addAll_switch] at adds
  refine adds.imp ?_
  intro tree registry shows
  exact ⟨new, rfl, shows⟩

end Switches

end ShaderLoom
