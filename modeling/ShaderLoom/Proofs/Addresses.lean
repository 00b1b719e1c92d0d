import ShaderLoom.Proofs.Balance
import ShaderLoom.Proofs.Census

/-!
# Addresses stay valid

Instructions are appended and never moved, removed or replaced, and no block changes its parent or
its kind, so the address that an open scope keeps means the same instruction for as long as the
build lasts. A call appends one instruction at most and amends one at most: the one that opened the
scope it continues gains a case, an overload or a condition (`Instruction.Gains`). This is so of
calls that fail as well, for no call fails after it has changed an instruction (`Build.Careful`).
-/
namespace ShaderLoom

/-- What an instruction that opened a scope may gain: a case or an overload after those it has, the
condition that a loop still misses, or a condition beside a recorded header. -/
inductive Instruction.Gains : Instruction → Instruction → Prop where
  | case (cases : List IfCase) (new : IfCase) : Gains (.branch cases) (.branch (cases ++ [new]))
  | label (selector : Expr) (cases : List SwitchCase) (new : SwitchCase) :
    Gains (.switch selector cases) (.switch selector (cases ++ [new]))
  | overload (decl : FunctionDecl) (new : Overload) :
    Gains (.function decl) (.function { decl with overloads := decl.overloads ++ [new] })
  | tested (body : BlockId) (condition : Expr) :
    Gains (.doWhile body none) (.doWhile body (some condition))
  | stacked (args : BlockId) (earlier : Option Expr) (policy : ConditionPolicy) (body : BlockId)
    (condition : Expr) :
    Gains (.forLoop (.recorded args earlier policy) body)
      (.forLoop (.recorded args (some condition) policy) body)

/-- What a call makes of an instruction is a gain, if a loop that gets its condition missed it. -/
theorem Call.Amends.gains {call : Call} {instr amended : Instruction}
    (amends : call.Amends instr amended)
    (untested : ∀ body earlier, instr = .doWhile body earlier → earlier = none) :
    instr.Gains amended := by
  cases amends with
  | elseIf condition cases body => exact .case cases _
  | otherwise cases body => exact .case cases _
  | label label selector cases body => exact .label selector cases _
  | overload params decl args body => exact .overload decl _
  | stacked condition args earlier policy body => exact .stacked args earlier policy body condition
  | tested condition body earlier =>
    obtain rfl := untested body earlier rfl
    exact .tested body condition

namespace Tree

/-- Whether a tree is another one with one more instruction at most, which stands at the end of its
block, and of which one instruction at most, the one at the given address, has gained something. -/
structure Accrues (before after : Tree) (grown? : Option Address) : Prop where
  /-- Every block keeps its number, its parent and its kind. -/
  blocks : before.Keeps after
  /-- Every instruction stays where it is and as it is, but for what one of them gains. -/
  stays : ∀ site instr, before.instruction? site = some instr →
    after.instruction? site = some instr ∨
      grown? = some site ∧ ∃ gained, after.instruction? site = some gained ∧ instr.Gains gained
  /-- A new instruction comes right after those of its block. -/
  ends : ∀ site, before.instruction? site = none → after.instruction? site ≠ none →
    site.index = before.length site.block
  /-- There is one new instruction at most. -/
  single : ∀ one other, before.instruction? one = none → after.instruction? one ≠ none →
    before.instruction? other = none → after.instruction? other ≠ none → one = other

/-- Whether a tree is another one with more blocks at most, and the same instructions. -/
structure Widens (before after : Tree) : Prop where
  blocks : before.Keeps after
  instructions : ∀ site, after.instruction? site = before.instruction? site

variable {before middle after : Tree} {grown? : Option Address}

/-- No block is added to itself. -/
theorem Widens.refl (tree : Tree) : tree.Widens tree := ⟨.refl tree, fun _ => rfl⟩

/-- Blocks may be added twice. -/
theorem Widens.trans (first : before.Widens middle) (second : middle.Widens after) :
    before.Widens after where
  blocks := first.blocks.trans second.blocks
  instructions site := by rw [second.instructions, first.instructions]

/-- A new block leaves all instructions. -/
theorem widens_addBlock (tree : Tree) (parent : BlockId) (kind : BlockKind) :
    tree.Widens (tree.addBlock parent kind) where
  blocks := keeps_addBlock tree parent kind
  instructions := instruction?_addBlock tree parent kind

/-- New blocks alone change no instruction. -/
theorem Widens.accrues (widens : before.Widens after) (grown? : Option Address) :
    before.Accrues after grown? where
  blocks := widens.blocks
  stays site instr isAt := .inl (by rw [widens.instructions, isAt])
  ends site absent isNew := absurd (by rw [widens.instructions, absent]) isNew
  single one _ absent isNew := absurd (by rw [widens.instructions, absent]) isNew

/-- One pushed instruction is one more. -/
theorem accrues_push {tree : Tree} {id : BlockId} (known : id.index < tree.size)
    (kinds : List BlockKind) (instr : Instruction) (grown? : Option Address) :
    tree.Accrues ((tree.addBlocks id kinds).push id instr) grown? := by
  have isAt := instruction?_pushed known id kinds instr
  have isPushed : ∀ site, tree.instruction? site = none →
      ((tree.addBlocks id kinds).push id instr).instruction? site ≠ none →
      site = ⟨id, tree.length id⟩ := by
    intro site absent isNew
    by_contra elsewhere
    rw [isAt, if_neg elsewhere] at isNew
    exact isNew absent
  exact {
    blocks := (keeps_addBlocks _ _ _).trans (keeps_push _ _ _)
    stays := fun site found isFound => by
      left
      rw [isAt, if_neg]
      · exact isFound
      · rintro rfl
        rw [instruction?_length] at isFound
        cases isFound
    ends := fun site absent isNew => by rw [isPushed site absent isNew]
    single := fun one other absent isNew absentToo isNewToo => by
      rw [isPushed one absent isNew, isPushed other absentToo isNewToo] }

/-- One amended instruction gains something. -/
theorem accrues_amend {tree : Tree} {site : Address} {instr : Instruction} (parent : BlockId)
    (kinds : List BlockKind) {change : Instruction → Instruction}
    (found : tree.instruction? site = some instr) (gains : instr.Gains (change instr)) :
    tree.Accrues ((tree.addBlocks parent kinds).amend site change) (some site) := by
  have isAt := instruction?_amended found parent kinds change
  have nothingNew : ∀ other, tree.instruction? other = none →
      ((tree.addBlocks parent kinds).amend site change).instruction? other = none := by
    intro other absent
    rw [isAt, if_neg]
    · exact absent
    · rintro rfl
      rw [found] at absent
      cases absent
  exact {
    blocks := (keeps_addBlocks _ _ _).trans (keeps_amend _ _ _)
    stays := fun other old isOld => by
      by_cases here : other = site
      · rw [here, found] at isOld
        obtain rfl := Option.some.inj isOld
        exact .inr ⟨by rw [here], change instr, by rw [isAt, if_pos here], gains⟩
      · exact .inl (by rw [isAt, if_neg here, isOld])
    ends := fun other absent isNew => absurd (nothingNew other absent) isNew
    single := fun one _ absent isNew => absurd (nothingNew one absent) isNew }

end Tree

/-- The kind of the instruction that a call appends, if it appends one. -/
def Call.writes? : Call → Option Kind
  | .declareStruct _ _ => some .struct
  | .declareInterface _ _ _ _ => some .interface
  | .beginIf _ => some .branch
  | .beginSwitch _ => some .switch
  | .beginFor => some .forLoop
  | .beginForClauses _ => some .forLoop
  | .beginWhile _ => some .whileLoop
  | .beginDoWhile => some .doWhile
  | .addStatement _ => some .special
  | .beginFunc _ _ => some .function
  | .returnValue _ _ => some .ret
  | .returnVoid => some .ret
  | call => if call.appends then some .statement else none

/-- Only one call appends a loop that tests after its body. -/
theorem Call.eq_beginDoWhile {call : Call} (writes : call.writes? = some .doWhile) :
    call = .beginDoWhile := by
  cases call <;> first | rfl | cases writes

/-- A call that makes and pushes a value appends a statement. -/
theorem Call.writes?_of_spec? {call : Call} {spec : ValueSpec} (isSpec : call.spec? = some spec) :
    call.writes? = some .statement := by
  cases call <;> cases isSpec <;> rfl

namespace Session

/-- What a successful call does to the tree: nothing, or it pushes an instruction of its kind to the
current block, or it amends the instruction of the scope it continues. -/
inductive Change (s : Session) (call : Call) (after : Session) : Prop where
  | kept (tree : after.tree = s.tree)
  | pushed (instr : Instruction) (kinds : List BlockKind)
    (writes : call.writes? = some instr.kind)
    (tree : after.tree = (s.tree.addBlocks s.current kinds).push s.current instr)
  | amended (continued : s.Continued after call)

variable {s after : Session} {call : Call}

/-- An appended instruction is pushed. -/
theorem change_append {registry : Registry} {instr : Instruction}
    (ran : Build.append instr { s with registry } = .ok () after)
    (writes : call.writes? = some instr.kind) : s.Change call after := by
  obtain ⟨-, ready, noted, rfl⟩ := Build.append_ok_iff.mp ran
  obtain ⟨_, rfl⟩ := Build.noted_eq noted
  exact .pushed instr [] writes (commit_tree _ _ _)

/-- The instruction that opens a scope is pushed. -/
theorem change_opened {registry : Registry} {kinds : List BlockKind} {instr : Instruction}
    {frame : Frame} {inner : BlockId}
    (opened : after = { s.settle with registry }.opened kinds instr frame inner)
    (writes : call.writes? = some instr.kind) : s.Change call after := by
  subst opened
  exact .pushed instr kinds writes (commit_tree _ _ _)

/-- A call changes the tree as the operation it stands for. -/
theorem change_map {α : Type} {form : α → Reply} {operation : Build α} {reply : Reply}
    (ran : (form <$> operation) s = .ok reply after)
    (change : ∀ value, operation s = .ok value after → s.Change call after) :
    s.Change call after := by
  obtain ⟨value, ran, -⟩ := Build.map_ok_iff.mp ran
  exact change value ran

/-- A made value is pushed. -/
theorem change_spec {reply : Reply} {spec : ValueSpec} (isSpec : call.spec? = some spec)
    (ran : call.run s = .ok reply after) : s.Change call after := by
  rw [Call.run_of_spec? isSpec] at ran
  obtain ⟨var, ran, -⟩ := Build.map_ok_iff.mp ran
  obtain ⟨-, ran⟩ := Build.emit_ok_iff.mp ran
  obtain ⟨-, registry, -, ran, -⟩ := Build.emitValue_ok_iff.mp ran
  exact change_append ran (Call.writes?_of_spec? isSpec)

/-- A return is pushed. -/
theorem change_pushReturn {value : Option Expr} {found : Ty}
    (ran : Build.pushReturn value found s = .ok () after) (writes : call.writes? = some .ret) :
    s.Change call after := by
  obtain ⟨-, expected, -, rfl⟩ := Build.pushReturn_ok_iff.mp ran
  exact .pushed (.ret value _) [] writes (commit_tree _ _ _)

open Build in
/-- What every successful call but a fresh start does to the tree. -/
theorem Placed.change (placed : s.Placed) {reply : Reply} (ran : call.run s = .ok reply after)
    (goesOn : call ≠ .reset) : s.Change call after := by
  cases call with
  | emit | construct | constructNamed | declare | forward | declareGlobal | declareConst
  | declareParam => exact change_spec rfl ran
  | beginElseIf | beginElse | addCase | nextOverload | stackForCondition | endDoWhile =>
    exact .amended (placed.continued rfl ran)
  | inline =>
    refine change_map ran fun _ ran => ?_
    obtain ⟨-, registry, -, rfl, -⟩ := inline_ok_iff.mp ran
    exact .kept rfl
  | use =>
    refine change_map ran fun _ ran => ?_
    obtain ⟨-, -, registry, -, rfl⟩ := use_ok_iff.mp ran
    exact .kept rfl
  | consume =>
    refine change_map ran fun _ ran => ?_
    obtain ⟨-, -, registry, -, rfl⟩ := consume_ok_iff.mp ran
    exact .kept rfl
  | forInit =>
    refine change_map ran fun _ ran => ?_
    obtain ⟨-, registry, -, rfl, -⟩ := forInit_ok_iff.mp ran
    exact .kept rfl
  | push => exact change_map ran fun _ ran => change_append (push_ok_iff.mp ran).2 rfl
  | declareStruct =>
    exact change_map ran fun _ ran => change_append (declareStruct_ok_iff.mp ran).2.1 rfl
  | declareInterface =>
    refine change_map ran fun _ ran => ?_
    obtain ⟨-, registry, -, ran, -⟩ := declareInterface_ok_iff.mp ran
    exact change_append ran rfl
  | beginIf =>
    exact change_map ran fun _ ran => change_opened (beginIf_ok_iff.mp ran).2.2 rfl
  | beginSwitch =>
    exact change_map ran fun _ ran => change_opened (beginSwitch_ok_iff.mp ran).2.2 rfl
  | beginFor =>
    exact change_map ran fun _ ran => change_opened (beginFor_ok_iff.mp ran).2.2 rfl
  | beginForClauses =>
    exact change_map ran fun _ ran => change_opened (beginForClauses_ok_iff.mp ran).2.2 rfl
  | beginWhile =>
    exact change_map ran fun _ ran => change_opened (beginWhile_ok_iff.mp ran).2.2 rfl
  | beginDoWhile =>
    exact change_map ran fun _ ran => change_opened (beginDoWhile_ok_iff.mp ran).2.2 rfl
  | beginFunc =>
    refine change_map ran fun _ ran => ?_
    obtain ⟨-, -, -, registry, -, opened, -⟩ := beginFunc_ok_iff.mp ran
    exact change_opened opened rfl
  | addStatement =>
    refine change_map ran fun _ ran => ?_
    obtain ⟨-, -, -, rfl⟩ := addStatement_ok_iff.mp ran
    exact .pushed _ [] rfl (commit_tree _ _ _)
  | returnValue =>
    exact change_map ran fun _ ran => change_pushReturn (returnValue_ok_iff.mp ran).2 rfl
  | returnVoid =>
    exact change_map ran fun _ ran => change_pushReturn (returnVoid_ok_iff.mp ran).2 rfl
  | endIfSubBlock =>
    refine change_map ran fun _ ran => ?_
    obtain ⟨-, site, parent, rest, cases, -, -, rfl⟩ := endIfSubBlock_ok_iff.mp ran
    split <;> exact .kept rfl
  | endIf =>
    refine change_map ran fun _ ran => ?_
    obtain ⟨-, site, parent, waiting, rest, -, rfl⟩ := endIf_ok_iff.mp ran
    exact .kept rfl
  | endSwitch =>
    refine change_map ran fun _ ran => ?_
    obtain ⟨-, site, parent, openCase, rest, -, rfl⟩ := endSwitch_ok_iff.mp ran
    exact .kept rfl
  | beginForArgs =>
    refine change_map ran fun _ ran => ?_
    obtain ⟨-, site, parent, args, body, rest, -, rfl⟩ := beginForArgs_ok_iff.mp ran
    exact .kept rfl
  | beginForBody =>
    refine change_map ran fun _ ran => ?_
    obtain ⟨-, site, parent, args, body, phase, rest, -, -, rfl⟩ := beginForBody_ok_iff.mp ran
    exact .kept rfl
  | endFor =>
    refine change_map ran fun _ ran => ?_
    obtain ⟨-, site, parent, args, body, rest, -, rfl⟩ := endFor_ok_iff.mp ran
    exact .kept rfl
  | endWhile =>
    refine change_map ran fun _ ran => ?_
    obtain ⟨-, site, parent, rest, -, rfl⟩ := endWhile_ok_iff.mp ran
    exact .kept rfl
  | endFunc =>
    refine change_map ran fun _ ran => ?_
    obtain ⟨-, site, parent, var, opened, rest, -, -, rfl⟩ := endFunc_ok_iff.mp ran
    exact .kept rfl
  | reset => exact absurd rfl goesOn

/-- The pushed instruction stands at the end of the current block, and every other one stays. -/
theorem Placed.instruction?_pushed (placed : s.Placed) (kinds : List BlockKind)
    (instr : Instruction) (site : Address) :
    ((s.tree.addBlocks s.current kinds).push s.current instr).instruction? site =
      if site = s.site then some instr else s.tree.instruction? site :=
  Tree.instruction?_pushed placed.current_known s.current kinds instr site

/-- What has been closed stays closed. -/
theorem Gone.moves {site : Address} (gone : s.Gone site) (placed : s.Placed)
    (moves : Moves s after) : after.Gone site := by
  induction moves with
  | refl => exact gone
  | tail moves move ih => exact ih.move (placed.moves moves) move

/-- Whether every loop that tests after its body misses its condition while its scope is open. -/
def Untested (s : Session) : Prop :=
  ∀ frame ∈ s.scopes, ∀ body condition,
    s.tree.instruction? frame.site = some (.doWhile body condition) → condition = none

/-- Only a scope of an instruction that was there before can have been open before. -/
theorem Placed.open_before (placed : s.Placed) (moves : Moves s after) {frame : Frame}
    (isOpen : frame ∈ after.scopes) {instr : Instruction}
    (isAt : s.tree.instruction? frame.site = some instr) :
    ∃ earlier ∈ s.scopes, earlier.site = frame.site := by
  by_contra closed
  have gone : s.Gone frame.site := by
    refine ⟨?_, by rw [isAt]; exact Option.some_ne_none instr⟩
    intro isSite
    obtain ⟨earlier, isEarlier, same⟩ := List.mem_map.mp isSite
    exact closed ⟨earlier, isEarlier, same⟩
  exact (gone.moves placed moves).closed (List.mem_map_of_mem isOpen)

/-- The loop that gets its condition is closed by the same call. -/
theorem Placed.closed_of_endDoWhile (placed : s.Placed) {condition : Expr} {frame : Frame}
    {reply : Reply} (ran : (Call.endDoWhile condition).run s = .ok reply after)
    (continued : s.continued? (.endDoWhile condition) = some frame) :
    ∀ other ∈ after.scopes, other.site ≠ frame.site := by
  obtain ⟨_, ran, -⟩ := Build.map_ok_iff.mp ran
  obtain ⟨-, site, parent, rest, top, rfl⟩ := Build.endDoWhile_ok_iff.mp ran
  obtain rfl : Frame.doWhile site parent = frame := by
    simpa [continued?, Call.continues, top] using continued
  have distinct := (placed.moves (Build.moves_settle s)).distinct
  rw [top, List.map_cons, List.nodup_cons] at distinct
  intro other isOther same
  have isRest : other ∈ s.settle.scopes.tail := isOther
  rw [top, List.tail_cons] at isRest
  refine distinct.1 ?_
  rw [← same]
  exact List.mem_map_of_mem isRest

/-- A loop that tests after its body is pushed without its condition. -/
theorem Placed.untested_of_beginDoWhile (placed : s.Placed) {reply : Reply} {body : BlockId}
    {condition : Option Expr} (ran : Call.beginDoWhile.run s = .ok reply after)
    (isLoop : after.tree.instruction? s.site = some (.doWhile body condition)) :
    condition = none := by
  obtain ⟨_, ran, -⟩ := Build.map_ok_iff.mp ran
  obtain ⟨-, accepted, rfl⟩ := Build.beginDoWhile_ok_iff.mp ran
  have settled := placed.moves (Build.moves_settle s)
  have opens := Build.opens_beginDoWhile s.settle_settle accepted
  have isAt := (settled.extends_begin opens).instruction_self
  exact (Instruction.doWhile.inj (Option.some.inj (isLoop.symm.trans isAt))).2

/-- The scope that a call continues is open. -/
theorem mem_scopes_of_continued? {frame : Frame} (continued : s.continued? call = some frame) :
    frame ∈ s.scopes := by
  obtain innermost | innermost := innermost_of_continued? continued
  · exact List.mem_of_head? innermost
  · exact (List.dropWhile_suffix _).subset (List.mem_of_head? innermost)

/-- Every successful call leaves open loops without their condition. -/
theorem Untested.step (untested : s.Untested) (placed : s.Placed) {reply : Reply}
    (ran : call.run s = .ok reply after) (goesOn : call ≠ .reset) : after.Untested := by
  intro frame isOpen body condition isLoop
  have before : s.tree.instruction? frame.site = some (.doWhile body condition) →
      condition = none := by
    intro isAt
    obtain ⟨earlier, isEarlier, same⟩ :=
      placed.open_before (Call.moves ran goesOn) isOpen isAt
    rw [← same] at isAt
    exact untested earlier isEarlier body condition isAt
  cases placed.change ran goesOn with
  | kept tree =>
    rw [tree] at isLoop
    exact before isLoop
  | pushed instr kinds writes tree =>
    have isAt := isLoop
    rw [tree, placed.instruction?_pushed] at isAt
    split_ifs at isAt with here
    · obtain rfl := Option.some.inj isAt
      obtain rfl := Call.eq_beginDoWhile writes
      rw [here] at isLoop
      exact placed.untested_of_beginDoWhile ran isLoop
    · exact before isAt
  | amended continued =>
    obtain ⟨scope, instr, kinds, change, continued, isAt, tree, amends⟩ := continued
    rw [tree, Tree.instruction?_amended isAt] at isLoop
    split_ifs at isLoop with here
    · rw [Option.some.inj isLoop] at amends
      cases amends
      exact absurd here (placed.closed_of_endDoWhile ran continued frame isOpen)
    · exact before isLoop

/-- Open loops miss their condition wherever calls lead without failing. -/
theorem untested_reached (options : BuildOptions) (calls : List Call)
    (sane : (reached options calls).failure = none) : (reached options calls).Untested := by
  have atStart : ∀ options, (start options).Untested := fun _ _ isOpen => nomatch isOpen
  refine @reached_of_effects options (fun _ s => s.Untested) (atStart options)
    (fun _ => atStart) ?_ calls sane
  exact fun _ _ _ _ placed untested goesOn ran _ => untested.step placed ran goesOn

/-- A successful call appends one instruction at most, and only the scope it continues gains
anything. -/
theorem Untested.accrues (untested : s.Untested) (placed : s.Placed) {reply : Reply}
    (ran : call.run s = .ok reply after) (goesOn : call ≠ .reset) :
    s.tree.Accrues after.tree ((s.continued? call).map Frame.site) := by
  cases placed.change ran goesOn with
  | kept tree =>
    rw [tree]
    exact (Tree.Widens.refl _).accrues _
  | pushed instr kinds writes tree =>
    rw [tree]
    exact Tree.accrues_push placed.current_known kinds instr _
  | amended continued =>
    obtain ⟨frame, instr, kinds, change, continued, isAt, tree, amends⟩ := continued
    rw [tree, continued]
    refine Tree.accrues_amend _ _ isAt (amends.gains ?_)
    rintro body earlier rfl
    exact untested frame (mem_scopes_of_continued? continued) body earlier isAt

end Session

namespace Build

variable {α β : Type}

/-- Whether a computation leaves every instruction, however it ends. -/
structure Mild (call : Build α) : Prop where
  ok : ∀ s value after, call s = .ok value after → s.tree.Widens after.tree
  error : ∀ s error after, call s = .error error after → s.tree.Widens after.tree

/-- Whether a computation leaves every instruction when it fails. -/
def Careful (call : Build α) : Prop :=
  ∀ s error after, call s = .error error after → s.tree.Widens after.tree

namespace Mild

/-- A computation that always succeeds is mild if it leaves every instruction. -/
theorem of_ok {call : Build α} (total : ∀ s, ∃ value after, call s = .ok value after ∧
    s.tree.Widens after.tree) : Mild call where
  ok s value after ran := by
    obtain ⟨_, _, isRun, widens⟩ := total s
    rw [isRun] at ran
    cases ran
    exact widens
  error s error after failed := by
    obtain ⟨_, _, isRun, -⟩ := total s
    rw [isRun] at failed
    cases failed

/-- An answer is mild. -/
theorem pure (value : α) : Mild (Pure.pure value) := of_ok fun s => ⟨value, s, rfl, .refl _⟩

/-- To look at the build is mild. -/
theorem get : Mild (MonadState.get : Build Session) := of_ok fun s => ⟨s, s, rfl, .refl _⟩

/-- To close the waiting chains is mild. -/
theorem settle : Mild (modify Session.settle : Build PUnit) :=
  of_ok fun _ => ⟨_, _, rfl, .refl _⟩

/-- A failure is mild. -/
theorem throw (error : BuildError) : Mild (MonadExcept.throw error : Build α) where
  ok _ _ _ ran := nomatch ran
  error s other after failed := by
    cases failed
    exact .refl _

/-- One mild thing after another is mild. -/
theorem bind {first : Build α} {next : α → Build β} (mild : Mild first)
    (mildNext : ∀ value, Mild (next value)) : Mild (first >>= next) where
  ok s value after ran := by
    obtain ⟨found, middle, began, ran⟩ := bind_ok_iff.mp ran
    exact (mild.ok s found middle began).trans ((mildNext found).ok middle value after ran)
  error s error after failed := by
    obtain failed | ⟨found, middle, began, failed⟩ := bind_error_iff.mp failed
    · exact mild.error s error after failed
    · exact (mild.ok s found middle began).trans ((mildNext found).error middle error after failed)

/-- What is mild is careful. -/
theorem careful {call : Build α} (mild : Mild call) : Careful call := mild.error

/-- What follows something mild is careful if it is so by itself. -/
theorem followed {first : Build α} {next : α → Build β} (mild : Mild first)
    (carefulNext : ∀ value, Careful (next value)) : Careful (first >>= next) := by
  intro s error after failed
  obtain failed | ⟨found, middle, began, failed⟩ := bind_error_iff.mp failed
  · exact mild.error s error after failed
  · exact (mild.ok s found middle began).trans (carefulNext found middle error after failed)

end Mild

/-- To find the block for an instruction is mild. -/
theorem mild_prepare (kind : Kind) (isParameter : Bool) : Mild (prepare kind isParameter) := by
  refine Mild.settle.bind fun _ => Mild.get.bind fun s => ?_
  split
  · exact .throw _
  · exact .pure _

/-- A new block is mild. -/
theorem mild_newBlock (parent : BlockId) (kind : BlockKind) : Mild (newBlock parent kind) :=
  .of_ok fun s => ⟨_, _, rfl, Tree.widens_addBlock s.tree parent kind⟩

/-- A new variable is mild. -/
theorem mild_create (ty : Ty) (category : Category) (name : Option String) (status : Status) :
    Mild (create ty category name status) := .of_ok fun _ => ⟨_, _, rfl, .refl _⟩

/-- A change of the registry is mild. -/
theorem mild_register (edit : Registry → Except BuildError Registry) : Mild (register edit) where
  ok s value after ran := by
    obtain ⟨registry, -, rfl⟩ := register_ok_iff.mp ran
    exact .refl _
  error s error after failed := by
    obtain ⟨-, rfl⟩ := register_error_iff.mp failed
    exact .refl _

namespace Careful

/-- What always succeeds is careful. -/
theorem of_ok {call : Build α} (total : ∀ s, ∃ value after, call s = .ok value after) :
    Careful call := by
  intro s error after failed
  obtain ⟨_, _, isRun⟩ := total s
  rw [isRun] at failed
  cases failed

/-- What looks at the build first is careful if it is so whatever it sees. -/
theorem look {next : Session → Build α} (careful : ∀ s, Careful (next s)) :
    Careful (MonadState.get >>= next) := Mild.get.followed careful

/-- What closes the waiting chains first is careful if what follows is. -/
theorem settling {next : PUnit → Build α} (careful : ∀ answer, Careful (next answer)) :
    Careful (modify Session.settle >>= next) := Mild.settle.followed careful

/-- A failure is careful. -/
theorem throw (error : BuildError) : Careful (MonadExcept.throw error : Build α) :=
  (Mild.throw error).careful

/-- What is done first in one of two cases may be done or not. -/
theorem maybe {choice : Prop} [Decidable choice] {first : Build PUnit} {rest : PUnit → Build α}
    (mild : Mild first) (carefulRest : ∀ answer, Careful (rest answer)) :
    Careful (if choice then first >>= rest else rest ⟨⟩) := by
  split
  · exact mild.followed carefulRest
  · exact carefulRest _

/-- A guarded call is careful if the call is. -/
theorem guarded {call : Build α} (careful : Careful call) : Careful (Build.guarded call) := by
  intro s error after failed
  unfold Build.guarded at failed
  cases isFailure : s.failure with
  | some first =>
    rw [isFailure] at failed
    cases failed
    exact .refl _
  | none =>
    rw [isFailure] at failed
    cases ran : call s with
    | ok value middle =>
      rw [ran] at failed
      cases failed
    | error cause middle =>
      rw [ran] at failed
      cases failed
      exact careful s error middle ran

/-- A changed answer is as careful as the answer. -/
theorem map {call : Build α} (careful : Careful call) (form : α → β) :
    Careful (form <$> call) := by
  intro s error after failed
  change EStateM.map form call s = _ at failed
  unfold EStateM.map at failed
  cases ran : call s with
  | ok value middle =>
    rw [ran] at failed
    cases failed
  | error cause middle =>
    rw [ran] at failed
    cases failed
    exact careful s error after ran

end Careful

/-- To append an instruction is careful. -/
theorem careful_append (instr : Instruction) : Careful (append instr) := by
  have pushed : ∀ block, Careful (commit block instr >>= fun _ => (pure () : Build Unit)) :=
    fun _ => .of_ok fun _ => ⟨_, _, rfl⟩
  refine (mild_prepare _ _).followed fun block => .look fun s => ?_
  split
  · exact .maybe (mild_register _) fun _ => pushed block
  · exact pushed block

/-- What is answered after something careful does not matter. -/
theorem Careful.answered {call : Build α} (careful : Careful call) (answer : β) :
    Careful (call >>= fun _ => pure answer) := by
  intro s error after failed
  obtain failed | ⟨_, _, -, failed⟩ := bind_error_iff.mp failed
  · exact careful s error after failed
  · cases failed

/-- To make a value is careful. -/
theorem careful_emitValue (spec : ValueSpec) : Careful (emitValue spec) := by
  refine .maybe (.throw _) fun _ => (mild_create _ _ _ _).followed fun var => ?_
  exact .maybe (mild_register _) fun _ => (careful_append _).answered var

/-- To find the cases of a chain of conditions is mild. -/
theorem mild_ifCases (site : Address) (found : Step) : Mild (ifCases site found) := by
  refine Mild.get.bind fun s => ?_
  split
  · exact .pure _
  · exact .throw _

/-- To add a case to a chain of conditions is careful. -/
theorem careful_addIfCase (condition : Option Expr) (found : Step) :
    Careful (addIfCase condition found) := by
  refine .look fun s => ?_
  split
  · refine (mild_ifCases _ _).followed fun cases => .maybe (.throw _) fun _ => ?_
    exact .maybe (.throw _) fun _ => .of_ok fun _ => ⟨_, _, rfl⟩
  · exact .throw _

/-- To demand a complete parameter list is mild. -/
theorem mild_requireComplete (var : VarId) (overload : Option OpenOverload) (found : Step) :
    Mild (requireComplete var overload found) := by
  unfold requireComplete
  split
  · split
    · exact Mild.get.bind fun _ => .throw _
    · exact .pure _
  · exact .pure _

/-- To push a return is careful. -/
theorem careful_pushReturn (value : Option Expr) (found : Ty) :
    Careful (pushReturn value found) := by
  refine (mild_prepare _ _).followed fun block => .look fun s => ?_
  split
  · exact .throw _
  · exact .of_ok fun _ => ⟨_, _, rfl⟩

/-- A careful computation behind the guard, with its answer put in a form, is careful. -/
theorem careful_guarded {inner : Build α} (careful : Careful inner) (form : α → Reply) :
    Careful (form <$> guarded inner) := careful.guarded.map form

end Build

open Build in
/-- No call fails after it has changed an instruction. -/
theorem Call.careful (call : Call) : Build.Careful call.run := by
  cases call with
  | emit | construct | constructNamed | declare | forward | declareGlobal | declareConst
  | declareParam => exact careful_guarded (careful_emitValue _) _
  | inline | forInit =>
    exact careful_guarded (((mild_create _ _ _ _).bind fun _ =>
      (mild_register _).bind fun _ => .pure _).careful) _
  | use | consume =>
    exact careful_guarded (((mild_register _).bind fun _ => .pure _).careful) _
  | push => exact careful_guarded (careful_append _) _
  | declareStruct => exact careful_guarded ((careful_append _).answered _) _
  | declareInterface =>
    exact careful_guarded ((mild_create _ _ _ _).followed fun var =>
      (mild_register _).followed fun _ => (careful_append _).answered var) _
  | beginIf | beginSwitch | beginFor | beginForClauses | beginWhile | beginDoWhile =>
    exact careful_guarded ((mild_prepare _ _).followed fun _ => .of_ok fun _ => ⟨_, _, rfl⟩) _
  | beginElseIf | beginElse => exact careful_guarded (careful_addIfCase _ _) _
  | endIfSubBlock =>
    refine careful_guarded (.settling fun _ => .look fun s => ?_) _
    split
    · refine (mild_ifCases _ _).followed fun cases => ?_
      split
      · exact .of_ok fun _ => ⟨_, _, rfl⟩
      · exact .of_ok fun _ => ⟨_, _, rfl⟩
    · exact .throw _
  | endIf =>
    refine careful_guarded (.look fun s => ?_) _
    split
    · exact .of_ok fun _ => ⟨_, _, rfl⟩
    · exact .of_ok fun _ => ⟨_, _, rfl⟩
    · exact .throw _
  | addCase label =>
    refine careful_guarded (.settling fun _ => .look fun s => ?_) _
    split
    · refine (mild_newBlock _ _).followed fun body => .look fun s => .maybe (.throw _) fun _ => ?_
      exact .of_ok fun _ => ⟨_, _, rfl⟩
    · exact .throw _
  | endSwitch | endWhile | endDoWhile =>
    refine careful_guarded (.settling fun _ => .look fun s => ?_) _
    split
    · exact .of_ok fun _ => ⟨_, _, rfl⟩
    · exact .throw _
  | beginForArgs =>
    refine careful_guarded (.look fun s => ?_) _
    split
    · exact .of_ok fun _ => ⟨_, _, rfl⟩
    · exact .throw _
    · exact .throw _
  | stackForCondition | beginForBody =>
    refine careful_guarded (.look fun s => ?_) _
    split
    · exact .throw _
    · exact .of_ok fun _ => ⟨_, _, rfl⟩
    · exact .throw _
  | endFor =>
    refine careful_guarded (.settling fun _ => .look fun s => ?_) _
    split
    · exact .of_ok fun _ => ⟨_, _, rfl⟩
    · exact .throw _
    · exact .throw _
  | addStatement stmt =>
    refine careful_guarded (.look fun s => ?_) _
    split
    · exact .throw _
    · exact careful_append _
  | beginFunc name returns =>
    refine careful_guarded (.settling fun _ => .look fun s => .maybe (.throw _) fun _ => ?_) _
    refine (mild_prepare _ _).followed fun parent => (mild_create _ _ _ _).followed fun var => ?_
    exact (mild_register _).followed fun _ => .of_ok fun _ => ⟨_, _, rfl⟩
  | nextOverload params =>
    refine careful_guarded (.settling fun _ => .look fun s => ?_) _
    split
    · refine (mild_requireComplete _ _ _).followed fun _ => .look fun s => ?_
      split
      · exact .of_ok fun _ => ⟨_, _, rfl⟩
      · exact .throw _
    · exact .throw _
  | endFunc =>
    refine careful_guarded (.settling fun _ => .look fun s => ?_) _
    have closed : ∀ var overload parent, Careful (do
        requireComplete var overload .endFunc
        closeScope parent) := fun _ _ _ =>
      (mild_requireComplete _ _ _).followed fun _ => .of_ok fun _ => ⟨_, _, rfl⟩
    split
    · split
      · exact .look fun _ => (Mild.throw _).followed fun _ => closed _ _ _
      · exact closed _ _ _
    · exact .throw _
  | returnValue | returnVoid => exact careful_guarded (careful_pushReturn _ _) _
  | reset => exact .of_ok fun _ => ⟨_, _, rfl⟩

namespace Session

variable {call : Call}

/-- What a call does to the tree, whether it succeeds or fails. -/
theorem accrues_step (options : BuildOptions) (calls : List Call) (goesOn : call ≠ .reset) :
    (reached options calls).tree.Accrues ((reached options calls).step call).tree
      (((reached options calls).continued? call).map Frame.site) := by
  unfold step
  cases ran : call.run (reached options calls) with
  | ok reply after =>
    have sane := Call.sane_of_ok ran goesOn
    exact (untested_reached options calls sane).accrues (placed_reached options calls sane) ran
      goesOn
  | error error after => exact (call.careful _ error after ran).accrues _

/-- What stands at an address stays there for as long as the build does not start over, but for
what it gains. -/
theorem stays_reached (options : BuildOptions) (calls : List Call) {later : List Call}
    (goesOn : .reset ∉ later) :
    (reached options calls).tree.Keeps (reached options (calls ++ later)).tree ∧
      ∀ site instr, (reached options calls).tree.instruction? site = some instr →
        ∃ gained, (reached options (calls ++ later)).tree.instruction? site = some gained ∧
          Relation.ReflTransGen Instruction.Gains instr gained := by
  induction later using List.reverseRecOn with
  | nil =>
    rw [List.append_nil]
    exact ⟨.refl _, fun _ instr isAt => ⟨instr, isAt, .refl⟩⟩
  | append_singleton earlier call ih =>
    rw [List.mem_append, List.mem_singleton, not_or] at goesOn
    obtain ⟨blocks, stays⟩ := ih goesOn.1
    have step := accrues_step options (calls ++ earlier) (Ne.symm goesOn.2)
    rw [← reached_concat, List.append_assoc] at step
    refine ⟨blocks.trans step.blocks, ?_⟩
    intro site instr isAt
    obtain ⟨middle, isMiddle, gains⟩ := stays site instr isAt
    obtain isSame | ⟨-, gained, isGained, gainsMore⟩ := step.stays site middle isMiddle
    · exact ⟨middle, isSame, gains⟩
    · exact ⟨gained, isGained, gains.tail gainsMore⟩

/-- Wherever calls have led, with or without a failure, every further call but a fresh start leaves
blocks and instructions where they are: it appends one instruction at most, and the only one that
may gain anything is that of the scope it continues. The same holds of the end of the build, which
hands out the tree as it is, and of any number of calls, so every address stays valid. -/
theorem accrues_reached (options : BuildOptions) (calls : List Call) :
    (∀ call, call ≠ .reset →
      (reached options calls).tree.Accrues ((reached options calls).step call).tree
        (((reached options calls).continued? call).map Frame.site)) ∧
    (∀ shader after, Build.finish (reached options calls) = .ok shader after →
      shader.tree = (reached options calls).tree) ∧
    ∀ later, .reset ∉ later →
      (reached options calls).tree.Keeps (reached options (calls ++ later)).tree ∧
        ∀ site instr, (reached options calls).tree.instruction? site = some instr →
          ∃ gained, (reached options (calls ++ later)).tree.instruction? site = some gained ∧
            Relation.ReflTransGen Instruction.Gains instr gained := by
  refine ⟨fun _ => accrues_step options calls, ?_, fun _ => stays_reached options calls⟩
  intro shader after finished
  obtain ⟨-, -, -, rfl⟩ := Build.finish_ok_iff.mp finished
  rfl

/-- A chain of conditions waits inside a loop that tests after its body, inside a function. -/
def unfinishedCalls : List Call :=
  [.beginFunc "f" .void, .nextOverload [], .beginDoWhile, .beginIf (.literal (.bool true)),
   .endIfSubBlock]

/-- After `unfinishedCalls` the end of the loop amends the loop, not the chain that waits in it; the
function gains its second overload later, at the address it always had. -/
theorem accrues_reached_unfinished :
    (reached .standard unfinishedCalls).tree.Accrues
        ((reached .standard unfinishedCalls).step (.endDoWhile (.literal (.bool true)))).tree
        (some ⟨⟨2⟩, 0⟩) ∧
      ∀ instr, (reached .standard unfinishedCalls).tree.instruction? ⟨.root, 0⟩ = some instr →
        ∃ gained,
          (reached .standard
            (unfinishedCalls ++ [.endDoWhile (.literal (.bool true)), .nextOverload []])
            ).tree.instruction? ⟨.root, 0⟩ = some gained ∧
          Relation.ReflTransGen Instruction.Gains instr gained :=
  ⟨(accrues_reached .standard unfinishedCalls).1 _ nofun,
    ((accrues_reached .standard unfinishedCalls).2.2 _ (by simp)).2 _⟩

end Session

end ShaderLoom
