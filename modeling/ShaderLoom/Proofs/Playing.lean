import ShaderLoom.Proofs.Footprint
import ShaderLoom.Proofs.Program

/-!
# Playing the calls of a program

What playing a piece of a program does to a build is said in two ways. A whole statement adds
instructions to the current block and leaves the build where it was (`Session.Adds`); what follows
the opening of a scope changes the instruction that opened it and leaves the scope
(`Session.Ends`). Both speak of every later state as well: what was built shows the piece in every
tree that has the new blocks as they are. So the pieces of a program can be put together in the
order in which they are played.
-/
namespace ShaderLoom

namespace Registry

variable {before middle after : Registry}

/-- Whether every variable is still there under the same name. -/
def Knows (before after : Registry) : Prop :=
  ∀ var name, before.name? var = some name → after.name? var = some name

/-- A registry knows its own names. -/
theorem Knows.refl (registry : Registry) : registry.Knows registry := fun _ _ isName => isName

/-- What is known twice is known. -/
theorem Knows.trans (first : before.Knows middle) (second : middle.Knows after) :
    before.Knows after := fun var name isName => second var name (first var name isName)

/-- A push changes no name. -/
theorem knows_recordPush (registry : Registry) (built : Option VarId) :
    registry.Knows (registry.recordPush built) := by
  intro var name isName
  cases built with
  | none => exact isName
  | some id =>
    rw [name?, get?, recordPush, Array.getElem?_modify]
    rw [name?, get?] at isName
    split <;> simp_all

/-- A new variable leaves the others. -/
theorem knows_create (registry : Registry) (ty : Ty) (category : Category)
    (given : Option String) (status : Status) :
    registry.Knows (registry.create ty category given status) := by
  intro var name isName
  rw [name?, get?_create, if_neg]
  · exact isName
  · rintro rfl
    simp [name?, get?, next, size] at isName

/-- A new variable has its name. -/
theorem name?_create (registry : Registry) (ty : Ty) (category : Category)
    (given : Option String) (status : Status) :
    (registry.create ty category given status).name? registry.next = some given := by
  rw [name?, get?_create, if_pos rfl]
  rfl

/-- Pinning a variable changes no name. -/
theorem knows_pin {id : VarId} (pinned : before.pin id = .ok after) : before.Knows after := by
  obtain ⟨-, rfl⟩ := update_eq_ok_iff.mp pinned
  intro var name isName
  rw [name?, get?, Array.getElem?_modify]
  rw [name?, get?] at isName
  split <;> simp_all

/-- A new variable can be pinned. -/
theorem exists_pin_create (registry : Registry) (ty : Ty) (category : Category)
    (given : Option String) (status : Status) :
    ∃ pinned, (registry.create ty category given status).pin registry.next = .ok pinned := by
  refine ⟨_, update_eq_ok_iff.mpr ⟨?_, rfl⟩⟩
  rw [size_create]
  exact Nat.lt_succ_self _

/-- Leaving out what nobody reads changes no name. -/
theorem knows_elideDead (registry : Registry) : registry.Knows registry.elideDead.1 := by
  intro var name isName
  rw [name?, get?] at isName ⊢
  rw [elideDead, Array.getElem?_map, Option.map_map]
  obtain ⟨record, isRecord, rfl⟩ := Option.map_eq_some_iff.mp isName
  rw [isRecord, Option.map_some, Function.comp_apply, Record.elide]
  split <;> rfl

end Registry

namespace Build

/-- Make calls one after another, up to the first that fails. -/
def play : List Call → Build Unit
  | [] => pure ()
  | call :: rest => do
    let _ ← call.run
    play rest

variable {s after : Session}

/-- No calls change nothing. -/
theorem play_nil : play [] s = .ok () s := rfl

/-- A call is played before the others. -/
theorem play_cons {call : Call} {rest : List Call} {reply : Reply} {middle : Session}
    (ran : call.run s = .ok reply middle) (played : play rest middle = .ok () after) :
    play (call :: rest) s = .ok () after :=
  bind_ok_iff.mpr ⟨reply, middle, ran, played⟩

/-- Calls are played one after another. -/
theorem play_append {first second : List Call} {middle : Session}
    (played : play first s = .ok () middle) (playedToo : play second middle = .ok () after) :
    play (first ++ second) s = .ok () after := by
  induction first generalizing s with
  | nil =>
    obtain ⟨-, rfl⟩ := pure_ok_iff.mp played
    exact playedToo
  | cons call rest ih =>
    obtain ⟨reply, between, ran, played⟩ := bind_ok_iff.mp played
    exact play_cons ran (ih played)

/-- A call that answers nothing is played as it runs. -/
theorem run_done {call : Build Unit} (ran : call s = .ok () after) :
    ((fun _ => Reply.done) <$> call) s = .ok .done after :=
  map_ok_iff.mpr ⟨(), ran, rfl⟩

end Build

namespace Session

/-- A build that can take any statement that fits a setting. -/
structure Ready (s : Session) (setting : Setting) : Prop where
  sane : s.failure = none
  grounded : s.Grounded
  settled : s.settle = s
  accepts : s.accepts false
  breaks : inBreakable true s.scopes = setting.breaks
  continues : inBreakable false s.scopes = setting.continues
  inFunction : s.scopes.any Frame.isFunction = setting.returns.isSome
  returns : s.tree.returnType? s.current = setting.returns

/-- A build whose innermost scope was opened in a setting. -/
structure Around (s : Session) (frame : Frame) (setting : Setting) : Prop where
  sane : s.failure = none
  grounded : s.Grounded
  top : s.scopes = frame :: s.scopes.tail
  breaks : inBreakable true s.scopes.tail = setting.breaks
  continues : inBreakable false s.scopes.tail = setting.continues
  inFunction : s.scopes.tail.any Frame.isFunction = setting.returns.isSome
  returns : s.tree.returnType? frame.parent = setting.returns

/-- Whether a later tree and registry have what was built from the block number `base` on. -/
structure Seen (base : Nat) (s : Session) (tree : Tree) (registry : Registry) : Prop where
  blocks : ∀ id, base ≤ id.index → id.index < s.tree.size → tree.block? id = s.tree.block? id
  names : s.registry.Knows registry

/-- Instructions were added to the current block, and they show something. -/
structure Adds (s after : Session) (instrs : List Instruction)
    (shows : Tree → Registry → Prop) : Prop where
  moves : Moves s after
  scopes : after.scopes = s.scopes
  current : after.current = s.current
  alters : Tree.Alters s.tree.size s.tree after.tree s.current (· ++ instrs.toArray)
  names : s.registry.Knows after.registry
  shows : ∀ tree registry, Seen s.tree.size after tree registry → shows tree registry

/-- The innermost scope was left and its instruction changed, and what was built shows
something. -/
structure Ends (base : Nat) (s after : Session) (frame : Frame)
    (change : Instruction → Instruction) (shows : Tree → Registry → Prop) : Prop where
  moves : Moves s after
  scopes : after.scopes = s.scopes.tail
  current : after.current = frame.parent
  alters : Tree.Alters base s.tree after.tree frame.parent (·.modify frame.site.index change)
  names : s.registry.Knows after.registry
  shows : ∀ tree registry, Seen base after tree registry → shows tree registry

variable {s middle after : Session} {setting : Setting} {frame : Frame} {base inner : Nat}
  {shows showsToo : Tree → Registry → Prop}

/-- A build stays ready where it stands. -/
theorem Ready.stays (ready : s.Ready setting) (moves : Moves s after)
    (scopes : after.scopes = s.scopes) (current : after.current = s.current) :
    after.Ready setting where
  sane := by rw [moves.failure_eq, ready.sane]
  grounded := moves.keeps (fun _ _ grounded => Grounded.move grounded) ready.grounded
  settled := by
    have settled : s.scopes.dropWhile Frame.isWaiting = s.scopes :=
      congrArg Session.scopes ready.settled
    rw [settle, scopes, settled, ← scopes]
  accepts := by
    rw [Session.accepts, scopes]
    exact ready.accepts
  breaks := by rw [scopes, ready.breaks]
  continues := by rw [scopes, ready.continues]
  inFunction := by rw [scopes, ready.inFunction]
  returns := by
    rw [current, moves.tree_keeps.returnType?_eq ready.grounded.linked
      ready.grounded.placed.current_known, ready.returns]

/-- The block around an open scope is there. -/
theorem Around.parent_known (around : s.Around frame setting) :
    frame.parent.index < s.tree.size := by
  have stacking := around.grounded.placed.stacking
  rw [around.top] at stacking
  obtain ⟨inParent, ⟨instr, isAt, -⟩, -⟩ := stacking
  rw [← inParent]
  exact Tree.known_of_instruction? isAt

/-- A scope stays in its setting, whatever goes on inside it. -/
theorem Around.stays (around : s.Around frame setting) (new : Frame) (moves : Moves s after)
    (scopes : after.scopes = new :: s.scopes.tail) (parent : new.parent = frame.parent) :
    after.Around new setting where
  sane := by rw [moves.failure_eq, around.sane]
  grounded := moves.keeps (fun _ _ grounded => Grounded.move grounded) around.grounded
  top := by rw [scopes, List.tail_cons]
  breaks := by rw [scopes, List.tail_cons, around.breaks]
  continues := by rw [scopes, List.tail_cons, around.continues]
  inFunction := by rw [scopes, List.tail_cons, around.inFunction]
  returns := by
    rw [parent, moves.tree_keeps.returnType?_eq around.grounded.linked around.parent_known,
      around.returns]

/-- No chain waits where a scope is open that is no waiting chain. -/
theorem Around.settled (around : s.Around frame setting) (calm : frame.isWaiting = false) :
    s.settle = s := by
  have settled : s.scopes.dropWhile Frame.isWaiting = s.scopes := by
    rw [around.top, List.dropWhile_cons_of_neg]
    rw [calm]
    exact Bool.false_ne_true
  rw [settle, settled]

/-- What was built from a block on has what was built from a later one on. -/
theorem Seen.mono {tree : Tree} {registry : Registry} (seen : Seen base s tree registry)
    (higher : base ≤ inner) : Seen inner s tree registry where
  blocks id above := seen.blocks id (Nat.le_trans higher above)
  names := seen.names

/-- What was built before is still seen if nothing of it was touched since. -/
theorem Seen.earlier {tree : Tree} {registry : Registry} {id : BlockId}
    {change : Array Instruction → Array Instruction} (seen : Seen base after tree registry)
    (alters : Tree.Alters inner middle.tree after.tree id change)
    (keeps : middle.tree.Keeps after.tree) (names : middle.registry.Knows after.registry)
    (untouched : ∀ index, base ≤ index → index < middle.tree.size →
      index < inner ∧ index ≠ id.index) : Seen base middle tree registry where
  blocks other above below := by
    obtain ⟨inside, isOther⟩ := untouched other.index above below
    rw [seen.blocks other above (Nat.lt_of_lt_of_le below keeps.size_le),
      alters.others other inside fun same => isOther (congrArg BlockId.index same)]
  names := names.trans seen.names

/-- No instructions are added by doing nothing. -/
theorem adds_nil (s : Session) : s.Adds s [] (fun _ _ => True) where
  moves := .refl
  scopes := rfl
  current := rfl
  alters := by simpa using Tree.Alters.refl s.tree.size s.tree s.current
  names := .refl s.registry
  shows _ _ _ := trivial

/-- What is shown can be said in other words. -/
theorem Adds.imp {instrs : List Instruction} (adds : s.Adds after instrs shows)
    (imp : ∀ tree registry, shows tree registry → showsToo tree registry) :
    s.Adds after instrs showsToo :=
  { adds with shows := fun tree registry seen => imp tree registry (adds.shows tree registry seen) }

/-- What is shown at the end can be said in other words. -/
theorem Ends.imp {change : Instruction → Instruction} (ends : Ends base s after frame change shows)
    (imp : ∀ tree registry, shows tree registry → showsToo tree registry) :
    Ends base s after frame change showsToo :=
  { ends with shows := fun tree registry seen => imp tree registry (ends.shows tree registry seen) }

/-- Instructions are added one after another. -/
theorem Adds.trans {first second : List Instruction} (known : s.current.index < s.tree.size)
    (adds : s.Adds middle first shows) (addsToo : middle.Adds after second showsToo) :
    s.Adds after (first ++ second)
      (fun tree registry => shows tree registry ∧ showsToo tree registry) := by
  have larger := adds.moves.tree_keeps.size_le
  have alters := addsToo.alters
  rw [adds.current] at alters
  refine {
    moves := adds.moves.trans addsToo.moves
    scopes := by rw [addsToo.scopes, adds.scopes]
    current := by rw [addsToo.current, adds.current]
    alters := ?_
    names := adds.names.trans addsToo.names
    shows := fun tree registry seen => ⟨?_, ?_⟩ }
  · simpa [Array.append_assoc] using adds.alters.trans (alters.mono larger)
  · refine adds.shows tree registry
      (seen.earlier alters addsToo.moves.tree_keeps addsToo.names ?_)
    intro index above below
    omega
  · exact addsToo.shows tree registry (seen.mono larger)

/-- A plain instruction is added outside parameter lists. -/
theorem adds_commit (ready : s.Ready setting) {instr : Instruction}
    (plain : instr.kind.opens = false) (isParameter : instr.isParameter = false) :
    s.Adds (s.commit s.current instr) [instr] (fun _ _ => True) := by
  have placed := ready.grounded.placed
  have moves : Moves s (s.commit s.current instr) := by
    refine .single (.append ready.settled plain ?_)
    rw [isParameter]
    exact ready.accepts
  rw [commit_eq (placed.outsideSignature ready.accepts)] at moves ⊢
  exact {
    moves
    scopes := rfl
    current := rfl
    alters := Tree.alters_push placed.current_known (Nat.le_refl _) [] instr
    names := Registry.knows_recordPush _ _
    shows := fun _ _ _ => trivial }

/-- What was known before is known wherever the new instructions are seen. -/
theorem Adds.and_knows {instrs : List Instruction} (adds : s.Adds after instrs shows) :
    s.Adds after instrs
      (fun tree registry => s.registry.Knows registry ∧ shows tree registry) :=
  { adds with
    shows := fun tree registry seen =>
      ⟨adds.names.trans seen.names, adds.shows tree registry seen⟩ }

/-- A change of the registry that keeps its names adds nothing by itself. -/
theorem Adds.after_register {registry : Registry} {instrs : List Instruction}
    (adds : { s with registry }.Adds after instrs shows) (names : s.registry.Knows registry) :
    s.Adds after instrs shows where
  moves := .head (.register registry) adds.moves
  scopes := adds.scopes
  current := adds.current
  alters := adds.alters
  names := names.trans adds.names
  shows := adds.shows

/-- Amending an instruction by nothing leaves it. -/
theorem modify_self (instrs : Array Instruction) (position : Nat) :
    instrs.modify position (fun instr => instr) = instrs := by
  apply Array.ext_getElem?
  intro index
  rw [Array.getElem?_modify]
  split <;> simp

/-- Amending an instruction twice is amending it once. -/
theorem modify_twice (instrs : Array Instruction) (position : Nat)
    (first second : Instruction → Instruction) :
    (instrs.modify position first).modify position second =
      instrs.modify position (fun instr => second (first instr)) := by
  apply Array.ext_getElem?
  intro index
  rw [Array.getElem?_modify, Array.getElem?_modify, Array.getElem?_modify]
  split
  · rw [Option.map_map]
    rfl
  · rfl

/-- Amending the last instruction is pushing it amended. -/
theorem modify_push (instrs : Array Instruction) (instr : Instruction)
    (change : Instruction → Instruction) :
    (instrs.push instr).modify instrs.size change = instrs.push (change instr) := by
  apply Array.ext_getElem?
  intro index
  rw [Array.getElem?_modify, Array.getElem?_push, Array.getElem?_push]
  split <;> split <;> simp_all

/-- A scope is left. -/
theorem ends_closed (frame : Frame) (base : Nat) (moves : Moves s (s.closed frame.parent)) :
    Ends base s (s.closed frame.parent) frame (fun instr => instr) (fun _ _ => True) where
  moves
  scopes := rfl
  current := rfl
  alters := by
    simp only [modify_self]
    exact .refl base s.tree frame.parent
  names := .refl s.registry
  shows _ _ _ := trivial

/-- The instruction that opened a scope stands in the block around it. -/
theorem Around.inParent (around : s.Around frame setting) : frame.site.block = frame.parent := by
  have stacking := around.grounded.placed.stacking
  rw [around.top] at stacking
  exact stacking.1

/-- A grown scope changes its instruction. -/
theorem Around.alters_grown {kinds : List BlockKind} {change : Instruction → Instruction}
    {old : Frame} (around : s.Around old setting) (site : frame.site = old.site)
    (parent : frame.parent = old.parent) (lower : base ≤ s.tree.size) (block : BlockId) :
    Tree.Alters base s.tree (s.grown kinds change frame block).tree old.parent
      (·.modify old.site.index change) := by
  rw [grown, site, parent, ← around.inParent]
  refine Tree.alters_amend ?_ lower kinds change
  rw [around.inParent]
  exact around.parent_known

/-- A scope is left after its instruction was changed. -/
theorem Around.ends_grown {change : Instruction → Instruction} {block : BlockId}
    (around : s.Around frame setting) (lower : base ≤ s.tree.size)
    (moves : Moves s ((s.grown [] change frame block).closed frame.parent)) :
    Ends base s ((s.grown [] change frame block).closed frame.parent) frame change
      (fun _ _ => True) where
  moves
  scopes := rfl
  current := rfl
  alters := around.alters_grown rfl rfl lower block
  names := .refl s.registry
  shows _ _ _ := trivial

/-- A scope goes on after it has grown. -/
theorem Ends.after_grown {kinds : List BlockKind} {change later : Instruction → Instruction}
    {old : Frame} {block : BlockId} (around : s.Around old setting)
    (moves : Moves s (s.grown kinds change frame block)) (site : frame.site = old.site)
    (parent : frame.parent = old.parent) (lower : base ≤ s.tree.size)
    (ends : Ends base (s.grown kinds change frame block) after frame later shows) :
    Ends base s after old (fun instr => later (change instr)) shows := by
  have alters := ends.alters
  rw [site, parent] at alters
  refine {
    moves := moves.trans ends.moves
    scopes := ends.scopes
    current := by rw [ends.current, parent]
    alters := ?_
    names := ends.names
    shows := ends.shows }
  have grown : Tree.Alters base s.tree (s.grown kinds change frame block).tree old.parent
      (·.modify old.site.index change) := around.alters_grown site parent lower block
  simpa only [modify_twice] using grown.trans alters

/-- A scope goes on after it was entered. -/
theorem Ends.after_entered {later : Instruction → Instruction} {block : BlockId}
    (ends : Ends base (s.entered frame block) after frame later shows) (old : Frame)
    (moves : Moves s (s.entered frame block)) (site : frame.site = old.site)
    (parent : frame.parent = old.parent) :
    Ends base s after old later shows := by
  obtain ⟨movesToo, scopes, current, alters, names, shows⟩ := ends
  rw [site, parent] at alters
  exact { moves := moves.trans movesToo, scopes, current := by rw [current, parent], alters,
          names, shows }

/-- A scope goes on after instructions were added to one of its blocks, which was empty. -/
theorem Ends.after_alters {instrs : List Instruction} {change : Instruction → Instruction}
    {old : Frame} {id : BlockId} {block : Block}
    (ends : Ends inner middle after frame change showsToo) (site : frame.site = old.site)
    (parent : frame.parent = old.parent) (moves : Moves s middle)
    (scopes : middle.scopes.tail = s.scopes.tail)
    (alters : Tree.Alters s.tree.size s.tree middle.tree id (· ++ instrs.toArray))
    (names : s.registry.Knows middle.registry)
    (found : s.tree.block? id = some block) (empty : block.instructions = #[])
    (lower : base ≤ inner) (above : base ≤ id.index) (inside : id.index < inner)
    (outside : old.parent.index < base)
    (untouched : ∀ index, s.tree.size ≤ index → index < middle.tree.size → index < inner) :
    Ends base s after old change (fun tree registry =>
      tree.instructions? id = some instrs ∧ Seen s.tree.size middle tree registry ∧
        showsToo tree registry) := by
  have known : id.index < s.tree.size := by
    by_contra unknown
    rw [Tree.block?_eq_none_iff.mpr (Nat.le_of_not_lt unknown)] at found
    cases found
  have larger := moves.tree_keeps.size_le
  have largerToo := ends.moves.tree_keeps.size_le
  have altersToo := ends.alters
  rw [site, parent] at altersToo
  have isOther : id ≠ old.parent := by
    rintro rfl
    omega
  refine {
    moves := moves.trans ends.moves
    scopes := by rw [ends.scopes, scopes]
    current := by rw [ends.current, parent]
    alters := ?_
    names := names.trans ends.names
    shows := fun tree registry seen => ⟨?_, ?_, ?_⟩ }
  · -- The block around the scope comes before all of the scope's own blocks.
    have elsewhere := alters.elsewhere (Nat.le_trans above (Nat.le_of_lt known)) above outside
    exact elsewhere.trans (altersToo.mono lower)
  · rw [Tree.instructions?, seen.blocks id above (by omega),
      altersToo.others id inside isOther, alters.here, found]
    simp [empty]
  · refine (seen.mono (by omega)).earlier altersToo ends.moves.tree_keeps ends.names ?_
    intro index above below
    exact ⟨untouched index above below, by omega⟩
  · exact ends.shows tree registry (seen.mono lower)

/-- A scope goes on after a piece of a program was built in one of its blocks. -/
theorem Ends.after_adds {instrs : List Instruction} {change : Instruction → Instruction}
    (ends : Ends inner middle after frame change showsToo)
    (adds : s.Adds middle instrs shows) {block : Block}
    (found : s.tree.block? s.current = some block) (empty : block.instructions = #[])
    (lower : base ≤ inner) (above : base ≤ s.current.index)
    (inside : s.current.index < inner) (outside : frame.parent.index < base)
    (untouched : ∀ index, s.tree.size ≤ index → index < middle.tree.size → index < inner) :
    Ends base s after frame change (fun tree registry =>
      tree.instructions? s.current = some instrs ∧ shows tree registry ∧
        showsToo tree registry) := by
  have scopes : middle.scopes.tail = s.scopes.tail := by rw [adds.scopes]
  refine (ends.after_alters rfl rfl adds.moves scopes adds.alters adds.names found empty lower
    above inside outside untouched).imp ?_
  rintro tree registry ⟨isBlock, seen, shown⟩
  exact ⟨isBlock, adds.shows tree registry seen, shown⟩

/-- A statement that opens a scope and leaves it adds its instruction. -/
theorem Ends.adds_opened (ready : s.Ready setting) {kinds : List BlockKind} {instr : Instruction}
    {block : BlockId} {change : Instruction → Instruction} (opens : s.Opens kinds instr frame block)
    (ends : Ends s.tree.size (s.opened kinds instr frame block) after frame change shows) :
    s.Adds after [change instr] shows := by
  have placed := ready.grounded.placed
  have isOpened := opened_eq (placed.outsideSignature opens.accepted) kinds instr frame block
  have alters := ends.alters
  rw [opens.site, opens.parent] at alters
  refine {
    moves := .head (.begin opens) ends.moves
    scopes := by rw [ends.scopes, isOpened, List.tail_cons]
    current := by rw [ends.current, opens.parent]
    alters := ?_
    names := ?_
    shows := ends.shows }
  · have pushed : Tree.Alters s.tree.size s.tree (s.opened kinds instr frame block).tree
        s.current (·.push instr) := by
      rw [isOpened]
      exact Tree.alters_push placed.current_known (Nat.le_refl _) kinds instr
    refine (pushed.trans alters).congr ?_
    intro found isFound
    have isLast : s.site.index = found.instructions.size := by
      simp [site, Tree.length, isFound]
    rw [isLast, modify_push]
    simp
  · refine Registry.Knows.trans ?_ ends.names
    rw [isOpened]
    exact Registry.knows_recordPush _ _

end Session

end ShaderLoom
