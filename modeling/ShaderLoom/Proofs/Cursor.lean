import ShaderLoom.Proofs.Moves

/-!
# Where a build stands

The block a build stands in, the scopes that are open and the tree are stored apart, and yet always
agree: the innermost scope tells the current block, the block around each scope is the one the
scopes further out tell, and the instruction at the address of a scope is the one that opened it
(`Tree.Stacks`). So no amendment of an instruction is ever lost, and closing waiting chains or the
whole build never finds the build in another block than it should.
-/
namespace ShaderLoom

namespace Frame

variable {frame : Frame} {instr : Instruction} {block : BlockId}

/-- The body of an open loop with a header belongs to its instruction. -/
theorem Fits.body_mem_slots {site : Address} {parent body : BlockId} {args : Option BlockId}
    {phase : ForPhase} (fits : (Frame.forLoop site parent args body phase).Fits instr) :
    body ∈ instr.slots := by
  cases instr with
  | forLoop header body' =>
    cases args <;> cases header <;> simp_all [Fits, Instruction.slots]
  | _ => cases args <;> exact fits.elim

/-- A build stands in a block of its innermost scope's instruction, or still around the scope. -/
theorem Holds.parent_or_slot (holds : frame.Holds instr block) :
    block = frame.parent ∨ block ∈ instr.slots := by
  obtain ⟨fits, seat⟩ := holds
  cases frame with
  | branch site parent waiting =>
    obtain ⟨cases, rfl, -⟩ := fits_branch_iff.mp fits
    cases waiting with
    | true => exact .inl (Option.some.inj seat).symm
    | false =>
      obtain ⟨last, isLast, rfl⟩ := Option.map_eq_some_iff.mp seat
      exact .inr (List.mem_map_of_mem (List.mem_of_getLast? isLast))
  | forLoop site parent args body phase =>
    cases phase with
    | created => exact .inl (Option.some.inj seat).symm
    | args =>
      obtain ⟨header, stacked, policy, rfl, rfl⟩ :=
        (fits_forLoop_iff ForPhase.noConfusion).mp fits
      obtain rfl := Option.some.inj seat
      exact .inr List.mem_cons_self
    | body =>
      obtain rfl := Option.some.inj seat
      exact .inr (fits.body_mem_slots)
  | whileLoop site parent =>
    obtain ⟨condition, body, rfl⟩ := fits_whileLoop_iff.mp fits
    exact .inr (List.mem_singleton.mpr (Option.some.inj seat).symm)
  | doWhile site parent =>
    obtain ⟨body, condition, rfl⟩ := fits_doWhile_iff.mp fits
    exact .inr (List.mem_singleton.mpr (Option.some.inj seat).symm)
  | switch site parent openCase =>
    obtain ⟨selector, cases, rfl, rfl⟩ := fits_switch_iff.mp fits
    obtain rfl := Option.some.inj seat
    cases isLast : cases.getLast? with
    | none => exact .inl rfl
    | some last => exact .inr (List.mem_map_of_mem (List.mem_of_getLast? isLast))
  | function site parent var overload =>
    cases overload with
    | none => exact .inl (Option.some.inj seat).symm
    | some opened =>
      obtain ⟨decl, rfl, -, isLast, -⟩ := fits_function_iff.mp fits
      obtain rfl := Option.some.inj seat
      obtain ⟨last, isLast, blocks⟩ := Option.map_eq_some_iff.mp isLast.symm
      have isOverload := List.mem_of_getLast? isLast
      simp only [Prod.mk.injEq] at blocks
      right
      refine List.mem_flatMap.mpr ⟨last, isOverload, ?_⟩
      rw [blocks.1, blocks.2.1]
      by_cases inside : opened.inSignature <;> simp [inside]

/-- While a chain of conditions waits, a build stands around it. -/
theorem Holds.eq_parent (holds : frame.Holds instr block) (waiting : frame.isWaiting) :
    block = frame.parent := by
  cases frame with
  | branch site parent isWaiting =>
    cases waiting
    exact (Option.some.inj holds.seat).symm
  | _ => cases waiting

end Frame

namespace Call

/-- Whether a call amends the instruction that opened the innermost scope. -/
def continues : Call → Bool
  | .beginElseIf _ | .beginElse | .addCase _ | .nextOverload _ | .stackForCondition _
  | .endDoWhile _ => true
  | _ => false

/-- What a call that continues a scope makes of the instruction that opened it. -/
inductive Amends : Call → Instruction → Instruction → Prop where
  | elseIf (condition : Expr) (cases : List IfCase) (body : BlockId) :
    Amends (.beginElseIf condition) (.branch cases) (.branch (cases ++ [⟨some condition, body⟩]))
  | otherwise (cases : List IfCase) (body : BlockId) :
    Amends .beginElse (.branch cases) (.branch (cases ++ [⟨none, body⟩]))
  | label (label : Option Literal) (selector : Expr) (cases : List SwitchCase)
    (body : BlockId) :
    Amends (.addCase label) (.switch selector cases)
      (.switch selector (cases ++ [⟨label, body⟩]))
  | overload (params : List Ty) (decl : FunctionDecl) (args body : BlockId) :
    Amends (.nextOverload params) (.function decl)
      (.function { decl with overloads := decl.overloads ++ [⟨params, args, body⟩] })
  | stacked (condition : Expr) (args : BlockId) (earlier : Option Expr)
    (policy : ConditionPolicy) (body : BlockId) :
    Amends (.stackForCondition condition) (.forLoop (.recorded args earlier policy) body)
      (.forLoop (.recorded args (some condition) policy) body)
  | tested (condition : Expr) (body : BlockId) (earlier : Option Expr) :
    Amends (.endDoWhile condition) (.doWhile body earlier) (.doWhile body (some condition))

end Call

namespace Tree

/-- Whether scopes, innermost first, agree with the tree and lead to a block. -/
def Stacks (tree : Tree) : List Frame → BlockId → Prop
  | [], block => block = .root
  | frame :: rest, block =>
    frame.site.block = frame.parent ∧
      (∃ instr, tree.instruction? frame.site = some instr ∧ frame.Holds instr block) ∧
      tree.Stacks rest frame.parent

variable {tree after : Tree} {scopes : List Frame} {block : BlockId}

/-- The block that scopes, innermost first, put a build in. -/
def seat? (tree : Tree) : List Frame → Option BlockId
  | [] => some .root
  | frame :: _ => (tree.instruction? frame.site).bind frame.seat?

/-- Scopes that agree with the tree lead where they put the build. -/
theorem Stacks.seat_eq {tree : Tree} {scopes : List Frame} {block : BlockId}
    (stacking : tree.Stacks scopes block) : tree.seat? scopes = some block := by
  cases scopes with
  | nil =>
    have isRoot : block = .root := stacking
    rw [isRoot]
    rfl
  | cons frame rest =>
    obtain ⟨-, ⟨instr, isAt, holds⟩, -⟩ := stacking
    rw [seat?, isAt]
    exact holds.seat

/-- Scopes agree with every tree that has the same instructions at their addresses. -/
theorem Stacks.congr (stacking : tree.Stacks scopes block)
    (same : ∀ frame ∈ scopes, after.instruction? frame.site = tree.instruction? frame.site) :
    after.Stacks scopes block := by
  induction scopes generalizing block with
  | nil => exact stacking
  | cons frame rest ih =>
    obtain ⟨inParent, ⟨instr, isAt, holds⟩, below⟩ := stacking
    refine ⟨inParent, ⟨instr, ?_, holds⟩, ?_⟩
    · rw [same frame List.mem_cons_self, isAt]
    · exact ih below fun other isOther => same other (List.mem_cons_of_mem frame isOther)

/-- Scopes agree with a tree that grew at another instruction. -/
theorem Stacks.extend (stacking : tree.Stacks scopes block) {site : Address} {instr : Instruction}
    {count : Nat} (extended : tree.Extends after site instr count)
    (others : ∀ frame ∈ scopes, frame.site ≠ site) : after.Stacks scopes block := by
  refine stacking.congr ?_
  intro frame isFrame
  rw [extended.instruction, if_neg (others frame isFrame)]

/-- Every scope, with those further out, agrees with the tree. -/
theorem Stacks.suffix {frame : Frame} {rest : List Frame} (stacking : tree.Stacks scopes block)
    (isSuffix : frame :: rest <:+ scopes) : ∃ inner, tree.Stacks (frame :: rest) inner := by
  induction scopes generalizing block with
  | nil => cases List.suffix_nil.mp isSuffix
  | cons top below ih =>
    obtain isWhole | isSuffix := List.suffix_cons_iff.mp isSuffix
    · rw [isWhole]
      exact ⟨block, stacking⟩
    · exact ih stacking.2.2 isSuffix

/-- Every scope's instruction is in the tree, in the block around the scope, and of its kind. -/
theorem Stacks.instruction {frame : Frame} (stacking : tree.Stacks scopes block)
    (isFrame : frame ∈ scopes) :
    frame.site.block = frame.parent ∧
      ∃ instr, tree.instruction? frame.site = some instr ∧ frame.Fits instr := by
  obtain ⟨before, rest, rfl⟩ := List.append_of_mem isFrame
  obtain ⟨inner, inParent, ⟨instr, isAt, holds⟩, -⟩ := stacking.suffix (List.suffix_append _ _)
  exact ⟨inParent, instr, isAt, holds.fits⟩

/-- The place after the last instruction of a block is free. -/
theorem instruction?_length (tree : Tree) (id : BlockId) :
    tree.instruction? ⟨id, tree.length id⟩ = none := by
  unfold instruction? length
  cases tree.block? id <;> simp

/-- The tree every build starts with holds no instruction. -/
theorem instruction?_empty (site : Address) : empty.instruction? site = none := by
  obtain ⟨⟨index⟩, position⟩ := site
  cases index <;> simp [instruction?, block?, empty]

/-- An instruction stands in a block that is there. -/
theorem known_of_instruction? {site : Address} {instr : Instruction}
    (isAt : tree.instruction? site = some instr) : site.block.index < tree.size := by
  by_contra unknown
  have absent : tree.block? site.block = none := block?_eq_none_iff.mpr (Nat.le_of_not_lt unknown)
  simp [instruction?, absent] at isAt

/-- A tree only grows. -/
theorem Extends.size_le {site : Address} {instr : Instruction} {count : Nat}
    (extended : tree.Extends after site instr count) : tree.size ≤ after.size := by
  rw [extended.size]
  omega

/-- The slots of an instruction are known once those of the tree it extends are. -/
theorem Extends.slots_known {site : Address} {instr : Instruction} {count : Nat}
    (grown : tree.Extends after site instr count)
    (known : ∀ site, ∀ id ∈ tree.slotsAt site, id.index < tree.size) :
    ∀ site, ∀ id ∈ after.slotsAt site, id.index < after.size := by
  intro other id isSlot
  rw [grown.size]
  unfold slotsAt at isSlot
  rw [grown.instruction] at isSlot
  by_cases here : other = site
  · rw [if_pos here, Option.elim_some, grown.slots, List.mem_append, mem_fresh] at isSlot
    obtain isOld | isNew := isSlot
    · have := known site id isOld
      omega
    · exact isNew.2
  · rw [if_neg here] at isSlot
    have := known other id isSlot
    omega

end Tree

namespace Session

variable {s : Session}

/-- Counting a parameter leaves the tree. -/
@[simp]
theorem countParameter_tree (s : Session) (block : BlockId) :
    (s.countParameter block).tree = s.tree := by
  unfold countParameter
  split
  · split <;> rfl
  · rfl

/-- A committed instruction is pushed. -/
@[simp]
theorem commit_tree (s : Session) (block : BlockId) (instr : Instruction) :
    (s.commit block instr).tree = s.tree.push block instr := by
  unfold commit
  rw [countParameter_tree]

/-- The current block, the open scopes and the tree agree. -/
structure Placed (s : Session) : Prop where
  stacking : s.tree.Stacks s.scopes s.current
  /-- No two scopes were opened by one instruction. -/
  distinct : (s.scopes.map Frame.site).Nodup
  /-- Only the innermost scope can be a waiting chain. -/
  calm : ∀ frame ∈ s.scopes.tail, frame.isWaiting = false
  rooted : 0 < s.tree.size
  slots : ∀ site, ∀ id ∈ s.tree.slotsAt site, id.index < s.tree.size

/-- A build stands in a block that is there. -/
theorem Placed.current_known (placed : s.Placed) : s.current.index < s.tree.size := by
  have stacking := placed.stacking
  cases isScopes : s.scopes with
  | nil =>
    rw [isScopes] at stacking
    have isRoot : s.current = .root := stacking
    rw [isRoot]
    exact placed.rooted
  | cons frame rest =>
    rw [isScopes] at stacking
    obtain ⟨inParent, ⟨instr, isAt, holds⟩, -⟩ := stacking
    obtain isParent | isSlot := holds.parent_or_slot
    · rw [isParent, ← inParent]
      exact Tree.known_of_instruction? isAt
    · refine placed.slots frame.site s.current ?_
      rw [Tree.slotsAt, isAt]
      exact isSlot

/-- Whether the build stands outside the parameter list of its innermost scope, if it has one. -/
def OutsideSignature (s : Session) : Prop :=
  ∀ site parent var overload rest, s.scopes = .function site parent var (some overload) :: rest →
    s.current ≠ overload.args

/-- Outside a parameter list nothing is counted. -/
theorem commit_eq (outside : s.OutsideSignature) (instr : Instruction) :
    s.commit s.current instr = { s with
      tree := s.tree.push s.current instr
      registry := s.registry.recordPush (instr.construction?.map Construction.var) } := by
  unfold commit countParameter
  split
  case h_1 site parent var overload rest isScopes =>
    rw [if_neg (outside site parent var overload rest isScopes)]
  case h_2 => rfl

/-- What goes into an open parameter list is counted. -/
theorem commit_counted {site : Address} {parent : BlockId} {var : VarId} {opened : OpenOverload}
    {rest : List Frame} (top : s.scopes = .function site parent var (some opened) :: rest)
    (stands : s.current = opened.args) (instr : Instruction) :
    s.commit s.current instr = { s with
      tree := s.tree.push s.current instr
      registry := s.registry.recordPush (instr.construction?.map Construction.var)
      scopes :=
        .function site parent var (some { opened with received := opened.received + 1 }) :: rest
      current := if OpenOverload.inSignature { opened with received := opened.received + 1 }
        then opened.args else opened.body } := by
  simp only [commit, countParameter, top]
  rw [if_pos stands, stands]

/-- Outside a parameter list a scope is opened on top of the others. -/
theorem opened_eq (outside : s.OutsideSignature) (kinds : List BlockKind) (instr : Instruction)
    (frame : Frame) (inner : BlockId) :
    s.opened kinds instr frame inner = { s with
      tree := (s.tree.addBlocks s.current kinds).push s.current instr
      registry := s.registry.recordPush (instr.construction?.map Construction.var)
      scopes := frame :: s.scopes
      current := inner } := by
  have outsideToo : { s with tree := s.tree.addBlocks s.current kinds }.OutsideSignature := outside
  have committed := commit_eq outsideToo instr
  unfold opened
  rw [committed]

/-- Where a plain instruction is accepted, the build is outside the parameter list. -/
theorem Placed.outsideSignature (placed : s.Placed) (accepted : s.accepts false) :
    s.OutsideSignature := by
  intro site parent var overload rest isScopes
  have complete : overload.inSignature = false := by
    simpa [accepts, isScopes, Frame.accepts] using accepted
  have stacking := placed.stacking
  rw [isScopes] at stacking
  obtain ⟨-, ⟨instr, -, holds⟩, -⟩ := stacking
  obtain ⟨decl, rfl, -, -, distinct⟩ := Frame.fits_function_iff.mp holds.fits
  have isBody : overload.body = s.current := by
    simpa [Frame.seat?, complete] using holds.seat
  rw [← isBody]
  exact (distinct overload rfl).symm

/-- Where a parameter is accepted, the build stands in an open parameter list. -/
theorem Placed.inSignature (placed : s.Placed) (accepted : s.accepts true) :
    ∃ site parent var overload rest,
      s.scopes = .function site parent var (some overload) :: rest ∧ overload.inSignature ∧
      s.current = overload.args := by
  cases isScopes : s.scopes with
  | nil => simp [accepts, isScopes] at accepted
  | cons frame rest =>
    simp only [accepts, isScopes, List.head?_cons, Option.elim_some] at accepted
    have stacking := placed.stacking
    rw [isScopes] at stacking
    obtain ⟨-, ⟨instr, -, holds⟩, -⟩ := stacking
    cases frame with
    | function site parent var overload =>
      cases overload with
      | none => cases accepted
      | some overload =>
        have inside : overload.inSignature = true := by simpa [Frame.accepts] using accepted
        refine ⟨site, parent, var, overload, rest, rfl, inside, ?_⟩
        have seat := holds.seat
        simp only [Frame.seat?, inside, if_true, Option.some.injEq] at seat
        exact seat.symm
    | switch site parent openCase => cases openCase <;> cases accepted
    | forLoop site parent args body phase => cases phase <;> cases accepted
    | _ => cases accepted

/-- No scope was opened by an instruction that is yet to come. -/
theorem Placed.site_ne (placed : s.Placed) : ∀ frame ∈ s.scopes, frame.site ≠ s.site := by
  intro frame isFrame isSite
  obtain ⟨-, instr, isAt, -⟩ := placed.stacking.instruction isFrame
  rw [isSite, site, Tree.instruction?_length] at isAt
  cases isAt

/-- Where no waiting chain is innermost, there is none at all. -/
theorem calm_of_settled (settled : s.settle = s)
    (calm : ∀ frame ∈ s.scopes.tail, frame.isWaiting = false) :
    ∀ frame ∈ s.scopes, frame.isWaiting = false := by
  have isSettled : s.scopes.dropWhile Frame.isWaiting = s.scopes := congrArg scopes settled
  cases isScopes : s.scopes with
  | nil => exact fun _ isFrame => nomatch isFrame
  | cons top rest =>
    rw [isScopes] at isSettled calm
    intro frame isFrame
    obtain rfl | isFrame := List.mem_cons.mp isFrame
    · have first := List.dropWhile_eq_self_iff.mp isSettled (Nat.succ_pos _)
      simpa using first
    · exact calm frame isFrame

/-- An appended plain instruction brings no blocks. -/
theorem Placed.extends_append (placed : s.Placed) {instr : Instruction}
    (plain : instr.kind.opens = false) :
    s.tree.Extends (s.commit s.current instr).tree s.site instr 0 := by
  have noSlots : instr.slots = [] := by cases instr <;> first | rfl | cases plain
  rw [commit_tree]
  exact @Tree.extends_push s.tree s.current [] instr placed.current_known noSlots

/-- The instruction that opens a scope brings the blocks of its slots. -/
theorem Placed.extends_begin (placed : s.Placed) {kinds : List BlockKind} {instr : Instruction}
    {frame : Frame} {inner : BlockId} (opens : s.Opens kinds instr frame inner) :
    s.tree.Extends (s.opened kinds instr frame inner).tree s.site instr kinds.length := by
  unfold opened
  rw [commit_tree]
  exact Tree.extends_push placed.current_known opens.slots

/-- The instruction of a grown scope takes the new blocks. -/
theorem Placed.extends_grow (placed : s.Placed) {kinds : List BlockKind}
    {change : Instruction → Instruction} {old new : Frame} {rest : List Frame} {inner : BlockId}
    (top : s.scopes = old :: rest) (grows : s.Grows kinds change old new inner) :
    ∃ instr, s.tree.instruction? old.site = some instr ∧ old.Holds instr s.current ∧
      s.tree.Extends (s.grown kinds change new inner).tree old.site (change instr)
        kinds.length := by
  have stacking := placed.stacking
  rw [top] at stacking
  obtain ⟨inParent, ⟨instr, isAt, holds⟩, -⟩ := stacking
  refine ⟨instr, isAt, holds, ?_⟩
  unfold grown
  rw [grows.site, grows.parent, ← inParent]
  exact Tree.extends_amend (Tree.known_of_instruction? isAt) isAt (grows.slots instr isAt holds)

/-- A change of the registry moves nothing. -/
theorem Placed.register (placed : s.Placed) (registry : Registry) :
    { s with registry }.Placed where
  stacking := placed.stacking
  distinct := placed.distinct
  calm := placed.calm
  rooted := placed.rooted
  slots := placed.slots

/-- Around a waiting chain the build stands where it stood. -/
theorem Placed.settle (placed : s.Placed) {frame : Frame} {rest : List Frame}
    (top : s.scopes = frame :: rest) (waiting : frame.isWaiting) :
    { s with scopes := rest }.Placed := by
  obtain ⟨stacking, distinct, calm, rooted, slots⟩ := placed
  rw [top] at stacking distinct calm
  obtain ⟨-, ⟨instr, -, holds⟩, below⟩ := stacking
  rw [← holds.eq_parent waiting] at below
  exact {
    stacking := below
    distinct := (List.nodup_cons.mp distinct).2
    calm := fun other isOther => calm other (List.mem_of_mem_tail isOther)
    rooted
    slots }

/-- An appended instruction leaves the build in the same block, or moves it from a complete
parameter list to the body. -/
theorem Placed.append (placed : s.Placed) {instr : Instruction}
    (plain : instr.kind.opens = false) (accepted : s.accepts instr.isParameter) :
    (s.commit s.current instr).Placed := by
  have extended := placed.extends_append plain
  have stacking := placed.stacking.extend extended placed.site_ne
  have slots := extended.slots_known placed.slots
  have rooted := Nat.lt_of_lt_of_le placed.rooted extended.size_le
  cases isParameter : instr.isParameter with
  | false =>
    rw [isParameter] at accepted
    rw [commit_eq (placed.outsideSignature accepted)] at stacking slots rooted ⊢
    exact { stacking, distinct := placed.distinct, calm := placed.calm, rooted, slots }
  | true =>
    rw [isParameter] at accepted
    obtain ⟨site, parent, var, overload, rest, isScopes, -, inArgs⟩ :=
      placed.inSignature accepted
    obtain ⟨-, distinct, calm, -, -⟩ := placed
    rw [isScopes] at stacking distinct calm
    obtain ⟨inParent, ⟨found, isAt, holds⟩, below⟩ := stacking
    rw [commit_counted isScopes inArgs] at isAt below slots rooted ⊢
    refine { stacking := ⟨inParent, ⟨found, isAt, ?_⟩, below⟩, distinct, calm, rooted, slots }
    obtain ⟨decl, rfl, isVar, isLast, apart⟩ := Frame.fits_function_iff.mp holds.fits
    refine ⟨⟨isVar, isLast, ?_⟩, rfl⟩
    rintro opened ⟨⟩
    exact apart overload rfl

/-- A new scope stands on the others. -/
theorem Placed.begin (placed : s.Placed) {kinds : List BlockKind} {instr : Instruction}
    {frame : Frame} {inner : BlockId} (opens : s.Opens kinds instr frame inner) :
    (s.opened kinds instr frame inner).Placed := by
  have extended := placed.extends_begin opens
  have stacking := placed.stacking.extend extended placed.site_ne
  have slots := extended.slots_known placed.slots
  have rooted := Nat.lt_of_lt_of_le placed.rooted extended.size_le
  have isAt := extended.instruction_self
  rw [opened_eq (placed.outsideSignature opens.accepted)] at stacking slots rooted isAt ⊢
  refine {
    stacking := ⟨?_, ⟨instr, ?_, opens.holds⟩, ?_⟩
    distinct := List.nodup_cons.mpr ⟨?_, placed.distinct⟩
    calm := calm_of_settled opens.settled placed.calm
    rooted
    slots }
  · rw [opens.site, opens.parent]
    rfl
  · rw [opens.site]
    exact isAt
  · rw [opens.parent]
    exact stacking
  · rw [opens.site]
    intro isOpen
    obtain ⟨other, isOther, isSite⟩ := List.mem_map.mp isOpen
    exact placed.site_ne other isOther isSite

/-- A grown scope stands where it stood. -/
theorem Placed.grow (placed : s.Placed) {kinds : List BlockKind}
    {change : Instruction → Instruction} {old new : Frame} {rest : List Frame} {inner : BlockId}
    (top : s.scopes = old :: rest) (grows : s.Grows kinds change old new inner) :
    (s.grown kinds change new inner).Placed := by
  obtain ⟨instr, isAt, holds, extended⟩ := placed.extends_grow top grows
  obtain ⟨stacking, distinct, calm, rooted, slots⟩ := placed
  rw [top] at stacking distinct calm
  obtain ⟨inParent, -, below⟩ := stacking
  have others : ∀ frame ∈ rest, frame.site ≠ old.site := by
    intro frame isFrame isSite
    refine (List.nodup_cons.mp distinct).1 ?_
    rw [← isSite]
    exact List.mem_map_of_mem isFrame
  have isAmended := extended.instruction_self
  have isScopes : (s.grown kinds change new inner).scopes = new :: rest := by
    rw [grown, top]
    rfl
  refine {
    stacking := ?_
    distinct := ?_
    calm := ?_
    rooted := Nat.lt_of_lt_of_le rooted extended.size_le
    slots := extended.slots_known slots }
  · rw [isScopes, Tree.Stacks, grows.site, grows.parent]
    exact ⟨inParent, ⟨change instr, isAmended, grows.holds instr isAt holds⟩,
      below.extend extended others⟩
  · rw [isScopes, List.map_cons, grows.site]
    exact distinct
  · rw [isScopes]
    exact calm

/-- A scope that was entered stands where it stood. -/
theorem Placed.enter (placed : s.Placed) {old new : Frame} {rest : List Frame} {inner : BlockId}
    (top : s.scopes = old :: rest) (enters : s.Enters old new inner) :
    (s.entered new inner).Placed := by
  obtain ⟨stacking, distinct, calm, rooted, slots⟩ := placed
  rw [top] at stacking distinct calm
  obtain ⟨inParent, ⟨instr, isAt, holds⟩, below⟩ := stacking
  unfold entered
  rw [top]
  refine { stacking := ⟨?_, ⟨instr, ?_, enters.holds instr isAt holds⟩, ?_⟩,
           distinct := ?_, calm, rooted, slots }
  · rw [enters.site, enters.parent]
    exact inParent
  · rw [enters.site]
    exact isAt
  · rw [enters.parent]
    exact below
  · rw [List.map_cons, enters.site]
    exact distinct

/-- Once a scope is left, the build stands around it. -/
theorem Placed.leave (placed : s.Placed) {frame : Frame} {rest : List Frame}
    (top : s.scopes = frame :: rest) : (s.closed frame.parent).Placed := by
  obtain ⟨stacking, distinct, calm, rooted, slots⟩ := placed
  rw [top] at stacking distinct calm
  unfold closed
  rw [top]
  exact {
    stacking := stacking.2.2
    distinct := (List.nodup_cons.mp distinct).2
    calm := fun other isOther => calm other (List.mem_of_mem_tail isOther)
    rooted
    slots }

/-- A build is placed at its start. -/
theorem placed_start (options : BuildOptions) : (start options).Placed where
  stacking := rfl
  distinct := List.nodup_nil
  calm := fun _ isFrame => nomatch isFrame
  rooted := Nat.one_pos
  slots site id isSlot := by
    rw [start, Tree.slotsAt, Tree.instruction?_empty] at isSlot
    cases isSlot

/-- Every move leaves a placed build placed. -/
theorem Placed.move {after : Session} (placed : s.Placed) (move : Move s after) :
    after.Placed := by
  cases move with
  | register registry => exact placed.register registry
  | settle top waiting => exact placed.settle top waiting
  | append _ plain accepted => exact placed.append plain accepted
  | begin opens => exact placed.begin opens
  | grow top grows => exact placed.grow top grows
  | enter top enters => exact placed.enter top enters
  | leave top _ => exact placed.leave top

/-- A build is placed wherever calls lead without failing. -/
theorem placed_reached (options : BuildOptions) (calls : List Call)
    (sane : (reached options calls).failure = none) : (reached options calls).Placed :=
  reached_of_moves placed_start (fun _ _ placed => placed.move) options calls sane

/-- Whether a call amended the instruction that opened the innermost scope. -/
def Amended (s after : Session) (call : Call) : Prop :=
  ∃ frame before amended,
    (s.scopes.head? = some frame ∨ s.settle.scopes.head? = some frame) ∧
    s.tree.instruction? frame.site = some before ∧
    after.tree.instruction? frame.site = some amended ∧ call.Amends before amended

/-- The scope that a call continues, if it is one that does: a further case of a chain of conditions
goes to the innermost scope as it is, and all else to the innermost once waiting chains are
closed. -/
def continued? (s : Session) : Call → Option Frame
  | .beginElseIf _ | .beginElse => s.scopes.head?
  | call => if call.continues then s.settle.scopes.head? else none

/-- Whether a call made blocks for the scope it continues and amended the instruction that opened
it. -/
def Continued (s after : Session) (call : Call) : Prop :=
  ∃ frame instr kinds change, s.continued? call = some frame ∧
    s.tree.instruction? frame.site = some instr ∧
    after.tree = (s.tree.addBlocks frame.parent kinds).amend frame.site change ∧
    call.Amends instr (change instr)

/-- The innermost scope, also after waiting chains were closed, has its instruction in the tree. -/
theorem Placed.settled_instruction (placed : s.Placed) {frame : Frame} {rest : List Frame}
    (top : s.settle.scopes = frame :: rest) :
    ∃ instr, s.tree.instruction? frame.site = some instr ∧ frame.Fits instr := by
  have isSuffix : frame :: rest <:+ s.scopes := by
    rw [← top]
    exact List.dropWhile_suffix _
  exact (placed.stacking.instruction (isSuffix.subset List.mem_cons_self)).2

/-- A call that continues a scope amends the instruction that opened it, and nothing else. -/
theorem Placed.continued (placed : s.Placed) {call : Call} {reply : Reply} {after : Session}
    (continues : call.continues) (ran : call.run s = .ok reply after) :
    s.Continued after call := by
  cases call with
  | beginElseIf condition =>
    obtain ⟨_, ran, -⟩ := Build.map_ok_iff.mp ran
    obtain ⟨-, ran⟩ := Build.beginElseIf_ok_iff.mp ran
    obtain ⟨site, parent, waiting, rest, cases, top, isAt, -, -, rfl⟩ :=
      Build.addIfCase_ok_iff.mp ran
    exact ⟨.branch site parent waiting, _, _, _, by simp [continued?, top], isAt, rfl,
      .elseIf condition cases s.tree.next⟩
  | beginElse =>
    obtain ⟨_, ran, -⟩ := Build.map_ok_iff.mp ran
    obtain ⟨-, ran⟩ := Build.beginElse_ok_iff.mp ran
    obtain ⟨site, parent, waiting, rest, cases, top, isAt, -, -, rfl⟩ :=
      Build.addIfCase_ok_iff.mp ran
    exact ⟨.branch site parent waiting, _, _, _, by simp [continued?, top], isAt, rfl,
      .otherwise cases s.tree.next⟩
  | addCase label =>
    obtain ⟨_, ran, -⟩ := Build.map_ok_iff.mp ran
    obtain ⟨-, site, parent, openCase, rest, top, -, rfl⟩ := Build.addCase_ok_iff.mp ran
    obtain ⟨instr, isAt, fits⟩ := placed.settled_instruction top
    obtain ⟨selector, cases, rfl, -⟩ := Frame.fits_switch_iff.mp fits
    exact ⟨.switch site parent openCase, _, _, _, by simp [continued?, Call.continues, top], isAt,
      rfl, .label label selector cases s.tree.next⟩
  | nextOverload params =>
    obtain ⟨_, ran, -⟩ := Build.map_ok_iff.mp ran
    obtain ⟨-, site, parent, var, overload, rest, decl, top, -, isAt, rfl⟩ :=
      Build.nextOverload_ok_iff.mp ran
    exact ⟨.function site parent var overload, _, _, _,
      by simp [continued?, Call.continues, top], isAt, rfl,
      .overload params decl s.tree.next ⟨s.tree.size + 1⟩⟩
  | stackForCondition condition =>
    obtain ⟨_, ran, -⟩ := Build.map_ok_iff.mp ran
    obtain ⟨-, site, parent, args, body, phase, rest, top, outside, rfl⟩ :=
      Build.stackForCondition_ok_iff.mp ran
    have settled : s.settle.scopes = .forLoop site parent args body phase :: rest := by
      rw [Session.settle, top]
      rfl
    obtain ⟨instr, isAt, fits⟩ := placed.settled_instruction settled
    obtain ⟨header, stacked, policy, rfl, -⟩ := (Frame.fits_forLoop_iff outside).mp fits
    exact ⟨.forLoop site parent args body phase, _, _, _,
      by simp [continued?, Call.continues, settled], isAt, rfl,
      .stacked condition header stacked policy body⟩
  | endDoWhile condition =>
    obtain ⟨_, ran, -⟩ := Build.map_ok_iff.mp ran
    obtain ⟨-, site, parent, rest, top, rfl⟩ := Build.endDoWhile_ok_iff.mp ran
    obtain ⟨instr, isAt, fits⟩ := placed.settled_instruction top
    obtain ⟨body, earlier, rfl⟩ := Frame.fits_doWhile_iff.mp fits
    exact ⟨.doWhile site parent, _, _, _, by simp [continued?, Call.continues, top], isAt, rfl,
      .tested condition body earlier⟩
  | _ => cases continues

/-- The scope that a call continues is the innermost, if need be once waiting chains are closed. -/
theorem innermost_of_continued? {call : Call} {frame : Frame}
    (continued : s.continued? call = some frame) :
    s.scopes.head? = some frame ∨ s.settle.scopes.head? = some frame := by
  unfold continued? at continued
  split at continued
  · exact .inl continued
  · exact .inl continued
  · rw [Option.ite_none_right_eq_some] at continued
    exact .inr continued.2

/-- A call that continues a scope amends the instruction that opened it. -/
theorem Placed.amended (placed : s.Placed) {call : Call} {reply : Reply} {after : Session}
    (continues : call.continues) (ran : call.run s = .ok reply after) : s.Amended after call := by
  obtain ⟨frame, instr, kinds, change, continued, isAt, grown, amends⟩ :=
    placed.continued continues ran
  refine ⟨frame, instr, change instr, innermost_of_continued? continued, isAt, ?_, amends⟩
  rw [grown, Tree.instruction?_amend, if_pos rfl, Tree.instruction?_addBlocks, isAt]
  rfl

/-- A waiting chain is closed from the block around it. -/
theorem Placed.settling (placed : s.Placed) :
    ∀ frame ∈ s.scopes.takeWhile Frame.isWaiting, frame.parent = s.current := by
  have stacking := placed.stacking
  have calm := placed.calm
  cases isScopes : s.scopes with
  | nil => exact fun _ isFrame => nomatch isFrame
  | cons top rest =>
    rw [isScopes] at stacking calm
    obtain ⟨-, ⟨instr, -, holds⟩, -⟩ := stacking
    intro frame isFrame
    have waiting := List.mem_takeWhile_imp isFrame
    obtain rfl | isInner := List.mem_cons.mp ((List.takeWhile_subset _) isFrame)
    · exact (holds.eq_parent waiting).symm
    · rw [calm frame isInner] at waiting
      cases waiting

/-- With all scopes closed, the build stands in the main block. -/
theorem Placed.finishing (placed : s.Placed) (closed : s.settle.scopes = []) :
    s.current = .root := by
  have stacking := placed.stacking
  have calm := placed.calm
  cases isScopes : s.scopes with
  | nil =>
    rw [isScopes] at stacking
    exact stacking
  | cons top rest =>
    rw [isScopes] at stacking calm
    have allWaiting := List.dropWhile_eq_nil_iff.mp closed
    rw [isScopes] at allWaiting
    -- A second scope would have to wait as well, but only the innermost can.
    cases rest with
    | cons below rest =>
      have waiting := allWaiting below (by simp)
      rw [calm below List.mem_cons_self] at waiting
      cases waiting
    | nil =>
      obtain ⟨-, ⟨instr, -, holds⟩, isRoot⟩ := stacking
      rw [holds.eq_parent (allWaiting top List.mem_cons_self)]
      exact isRoot

/-- What the open scopes say of a build that has not failed. -/
structure Seated (s : Session) : Prop where
  /-- The innermost scope tells the current block; without a scope it is the main one. -/
  current : s.tree.seat? s.scopes = some s.current
  /-- The block around each scope is the one that the scopes further out tell. -/
  parents : ∀ frame rest, frame :: rest <:+ s.scopes → s.tree.seat? rest = some frame.parent
  /-- The instruction that opened a scope stands around it and is of its kind. -/
  sites : ∀ frame ∈ s.scopes, frame.site.block = frame.parent ∧
    ∃ instr, s.tree.instruction? frame.site = some instr ∧ instr.kind = frame.kind ∧
      frame.Fits instr
  /-- A call that continues a scope never fails to amend the instruction that opened it. -/
  amended : ∀ call reply after, Call.continues call → call.run s = .ok reply after →
    s.Amended after call
  /-- Only the innermost scope can be a chain that waits for an `else`. -/
  calm : ∀ frame ∈ s.scopes.tail, frame.isWaiting = false
  /-- Closing the waiting chains finds the build around each of them. -/
  settling : ∀ frame ∈ s.scopes.takeWhile Frame.isWaiting, frame.parent = s.current
  /-- A build with no scope left to close stands in the main block. -/
  finishing : s.settle.scopes = [] → s.current = .root

/-- The current block, the open scopes and the tree agree wherever calls lead without failing. -/
theorem seated_reached (options : BuildOptions) (calls : List Call)
    (sane : (reached options calls).failure = none) : (reached options calls).Seated := by
  have placed := placed_reached options calls sane
  exact {
    current := placed.stacking.seat_eq
    parents := fun frame rest isSuffix => by
      obtain ⟨inner, -, -, below⟩ := placed.stacking.suffix isSuffix
      exact below.seat_eq
    sites := fun frame isFrame => by
      obtain ⟨inParent, instr, isAt, fits⟩ := placed.stacking.instruction isFrame
      exact ⟨inParent, instr, isAt, fits.kind_eq, fits⟩
    amended := fun _ _ _ => placed.amended
    calm := placed.calm
    settling := placed.settling
    finishing := placed.finishing }

/-- A chain of conditions waits in the body of a loop with a recorded header in a function. -/
theorem seated_reached_waiting :
    (reached .standard
      [.beginFunc "f" .void, .nextOverload [.scalar .int],
       .declareParam (.scalar .int) (some "n") none, .beginFor, .beginForArgs,
       .stackForCondition (.literal (.bool true)), .beginForBody,
       .beginIf (.literal (.bool true)), .endIfSubBlock]).Seated :=
  seated_reached .standard _ rfl

end Session

end ShaderLoom
