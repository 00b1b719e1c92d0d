import ShaderLoom.Proofs.Addresses
import ShaderLoom.Proofs.Shapes

/-!
# Where keywords and returns may stand

Whether a `break`, a `continue`, a `discard` or a return may be pushed is decided by two mechanisms:
the open scopes for the keywords, the parents of the blocks for returns. Both agree with one walk
through the tree, from the block the build stands in outward through the instructions that own the
blocks (`Tree.Walk`): what the walk meets before it leaves the innermost function decides
(`Special.Fits`), and the first function body it meets tells what a return has to return. Since what
the walk meets never changes, the same holds of every keyword and return in a finished shader.
-/
namespace ShaderLoom

/-- What a block is to the instruction that owns it. -/
inductive Role where
  /-- A case of a chain of conditions. -/
  | branch
  /-- The recorded header of a loop. -/
  | header
  /-- The body of a loop. -/
  | loop
  /-- A case of a switch. -/
  | label
  /-- The parameter list of an overload. -/
  | params
  /-- The body of an overload, with the type its function is declared to return. -/
  | body (returns : Ty)
deriving DecidableEq, Repr

namespace Role

/-- The type that the body of a function has to return. -/
def returns? : Role → Option Ty
  | .body returns => some returns
  | _ => none

/-- The kind of the blocks in a role. -/
def kind : Role → BlockKind
  | .header => .forArgs
  | .params => .funcArgs
  | .body returns => .body returns
  | _ => .plain

/-- What is met before the innermost function is left. -/
def withinFunction (roles : List Role) : List Role := roles.takeWhile (·.returns?.isNone)

/-- What the innermost function returns. -/
def returned? (roles : List Role) : Option Ty := roles.findSome? returns?

end Role

/-- The blocks that belong to an instruction, each with its role. -/
def Instruction.roles : Instruction → List (BlockId × Role)
  | .branch cases => cases.map fun case => (case.body, .branch)
  | .forLoop (.recorded args _ _) body => [(args, .header), (body, .loop)]
  | .forLoop (.clauses _) body => [(body, .loop)]
  | .whileLoop _ body => [(body, .loop)]
  | .doWhile body _ => [(body, .loop)]
  | .switch _ cases => cases.map fun case => (case.body, .label)
  | .function decl => decl.overloads.flatMap fun overload =>
      [(overload.args, .params), (overload.body, .body decl.returns)]
  | _ => []

/-- Whether a keyword may stand where a walk outward meets these roles: a `break` in a loop body or
in a case of a switch, a `continue` in a loop body, both within the same function, and a `discard`
in a function. -/
def Special.Fits (roles : List Role) : Special → Prop
  | .breakLoop => .loop ∈ Role.withinFunction roles ∨ .label ∈ Role.withinFunction roles
  | .continueLoop => .loop ∈ Role.withinFunction roles
  | .discard => ∃ returns, .body returns ∈ roles
  | .vendor _ => True

/-- What a call returns from a function, and of what type, if it is one that does. -/
def Call.returns? : Call → Option (Option Expr × Ty)
  | .returnValue value ty => some (some value, ty)
  | .returnVoid => some (none, .void)
  | _ => none

/-- Whether an instruction may stand where a walk outward meets these roles: a keyword where it
fits, and a return in a function, of another type than the function returns only if that is
noted. -/
def Instruction.Stands (roles : List Role) : Instruction → Prop
  | .special stmt => stmt.Fits roles
  | .ret _ mismatch => ∃ returns, Role.returned? roles = some returns ∧
      ∀ noted ∈ mismatch, noted.expected = returns ∧ noted.found ≠ returns
  | _ => True

/-- The roles of an instruction go to its slots. -/
theorem Instruction.map_fst_roles (instr : Instruction) :
    instr.roles.map Prod.fst = instr.slots := by
  cases instr with
  | forLoop header => cases header <;> rfl
  | branch cases => simp [roles, slots]
  | switch selector cases => simp [roles, slots]
  | function decl => simp [roles, slots, List.map_flatMap]
  | _ => rfl

/-- The roles of an instruction are those of blocks of its kinds. -/
theorem Instruction.map_kind_roles (instr : Instruction) :
    (instr.roles.map fun owned => owned.2.kind) = instr.kinds := by
  cases instr with
  | forLoop header => cases header <;> rfl
  | branch cases =>
    rw [roles, kinds, List.map_map]
    rfl
  | switch selector cases =>
    rw [roles, kinds, List.map_map]
    rfl
  | function decl => simp [roles, kinds, Role.kind, List.map_flatMap]
  | _ => rfl

/-- A block with a role is one of the slots. -/
theorem Instruction.mem_slots_of_role {instr : Instruction} {id : BlockId} {role : Role}
    (owns : (id, role) ∈ instr.roles) : id ∈ instr.slots := by
  rw [← instr.map_fst_roles]
  exact List.mem_map_of_mem owns

/-- What an instruction gains takes no block from it. -/
theorem Call.Amends.roles_subset {call : Call} {instr amended : Instruction}
    (amends : call.Amends instr amended) : instr.roles ⊆ amended.roles := by
  cases amends with
  | stacked | tested => exact List.Subset.refl _
  | overload params decl args body =>
    rw [Instruction.roles, Instruction.roles, List.flatMap_append]
    exact List.subset_append_left _ _
  | _ =>
    simp only [Instruction.roles, List.map_append]
    exact List.subset_append_left _ _

namespace Tree

/-- A walk from a block outward to the main block, with the roles of the blocks it leaves. -/
inductive Walk (tree : Tree) : BlockId → List Role → Prop where
  | top : tree.Walk .root []
  | out {site : Address} {instr : Instruction} {id : BlockId} {role : Role} {roles : List Role}
    (isAt : tree.instruction? site = some instr) (owns : (id, role) ∈ instr.roles)
    (rest : tree.Walk site.block roles) : tree.Walk id (role :: roles)

variable {tree before after : Tree} {id : BlockId} {roles other : List Role}

/-- A block with a role in an instruction of the tree is one of its slots. -/
theorem mem_slotsAt_of_role {site : Address} {instr : Instruction} {role : Role}
    (isAt : tree.instruction? site = some instr) (owns : (id, role) ∈ instr.roles) :
    id ∈ tree.slotsAt site := by
  rw [slotsAt, isAt]
  exact Instruction.mem_slots_of_role owns

/-- There is a walk from every block. -/
theorem Linked.exists_walk (linked : tree.Linked) (known : id.index < tree.size) :
    ∃ roles, tree.Walk id roles := by
  obtain ⟨index⟩ := id
  induction index using Nat.strongRecOn with
  | _ index ih =>
    cases index with
    | zero => exact ⟨[], .top⟩
    | succ index =>
      obtain ⟨site, isSlot⟩ := linked.owned ⟨index + 1⟩ (Nat.succ_pos index) known
      have lower := linked.parent_lt (linked.slots site _ isSlot).2.2
      obtain ⟨roles, walk⟩ := ih site.block.index lower.1 (Nat.lt_trans lower.1 known)
      cases isAt : tree.instruction? site with
      | none => simp [slotsAt, isAt] at isSlot
      | some instr =>
        rw [slotsAt, isAt, Option.elim_some, ← instr.map_fst_roles] at isSlot
        obtain ⟨⟨_, role⟩, owns, rfl⟩ := List.mem_map.mp isSlot
        exact ⟨role :: roles, .out isAt owns walk⟩

/-- There is one walk from a block at most. -/
theorem Walk.unique (linked : tree.Linked) (walk : tree.Walk id roles)
    (walkToo : tree.Walk id other) : roles = other := by
  have unowned : ∀ {site instr role}, tree.instruction? site = some instr →
      (BlockId.root, role) ∉ instr.roles := by
    intro site instr role isAt owns
    exact Nat.lt_irrefl 0 (linked.slots site _ (mem_slotsAt_of_role isAt owns)).1
  -- The instruction that owns a block is the only one that does, and owns it in one role.
  induction walk generalizing other with
  | top =>
    cases walkToo with
    | top => rfl
    | out isAt owns => exact absurd owns (unowned isAt)
  | @out site instr id role roles isAt owns rest ih =>
    cases walkToo with
    | top => exact absurd owns (unowned isAt)
    | out isAtToo ownsToo restToo =>
      obtain rfl := linked.apart _ _ id (mem_slotsAt_of_role isAt owns)
        (mem_slotsAt_of_role isAtToo ownsToo)
      obtain rfl := Option.some.inj (isAt.symm.trans isAtToo)
      have distinct := linked.nodup site
      rw [slotsAt, isAt, Option.elim_some, ← instr.map_fst_roles] at distinct
      have same := List.inj_on_of_nodup_map distinct owns ownsToo rfl
      rw [ih restToo, (Prod.mk.inj same).2]

/-- A walk stays as it is while instructions keep their places and their blocks. -/
theorem Walk.mono (walk : before.Walk id roles)
    (kept : ∀ site instr, before.instruction? site = some instr →
      ∃ later, after.instruction? site = some later ∧ instr.roles ⊆ later.roles) :
    after.Walk id roles := by
  induction walk with
  | top => exact .top
  | out isAt owns _ ih =>
    obtain ⟨later, isLater, subset⟩ := kept _ _ isAt
    exact .out isLater (subset owns) ih

/-- A block is of the kind that its role asks for. -/
theorem Suits.kind_of_role {instr : Instruction} (suits : tree.Suits instr) {role : Role}
    (owns : (id, role) ∈ instr.roles) : tree.kind? id = some role.kind := by
  rw [Suits, ← instr.map_fst_roles, ← instr.map_kind_roles, List.map_map, List.map_map] at suits
  exact List.map_inj_left.mp suits (id, role) owns

/-- What the innermost function returns can be read off the blocks or off the walk. -/
theorem Walk.returnType?_eq (linked : tree.Linked) (shaped : tree.Shaped)
    (walk : tree.Walk id roles) : tree.returnType? id = Role.returned? roles := by
  induction walk with
  | top =>
    obtain ⟨main, found, isMain⟩ := Option.map_eq_some_iff.mp shaped.root
    have noParent := linked.root
    rw [parent?, found] at noParent
    obtain ⟨number, parent, kind, instructions⟩ := main
    cases isMain
    obtain rfl : parent = none := noParent
    rw [returnType?, returnTypeWithin, found]
    rfl
  | @out site instr id role roles isAt owns _ ih =>
    obtain ⟨block, found, isKind⟩ :=
      Option.map_eq_some_iff.mp ((shaped.suits site instr isAt).kind_of_role owns)
    have isParent := (linked.slots site id (mem_slotsAt_of_role isAt owns)).2.2
    rw [parent?, found] at isParent
    cases isRole : role.returns? with
    | some returns =>
      rw [Role.returned?, List.findSome?_cons_of_isSome (by rw [isRole]; rfl), isRole]
      cases role <;> cases isRole
      exact returnType?_body found isKind
    | none =>
      have inner : ∀ returns, block.kind ≠ .body returns := by
        intro returns isBody
        rw [isKind] at isBody
        cases role <;> cases isBody
        cases isRole
      rw [linked.returnType?_under found isParent inner, ih, Role.returned?, Role.returned?,
        List.findSome?_cons_of_isNone (by rw [isRole]; rfl)]

end Tree

/-- The roles of the block that a build stands in while a frame is its innermost one. -/
def Frame.Plays : Frame → Role → Prop
  | .branch _ _ _, role => role = .branch
  | .forLoop _ _ _ _ .args, role => role = .header
  | .forLoop _ _ _ _ _, role => role = .loop
  | .whileLoop _ _, role => role = .loop
  | .doWhile _ _, role => role = .loop
  | .switch _ _ _, role => role = .label
  | .function _ _ _ _, role => ∃ returns, role = .body returns

/-- A build that may go on in a scope stands in a block of its instruction, in the role that the
scope gives it. -/
theorem Frame.Holds.plays {frame : Frame} {instr : Instruction} {block : BlockId}
    (holds : frame.Holds instr block) (accepts : frame.accepts false)
    (calm : frame.isWaiting = false) : ∃ role, (block, role) ∈ instr.roles ∧ frame.Plays role := by
  obtain ⟨fits, seat⟩ := holds
  cases frame with
  | branch site parent waiting =>
    obtain rfl : waiting = false := calm
    obtain ⟨cases, rfl, -⟩ := fits_branch_iff.mp fits
    obtain ⟨last, isLast, rfl⟩ := Option.map_eq_some_iff.mp seat
    exact ⟨.branch, List.mem_map_of_mem (List.mem_of_getLast? isLast), rfl⟩
  | forLoop site parent args body phase =>
    cases phase with
    | created => cases accepts
    | args =>
      obtain ⟨header, stacked, policy, rfl, rfl⟩ :=
        (fits_forLoop_iff ForPhase.noConfusion).mp fits
      obtain rfl := Option.some.inj seat
      exact ⟨.header, List.mem_cons_self, rfl⟩
    | body =>
      obtain rfl := Option.some.inj seat
      refine ⟨.loop, ?_, rfl⟩
      cases instr with
      | forLoop header body' =>
        cases args <;> cases header <;> simp_all [Fits, Instruction.roles]
      | _ => cases args <;> exact fits.elim
  | whileLoop site parent =>
    obtain ⟨condition, body, rfl⟩ := fits_whileLoop_iff.mp fits
    obtain rfl := Option.some.inj seat
    exact ⟨.loop, List.mem_singleton_self _, rfl⟩
  | doWhile site parent =>
    obtain ⟨body, condition, rfl⟩ := fits_doWhile_iff.mp fits
    obtain rfl := Option.some.inj seat
    exact ⟨.loop, List.mem_singleton_self _, rfl⟩
  | switch site parent openCase =>
    obtain ⟨selector, cases, rfl, isOpen⟩ := fits_switch_iff.mp fits
    cases openCase with
    | none => cases accepts
    | some openCase =>
      obtain rfl := Option.some.inj seat
      obtain ⟨last, isLast, isBody⟩ := Option.map_eq_some_iff.mp isOpen.symm
      rw [Option.getD_some, ← isBody]
      exact ⟨.label, List.mem_map_of_mem (List.mem_of_getLast? isLast), rfl⟩
  | function site parent var overload =>
    cases overload with
    | none => cases accepts
    | some opened =>
      have complete : opened.inSignature = false := by simpa [Frame.accepts] using accepts
      obtain ⟨decl, rfl, -, isLast, -⟩ := fits_function_iff.mp fits
      obtain ⟨last, isLast, blocks⟩ := Option.map_eq_some_iff.mp isLast.symm
      simp only [Prod.mk.injEq] at blocks
      obtain rfl : opened.body = block := by simpa [seat?, complete] using seat
      refine ⟨.body decl.returns, ?_, _, rfl⟩
      refine List.mem_flatMap.mpr ⟨last, List.mem_of_getLast? isLast, ?_⟩
      rw [blocks.2.1]
      simp

/-- Open scopes lead along the walk from the block the build stands in. -/
theorem Tree.Stacks.walk {tree : Tree} {scopes : List Frame} {block : BlockId}
    (stacking : tree.Stacks scopes block)
    (accepting : ∀ frame ∈ scopes, frame.accepts false ∧ frame.isWaiting = false) :
    ∃ roles, tree.Walk block roles ∧ List.Forall₂ Frame.Plays scopes roles := by
  induction scopes generalizing block with
  | nil =>
    obtain rfl : block = .root := stacking
    exact ⟨[], .top, .nil⟩
  | cons frame rest ih =>
    obtain ⟨inParent, ⟨instr, isAt, holds⟩, below⟩ := stacking
    obtain ⟨accepts, calm⟩ := accepting frame List.mem_cons_self
    obtain ⟨role, owns, plays⟩ := holds.plays accepts calm
    obtain ⟨roles, walk, playing⟩ :=
      ih below fun other isOther => accepting other (List.mem_cons_of_mem frame isOther)
    rw [← inParent] at walk
    exact ⟨role :: roles, .out isAt owns walk, .cons plays playing⟩

section Plays

variable {scopes : List Frame} {roles : List Role}

/-- What the scopes say of a `break` or a `continue` is what the walk says. -/
theorem inBreakable_iff (playing : List.Forall₂ Frame.Plays scopes roles)
    (accepting : ∀ frame ∈ scopes, frame.accepts false) (switchCounts : Bool) :
    inBreakable switchCounts scopes ↔
      .loop ∈ Role.withinFunction roles ∨
        switchCounts ∧ .label ∈ Role.withinFunction roles := by
  -- Scopes that accept statements are past every phase in which the build stands around them.
  induction playing with
  | nil => simp [inBreakable, Role.withinFunction]
  | @cons frame role scopes roles plays _ ih =>
    have accepts := accepting frame List.mem_cons_self
    have ih := ih fun other isOther => accepting other (List.mem_cons_of_mem frame isOther)
    cases frame with
    | branch =>
      obtain rfl := plays
      simpa [inBreakable, Role.withinFunction, Role.returns?] using ih
    | forLoop site parent args body phase =>
      cases phase with
      | created => cases accepts
      | args =>
        obtain rfl := plays
        simpa [inBreakable, Role.withinFunction, Role.returns?] using ih
      | body =>
        obtain rfl := plays
        simp [inBreakable, Role.withinFunction, Role.returns?]
    | whileLoop =>
      obtain rfl := plays
      simp [inBreakable, Role.withinFunction, Role.returns?]
    | doWhile =>
      obtain rfl := plays
      simp [inBreakable, Role.withinFunction, Role.returns?]
    | switch site parent openCase =>
      obtain rfl := plays
      cases openCase with
      | none => cases accepts
      | some =>
        cases switchCounts with
        | true => simp [inBreakable, Role.withinFunction, Role.returns?]
        | false => simpa [inBreakable, Role.withinFunction, Role.returns?] using ih
    | function =>
      obtain ⟨returns, rfl⟩ := plays
      simp [inBreakable, Role.withinFunction, Role.returns?]

/-- A function is open where the walk meets the body of one. -/
theorem any_isFunction_iff (playing : List.Forall₂ Frame.Plays scopes roles) :
    scopes.any Frame.isFunction ↔ ∃ returns, Role.body returns ∈ roles := by
  induction playing with
  | nil => simp
  | @cons frame role scopes roles plays _ ih =>
    rw [List.any_cons, Bool.or_eq_true, ih]
    cases frame with
    | forLoop site parent args body phase =>
      cases phase <;> obtain rfl := plays <;> simp [Frame.isFunction]
    | function =>
      obtain ⟨returns, rfl⟩ := plays
      simp [Frame.isFunction]
    | _ =>
      obtain rfl := plays
      simp [Frame.isFunction]

/-- What the scopes say of a keyword is what the walk says. -/
theorem misplaced?_eq_none_iff (playing : List.Forall₂ Frame.Plays scopes roles)
    (accepting : ∀ frame ∈ scopes, frame.accepts false) (stmt : Special) :
    Build.misplaced? scopes stmt = none ↔ stmt.Fits roles := by
  cases stmt with
  | breakLoop =>
    have breaks := inBreakable_iff playing accepting true
    simpa [Build.misplaced?, Special.Fits] using breaks
  | continueLoop =>
    have continues := inBreakable_iff playing accepting false
    simpa [Build.misplaced?, Special.Fits] using continues
  | discard =>
    have inFunction := any_isFunction_iff playing
    simpa [Build.misplaced?, Special.Fits] using inFunction
  | vendor => simp [Build.misplaced?, Special.Fits]

/-- A walk meets the body of a function exactly where it tells what is returned. -/
theorem exists_returned?_iff :
    (∃ returns, Role.returned? roles = some returns) ↔ ∃ returns, Role.body returns ∈ roles := by
  unfold Role.returned?
  constructor
  · rintro ⟨returns, found⟩
    obtain ⟨role, isRole, isBody⟩ := List.exists_of_findSome?_eq_some found
    cases role <;> cases isBody
    exact ⟨returns, isRole⟩
  · rintro ⟨returns, isRole⟩
    rw [← Option.isSome_iff_exists, List.findSome?_isSome_iff]
    exact ⟨.body returns, isRole, rfl⟩

end Plays

/-- Waiting chains say nothing of a `break` or a `continue`. -/
theorem inBreakable_dropWhile (switchCounts : Bool) (scopes : List Frame) :
    inBreakable switchCounts (scopes.dropWhile Frame.isWaiting) =
      inBreakable switchCounts scopes := by
  induction scopes with
  | nil => rfl
  | cons frame rest ih =>
    by_cases waiting : frame.isWaiting
    · rw [List.dropWhile_cons_of_pos waiting, ih]
      cases frame <;> first | rfl | cases waiting
    · rw [List.dropWhile_cons_of_neg waiting]

/-- Waiting chains are no functions. -/
theorem any_isFunction_dropWhile (scopes : List Frame) :
    (scopes.dropWhile Frame.isWaiting).any Frame.isFunction = scopes.any Frame.isFunction := by
  induction scopes with
  | nil => rfl
  | cons frame rest ih =>
    by_cases waiting : frame.isWaiting
    · rw [List.dropWhile_cons_of_pos waiting, ih, List.any_cons]
      cases frame <;> first | rfl | cases waiting
    · rw [List.dropWhile_cons_of_neg waiting]

/-- Whether a keyword is misplaced does not depend on the chains that wait. -/
theorem Build.misplaced?_settle (s : Session) (stmt : Special) :
    misplaced? s.settle.scopes stmt = misplaced? s.scopes stmt := by
  cases stmt <;>
    simp only [misplaced?, Session.settle, inBreakable_dropWhile, any_isFunction_dropWhile]

namespace Session

variable {s after : Session} {call : Call} {roles : List Role}

/-- Whether everything may be appended in every scope but the innermost. -/
def Poised (s : Session) : Prop := ∀ frame ∈ s.scopes.tail, frame.accepts false

/-- An appended instruction leaves the scopes around the innermost. -/
@[simp]
theorem commit_tail (s : Session) (block : BlockId) (instr : Instruction) :
    (s.commit block instr).scopes.tail = s.scopes.tail := by
  unfold commit countParameter
  split
  case h_1 site parent var overload rest isScopes =>
    have isScopes : s.scopes = .function site parent var (some overload) :: rest := isScopes
    rw [isScopes]
    split <;> rfl
  case h_2 => rfl

/-- Where an instruction is accepted, all open scopes accept it. -/
theorem Poised.accepting (poised : s.Poised) (accepted : s.accepts false) :
    ∀ frame ∈ s.scopes, frame.accepts false := by
  unfold Poised at poised
  unfold accepts at accepted
  cases isScopes : s.scopes with
  | nil => exact fun _ isFrame => nomatch isFrame
  | cons top rest =>
    rw [isScopes] at poised accepted
    exact List.forall_mem_cons.mpr ⟨accepted, poised⟩

/-- It is so once the waiting chains are closed as well. -/
theorem Poised.settle (poised : s.Poised) : s.settle.Poised := by
  intro frame isFrame
  cases isScopes : s.scopes with
  | nil =>
    rw [Session.settle, isScopes] at isFrame
    cases isFrame
  | cons top rest =>
    rw [Session.settle, isScopes, List.dropWhile_cons] at isFrame
    rw [Poised, isScopes] at poised
    split_ifs at isFrame
    · exact poised frame ((List.dropWhile_suffix _).subset (List.mem_of_mem_tail isFrame))
    · exact poised frame isFrame

/-- Every move leaves the scopes around the innermost open to everything. -/
theorem Poised.move (placed : s.Placed) (poised : s.Poised) (move : Move s after) :
    after.Poised := by
  cases move with
  | register => exact poised
  | settle top =>
    rw [Poised, top] at poised
    exact fun frame isFrame => poised frame (List.mem_of_mem_tail isFrame)
  | append =>
    rw [Poised, commit_tail]
    exact poised
  | begin opens =>
    rw [opened_eq (placed.outsideSignature opens.accepted)]
    exact poised.accepting opens.accepted
  | grow | enter => exact poised
  | leave => exact fun frame isFrame => poised frame (List.mem_of_mem_tail isFrame)

/-- The scopes around the innermost are open to everything wherever calls lead without failing. -/
theorem poised_reached (options : BuildOptions) (calls : List Call)
    (sane : (reached options calls).failure = none) : (reached options calls).Poised := by
  refine (@reached_of_moves (fun s => s.Placed ∧ s.Poised) ?_ ?_ options calls sane).2
  · exact fun options => ⟨placed_start options, fun _ isFrame => nomatch isFrame⟩
  · exact fun _ _ kept move => ⟨kept.1.move move, .move kept.1 kept.2 move⟩

/-- What there is to know of a build for the walk from where it stands. -/
structure Rooted (s : Session) : Prop where
  sane : s.failure = none
  grounded : s.Grounded
  shaped : s.tree.Shaped
  poised : s.Poised

/-- The walk is known wherever calls lead without failing. -/
theorem rooted_reached (options : BuildOptions) (calls : List Call)
    (sane : (reached options calls).failure = none) : (reached options calls).Rooted where
  sane
  grounded := grounded_reached options calls sane
  shaped := shaped_reached options calls sane
  poised := poised_reached options calls sane

/-- Where a statement may be appended, the open scopes lead along the walk. -/
theorem Rooted.playing (rooted : s.Rooted) (accepted : s.settle.accepts false) :
    ∃ roles, s.tree.Walk s.current roles ∧ List.Forall₂ Frame.Plays s.settle.scopes roles ∧
      ∀ frame ∈ s.settle.scopes, frame.accepts false := by
  have settled := rooted.grounded.placed.moves (Build.moves_settle s)
  have accepting := rooted.poised.settle.accepting accepted
  have calm := calm_of_settled s.settle_settle settled.calm
  obtain ⟨roles, walk, playing⟩ :=
    settled.stacking.walk fun frame isFrame => ⟨accepting frame isFrame, calm frame isFrame⟩
  exact ⟨roles, walk, playing, accepting⟩

/-- Whether a call would succeed. -/
def Takes (s : Session) (call : Call) : Prop := ∃ reply after, call.run s = .ok reply after

/-- Whether keywords and returns are taken, and what is noted on a return, as the roles of a walk
outward say. -/
structure Decides (s : Session) (roles : List Role) : Prop where
  /-- A keyword is taken where it fits. -/
  keyword : ∀ stmt, s.Takes (.addStatement stmt) ↔ stmt.Fits roles
  /-- It goes to the end of the current block. -/
  pushed : ∀ stmt reply after, (Call.addStatement stmt).run s = .ok reply after →
    after.tree = s.tree.push s.current (.special stmt)
  /-- A return is taken in a function. -/
  returning : ∀ call value found, Call.returns? call = some (value, found) →
    (s.Takes call ↔ ∃ returns, .body returns ∈ roles)
  /-- It goes to the end of the current block, and what it says of its type is whether it is the
  type that the innermost function is declared to return. -/
  noted : ∀ call value found reply after, Call.returns? call = some (value, found) →
    call.run s = .ok reply after → ∃ returns, Role.returned? roles = some returns ∧
      after.tree = s.tree.push s.current
        (.ret value (if returns = found then none else some ⟨returns, found⟩))

/-- A keyword statement is taken where a statement may be appended and it is not misplaced. -/
theorem run_addStatement_iff {stmt : Special} {reply : Reply} :
    (Call.addStatement stmt).run s = .ok reply after ↔
      s.failure = none ∧ Build.misplaced? s.scopes stmt = none ∧ s.settle.accepts false ∧
        after = s.settle.commit s.current (.special stmt) ∧ reply = .done := by
  rw [Call.run, Build.map_ok_iff]
  simp only [Build.addStatement_ok_iff]
  constructor
  · rintro ⟨_, ⟨sane, placed, accepted, isAfter⟩, isReply⟩
    exact ⟨sane, placed, accepted, isAfter, isReply⟩
  · rintro ⟨sane, placed, accepted, isAfter, isReply⟩
    exact ⟨(), ⟨sane, placed, accepted, isAfter⟩, isReply⟩

/-- A return is taken where a statement may be appended inside a function. -/
theorem run_returning_iff {value : Option Expr} {found : Ty}
    (returning : call.returns? = some (value, found)) {reply : Reply} :
    call.run s = .ok reply after ↔
      s.failure = none ∧ (s.settle.accepts false ∧ ∃ expected,
        s.tree.returnType? s.current = some expected ∧
        after = s.settle.commit s.current
          (.ret value (if expected = found then none else some ⟨expected, found⟩))) ∧
      reply = .done := by
  have pushed : call.run = (fun _ => .done) <$> Build.guarded (Build.pushReturn value found) := by
    cases call <;> cases returning <;> rfl
  rw [pushed, Build.map_ok_iff]
  simp only [Build.guarded_ok_iff, Build.pushReturn_ok_iff]
  constructor
  · rintro ⟨_, ⟨sane, taken⟩, isReply⟩
    exact ⟨sane, taken, isReply⟩
  · rintro ⟨sane, taken, isReply⟩
    exact ⟨(), ⟨sane, taken⟩, isReply⟩

/-- Where a statement may be appended, the one walk outward decides on keywords and returns. -/
theorem Rooted.decides (rooted : s.Rooted) (accepted : s.settle.accepts false) :
    ∃ roles, (∀ other, s.tree.Walk s.current other ↔ other = roles) ∧ s.Decides roles := by
  obtain ⟨roles, walk, playing, accepting⟩ := rooted.playing accepted
  -- Keywords are checked before waiting chains are closed, but the walk is that of the rest.
  have fits : ∀ stmt, Build.misplaced? s.scopes stmt = none ↔ stmt.Fits roles := by
    intro stmt
    rw [← Build.misplaced?_settle]
    exact misplaced?_eq_none_iff playing accepting stmt
  have isReturned := walk.returnType?_eq rooted.grounded.linked rooted.shaped
  refine ⟨roles, fun other => ⟨fun walkToo => walkToo.unique rooted.grounded.linked walk, ?_⟩, ?_⟩
  · rintro rfl
    exact walk
  · exact {
      keyword := fun stmt => by
        rw [← fits stmt]
        constructor
        · rintro ⟨reply, after, ran⟩
          exact (run_addStatement_iff.mp ran).2.1
        · intro placed
          exact ⟨_, _, run_addStatement_iff.mpr ⟨rooted.sane, placed, accepted, rfl, rfl⟩⟩
      pushed := fun stmt reply after ran => by
        obtain ⟨-, -, -, rfl, -⟩ := run_addStatement_iff.mp ran
        exact commit_tree _ _ _
      returning := fun call value found returning => by
        rw [← exists_returned?_iff, ← isReturned]
        constructor
        · rintro ⟨reply, after, ran⟩
          obtain ⟨-, ⟨-, expected, isExpected, -⟩, -⟩ := (run_returning_iff returning).mp ran
          exact ⟨expected, isExpected⟩
        · rintro ⟨expected, isExpected⟩
          exact ⟨_, _, (run_returning_iff returning).mpr
            ⟨rooted.sane, ⟨accepted, expected, isExpected, rfl⟩, rfl⟩⟩
      noted := fun call value found reply after returning ran => by
        obtain ⟨-, ⟨-, expected, isExpected, rfl⟩, -⟩ := (run_returning_iff returning).mp ran
        rw [isReturned] at isExpected
        exact ⟨expected, isExpected, commit_tree _ _ _⟩ }

/-- What a call leaves of an instruction: its place and its blocks. -/
theorem Change.later (change : s.Change call after) (placed : s.Placed) {site : Address}
    {instr : Instruction} (isAt : s.tree.instruction? site = some instr) :
    ∃ later, after.tree.instruction? site = some later ∧ instr.roles ⊆ later.roles := by
  cases change with
  | kept tree => exact ⟨instr, by rw [tree, isAt], List.Subset.refl _⟩
  | pushed new kinds writes tree =>
    refine ⟨instr, ?_, List.Subset.refl _⟩
    rw [tree, placed.instruction?_pushed, if_neg]
    · exact isAt
    · rintro rfl
      rw [Session.site, Tree.instruction?_length] at isAt
      cases isAt
  | amended continued =>
    obtain ⟨frame, old, kinds, change, -, isOld, tree, amends⟩ := continued
    rw [tree, Tree.instruction?_amended isOld]
    by_cases here : site = frame.site
    · rw [here, isOld] at isAt
      obtain rfl := Option.some.inj isAt
      exact ⟨change old, if_pos here, amends.roles_subset⟩
    · exact ⟨instr, by rw [if_neg here, isAt], List.Subset.refl _⟩

/-- An instruction after a call was there before, opens a scope, or was pushed by the call. -/
theorem Change.earlier (change : s.Change call after) (placed : s.Placed) {site : Address}
    {instr : Instruction} (isAt : after.tree.instruction? site = some instr) :
    s.tree.instruction? site = some instr ∨ instr.kind.opens ∨
      site = s.site ∧ call.writes? = some instr.kind := by
  cases change with
  | kept tree => exact .inl (by rw [← tree, isAt])
  | pushed new kinds writes tree =>
    rw [tree, placed.instruction?_pushed] at isAt
    split_ifs at isAt with here
    · obtain rfl := Option.some.inj isAt
      exact .inr (.inr ⟨here, writes⟩)
    · exact .inl isAt
  | amended continued =>
    obtain ⟨frame, old, kinds, change, -, isOld, tree, amends⟩ := continued
    rw [tree, Tree.instruction?_amended isOld] at isAt
    split_ifs at isAt with here
    · rw [Option.some.inj isAt] at amends
      cases amends <;> exact .inr (.inl rfl)
    · exact .inl isAt

/-- What a call pushes stands where the walk outward allows it. -/
theorem Rooted.stands_pushed (rooted : s.Rooted) {reply : Reply} {instr : Instruction}
    (ran : call.run s = .ok reply after) (writes : call.writes? = some instr.kind)
    (isAt : after.tree.instruction? s.site = some instr) :
    ∃ roles, s.tree.Walk s.current roles ∧ instr.Stands roles := by
  have placed := rooted.grounded.placed
  have pushed : ∀ {new : Instruction}, after.tree = s.tree.push s.current new → instr = new := by
    intro new tree
    have isNew := placed.instruction?_pushed [] new s.site
    rw [Tree.addBlocks_nil, if_pos rfl, ← tree, isAt] at isNew
    exact Option.some.inj isNew
  cases instr with
  | special stmt =>
    obtain ⟨given, rfl⟩ : ∃ given, call = .addStatement given := by
      cases call <;> first | exact ⟨_, rfl⟩ | cases writes
    obtain ⟨roles, walk, decides⟩ := rooted.decides (run_addStatement_iff.mp ran).2.2.1
    obtain rfl := Instruction.special.inj (pushed (decides.pushed _ _ _ ran))
    exact ⟨roles, (walk roles).mpr rfl, (decides.keyword stmt).mp ⟨_, _, ran⟩⟩
  | ret value mismatch =>
    obtain ⟨⟨given, found⟩, returning⟩ : ∃ given, call.returns? = some given := by
      cases call <;> first | exact ⟨_, rfl⟩ | cases writes
    obtain ⟨roles, walk, decides⟩ := rooted.decides ((run_returning_iff returning).mp ran).2.1.1
    obtain ⟨returns, isReturned, tree⟩ := decides.noted _ _ _ _ _ returning ran
    obtain ⟨-, rfl⟩ := Instruction.ret.inj (pushed tree)
    refine ⟨roles, (walk roles).mpr rfl, returns, isReturned, ?_⟩
    intro noted isNoted
    rw [Option.mem_def, Option.ite_none_left_eq_some] at isNoted
    obtain ⟨differs, isNoted⟩ := isNoted
    obtain rfl := Option.some.inj isNoted
    exact ⟨rfl, Ne.symm differs⟩
  | _ =>
    obtain ⟨roles, walk⟩ := rooted.grounded.linked.exists_walk placed.current_known
    exact ⟨roles, walk, trivial⟩

end Session

/-- Whether every keyword and every return of a tree stands where the walk outward allows it. -/
def Tree.Apt (tree : Tree) : Prop :=
  ∀ site instr, tree.instruction? site = some instr →
    ∃ roles, tree.Walk site.block roles ∧ instr.Stands roles

namespace Session

variable {s after : Session} {call : Call}

/-- Every successful call leaves keywords and returns where they may stand. -/
theorem Rooted.apt_step (rooted : s.Rooted) (apt : s.tree.Apt) {reply : Reply}
    (ran : call.run s = .ok reply after) (goesOn : call ≠ .reset) : after.tree.Apt := by
  have placed := rooted.grounded.placed
  have change := placed.change ran goesOn
  have onward : ∀ {id roles}, s.tree.Walk id roles → after.tree.Walk id roles :=
    fun walk => walk.mono fun _ _ isAt => change.later placed isAt
  intro site instr isAt
  obtain wasAt | opens | ⟨rfl, writes⟩ := change.earlier placed isAt
  · obtain ⟨roles, walk, stands⟩ := apt site instr wasAt
    exact ⟨roles, onward walk, stands⟩
  · have grounded := (Call.moves ran goesOn).keeps (fun _ _ grounded => Grounded.move grounded)
      rooted.grounded
    obtain ⟨roles, walk⟩ := grounded.linked.exists_walk (Tree.known_of_instruction? isAt)
    refine ⟨roles, walk, ?_⟩
    cases instr with
    | special | ret => cases opens
    | _ => trivial
  · obtain ⟨roles, walk, stands⟩ := rooted.stands_pushed ran writes isAt
    exact ⟨roles, onward walk, stands⟩

/-- Keywords and returns stand where they may wherever calls lead without failing. -/
theorem apt_reached (options : BuildOptions) (calls : List Call)
    (sane : (reached options calls).failure = none) : (reached options calls).tree.Apt := by
  have atStart : ∀ options, (start options).tree.Apt := by
    intro options site instr isAt
    rw [start, Tree.instruction?_empty] at isAt
    cases isAt
  refine @reached_of_effects options (fun _ s => s.tree.Apt) (atStart options)
    (fun _ => atStart) ?_ calls sane
  intro calls call reply after _ apt goesOn ran _
  exact (rooted_reached options calls (Call.sane_of_ok ran goesOn)).apt_step apt ran goesOn

/-- Wherever a statement could be pushed, the one walk from its block outward decides which keywords
and returns could be pushed there, and what would be noted on a return; and in a finished shader
every keyword and every return stands where that walk allows it. -/
theorem placement_reached (options : BuildOptions) (calls : List Call) :
    (∀ text, (reached options calls).Takes (.addStatement (.vendor text)) →
      ∃ roles,
        (∀ other, (reached options calls).tree.Walk (reached options calls).current other ↔
          other = roles) ∧
        (reached options calls).Decides roles) ∧
    ∀ shader after, Build.finish (reached options calls) = .ok shader after →
      ∀ site instr, shader.tree.instruction? site = some instr →
        ∃ roles, (∀ other, shader.tree.Walk site.block other ↔ other = roles) ∧
          instr.Stands roles := by
  constructor
  · rintro text ⟨reply, after, ran⟩
    obtain ⟨sane, -, accepted, -⟩ := run_addStatement_iff.mp ran
    exact (rooted_reached options calls sane).decides accepted
  · intro shader after finished
    obtain ⟨sane, -, -, rfl⟩ := Build.finish_ok_iff.mp finished
    intro site instr isAt
    obtain ⟨roles, walk, stands⟩ := apt_reached options calls sane site instr isAt
    refine ⟨roles, fun other => ⟨fun walkToo => ?_, ?_⟩, stands⟩
    · exact walkToo.unique (grounded_reached options calls sane).linked walk
    · rintro rfl
      exact walk

/-- A chain of conditions waits in a case of a switch, in the recorded header of a loop, in the body
of a function: a `break` may stand there, a `continue` may not. -/
def headedCalls : List Call :=
  [.beginFunc "f" (.scalar .int), .nextOverload [], .beginFor, .beginForArgs,
   .beginSwitch (.literal (.int 1)), .addCase none, .beginIf (.literal (.bool true)),
   .endIfSubBlock]

/-- The calls that finish what `headedCalls` began, with a `break` in the case, and a `continue` and
a return of another type than the function returns in the body of the loop. -/
def closingCalls : List Call :=
  [.addStatement .breakLoop, .endSwitch, .beginForBody, .addStatement .continueLoop, .returnVoid,
   .endFor, .endFunc]

/-- After `headedCalls` the walk outward meets the case, the header and the body, and that decides;
after `closingCalls` all keywords and returns stand where they may. -/
theorem placement_reached_headed :
    (reached .standard headedCalls).Decides [.label, .header, .body (.scalar .int)] ∧
      ∃ shader after,
        Build.finish (reached .standard (headedCalls ++ closingCalls)) = .ok shader after ∧
        ∀ site instr, shader.tree.instruction? site = some instr →
          ∃ roles, (∀ other, shader.tree.Walk site.block other ↔ other = roles) ∧
            instr.Stands roles := by
  constructor
  · obtain ⟨roles, walk, decides⟩ := (placement_reached .standard headedCalls).1 "" ⟨_, _, rfl⟩
    have isWalk : (reached .standard headedCalls).tree.Walk ⟨5⟩
        [.label, .header, .body (.scalar .int)] :=
      @Tree.Walk.out _ ⟨⟨3⟩, 0⟩ _ _ _ _ rfl List.mem_cons_self <|
        @Tree.Walk.out _ ⟨⟨2⟩, 0⟩ _ _ _ _ rfl List.mem_cons_self <|
          @Tree.Walk.out _ ⟨.root, 0⟩ _ _ _ _ rfl (List.mem_cons_of_mem _ List.mem_cons_self) .top
    rw [(walk _).mp isWalk]
    exact decides
  · exact ⟨_, _, rfl, (placement_reached .standard (headedCalls ++ closingCalls)).2 _ _ rfl⟩

end Session

end ShaderLoom
