import ShaderLoom.Proofs.Census

/-!
# Kinds of blocks

The blocks in the slots of an instruction are of the kinds that the instruction asks for, and the
main block is of its own kind (`Tree.Shaped`), wherever calls lead without failing. An instruction
that stands in the tree after a call stood there before, was pushed to the current block or was
amended (`Session.Origin`).
-/
namespace ShaderLoom

namespace Tree

/-- The kind of a block. -/
def kind? (tree : Tree) (id : BlockId) : Option BlockKind := (tree.block? id).map (·.kind)

variable {tree before after : Tree}

/-- A kept block keeps its kind. -/
theorem Keeps.kind?_eq (keeps : before.Keeps after) {id : BlockId}
    (known : id.index < before.size) :
    after.kind? id = before.kind? id := by
  obtain ⟨block, found⟩ := exists_block known
  obtain ⟨instructions, foundAfter⟩ := keeps id block found
  rw [kind?, kind?, found, foundAfter]
  rfl

/-- A known block has a kind. -/
theorem exists_kind {id : BlockId} (known : id.index < tree.size) :
    ∃ kind, tree.kind? id = some kind := by
  obtain ⟨block, found⟩ := exists_block known
  exact ⟨block.kind, by rw [kind?, found]; rfl⟩

/-- New blocks are of their kinds. -/
theorem map_kind?_fresh (tree : Tree) (parent : BlockId) (kinds : List BlockKind) :
    (tree.fresh kinds.length).map (tree.addBlocks parent kinds).kind? = kinds.map some := by
  apply List.ext_getElem?
  intro position
  rw [fresh, List.map_map, List.getElem?_map, List.getElem?_map]
  cases isKind : kinds[position]? with
  | none =>
    have long : kinds.length ≤ position := List.getElem?_eq_none_iff.mp isKind
    simp [long]
  | some kind =>
    have short : position < kinds.length := (List.getElem?_eq_some_iff.mp isKind).1
    rw [List.getElem?_range' short]
    simp [kind?, block?_addBlocks_new isKind]

/-- Whether the blocks in the slots of an instruction are of the kinds they should be. -/
def Suits (tree : Tree) (instr : Instruction) : Prop :=
  instr.slots.map tree.kind? = instr.kinds.map some

/-- Kept blocks are of the kinds they were. -/
theorem Suits.keep {instr : Instruction} (suits : before.Suits instr) (keeps : before.Keeps after)
    (known : ∀ id ∈ instr.slots, id.index < before.size) : after.Suits instr := by
  unfold Suits
  rw [← suits]
  exact List.map_congr_left fun id isSlot => keeps.kind?_eq (known id isSlot)

/-- The new blocks of an instruction are of the kinds they should be, whatever else is done to the
tree. -/
theorem map_kind?_grown {parent : BlockId} {kinds : List BlockKind}
    (keeps : (tree.addBlocks parent kinds).Keeps after) :
    (tree.fresh kinds.length).map after.kind? = kinds.map some := by
  rw [← map_kind?_fresh tree parent kinds]
  apply List.map_congr_left
  intro id isNew
  apply keeps.kind?_eq
  rw [size_addBlocks]
  exact (mem_fresh.mp isNew).2

/-- The block in a slot is of one of the kinds of the instruction. -/
theorem Suits.kind_of_slot {instr : Instruction} (suits : tree.Suits instr) {id : BlockId}
    (isSlot : id ∈ instr.slots) : ∃ kind ∈ instr.kinds, tree.kind? id = some kind := by
  have isKind : tree.kind? id ∈ instr.kinds.map some := by
    rw [← suits]
    exact List.mem_map_of_mem isSlot
  obtain ⟨kind, isKind, isSome⟩ := List.mem_map.mp isKind
  exact ⟨kind, isKind, isSome.symm⟩

/-- The blocks of an overload are a parameter list and a body. -/
theorem Suits.overload {decl : FunctionDecl} (suits : tree.Suits (.function decl))
    {overload : Overload} (isOverload : overload ∈ decl.overloads) :
    tree.kind? overload.args = some .funcArgs ∧
      tree.kind? overload.body = some (.body decl.returns) := by
  have pairs : ∀ overloads : List Overload,
      (overloads.flatMap fun overload => [overload.args, overload.body]).map tree.kind? =
        (overloads.flatMap fun _ => [.funcArgs, .body decl.returns]).map some →
      ∀ overload ∈ overloads, tree.kind? overload.args = some .funcArgs ∧
        tree.kind? overload.body = some (.body decl.returns) := by
    intro overloads
    induction overloads with
    | nil => exact fun _ _ isOverload => nomatch isOverload
    | cons first rest ih =>
      intro same
      simp only [List.flatMap_cons, List.map_cons, List.cons_append, List.nil_append,
        List.cons.injEq] at same
      exact List.forall_mem_cons.mpr ⟨⟨same.1, same.2.1⟩, ih same.2.2⟩
  exact pairs decl.overloads suits overload isOverload

end Tree

/-- The blocks of the open overload are a parameter list and a body. -/
theorem Tree.Suits.opened {tree : Tree} {instr : Instruction} (suits : tree.Suits instr)
    {site : Address} {parent : BlockId} {var : VarId} {overload : OpenOverload}
    (fits : (Frame.function site parent var (some overload)).Fits instr) :
    tree.kind? overload.args = some .funcArgs ∧
      ∃ returns, tree.kind? overload.body = some (.body returns) := by
  obtain ⟨decl, rfl, -, isLast, -⟩ := Frame.fits_function_iff.mp fits
  obtain ⟨last, isLast, blocks⟩ := Option.map_eq_some_iff.mp isLast.symm
  simp only [Prod.mk.injEq] at blocks
  have kinds := suits.overload (List.mem_of_getLast? isLast)
  rw [blocks.1, blocks.2.1] at kinds
  exact ⟨kinds.1, decl.returns, kinds.2⟩

/-- Only a function has a parameter list. -/
theorem Instruction.function_of_funcArgs {instr : Instruction} (isKind : .funcArgs ∈ instr.kinds) :
    instr.kind = .function := by
  cases instr with
  | function => rfl
  | forLoop header => cases header <;> simp [kinds] at isKind
  | _ => simp [kinds] at isKind

/-- Whether every block in a slot is of the kind it should be, and the main block of its own. -/
structure Tree.Shaped (tree : Tree) : Prop where
  root : tree.kind? .root = some .main
  suits : ∀ site instr, tree.instruction? site = some instr → tree.Suits instr

/-- A tree with a main block has a block. -/
theorem Tree.Shaped.rooted {tree : Tree} (shaped : tree.Shaped) : 0 < tree.size := by
  by_contra isEmpty
  have absent : tree.block? .root = none := Tree.block?_eq_none_iff.mpr (Nat.le_of_not_lt isEmpty)
  have isMain := shaped.root
  simp [Tree.kind?, absent] at isMain

namespace Session

variable {s after : Session} {call : Call} {site : Address} {instr : Instruction}

/-- The header of a loop is a block of that kind. -/
theorem inHeader_iff : s.inHeader ↔ s.tree.kind? s.current = some .forArgs := by
  unfold inHeader Tree.kind?
  cases s.tree.block? s.current <;> simp

/-- Where an instruction comes from that stands in the tree after a call. -/
inductive Origin (s : Session) (call : Call) (site : Address) (instr : Instruction) : Prop where
  /-- It was there before. -/
  | old (isAt : s.tree.instruction? site = some instr)
  /-- It was pushed to the current block. -/
  | pushed (here : site.block = s.current) (appends : call.appends) (adds : s.Appends call instr)
    (accepted : s.settle.accepts instr.isParameter)
  /-- It took the place of an instruction that opened a scope. -/
  | amended (old : Instruction) (isAt : s.tree.instruction? site = some old)
    (opens : old.kind.opens) (same : instr.kind = old.kind)
    (exprs : instr.exprs.Subperm (old.exprs ++ call.exprs)) (names : instr.names? = old.names?)

/-- The current block is there after blocks were added. -/
theorem Placed.current_lt (placed : s.Placed) (parent : BlockId) (kinds : List BlockKind) :
    s.current.index < (s.tree.addBlocks parent kinds).size := by
  have := placed.current_known
  rw [Tree.size_addBlocks]
  omega

/-- Every instruction after a call comes from somewhere. -/
theorem Effect.origin (effect : s.Effect call after) (placed : s.Placed)
    (isAt : after.tree.instruction? site = some instr) : s.Origin call site instr := by
  cases effect with
  | kept _ tree _ =>
    rw [tree] at isAt
    exact .old isAt
  | pushed pushed appends adds accepted _ tree _ =>
    rw [tree, Tree.instruction?_pushed placed.current_known] at isAt
    split_ifs at isAt with here
    · obtain rfl := Option.some.inj isAt
      exact .pushed (congrArg Address.block here) appends adds accepted
    · exact .old isAt
  | amended frame kinds change old _ _ found opens same _ _ exprs names tree =>
    rw [tree, Tree.instruction?_amended found] at isAt
    split_ifs at isAt with here
    · obtain rfl := Option.some.inj isAt
      rw [← here] at found
      exact .amended old found opens same exprs names
    · exact .old isAt

/-- A call keeps the blocks that are there. -/
theorem Effect.tree_keeps (effect : s.Effect call after) : s.tree.Keeps after.tree := by
  cases effect with
  | kept _ tree _ =>
    rw [tree]
    exact .refl _
  | pushed instr _ _ _ _ tree _ =>
    rw [tree]
    exact (Tree.keeps_addBlocks _ _ _).trans (Tree.keeps_push _ _ _)
  | amended _ _ _ _ _ _ _ _ _ _ _ _ _ tree _ =>
    rw [tree]
    exact (Tree.keeps_addBlocks _ _ _).trans (Tree.keeps_amend _ _ _)

/-- The new blocks of a call are of the kinds they should be. -/
theorem Effect.shaped (effect : s.Effect call after) (placed : s.Placed)
    (shaped : s.tree.Shaped) : after.tree.Shaped := by
  have keeps := effect.tree_keeps
  have old : ∀ site instr, s.tree.instruction? site = some instr → after.tree.Suits instr := by
    intro site instr isAt
    refine (shaped.suits site instr isAt).keep keeps ?_
    intro id isSlot
    apply placed.slots site
    rw [Tree.slotsAt, isAt]
    exact isSlot
  refine ⟨(keeps.kind?_eq placed.rooted).trans shaped.root, ?_⟩
  intro site found isAt
  cases effect with
  | kept _ tree _ =>
    rw [tree] at isAt
    exact old site found isAt
  | pushed instr _ _ _ slots tree _ =>
    rw [tree, Tree.instruction?_pushed placed.current_known] at isAt
    split_ifs at isAt with here
    · obtain rfl := Option.some.inj isAt
      rw [Tree.Suits, slots, tree]
      exact Tree.map_kind?_grown (Tree.keeps_push _ _ _)
    · exact old site found isAt
  | amended frame kinds change instr _ _ isInstr _ _ slots grown _ _ tree _ =>
    have suits := old _ _ isInstr
    rw [tree, Tree.instruction?_amended isInstr] at isAt
    split_ifs at isAt with here
    · obtain rfl := Option.some.inj isAt
      rw [Tree.Suits, slots, grown, List.map_append, List.map_append, suits, tree,
        Tree.map_kind?_grown (Tree.keeps_amend _ _ _)]
    · exact old site found isAt

/-- The tree every build starts with holds the main block and no instruction. -/
theorem shaped_start (options : BuildOptions) : (start options).tree.Shaped where
  root := rfl
  suits site instr isAt := by
    rw [start, Tree.instruction?_empty] at isAt
    cases isAt

/-- Blocks are of the kinds they should be wherever calls lead without failing. -/
theorem shaped_reached (options : BuildOptions) (calls : List Call)
    (sane : (reached options calls).failure = none) : (reached options calls).tree.Shaped := by
  refine @reached_of_effects options (fun _ s => s.tree.Shaped) ?_ ?_ ?_ calls sane
  · exact shaped_start options
  · exact fun _ options => shaped_start options
  · exact fun _ _ _ _ placed shaped _ _ effect => effect.shaped placed shaped

end Session

/-- All blocks but the main one. -/
def Tree.inner (tree : Tree) : List BlockId := (List.range' 1 (tree.size - 1)).map BlockId.mk

/-- Going through the blocks by number is going through the blocks. -/
theorem Tree.map_block? (tree : Tree) :
    ((List.range tree.size).map fun index => tree.block? ⟨index⟩) =
      tree.blocks.toList.map some := by
  apply List.ext_getElem
  · simp [size]
  · intro index _ _
    simp [block?]

/-- What is gathered from all blocks by number is gathered from the blocks. -/
theorem Tree.flatMap_block? {α : Type} {tree : Tree} (rooted : 0 < tree.size)
    (held : Block → List α) :
    ((.root :: tree.inner).flatMap fun id => (tree.block? id).elim [] held) =
      tree.blocks.toList.flatMap held := by
  have isAll : .root :: tree.inner = (List.range tree.size).map BlockId.mk := by
    obtain ⟨rest, isSize⟩ := Nat.exists_eq_succ_of_ne_zero (Nat.ne_of_gt rooted)
    rw [inner, isSize, List.range_eq_range', List.range'_succ]
    rfl
  have isBlocks : ((.root :: tree.inner).map tree.block?) = tree.blocks.toList.map some := by
    rw [isAll, List.map_map]
    exact tree.map_block?
  have gathered := congrArg (List.flatMap fun found => Option.elim found [] held) isBlocks
  rw [List.flatMap_map, List.flatMap_map] at gathered
  exact gathered

/-- New blocks are the last of all. -/
theorem Tree.inner_grown {tree after : Tree} (rooted : 0 < tree.size) {count : Nat}
    (size : after.size = tree.size + count) : after.inner = tree.inner ++ tree.fresh count := by
  rw [inner, inner, fresh, ← List.map_append, size]
  congr 1
  have isNext : tree.size = 1 + 1 * (tree.size - 1) := by omega
  rw [show tree.size + count - 1 = tree.size - 1 + count by omega, ← List.range'_append, ← isNext]

namespace Session

/-- Every block but the main one stands in one slot. -/
theorem slots_perm_reached (options : BuildOptions) (calls : List Call)
    (sane : (reached options calls).failure = none) :
    ((reached options calls).tree.instructions.flatMap Instruction.slots).Perm
      (reached options calls).tree.inner := by
  have atStart : ∀ options, ((start options).tree.instructions.flatMap Instruction.slots).Perm
      (start options).tree.inner := fun _ => .refl _
  refine @reached_of_effects options
    (fun _ s => (s.tree.instructions.flatMap Instruction.slots).Perm s.tree.inner) (atStart options)
    (fun _ => atStart) ?_ calls sane
  intro before call reply after placed isPerm _ _ effect
  cases effect with
  | kept _ tree _ =>
    rw [tree]
    exact isPerm
  | pushed instr _ _ _ slots tree _ =>
    have pushed := (Tree.instructions_pushed placed.current_known instr.kinds instr).flatMap_right
      Instruction.slots
    rw [tree, Tree.inner_grown placed.rooted (by rw [Tree.size_push, Tree.size_addBlocks])]
    refine pushed.trans ?_
    rw [List.flatMap_cons, slots]
    exact List.perm_append_comm.trans (isPerm.append_right _)
  | amended frame kinds change instr _ _ found _ _ slots _ _ _ tree _ =>
    obtain ⟨rest, was, amended⟩ := Tree.instructions_amended found frame.site.block kinds change
    have wasPerm := (was.flatMap_right Instruction.slots).symm.trans isPerm
    rw [List.flatMap_cons] at wasPerm
    rw [tree, Tree.inner_grown placed.rooted (by rw [Tree.size_amend, Tree.size_addBlocks])]
    refine (amended.flatMap_right Instruction.slots).trans ?_
    rw [List.flatMap_cons, slots, List.append_assoc]
    refine (List.perm_append_comm.append_left _).trans ?_
    rw [← List.append_assoc]
    exact wasPerm.append_right _

end Session

end ShaderLoom
