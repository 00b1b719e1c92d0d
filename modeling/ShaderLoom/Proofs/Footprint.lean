import ShaderLoom.Proofs.Ownership

/-!
# What calls leave alone

Every move of a build keeps the kind and the parent of every block (`Tree.Keeps`), so a block stays
inside the function it was made in. `Tree.Alters` says more of a single block: its instructions were
changed in one way, and the other blocks below a bound were not touched at all.
-/
namespace ShaderLoom

namespace Tree

variable {tree before middle after : Tree}

/-- Whether every block is still there, of the same kind and under the same parent. -/
def Keeps (before after : Tree) : Prop :=
  ∀ id block, before.block? id = some block →
    ∃ instructions, after.block? id = some { block with instructions }

/-- A tree keeps its own blocks. -/
theorem Keeps.refl (tree : Tree) : tree.Keeps tree := fun _ block found =>
  ⟨block.instructions, found⟩

/-- What is kept twice is kept. -/
theorem Keeps.trans (first : before.Keeps middle) (second : middle.Keeps after) :
    before.Keeps after := by
  intro id block found
  obtain ⟨between, found⟩ := first id block found
  exact second id { block with instructions := between } found

/-- A new block leaves the others. -/
theorem keeps_addBlock (tree : Tree) (parent : BlockId) (kind : BlockKind) :
    tree.Keeps (tree.addBlock parent kind) := by
  intro id block found
  refine ⟨block.instructions, ?_⟩
  rw [block?_addBlock, if_neg]
  · exact found
  · rintro rfl
    rw [block?_next] at found
    cases found

/-- New blocks leave the others. -/
theorem keeps_addBlocks (tree : Tree) (parent : BlockId) (kinds : List BlockKind) :
    tree.Keeps (tree.addBlocks parent kinds) := by
  induction kinds generalizing tree with
  | nil => exact .refl tree
  | cons kind kinds ih => exact (keeps_addBlock tree parent kind).trans (ih _)

/-- A push changes no block's kind or parent. -/
theorem keeps_push (tree : Tree) (id : BlockId) (instr : Instruction) :
    tree.Keeps (tree.push id instr) := by
  intro other block found
  rw [block?_push]
  by_cases same : other = id
  · rw [if_pos same, ← same, found]
    exact ⟨_, rfl⟩
  · rw [if_neg same]
    exact ⟨block.instructions, found⟩

/-- An amendment changes no block's kind or parent. -/
theorem keeps_amend (tree : Tree) (site : Address) (change : Instruction → Instruction) :
    tree.Keeps (tree.amend site change) := by
  intro other block found
  rw [block?_amend]
  by_cases same : other = site.block
  · rw [if_pos same, ← same, found]
    exact ⟨_, rfl⟩
  · rw [if_neg same]
    exact ⟨block.instructions, found⟩

/-- A tree that keeps its blocks does not shrink. -/
theorem Keeps.size_le (keeps : before.Keeps after) : before.size ≤ after.size := by
  by_contra shrunk
  have known : before.block? ⟨after.size⟩ ≠ none := by
    rw [Ne, block?_eq_none_iff]
    exact shrunk
  obtain ⟨block, found⟩ := Option.ne_none_iff_exists'.mp known
  obtain ⟨instructions, found⟩ := keeps _ block found
  have unknown : after.block? ⟨after.size⟩ = none := block?_eq_none_iff.mpr (Nat.le_refl _)
  rw [unknown] at found
  cases found

/-- A block is known by its number. -/
theorem exists_block {id : BlockId} (known : id.index < tree.size) :
    ∃ block, tree.block? id = some block := by
  rw [← Option.ne_none_iff_exists', Ne, block?_eq_none_iff]
  omega

/-- A block stays inside the function it was made in, however far one looks up. -/
theorem Keeps.returnTypeWithin_eq (keeps : before.Keeps after) (linked : before.Linked)
    (steps : Nat) {id : BlockId} (known : id.index < before.size) :
    after.returnTypeWithin steps id = before.returnTypeWithin steps id := by
  induction steps generalizing id with
  | zero => rfl
  | succ steps ih =>
    obtain ⟨block, found⟩ := exists_block known
    obtain ⟨instructions, foundAfter⟩ := keeps id block found
    rw [returnTypeWithin, returnTypeWithin, found, foundAfter]
    have above : ∀ parent, block.parent = some parent →
        after.returnTypeWithin steps parent = before.returnTypeWithin steps parent := by
      intro parent isParent
      have isParent : before.parent? id = some parent := by simp [parent?, found, isParent]
      have := linked.parent_lt isParent
      exact ih (by omega)
    obtain ⟨number, parent, kind, old⟩ := block
    cases kind <;> cases parent <;> simp_all

/-- A block stays inside the function it was made in. -/
theorem Keeps.returnType?_eq (keeps : before.Keeps after) (linked : before.Linked) {id : BlockId}
    (known : id.index < before.size) : after.returnType? id = before.returnType? id :=
  keeps.returnTypeWithin_eq linked (id.index + 1) known

/-- As many steps up as a block's number reach the top. -/
theorem Linked.returnTypeWithin_enough (linked : tree.Linked) {steps : Nat} {id : BlockId}
    (enough : id.index < steps) : tree.returnTypeWithin steps id = tree.returnType? id := by
  obtain ⟨index⟩ := id
  induction index using Nat.strongRecOn generalizing steps with
  | _ index ih =>
    cases steps with
    | zero => exact absurd enough (Nat.not_lt_zero _)
    | succ steps =>
      rw [returnType?, returnTypeWithin, returnTypeWithin]
      cases found : tree.block? ⟨index⟩ with
      | none => rfl
      | some block =>
        have above : ∀ parent, block.parent = some parent →
            tree.returnTypeWithin steps parent = tree.returnTypeWithin index parent := by
          intro parent isParent
          have isParent : tree.parent? ⟨index⟩ = some parent := by
            simp [parent?, found, isParent]
          have below := (linked.parent_lt isParent).1
          rw [ih parent.index below (Nat.lt_of_lt_of_le below (Nat.le_of_lt_succ enough)),
            ih parent.index below below]
        obtain ⟨number, parent, kind, old⟩ := block
        cases kind <;> cases parent <;> simp_all

/-- A block that is no function body lies in the function its parent lies in. -/
theorem Linked.returnType?_under (linked : tree.Linked) {id parent : BlockId} {block : Block}
    (found : tree.block? id = some block) (isParent : block.parent = some parent)
    (inner : ∀ returns, block.kind ≠ .body returns) :
    tree.returnType? id = tree.returnType? parent := by
  have isParentToo : tree.parent? id = some parent := by simp [parent?, found, isParent]
  rw [← linked.returnTypeWithin_enough (linked.parent_lt isParentToo).1, returnType?,
    returnTypeWithin, found]
  obtain ⟨number, above, kind, old⟩ := block
  cases kind <;> simp_all

/-- A function body lies in its function. -/
theorem returnType?_body {id : BlockId} {block : Block} {returns : Ty}
    (found : tree.block? id = some block) (isBody : block.kind = .body returns) :
    tree.returnType? id = some returns := by
  rw [returnType?, returnTypeWithin, found]
  simp [isBody]

/-- New blocks leave the look-up of the others. -/
theorem block?_addBlocks_old {id : BlockId} (known : id.index < tree.size) (parent : BlockId)
    (kinds : List BlockKind) : (tree.addBlocks parent kinds).block? id = tree.block? id := by
  induction kinds generalizing tree with
  | nil => rfl
  | cons kind kinds ih =>
    rw [addBlocks_cons, ih (by rw [size_addBlock]; omega), block?_addBlock, if_neg]
    rintro rfl
    exact Nat.lt_irrefl _ known

/-- New blocks are empty, of their kinds and under their parent. -/
theorem block?_addBlocks_new {parent : BlockId} {kinds : List BlockKind} {position : Nat}
    {kind : BlockKind} (isKind : kinds[position]? = some kind) :
    (tree.addBlocks parent kinds).block? ⟨tree.size + position⟩ =
      some ⟨⟨tree.size + position⟩, some parent, kind, #[]⟩ := by
  induction kinds generalizing tree position with
  | nil => cases isKind
  | cons first kinds ih =>
    rw [addBlocks_cons]
    cases position with
    | zero =>
      obtain rfl := Option.some.inj isKind
      rw [block?_addBlocks_old (by simp), block?_addBlock]
      exact if_pos rfl
    | succ position =>
      have rest := @ih (tree.addBlock parent first) position isKind
      rw [size_addBlock, Nat.add_assoc, Nat.add_comm 1] at rest
      exact rest

/-- One block's instructions were changed, and no other block with a number below `base`. -/
structure Alters (base : Nat) (before after : Tree) (id : BlockId)
    (change : Array Instruction → Array Instruction) : Prop where
  here : after.block? id =
    (before.block? id).map fun block =>
      { block with instructions := change block.instructions }
  others : ∀ other, other.index < base → other ≠ id → after.block? other = before.block? other

variable {base inner : Nat} {id : BlockId} {first second : Array Instruction → Array Instruction}

/-- Nothing is changed by doing nothing. -/
theorem Alters.refl (base : Nat) (tree : Tree) (id : BlockId) :
    Alters base tree tree id (fun instrs => instrs) where
  here := by simp
  others _ _ _ := rfl

/-- One change after another is one change. -/
theorem Alters.trans (alters : Alters base before middle id first)
    (altersToo : Alters base middle after id second) :
    Alters base before after id (fun instrs => second (first instrs)) where
  here := by
    rw [altersToo.here, alters.here, Option.map_map]
    rfl
  others other below isOther := by
    rw [altersToo.others other below isOther, alters.others other below isOther]

/-- What is left alone up to a bound is left alone up to a lower one. -/
theorem Alters.mono (alters : Alters inner before after id first) (lower : base ≤ inner) :
    Alters base before after id first where
  here := alters.here
  others other below := alters.others other (Nat.lt_of_lt_of_le below lower)

/-- Only what becomes of the block's own instructions matters. -/
theorem Alters.congr (alters : Alters base before after id first)
    (same : ∀ block, before.block? id = some block →
      first block.instructions = second block.instructions) :
    Alters base before after id second where
  here := by
    rw [alters.here]
    cases found : before.block? id with
    | none => rfl
    | some block => rw [Option.map_some, Option.map_some, same block found]
  others := alters.others

/-- The instructions of a block that was left alone are what they were. -/
theorem Alters.instruction?_eq (alters : Alters base before after id first) {site : Address}
    (below : site.block.index < base) (isOther : site.block ≠ id) :
    after.instruction? site = before.instruction? site := by
  unfold instruction?
  rw [alters.others site.block below isOther]

/-- A change of a block above the bound changes nothing below it. -/
theorem Alters.elsewhere {other : BlockId} (alters : Alters inner before after other first)
    (lower : base ≤ inner) (above : base ≤ other.index) (below : id.index < base) :
    Alters base before after id (fun instrs => instrs) where
  here := by
    rw [alters.others id (Nat.lt_of_lt_of_le below lower) (by rintro rfl; omega)]
    simp
  others another belowToo _ :=
    alters.others another (Nat.lt_of_lt_of_le belowToo lower) (by rintro rfl; omega)

/-- An instruction is pushed after its blocks were made. -/
theorem alters_push (known : id.index < tree.size) (lower : base ≤ tree.size)
    (kinds : List BlockKind) (instr : Instruction) :
    Alters base tree ((tree.addBlocks id kinds).push id instr) id (·.push instr) where
  here := by rw [block?_push, if_pos rfl, block?_addBlocks_old known]
  others other below isOther := by
    rw [block?_push, if_neg isOther, block?_addBlocks_old (by omega)]

/-- An instruction is amended after its new blocks were made. -/
theorem alters_amend {site : Address} (known : site.block.index < tree.size)
    (lower : base ≤ tree.size) (kinds : List BlockKind) (change : Instruction → Instruction) :
    Alters base tree ((tree.addBlocks site.block kinds).amend site change) site.block
      (·.modify site.index change) where
  here := by rw [block?_amend, if_pos rfl, block?_addBlocks_old known]
  others other below isOther := by
    rw [block?_amend, if_neg isOther, block?_addBlocks_old (by omega)]

end Tree

/-- A move keeps every block. -/
theorem Move.keeps {s after : Session} (move : Move s after) : s.tree.Keeps after.tree := by
  cases move with
  | register | settle | enter | leave => exact .refl s.tree
  | append =>
    rw [Session.commit_tree]
    exact Tree.keeps_push _ _ _
  | begin =>
    rw [Session.opened, Session.commit_tree]
    exact (Tree.keeps_addBlocks _ _ _).trans (Tree.keeps_push _ _ _)
  | grow =>
    exact (Tree.keeps_addBlocks _ _ _).trans (Tree.keeps_amend _ _ _)

/-- Moves keep every block. -/
theorem Moves.tree_keeps {s after : Session} (moves : Moves s after) :
    s.tree.Keeps after.tree := by
  induction moves with
  | refl => exact .refl s.tree
  | tail _ move ih => exact ih.trans move.keeps

/-- Counting a parameter is no failure. -/
theorem Session.commit_failure (s : Session) (block : BlockId) (instr : Instruction) :
    (s.commit block instr).failure = s.failure := by
  unfold Session.commit Session.countParameter
  split
  · split <;> rfl
  · rfl

/-- A move neither fails nor forgets a failure. -/
theorem Move.failure_eq {s after : Session} (move : Move s after) :
    after.failure = s.failure := by
  cases move with
  | append => exact Session.commit_failure _ _ _
  | begin => exact Session.commit_failure _ _ _
  | _ => rfl

/-- Moves neither fail nor forget a failure. -/
theorem Moves.failure_eq {s after : Session} (moves : Moves s after) :
    after.failure = s.failure := by
  induction moves with
  | refl => rfl
  | tail _ move ih => rw [move.failure_eq, ih]

end ShaderLoom
