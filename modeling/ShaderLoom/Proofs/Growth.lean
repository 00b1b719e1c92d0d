import Mathlib.Data.List.Nodup
import Mathlib.Tactic.Common
import ShaderLoom.Tree

/-!
# How trees grow

A tree is seen through three things: how many blocks it has, the parent of each, and the instruction
at each address. Here is what adding a block, pushing an instruction and amending one do to each of
them, and `Tree.Extends`, the one way in which a build changes its tree: new blocks under the block
of one instruction, which takes them all into its slots.
-/
namespace ShaderLoom

/-- The blocks that belong to an instruction. -/
def Instruction.slots : Instruction → List BlockId
  | .branch cases => cases.map IfCase.body
  | .forLoop (.recorded args _ _) body => [args, body]
  | .forLoop (.clauses _) body => [body]
  | .whileLoop _ body => [body]
  | .doWhile body _ => [body]
  | .switch _ cases => cases.map SwitchCase.body
  | .function decl => decl.overloads.flatMap fun overload => [overload.args, overload.body]
  | _ => []

namespace Tree

/-- The blocks that belong to the instruction at an address. -/
def slotsAt (tree : Tree) (site : Address) : List BlockId :=
  (tree.instruction? site).elim [] Instruction.slots

/-- The numbers the next blocks get. -/
def fresh (tree : Tree) (count : Nat) : List BlockId :=
  (List.range' tree.size count).map BlockId.mk

/-- A tree with more blocks under one parent. -/
def addBlocks (tree : Tree) (parent : BlockId) (kinds : List BlockKind) : Tree :=
  kinds.foldl (fun tree kind => tree.addBlock parent kind) tree

/-- A block is there when its number is in use. -/
theorem block?_eq_none_iff {tree : Tree} {id : BlockId} :
    tree.block? id = none ↔ tree.size ≤ id.index := by
  unfold block? size
  simp

/-- There is no next block yet. -/
@[simp]
theorem block?_next (tree : Tree) : tree.block? tree.next = none := by
  rw [block?_eq_none_iff]
  exact Nat.le_refl _

/-- The next block is none of those that are there. -/
theorem next_ne {tree : Tree} {id : BlockId} (known : id.index < tree.size) : tree.next ≠ id := by
  rintro rfl
  exact Nat.lt_irrefl _ known

/-- A new block is empty, and no other block changes its length. -/
@[simp]
theorem length_addBlock (tree : Tree) (parent : BlockId) (kind : BlockKind) (id : BlockId) :
    (tree.addBlock parent kind).length id = tree.length id := by
  unfold length
  rw [block?_addBlock]
  by_cases isNext : id = tree.next
  · simp [isNext]
  · simp [isNext]

/-- A new block holds no instruction. -/
@[simp]
theorem instruction?_addBlock (tree : Tree) (parent : BlockId) (kind : BlockKind)
    (site : Address) : (tree.addBlock parent kind).instruction? site = tree.instruction? site := by
  unfold instruction?
  rw [block?_addBlock]
  by_cases isNext : site.block = tree.next
  · simp [isNext]
  · simp [isNext]

/-- The new block gets its parent, and no other block changes its own. -/
theorem parent?_addBlock (tree : Tree) (parent : BlockId) (kind : BlockKind) (id : BlockId) :
    (tree.addBlock parent kind).parent? id =
      if id = tree.next then some parent else tree.parent? id := by
  unfold parent?
  rw [block?_addBlock]
  by_cases isNext : id = tree.next
  · simp [isNext]
  · simp [isNext]

/-- The pushed instruction stands at the end of its block, and every other one stays. -/
theorem instruction?_push {tree : Tree} {id : BlockId} (known : id.index < tree.size)
    (instr : Instruction) (site : Address) :
    (tree.push id instr).instruction? site =
      if site = ⟨id, tree.length id⟩ then some instr else tree.instruction? site := by
  obtain ⟨block, position⟩ := site
  obtain ⟨found, isFound⟩ : ∃ found, tree.block? id = some found := by
    rw [← Option.ne_none_iff_exists', Ne, block?_eq_none_iff]
    omega
  unfold instruction? length
  rw [block?_push]
  by_cases same : block = id
  · subst same
    simp [isFound, Array.getElem?_push]
  · simp [same]

/-- A push changes no parent. -/
@[simp]
theorem parent?_push (tree : Tree) (id other : BlockId) (instr : Instruction) :
    (tree.push id instr).parent? other = tree.parent? other := by
  unfold parent?
  rw [block?_push]
  by_cases same : other = id
  · subst same
    cases tree.block? other <;> simp
  · simp [same]

/-- An amendment changes the instruction at its address and no other. -/
theorem instruction?_amend (tree : Tree) (site other : Address)
    (change : Instruction → Instruction) :
    (tree.amend site change).instruction? other =
      if other = site then (tree.instruction? site).map change else tree.instruction? other := by
  obtain ⟨block, position⟩ := site
  obtain ⟨block', position'⟩ := other
  unfold instruction?
  rw [block?_amend]
  by_cases same : block' = block
  · subst same
    cases tree.block? block' with
    | none => simp
    | some found =>
      by_cases here : position' = position
      · simp [here, Array.getElem?_modify]
      · simp [here, Ne.symm here, Array.getElem?_modify]
  · simp [same]

/-- An amendment changes no parent. -/
@[simp]
theorem parent?_amend (tree : Tree) (site : Address) (other : BlockId)
    (change : Instruction → Instruction) :
    (tree.amend site change).parent? other = tree.parent? other := by
  unfold parent?
  rw [block?_amend]
  by_cases same : other = site.block
  · rw [same]
    cases tree.block? site.block <;> simp
  · simp [same]

/-- After a new block the number after its own is the next. -/
@[simp]
theorem next_addBlock (tree : Tree) (parent : BlockId) (kind : BlockKind) :
    (tree.addBlock parent kind).next = ⟨tree.size + 1⟩ := by
  rw [next, size_addBlock]

/-- Every block has its position as its number. -/
def Numbered (tree : Tree) : Prop := ∀ id block, tree.block? id = some block → block.id = id

/-- A new block has the next number. -/
theorem numbered_addBlock {tree : Tree} (numbered : tree.Numbered) (parent : BlockId)
    (kind : BlockKind) : (tree.addBlock parent kind).Numbered := by
  intro id block found
  rw [block?_addBlock] at found
  by_cases isNext : id = tree.next
  · rw [if_pos isNext] at found
    obtain rfl := Option.some.inj found
    exact isNext.symm
  · rw [if_neg isNext] at found
    exact numbered id block found

/-- A push keeps the numbers. -/
theorem numbered_push {tree : Tree} (numbered : tree.Numbered) (id : BlockId)
    (instr : Instruction) : (tree.push id instr).Numbered := by
  intro other block found
  rw [block?_push] at found
  by_cases same : other = id
  · rw [if_pos same, Option.map_eq_some_iff] at found
    obtain ⟨old, isOld, rfl⟩ := found
    rw [same]
    exact numbered id old isOld
  · rw [if_neg same] at found
    exact numbered other block found

/-- An amendment keeps the numbers. -/
theorem numbered_amend {tree : Tree} (numbered : tree.Numbered) (site : Address)
    (change : Instruction → Instruction) : (tree.amend site change).Numbered := by
  intro other block found
  rw [block?_amend] at found
  by_cases same : other = site.block
  · rw [if_pos same, Option.map_eq_some_iff] at found
    obtain ⟨old, isOld, rfl⟩ := found
    rw [same]
    exact numbered site.block old isOld
  · rw [if_neg same] at found
    exact numbered other block found

/-- The next numbers are those after the ones in use. -/
theorem mem_fresh {tree : Tree} {count : Nat} {id : BlockId} :
    id ∈ tree.fresh count ↔ tree.size ≤ id.index ∧ id.index < tree.size + count := by
  obtain ⟨index⟩ := id
  simp [fresh]

/-- Every new block gets a number of its own. -/
theorem nodup_fresh (tree : Tree) (count : Nat) : (tree.fresh count).Nodup := by
  unfold fresh
  refine List.Nodup.map ?_ List.nodup_range'
  intro first second same
  exact BlockId.mk.inj same

/-- One new block gets the next number. -/
@[simp]
theorem fresh_one (tree : Tree) : tree.fresh 1 = [tree.next] := rfl

/-- Two new blocks get the next two numbers. -/
@[simp]
theorem fresh_two (tree : Tree) : tree.fresh 2 = [tree.next, ⟨tree.size + 1⟩] := rfl

/-- One block after another. -/
@[simp]
theorem addBlocks_cons (tree : Tree) (parent : BlockId) (kind : BlockKind)
    (kinds : List BlockKind) :
    tree.addBlocks parent (kind :: kinds) = (tree.addBlock parent kind).addBlocks parent kinds :=
  rfl

/-- No more blocks. -/
@[simp]
theorem addBlocks_nil (tree : Tree) (parent : BlockId) : tree.addBlocks parent [] = tree := rfl

/-- Every kind adds one block. -/
@[simp]
theorem size_addBlocks (tree : Tree) (parent : BlockId) (kinds : List BlockKind) :
    (tree.addBlocks parent kinds).size = tree.size + kinds.length := by
  induction kinds generalizing tree with
  | nil => rfl
  | cons kind kinds ih =>
    rw [addBlocks_cons, ih, size_addBlock, List.length_cons]
    omega

/-- New blocks change no length. -/
@[simp]
theorem length_addBlocks (tree : Tree) (parent : BlockId) (kinds : List BlockKind)
    (id : BlockId) : (tree.addBlocks parent kinds).length id = tree.length id := by
  induction kinds generalizing tree with
  | nil => rfl
  | cons kind kinds ih => rw [addBlocks_cons, ih, length_addBlock]

/-- New blocks hold no instruction. -/
@[simp]
theorem instruction?_addBlocks (tree : Tree) (parent : BlockId) (kinds : List BlockKind)
    (site : Address) :
    (tree.addBlocks parent kinds).instruction? site = tree.instruction? site := by
  induction kinds generalizing tree with
  | nil => rfl
  | cons kind kinds ih => rw [addBlocks_cons, ih, instruction?_addBlock]

/-- New blocks have the next numbers. -/
theorem numbered_addBlocks {tree : Tree} (numbered : tree.Numbered) (parent : BlockId)
    (kinds : List BlockKind) : (tree.addBlocks parent kinds).Numbered := by
  induction kinds generalizing tree with
  | nil => exact numbered
  | cons kind kinds ih => exact ih (numbered_addBlock numbered parent kind)

/-- The new blocks get their parent, and no other block changes its own. -/
theorem parent?_addBlocks (tree : Tree) (parent : BlockId) (kinds : List BlockKind)
    (id : BlockId) :
    (tree.addBlocks parent kinds).parent? id =
      if id ∈ tree.fresh kinds.length then some parent else tree.parent? id := by
  induction kinds generalizing tree with
  | nil => simp [fresh]
  | cons kind kinds ih =>
    obtain ⟨index⟩ := id
    rw [addBlocks_cons, ih, parent?_addBlock]
    simp only [mem_fresh, size_addBlock, List.length_cons, next, BlockId.mk.injEq]
    split_ifs <;> first | rfl | omega

/-- An instruction pushed after new blocks stands at the end of its block, and every other one
stays. -/
theorem instruction?_pushed {tree : Tree} {id : BlockId} (known : id.index < tree.size)
    (parent : BlockId) (kinds : List BlockKind) (instr : Instruction) (site : Address) :
    ((tree.addBlocks parent kinds).push id instr).instruction? site =
      if site = ⟨id, tree.length id⟩ then some instr else tree.instruction? site := by
  have knownAfter : id.index < (tree.addBlocks parent kinds).size := by
    rw [size_addBlocks]
    omega
  rw [instruction?_push knownAfter, length_addBlocks, instruction?_addBlocks]

/-- An instruction amended after new blocks is changed, and every other one stays. -/
theorem instruction?_amended {tree : Tree} {site : Address} {instr : Instruction}
    (found : tree.instruction? site = some instr) (parent : BlockId) (kinds : List BlockKind)
    (change : Instruction → Instruction) (other : Address) :
    ((tree.addBlocks parent kinds).amend site change).instruction? other =
      if other = site then some (change instr) else tree.instruction? other := by
  rw [instruction?_amend, instruction?_addBlocks, instruction?_addBlocks, found, Option.map_some]

/-- How a build changes its tree: new blocks come under the block of one instruction, new or
amended, which takes them all into its slots. -/
structure Extends (before after : Tree) (site : Address) (instr : Instruction) (count : Nat) :
    Prop where
  /-- The instruction stands in a block that was there. -/
  known : site.block.index < before.size
  size : after.size = before.size + count
  numbered : before.Numbered → after.Numbered
  parent : ∀ id, after.parent? id =
    if id ∈ before.fresh count then some site.block else before.parent? id
  instruction : ∀ other, after.instruction? other =
    if other = site then some instr else before.instruction? other
  slots : instr.slots = before.slotsAt site ++ before.fresh count

/-- The instruction stands where it was put. -/
theorem Extends.instruction_self {before after : Tree} {site : Address} {instr : Instruction}
    {count : Nat} (extended : before.Extends after site instr count) :
    after.instruction? site = some instr := by
  rw [extended.instruction, if_pos rfl]

/-- Pushing an instruction after making its blocks. -/
theorem extends_push {tree : Tree} {id : BlockId} {kinds : List BlockKind} {instr : Instruction}
    (known : id.index < tree.size) (slots : instr.slots = tree.fresh kinds.length) :
    tree.Extends ((tree.addBlocks id kinds).push id instr) ⟨id, tree.length id⟩ instr
      kinds.length := by
  have absent : tree.slotsAt ⟨id, tree.length id⟩ = [] := by
    unfold slotsAt instruction? length
    cases tree.block? id <;> simp
  exact {
    known
    size := by simp
    numbered := fun numbered => numbered_push (numbered_addBlocks numbered id kinds) id instr
    parent := fun other => by rw [parent?_push, parent?_addBlocks]
    instruction := instruction?_pushed known id kinds instr
    slots := by rw [absent, slots, List.nil_append] }

/-- Amending an instruction after making its new blocks. -/
theorem extends_amend {tree : Tree} {site : Address} {kinds : List BlockKind}
    {instr : Instruction} {change : Instruction → Instruction}
    (known : site.block.index < tree.size) (found : tree.instruction? site = some instr)
    (slots : (change instr).slots = instr.slots ++ tree.fresh kinds.length) :
    tree.Extends ((tree.addBlocks site.block kinds).amend site change) site (change instr)
      kinds.length where
  known
  size := by simp
  numbered numbered := numbered_amend (numbered_addBlocks numbered site.block kinds) site change
  parent other := by rw [parent?_amend, parent?_addBlocks]
  instruction := instruction?_amended found site.block kinds change
  slots := by simp [slotsAt, found, slots]

end Tree

end ShaderLoom
