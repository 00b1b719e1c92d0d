import ShaderLoom.Instruction

/-!
# The tree of blocks

All blocks of one build stand in one list in the order in which they were made; a block knows its
parent, and block zero is the main block. Blocks are only added, a block's instructions are only
added at its end, and a block never changes its parent or its kind. A parent is made before its
children, so walking up from a block takes no more steps than its number.
-/
namespace ShaderLoom

/-- What a block is for. -/
inductive BlockKind where
  /-- The top level of the shader. -/
  | main
  /-- The body of a case or a loop. -/
  | plain
  /-- The body of a function, with the type it returns. -/
  | body (returns : Ty)
  /-- The recorded header of a loop. -/
  | forArgs
  /-- The parameter list of one overload. -/
  | funcArgs
deriving DecidableEq, Repr

/-- One scope: its instructions in order. -/
structure Block where
  id : BlockId
  /-- The main block has none. -/
  parent : Option BlockId
  kind : BlockKind
  instructions : Array Instruction

/-- All blocks of one build. -/
structure Tree where
  blocks : Array Block

namespace Tree

/-- The tree of the main block alone. -/
def empty : Tree := ⟨#[⟨.root, none, .main, #[]⟩]⟩

/-- How many blocks there are. -/
def size (tree : Tree) : Nat := tree.blocks.size

/-- A block by number. -/
def block? (tree : Tree) (id : BlockId) : Option Block := tree.blocks[id.index]?

/-- The instruction at an address. -/
def instruction? (tree : Tree) (site : Address) : Option Instruction := do
  (← tree.block? site.block).instructions[site.index]?

/-- The parent of a block. -/
def parent? (tree : Tree) (id : BlockId) : Option BlockId := do
  (← tree.block? id).parent

/-- How many instructions a block holds. -/
def length (tree : Tree) (id : BlockId) : Nat :=
  (tree.block? id).elim 0 (·.instructions.size)

/-- The number the next block gets. -/
def next (tree : Tree) : BlockId := ⟨tree.size⟩

/-- A tree with one more block, empty, under `parent`. -/
def addBlock (tree : Tree) (parent : BlockId) (kind : BlockKind) : Tree :=
  ⟨tree.blocks.push ⟨tree.next, some parent, kind, #[]⟩⟩

/-- A tree with one more instruction at the end of a block. -/
def push (tree : Tree) (id : BlockId) (instr : Instruction) : Tree :=
  ⟨tree.blocks.modify id.index fun block =>
    { block with instructions := block.instructions.push instr }⟩

/-- A tree with the instruction at an address replaced by its amended form. -/
def amend (tree : Tree) (site : Address) (change : Instruction → Instruction) : Tree :=
  ⟨tree.blocks.modify site.block.index fun block =>
    { block with instructions := block.instructions.modify site.index change }⟩

/-- Adding a block adds one. -/
@[simp]
theorem size_addBlock (tree : Tree) (parent : BlockId) (kind : BlockKind) :
    (tree.addBlock parent kind).size = tree.size + 1 := by
  simp [addBlock, size]

/-- Pushing an instruction adds no block. -/
@[simp]
theorem size_push (tree : Tree) (id : BlockId) (instr : Instruction) :
    (tree.push id instr).size = tree.size := by
  simp [push, size]

/-- Amending an instruction adds no block. -/
@[simp]
theorem size_amend (tree : Tree) (site : Address) (change : Instruction → Instruction) :
    (tree.amend site change).size = tree.size := by
  simp [amend, size]

/-- The added block is the next one, and every other block stays. -/
theorem block?_addBlock (tree : Tree) (parent id : BlockId) (kind : BlockKind) :
    (tree.addBlock parent kind).block? id =
      if id = tree.next then some ⟨tree.next, some parent, kind, #[]⟩ else tree.block? id := by
  obtain ⟨index⟩ := id
  simp [addBlock, block?, next, size, Array.getElem?_push]

/-- A push changes one block, at the end of its instructions. -/
theorem block?_push (tree : Tree) (id other : BlockId) (instr : Instruction) :
    (tree.push id instr).block? other =
      if other = id then
        (tree.block? id).map fun block =>
          { block with instructions := block.instructions.push instr }
      else tree.block? other := by
  obtain ⟨index⟩ := id
  obtain ⟨index'⟩ := other
  by_cases same : index' = index
  · simp [push, block?, Array.getElem?_modify, same]
  · simp [push, block?, Array.getElem?_modify, same, Ne.symm same]

/-- An amendment changes one block, at one of its instructions. -/
theorem block?_amend (tree : Tree) (site : Address) (other : BlockId)
    (change : Instruction → Instruction) :
    (tree.amend site change).block? other =
      if other = site.block then
        (tree.block? site.block).map fun block =>
          { block with instructions := block.instructions.modify site.index change }
      else tree.block? other := by
  obtain ⟨⟨index⟩, position⟩ := site
  obtain ⟨index'⟩ := other
  by_cases same : index' = index
  · simp [amend, block?, Array.getElem?_modify, same]
  · simp [amend, block?, Array.getElem?_modify, same, Ne.symm same]

/-- The return type of the nearest function body at or above a block, at most `steps` up. -/
def returnTypeWithin (tree : Tree) : Nat → BlockId → Option Ty
  | 0, _ => none
  | steps + 1, id => do
    let block ← tree.block? id
    match block.kind with
    | .body returns => some returns
    | _ => tree.returnTypeWithin steps (← block.parent)

/-- The return type of the nearest function body at or above a block. -/
def returnType? (tree : Tree) (id : BlockId) : Option Ty :=
  tree.returnTypeWithin (id.index + 1) id

end Tree

end ShaderLoom
