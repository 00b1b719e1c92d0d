import ShaderLoom.Proofs.Effects

/-!
# All instructions of a tree

What holds of a tree as a whole, whatever block an instruction stands in, is said of the list of all
its instructions (`Tree.instructions`): a push adds one to it, an amendment replaces one, and new
blocks add none. What holds at the start and after every successful call holds wherever calls lead
without failing (`Session.reached_of_effects`).
-/
namespace ShaderLoom

/-- A change of one element of a list changes one part of what the elements hold together. -/
theorem flatMap_modify {α β : Type} {list : List α} {index : Nat} {old : α}
    (found : list[index]? = some old) (parts : α → List β) (change : α → α) :
    ∃ rest, (list.flatMap parts).Perm (parts old ++ rest) ∧
      ((list.modify index change).flatMap parts).Perm (parts (change old) ++ rest) := by
  induction list generalizing index with
  | nil => cases found
  | cons first list ih =>
    cases index with
    | zero =>
      obtain rfl := Option.some.inj found
      refine ⟨list.flatMap parts, ?_, ?_⟩
      · rw [List.flatMap_cons]
      · rw [List.modify_zero_cons, List.flatMap_cons]
    | succ index =>
      obtain ⟨rest, before, after⟩ := ih (by simpa using found)
      refine ⟨parts first ++ rest, ?_, ?_⟩
      · rw [List.flatMap_cons]
        exact (before.append_left _).trans (List.perm_append_comm_assoc _ _ _)
      · rw [List.modify_succ_cons, List.flatMap_cons]
        exact (after.append_left _).trans (List.perm_append_comm_assoc _ _ _)

namespace Tree

/-- All instructions, block by block. -/
def instructions (tree : Tree) : List Instruction :=
  tree.blocks.toList.flatMap (·.instructions.toList)

variable {tree : Tree} {instr : Instruction}

/-- An instruction of the tree stands at some address. -/
theorem mem_instructions : instr ∈ tree.instructions ↔
    ∃ site, tree.instruction? site = some instr := by
  unfold instructions instruction? block?
  rw [List.mem_flatMap]
  constructor
  · rintro ⟨block, isBlock, isInstr⟩
    obtain ⟨index, foundBlock⟩ := List.mem_iff_getElem?.mp isBlock
    obtain ⟨position, found⟩ := List.mem_iff_getElem?.mp isInstr
    rw [Array.getElem?_toList] at foundBlock found
    exact ⟨⟨⟨index⟩, position⟩, by simp [foundBlock, found]⟩
  · rintro ⟨⟨⟨index⟩, position⟩, found⟩
    obtain ⟨block, foundBlock, found⟩ := Option.bind_eq_some_iff.mp found
    refine ⟨block, ?_, ?_⟩
    · rw [List.mem_iff_getElem?]
      exact ⟨index, by rw [Array.getElem?_toList, foundBlock]⟩
    · rw [List.mem_iff_getElem?]
      exact ⟨position, by rw [Array.getElem?_toList, found]⟩

/-- The tree every build starts with holds no instruction. -/
@[simp]
theorem instructions_empty : empty.instructions = [] := rfl

/-- New blocks hold no instruction. -/
@[simp]
theorem instructions_addBlocks (tree : Tree) (parent : BlockId) (kinds : List BlockKind) :
    (tree.addBlocks parent kinds).instructions = tree.instructions := by
  induction kinds generalizing tree with
  | nil => rfl
  | cons kind kinds ih =>
    rw [addBlocks_cons, ih]
    simp [instructions, addBlock]

/-- A push adds one instruction. -/
theorem instructions_push {id : BlockId} (known : id.index < tree.size) (instr : Instruction) :
    (tree.push id instr).instructions.Perm (instr :: tree.instructions) := by
  obtain ⟨block, found⟩ := exists_block known
  have isBlock : tree.blocks.toList[id.index]? = some block := by
    rw [Array.getElem?_toList]
    exact found
  obtain ⟨rest, before, after⟩ := flatMap_modify isBlock (·.instructions.toList)
    fun block => { block with instructions := block.instructions.push instr }
  rw [← Array.toList_modify] at after
  have pushed : (block.instructions.push instr).toList ++ rest =
      block.instructions.toList ++ instr :: rest := by
    rw [Array.toList_push, List.append_assoc, List.singleton_append]
  simp only [pushed] at after
  exact after.trans (List.perm_middle.trans (before.symm.cons instr))

/-- An amendment puts one instruction in place of another. -/
theorem instructions_amend {site : Address} {instr : Instruction}
    (found : tree.instruction? site = some instr) (change : Instruction → Instruction) :
    ∃ rest, tree.instructions.Perm (instr :: rest) ∧
      (tree.amend site change).instructions.Perm (change instr :: rest) := by
  obtain ⟨block, foundBlock, found⟩ := Option.bind_eq_some_iff.mp found
  have isBlock : tree.blocks.toList[site.block.index]? = some block := by
    rw [Array.getElem?_toList]
    exact foundBlock
  have isInstr : block.instructions.toList[site.index]? = some instr := by
    rw [Array.getElem?_toList]
    exact found
  obtain ⟨rest, before, after⟩ := flatMap_modify isBlock (·.instructions.toList)
    fun block => { block with instructions := block.instructions.modify site.index change }
  obtain ⟨others, inside, amended⟩ := flatMap_modify isInstr ([·]) change
  rw [← Array.toList_modify] at after amended
  simp only [List.flatMap_singleton'] at inside amended
  refine ⟨others ++ rest, ?_, ?_⟩
  · exact before.trans (inside.append_right rest)
  · exact after.trans (amended.append_right rest)

/-- An instruction that is pushed with its new blocks is one more. -/
theorem instructions_pushed {id : BlockId} (known : id.index < tree.size) (kinds : List BlockKind)
    (instr : Instruction) :
    ((tree.addBlocks id kinds).push id instr).instructions.Perm (instr :: tree.instructions) := by
  have knownAfter : id.index < (tree.addBlocks id kinds).size := by
    rw [size_addBlocks]
    omega
  have pushed := instructions_push knownAfter instr
  rw [instructions_addBlocks] at pushed
  exact pushed

/-- An instruction that is amended with its new blocks takes the place of another. -/
theorem instructions_amended {site : Address} (found : tree.instruction? site = some instr)
    (parent : BlockId) (kinds : List BlockKind) (change : Instruction → Instruction) :
    ∃ rest, tree.instructions.Perm (instr :: rest) ∧
      ((tree.addBlocks parent kinds).amend site change).instructions.Perm
        (change instr :: rest) := by
  rw [← instructions_addBlocks tree parent kinds]
  apply instructions_amend
  rw [instruction?_addBlocks, found]

end Tree

namespace Session

/-- One more call is one more step. -/
theorem reached_concat (options : BuildOptions) (calls : List Call) (call : Call) :
    reached options (calls ++ [call]) = (reached options calls).step call := by
  simp [reached]

/-- A successful call leads where it says. -/
theorem reached_of_run {options : BuildOptions} {calls : List Call} {call : Call} {reply : Reply}
    {after : Session} (ran : call.run (reached options calls) = .ok reply after) :
    reached options (calls ++ [call]) = after := by
  rw [reached_concat, step, ran]

/-- A call after which the build has not failed succeeded, and so did those before it. -/
theorem run_of_sane {options : BuildOptions} {calls : List Call} {call : Call}
    (sane : (reached options (calls ++ [call])).failure = none) (goesOn : call ≠ .reset) :
    (reached options calls).failure = none ∧ ∃ reply,
      call.run (reached options calls) = .ok reply (reached options (calls ++ [call])) := by
  rw [reached_concat] at sane ⊢
  unfold step at sane ⊢
  cases ran : call.run (reached options calls) with
  | error error after =>
    rw [ran] at sane
    exact absurd sane (Call.failure_of_error ran)
  | ok reply after => exact ⟨Call.sane_of_ok ran goesOn, reply, rfl⟩

/-- What holds at every start and after every successful call holds wherever calls lead without
failing. -/
theorem reached_of_effects {options : BuildOptions} {holds : List Call → Session → Prop}
    (atStart : holds [] (.start options))
    (startingOver : ∀ calls options, holds (calls ++ [.reset]) (.start options))
    (through : ∀ calls call reply after, (reached options calls).Placed →
      holds calls (reached options calls) → call ≠ .reset →
      call.run (reached options calls) = .ok reply after →
      (reached options calls).Effect call after → holds (calls ++ [call]) after)
    (calls : List Call) (sane : (reached options calls).failure = none) :
    holds calls (reached options calls) := by
  induction calls using List.reverseRecOn with
  | nil => exact atStart
  | append_singleton calls call ih =>
    by_cases fresh : call = .reset
    · rw [fresh, reached_concat]
      exact startingOver calls (reached options calls).options
    · obtain ⟨saneBefore, reply, ran⟩ := run_of_sane sane fresh
      have placed := placed_reached options calls saneBefore
      exact through calls call reply _ placed (ih saneBefore) fresh ran
        (Call.effect placed ran fresh)

end Session

end ShaderLoom
