import ShaderLoom.Proofs.Records

/-!
# When a value is written in place

A consumed value is kept out of sight, to be written where it is consumed, exactly if it is unnamed
and unread and the instruction pushed last anywhere in the tree is the statement that constructs it.
The registry decides this by counting pushes. The count never misses a push: it is the number of
instructions in the tree, whichever calls led there. Reads are counted in 32 bits, so that a value
is taken for unread again after full rounds of the count.
-/
namespace ShaderLoom

open Registry (Event)

/-- Whether a call starts the build over. -/
def Call.isReset : Call → Bool
  | .reset => true
  | _ => false

/-- A test that one number passes finds that number. -/
theorem find?_range_eq {test : Nat → Bool} {count index : Nat} (small : index < count)
    (only : ∀ other, test other = true ↔ other = index) :
    (List.range count).find? test = some index := by
  cases found : (List.range count).find? test with
  | none =>
    rw [List.find?_eq_none] at found
    exact absurd ((only index).mpr rfl) (found index (List.mem_range.mpr small))
  | some other => rw [(only other).mp (List.find?_some found)]

namespace Tree

variable {tree : Tree}

/-- A push makes its block longer by one. -/
theorem length_push {id : BlockId} (known : id.index < tree.size) (instr : Instruction)
    (other : BlockId) :
    (tree.push id instr).length other = tree.length other + if other = id then 1 else 0 := by
  obtain ⟨block, found⟩ := exists_block known
  unfold length
  rw [block?_push]
  by_cases same : other = id
  · simp [same, found]
  · simp [same]

/-- An amendment makes no block longer. -/
@[simp]
theorem length_amend (tree : Tree) (site : Address) (change : Instruction → Instruction)
    (other : BlockId) : (tree.amend site change).length other = tree.length other := by
  unfold length
  rw [block?_amend]
  by_cases same : other = site.block
  · rw [if_pos same, same]
    cases tree.block? site.block <;> simp
  · rw [if_neg same]

/-- Where a tree grew by an instruction: at the end of the first block that got longer. -/
def grownAt? (before after : Tree) : Option Address :=
  let grown := fun index => decide (before.length ⟨index⟩ < after.length ⟨index⟩)
  ((List.range after.size).find? grown).map fun index => ⟨⟨index⟩, before.length ⟨index⟩⟩

/-- A tree in which no block got longer did not grow. -/
theorem grownAt?_eq_none {before after : Tree} (same : ∀ id, after.length id = before.length id) :
    before.grownAt? after = none := by
  simp [grownAt?, same]

/-- A tree grows where an instruction is pushed. -/
theorem grownAt?_push {id : BlockId} (known : id.index < tree.size) (kinds : List BlockKind)
    (instr : Instruction) :
    tree.grownAt? ((tree.addBlocks id kinds).push id instr) = some ⟨id, tree.length id⟩ := by
  have knownAfter : id.index < (tree.addBlocks id kinds).size := by
    rw [size_addBlocks]
    omega
  have grown : ∀ index, decide (tree.length ⟨index⟩ <
      ((tree.addBlocks id kinds).push id instr).length ⟨index⟩) = true ↔ index = id.index := by
    intro index
    rw [length_push knownAfter, length_addBlocks, decide_eq_true_iff]
    by_cases same : (⟨index⟩ : BlockId) = id
    · rw [if_pos same, ← same]
      simp
    · rw [if_neg same]
      constructor
      · intro less
        exact absurd less (Nat.lt_irrefl _)
      · rintro rfl
        exact absurd rfl same
  have small : id.index < ((tree.addBlocks id kinds).push id instr).size := by
    rw [size_push]
    exact knownAfter
  unfold grownAt?
  simp only [find?_range_eq small grown, Option.map_some]

end Tree

namespace Session

/-- The calls since the build last started over. -/
def recent (calls : List Call) : List Call := calls.rtakeWhile (!·.isReset)

/-- A call that does not start over is one of those since the build did. -/
theorem recent_concat (calls : List Call) {call : Call} (goesOn : call ≠ .reset) :
    recent (calls ++ [call]) = recent calls ++ [call] := by
  apply List.rtakeWhile_concat_pos
  cases call with
  | reset => exact absurd rfl goesOn
  | _ => rfl

/-- Nothing was called since the build just started over. -/
theorem recent_reset (calls : List Call) : recent (calls ++ [.reset]) = [] :=
  List.rtakeWhile_concat_neg _ _ _ (by simp [Call.isReset])

/-- Where the last instruction was pushed while calls were made: where the tree grew last. -/
def lastPushed? (options : BuildOptions) (calls : List Call) : Option Address :=
  (calls.foldl (fun (state : Session × Option Address) call =>
    let after := state.1.step call
    (after, (state.1.tree.grownAt? after.tree).or state.2)) (.start options, none)).2

/-- The last place of a push is where the last call made the tree grow, or else the one before. -/
theorem lastPushed?_concat (options : BuildOptions) (calls : List Call) (call : Call) :
    lastPushed? options (calls ++ [call]) =
      ((reached options calls).tree.grownAt? (reached options (calls ++ [call])).tree).or
        (lastPushed? options calls) := by
  have states : ∀ (calls : List Call) (state : Session × Option Address),
      (calls.foldl (fun (state : Session × Option Address) call =>
        let after := state.1.step call
        (after, (state.1.tree.grownAt? after.tree).or state.2)) state).1 =
      calls.foldl step state.1 := by
    intro calls
    induction calls with
    | nil => exact fun _ => rfl
    | cons call calls ih => exact fun state => ih _
  unfold lastPushed?
  rw [List.foldl_concat, reached_concat, reached, states]

/-- The variable whose value the instruction pushed last constructs, if it constructs one. -/
def lastBuilt? (options : BuildOptions) (calls : List Call) : Option VarId :=
  ((lastPushed? options calls).bind (reached options calls).tree.instruction?).bind
    Instruction.built?

/-- What the registry has counted, against what the calls did. -/
structure Counts (s : Session) (calls : List Call) (newest : Option VarId) : Prop where
  pushes : s.registry.pushes = s.tree.instructions.length
  built : ∀ id record, s.registry.get? id = some record → record.builtAt ≤ s.registry.pushes
  fresh : ∀ id record, s.registry.get? id = some record → record.pinned = false →
    (record.builtAt = s.registry.pushes ↔ newest = some id)
  tallied : Tallied s.registry (readsOf calls)

section Counts

variable {s after : Session} {call : Call} {calls : List Call} {newest : Option VarId}

/-- A consumption of a variable that is there leaves it in the status that its record tells. -/
theorem status?_consume {registry : Registry} {id : VarId} {record : Record}
    (found : registry.get? id = some record) :
    ∃ changed, registry.consume id = .ok changed ∧
      changed.status? id = some (record.statusOnConsume registry.pushes) := by
  have known := Registry.known_of_get? found
  refine ⟨_, Registry.update_eq_ok_iff.mpr ⟨known, rfl⟩, ?_⟩
  rw [Registry.status?, Registry.get?_modify, found]
  simp [Record.consume]

/-- A record is fresh when its variable has no name, counts as unread, and was built last. -/
theorem Counts.isFresh_iff (counts : s.Counts calls newest) {id : VarId} {record : Record}
    (found : s.registry.get? id = some record) (free : record.pinned = false) :
    record.isFresh s.registry.pushes = true ↔
      record.name = none ∧ CountedOut id (readsOf calls) ∧ newest = some id := by
  obtain ⟨uses, consumptions, -⟩ := counts.tallied.records id record found
  rw [CountedOut, ← ofNat_eq_zero_iff, ← ofNat_eq_zero_iff, ← uses, ← consumptions,
    ← counts.fresh id record found free]
  simp only [Record.isFresh, Bool.and_eq_true, beq_iff_eq, Option.isNone_iff_eq_none]
  tauto

/-- The variable of a value that is made without a push is pinned. -/
theorem pinned_of_still {new : Newcomer} (still : call.appends = false)
    (creates : call.creates? = some new) : new.pinned := by
  cases call <;> cases creates <;> first | rfl | cases still

/-- A variable is pinned as it was, or by the call. -/
theorem Carries.free {pushed : Option Instruction} {id : VarId} {record later : Record}
    (carries : s.Carries call pushed id record later) (free : later.pinned = false) :
    record.pinned = false ∧ .pin id ∉ s.laterNotes call := by
  rw [← Bool.not_eq_true, carries.pinned, not_or, Bool.not_eq_true] at free
  exact free

/-- A call that pushes nothing leaves every value as fresh as it was. -/
theorem Counts.fresh_of_still (counts : s.Counts calls newest) (still : call.appends = false)
    {id : VarId} {later : Record} (found : (s.registryAfter call none).get? id = some later)
    (free : later.pinned = false) : later.builtAt = s.registry.pushes ↔ newest = some id := by
  obtain ⟨record, foundBefore, carries⟩ | ⟨new, creates, isNew, carries⟩ := carries_of_get? found
  · have built : later.builtAt = record.builtAt := carries.built
    rw [built]
    exact counts.fresh id record foundBefore (carries.free free).1
  · have pinned : .pin id ∈ s.laterNotes call :=
      mem_laterNotes.mpr (.inr (.inl ⟨new, creates, pinned_of_still still creates, by rw [isNew]⟩))
    exact absurd pinned (carries.free free).2

/-- A value was built by the push that ends a call, or before. -/
theorem Counts.exists_built (counts : s.Counts calls newest) {pushed : Option Instruction}
    {id : VarId} {later : Record}
    (found : (s.registryAfter call pushed).get? id = some later) :
    ∃ earlier ≤ s.registry.pushes, later.builtAt =
      if pushed.bind Instruction.built? = some id then s.registry.pushes + 1 else earlier := by
  obtain ⟨record, foundBefore, carries⟩ | ⟨new, -, -, carries⟩ := carries_of_get? found
  · exact ⟨record.builtAt, counts.built id record foundBefore, carries.built⟩
  · exact ⟨s.registry.pushes, Nat.le_refl _, carries.built⟩

/-- After a push the value it constructs is fresh and no other is. -/
theorem Counts.fresh_of_push (counts : s.Counts calls newest) {instr : Instruction} {id : VarId}
    {later : Record} (found : (s.registryAfter call (some instr)).get? id = some later) :
    later.builtAt = s.registry.pushes + 1 ↔ instr.built? = some id := by
  obtain ⟨earlier, isEarlier, built⟩ := counts.exists_built found
  rw [built, Option.bind_some]
  split_ifs with isBuilt
  · simp [isBuilt]
  · simp only [isBuilt, iff_false]
    omega

/-- Every value was built before now. -/
theorem Counts.built_after (counts : s.Counts calls newest) {pushed : Option Instruction}
    {id : VarId} {later : Record}
    (found : (s.registryAfter call pushed).get? id = some later) :
    later.builtAt ≤ (s.registryAfter call pushed).pushes := by
  obtain ⟨earlier, isEarlier, built⟩ := counts.exists_built found
  rw [built, pushes_registryAfter]
  cases pushed with
  | none => exact isEarlier
  | some instr =>
    rw [Option.toList_some, List.length_singleton]
    split_ifs
    · exact Nat.le_refl _
    · omega

/-- A call is counted right: whatever it pushed is the newest, or else what was newest before. -/
theorem Counts.step (counts : s.Counts calls newest) (pushed : Option Instruction)
    {reply : Reply} (ran : call.run s = .ok reply after)
    (registry : after.registry = s.registryAfter call pushed)
    (pushes : after.tree.instructions.length = s.tree.instructions.length + pushed.toList.length)
    (still : pushed = none → call.appends = false) :
    after.Counts (calls ++ [call]) (pushed.elim newest Instruction.built?) := by
  constructor
  case pushes => rw [registry, pushes_registryAfter, counts.pushes, pushes]
  case built =>
    intro id later found
    rw [registry] at found ⊢
    exact counts.built_after found
  case fresh =>
    intro id later found free
    rw [registry] at found ⊢
    rw [pushes_registryAfter]
    cases pushed with
    | none => exact counts.fresh_of_still (still rfl) found free
    | some instr => exact counts.fresh_of_push found
  case tallied =>
    rw [readsOf_concat]
    exact counts.tallied.step ran registry

end Counts

section Reached

variable {options : BuildOptions} {calls : List Call} {call : Call} {reply : Reply}
  {after : Session}

/-- A call after which no block is longer leaves what was built last, if it leaves the statements of
the tree. -/
theorem lastBuilt?_of_same (ran : call.run (reached options calls) = .ok reply after)
    (lengths : ∀ id, after.tree.length id = (reached options calls).tree.length id)
    (built : ∀ site, (after.tree.instruction? site).bind Instruction.built? =
      ((reached options calls).tree.instruction? site).bind Instruction.built?) :
    lastBuilt? options (calls ++ [call]) = lastBuilt? options calls := by
  unfold lastBuilt?
  rw [lastPushed?_concat, reached_of_run ran, Tree.grownAt?_eq_none lengths, Option.none_or]
  cases lastPushed? options calls with
  | none => rfl
  | some site => exact built site

/-- After a push the last thing built is what was pushed. -/
theorem lastBuilt?_of_push (ran : call.run (reached options calls) = .ok reply after)
    (placed : (reached options calls).Placed) {kinds : List BlockKind} {instr : Instruction}
    (tree : after.tree = ((reached options calls).tree.addBlocks (reached options calls).current
      kinds).push (reached options calls).current instr) :
    lastBuilt? options (calls ++ [call]) = instr.built? := by
  have known := placed.current_known
  unfold lastBuilt?
  rw [lastPushed?_concat, reached_of_run ran, tree, Tree.grownAt?_push known]
  simp [Tree.instruction?_pushed known]

/-- An instruction that opens a scope constructs nothing. -/
theorem built?_of_opens {instr : Instruction} (opens : instr.kind.opens) : instr.built? = none := by
  cases instr with
  | statement => cases opens
  | _ => rfl

/-- The registry counts right wherever calls lead without failing. -/
theorem counts_reached (options : BuildOptions) (calls : List Call)
    (sane : (reached options calls).failure = none) :
    (reached options calls).Counts (recent calls) (lastBuilt? options calls) := by
  apply @reached_of_effects options fun calls s =>
    s.Counts (recent calls) (lastBuilt? options calls)
  case atStart =>
    refine ⟨rfl, ?_, ?_, tallied_empty⟩ <;> simp [start, Registry.get?, Registry.empty]
  case startingOver =>
    intro calls options
    rw [recent_reset]
    refine ⟨rfl, ?_, ?_, tallied_empty⟩ <;> simp [start, Registry.get?, Registry.empty]
  case through =>
    intro calls call reply after placed counts goesOn ran effect
    rw [recent_concat calls goesOn]
    cases effect with
    | kept still tree registry =>
      rw [lastBuilt?_of_same ran (by simp [tree]) (by simp [tree])]
      exact counts.step none ran registry (by simp [tree]) fun _ => still
    | pushed instr appends adds accepted slots tree registry =>
      have pushed := Tree.instructions_pushed placed.current_known instr.kinds instr
      rw [lastBuilt?_of_push ran placed tree]
      refine counts.step (some instr) ran registry ?_ (by simp)
      rw [tree, pushed.length_eq]
      rfl
    | amended frame kinds change instr still isOpen found opens same slots grown exprs names tree
        registry =>
      obtain ⟨rest, before, amended⟩ :=
        Tree.instructions_amended found frame.site.block kinds change
      have built : ∀ site, (after.tree.instruction? site).bind Instruction.built? =
          ((reached options calls).tree.instruction? site).bind Instruction.built? := by
        intro site
        rw [tree, Tree.instruction?_amend, Tree.instruction?_addBlocks,
          Tree.instruction?_addBlocks]
        by_cases here : site = frame.site
        · rw [if_pos here, here, found]
          exact (built?_of_opens (same ▸ opens)).trans (built?_of_opens opens).symm
        · rw [if_neg here]
      rw [lastBuilt?_of_same ran (by simp [tree]) built]
      refine counts.step none ran registry ?_ fun _ => still
      rw [tree, amended.length_eq, before.length_eq]
      rfl
  case sane => exact sane

/-- A value is made and named, and after a fresh start another one in the body of a loop. -/
def restartedCalls : List Call :=
  [.construct (.scalar .int) [.int 1], .use ⟨0⟩, .reset, .beginFor, .beginForBody,
   .construct (.scalar .float) [.int 2]]

end Reached

end Session

end ShaderLoom
