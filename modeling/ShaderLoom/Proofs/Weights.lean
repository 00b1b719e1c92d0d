import Mathlib
import ShaderLoom.Proofs.Rendering
import ShaderLoom.Proofs.Spending

/-!
# How much a rendering writes

What a rendering writes of variables is bounded by what the tree holds of them
(`Shader.Discreet.count_traceAll_le_marks`). A block is written where it stands in a slot, and it
stands in one slot; a value that is out of sight is written where it is referred to, and if it is
referred to once it is written once. In both cases it is enough to bound what each block and each
value writes by itself, without what is below it (`weight_le_sum`).
-/
namespace ShaderLoom

/-- If all nodes weigh no more than themselves and the nodes below them, so does a list of nodes. -/
theorem sum_weight_le {ι κ : Type} {nodes : List ι} {next : ι → List κ} {own weight : ι → Nat}
    {below : κ → Nat}
    (each : ∀ node ∈ nodes, weight node ≤ own node + ((next node).map below).sum) :
    (nodes.map weight).sum ≤ (nodes.map own).sum + ((nodes.flatMap next).map below).sum := by
  induction nodes with
  | nil => exact Nat.zero_le _
  | cons node nodes ih =>
    rw [List.forall_mem_cons] at each
    have first := each.1
    have others := ih each.2
    simp only [List.map_cons, List.sum_cons, List.flatMap_cons, List.map_append, List.sum_append]
    omega

/-- A part of a list weighs no more than the list. -/
theorem sum_map_le_of_subperm {ι : Type} {part whole : List ι} (isPart : part.Subperm whole)
    (weight : ι → Nat) : (part.map weight).sum ≤ (whole.map weight).sum := by
  obtain ⟨list, isPerm, isSublist⟩ := isPart
  rw [← (isPerm.map weight).sum_eq]
  exact (isSublist.map weight).sum_le_sum fun _ _ => Nat.zero_le _

/-- If every node weighs no more than itself and the nodes below it, to any depth, and no node is
below two others or twice below one, then the root weighs no more than all nodes by themselves. -/
theorem weight_le_sum {ι : Type} {root : ι} {rest : List ι} {next : ι → List ι} {own : ι → Nat}
    {weight : Nat → ι → Nat} (once : ((root :: rest).flatMap next).Subperm rest)
    (base : ∀ node ∈ root :: rest, weight 0 node ≤ own node)
    (step : ∀ depth, ∀ node ∈ root :: rest,
      weight (depth + 1) node ≤ own node + ((next node).map (weight depth)).sum)
    (depth : Nat) : weight depth root ≤ ((root :: rest).map own).sum := by
  -- The greatest weight of a node at any depth obeys the same bound with itself on both sides.
  let peak : ι → Nat := fun node => (Finset.range (depth + 1)).sup (weight · node)
  have le_peak : ∀ level node, level ≤ depth → weight level node ≤ peak node := by
    intro level node le
    exact Finset.le_sup (f := (weight · node)) (Finset.mem_range.mpr (Nat.lt_succ_of_le le))
  have each : ∀ node ∈ root :: rest, peak node ≤ own node + ((next node).map peak).sum := by
    intro node isNode
    apply Finset.sup_le
    intro level isLevel
    have le := Nat.le_of_lt_succ (Finset.mem_range.mp isLevel)
    cases level with
    | zero => exact Nat.le_add_right_of_le (base node isNode)
    | succ level =>
      have grown : ((next node).map (weight level)).sum ≤ ((next node).map peak).sum :=
        List.sum_le_sum fun below _ => le_peak level below (by omega)
      exact (step level node isNode).trans (Nat.add_le_add_left grown _)
  have total := sum_weight_le each
  have below := sum_map_le_of_subperm once peak
  have isPeak := le_peak depth root (Nat.le_refl _)
  rw [List.map_cons, List.sum_cons] at total
  omega

namespace Shader

variable (shader : Shader)

/-- The variable that is replaced by its value at a mark, if one is. -/
def replaced? : Mark → Option VarId
  | .value _ => none
  | .reference id => if (shader.inlined? id).isSome then some id else none

/-- A variable is replaced at references to it. -/
theorem replaced?_eq_some_iff {shader : Shader} {mark : Mark} {id : VarId} :
    shader.replaced? mark = some id ↔ mark = .reference id ∧ (shader.inlined? id).isSome := by
  cases mark with
  | value other => simp [replaced?]
  | reference other =>
    rw [replaced?, ite_eq_iff]
    constructor
    · rintro (⟨isSome, isOther⟩ | ⟨-, absurd⟩)
      · obtain rfl := Option.some.inj isOther
        exact ⟨rfl, isSome⟩
      · cases absurd
    · rintro ⟨isOther, isSome⟩
      obtain rfl := Mark.reference.inj isOther
      exact .inl ⟨isSome, rfl⟩

/-- After a mark comes what the value writes that is put in the place of a reference. -/
theorem count_followed (deep : Expr → List Mark) (mark : Mark) (marks : List Mark) :
    (marks.flatMap (shader.followed deep)).count mark = marks.count mark +
      ((marks.filterMap shader.replaced?).map fun id =>
        ((shader.inlined? id).toList.flatMap deep).count mark).sum := by
  induction marks with
  | nil => rfl
  | cons first marks ih =>
    rw [List.flatMap_cons, List.count_append, ih, List.count_cons]
    cases first with
    | value id =>
      rw [List.filterMap_cons_none rfl, followed, List.count_singleton]
      omega
    | reference id =>
      rw [followed, List.count_cons]
      cases isInlined : shader.inlined? id with
      | none =>
        have isNone : shader.replaced? (.reference id) = none := by simp [replaced?, isInlined]
        rw [List.filterMap_cons_none isNone]
        simp
        omega
      | some value =>
        have isSome : shader.replaced? (.reference id) = some id := by simp [replaced?, isInlined]
        rw [List.filterMap_cons_some isSome, List.map_cons, List.sum_cons, isInlined]
        simp
        omega

/-- The expressions at hand, or the value of a variable. -/
def contents (roots : List Expr) : Option VarId → List Expr
  | none => roots
  | some id => (shader.inlined? id).toList

/-- What they hold of variables by themselves. -/
def holding (roots : List Expr) (node : Option VarId) : List Mark :=
  (shader.contents roots node).flatMap Expr.marks

/-- The variables whose values take the place of references in them. -/
def below (roots : List Expr) (node : Option VarId) : List (Option VarId) :=
  ((shader.holding roots node).filterMap shader.replaced?).map some

/-- What is written of expressions is bounded by what they and the values below them hold. -/
theorem count_contents_le (roots : List Expr) (mark : Mark) (depth : Nat) (node : Option VarId) :
    ((shader.contents roots node).flatMap (shader.traceWithin (depth + 1))).count mark ≤
      (shader.holding roots node).count mark + ((shader.below roots node).map fun node =>
        ((shader.contents roots node).flatMap (shader.traceWithin depth)).count mark).sum := by
  have isTrace : (shader.contents roots node).flatMap (shader.traceWithin (depth + 1)) =
      (shader.holding roots node).flatMap (shader.followed (shader.traceWithin depth)) := by
    rw [holding, List.flatMap_assoc]
    rfl
  rw [isTrace, count_followed, below, List.map_map]
  exact Nat.le_refl _

/-- What is written of expressions is bounded by what is held, if they and the values that take the
place of references are all parts of what is held. -/
theorem count_trace_le {roots held : List Expr} {refs : List VarId}
    (isRefs : (held.flatMap Expr.marks).filterMap shader.replaced? = refs)
    (isPart : (roots ++ refs.filterMap shader.inlined?).Subperm held) (mark : Mark) :
    (roots.flatMap shader.trace).count mark ≤ (held.flatMap Expr.marks).count mark := by
  have isContents : (none :: refs.map some).flatMap (shader.contents roots) =
      roots ++ refs.filterMap shader.inlined? := by
    rw [List.flatMap_cons, List.flatMap_map, List.filterMap_eq_flatMap_toList]
    rfl
  rw [← isContents] at isPart
  have isHeld : ((none :: refs.map some).flatMap (shader.holding roots)).Subperm
      (held.flatMap Expr.marks) := by
    have isMarks := subperm_flatMap isPart Expr.marks
    rwa [List.flatMap_assoc] at isMarks
  have once : ((none :: refs.map some).flatMap (shader.below roots)).Subperm (refs.map some) := by
    have isBelow := subperm_flatMap isHeld fun held => (shader.replaced? held).toList
    rw [← List.filterMap_eq_flatMap_toList, ← List.filterMap_eq_flatMap_toList, isRefs,
      List.filterMap_flatMap] at isBelow
    have mapped := isBelow.map (Option.some_injective _)
    rwa [List.map_flatMap] at mapped
  have nothing : ∀ node, ((shader.contents roots node).flatMap (shader.traceWithin 0)).count mark ≤
      (shader.holding roots node).count mark := by
    intro node
    have isNil : (shader.contents roots node).flatMap (shader.traceWithin 0) = [] :=
      List.flatMap_eq_nil_iff.mpr fun _ _ => rfl
    rw [isNil]
    exact Nat.zero_le _
  have bounded := @weight_le_sum _ none (refs.map some) (shader.below roots)
    (fun node => (shader.holding roots node).count mark)
    (fun depth node =>
      ((shader.contents roots node).flatMap (shader.traceWithin depth)).count mark) once
    (fun node _ => nothing node)
    (fun depth node _ => shader.count_contents_le roots mark depth node) shader.inlineDepth
  refine bounded.trans ?_
  have isSum := isHeld.count_le mark
  rw [List.count_flatMap] at isSum
  exact isSum

end Shader

/-- Whether an instruction is a construction of one of the given variables. -/
def Instruction.builds (instr : Instruction) (refs : List VarId) : Bool :=
  instr.built?.any fun id => id ∈ refs

/-- Only a construction as a statement constructs a variable. -/
theorem Instruction.builds_iff {instr : Instruction} {refs : List VarId} :
    instr.builds refs = true ↔
      ∃ made args, instr = .statement (.construct made args) ∧ made.var ∈ refs := by
  cases instr with
  | statement expr =>
    cases expr <;> simp [builds, built?, construction?, Expr.construction?]
  | _ => simp [builds, built?, construction?]

/-- The expressions that an instruction may write where it stands, if the values of the given
variables are written elsewhere. -/
def Instruction.inked (instr : Instruction) (refs : List VarId) : List Expr :=
  if instr.builds refs then [] else instr.exprs

namespace Shader

variable (shader : Shader)

/-- What the instructions of a block may write where they stand. -/
def inkedIn (refs : List VarId) (id : BlockId) : List Expr :=
  (shader.tree.block? id).elim [] fun block => block.instructions.toList.flatMap (·.inked refs)

/-- The blocks in the slots of the instructions of a block. -/
def nestedIn (id : BlockId) : List BlockId :=
  (shader.tree.block? id).elim [] fun block => block.instructions.toList.flatMap Instruction.slots

/-- Whether the values of variables are written elsewhere than they stand. -/
structure Discreet (refs : List VarId) : Prop where
  shaped : shader.tree.Shaped
  /-- Their constructions vanish. -/
  temporary : ∀ id ∈ refs, shader.registry.status? id = some .temporary
  /-- They do not stand in headers of loops, where constructions never vanish. -/
  apart : ∀ site instr, shader.tree.instruction? site = some instr →
    shader.tree.kind? site.block = some .forArgs → instr.builds refs = false

/-- How often a block writes a mark to a depth; a header writes what stands in it. -/
def weight (refs : List VarId) (mark : Mark) (depth : Nat) (id : BlockId) : Nat :=
  if shader.tree.kind? id = some .forArgs then
    ((shader.inkedIn refs id).flatMap shader.trace).count mark
  else (shader.traceBlockWithin depth id).count mark

variable {shader} {refs : List VarId} {mark : Mark} {depth : Nat}

/-- Bodies write their traces. -/
theorem count_bodies {ids : List BlockId}
    (bodies : ∀ id ∈ ids, shader.tree.kind? id ≠ some .forArgs) :
    (ids.flatMap (shader.traceBlockWithin depth)).count mark =
      (ids.map (shader.weight refs mark depth)).sum := by
  rw [List.count_flatMap]
  congr 1
  apply List.map_congr_left
  intro id isBody
  rw [weight, if_neg (bodies id isBody)]
  rfl

/-- The clauses of a header write no more than their expressions. -/
theorem count_traceClauses_le (clauses : ForClauses) :
    (shader.traceClauses clauses).count mark ≤
      (clauses.exprs.flatMap shader.trace).count mark := by
  have inits : (clauses.inits.flatMap shader.traceInit).count mark ≤
      (clauses.inits.flatMap shader.trace).count mark := by
    apply List.Sublist.count_le
    apply List.Sublist.flatMap_right
    intro expr _
    unfold traceInit
    split
    · exact List.nil_sublist _
    · exact List.Sublist.refl _
  rw [traceClauses, ForClauses.exprs, List.flatMap_append, List.flatMap_append, List.count_append,
    List.count_append, List.count_append, List.count_append]
  omega

/-- A recorded header writes no more than stands in it and beside it. -/
theorem Discreet.count_traceHeader_le (discreet : shader.Discreet refs) {args : BlockId}
    (isHeader : shader.tree.kind? args = some .forArgs) (stacked : Option Expr)
    (policy : ConditionPolicy) :
    (shader.traceHeader (.recorded args stacked policy)).count mark ≤
      (stacked.toList.flatMap shader.trace).count mark + shader.weight refs mark depth args := by
  obtain ⟨block, found, -⟩ := Option.map_eq_some_iff.mp isHeader
  have isInked : shader.inkedIn refs args =
      block.instructions.toList.flatMap Instruction.exprs := by
    rw [inkedIn, found]
    apply List.flatMap_congr
    intro instr isInstr
    obtain ⟨site, rfl, isAt⟩ := Tree.exists_site found isInstr
    rw [Instruction.inked, discreet.apart site instr isAt isHeader]
    rfl
  rw [weight, if_pos isHeader, isInked]
  cases sorted : partition block.instructions.toList stacked policy with
  | error error =>
    simp only [traceHeader, clauses, found, sorted]
    exact Nat.zero_le _
  | ok clauses =>
    have isPart := subperm_flatMap (exprs_of_partition sorted) shader.trace
    have isCount := isPart.count_le mark
    have isTrace := @count_traceClauses_le shader mark clauses
    rw [List.flatMap_append, List.count_append] at isCount
    simp only [traceHeader, Shader.clauses, found, sorted]
    omega

/-- A statement writes no more than its expression, and nothing if it vanishes. -/
theorem Discreet.count_traceStatement_le (discreet : shader.Discreet refs)
    (body : BlockId → List Mark) (expr : Expr) :
    (shader.traceInstruction body (.statement expr)).count mark ≤
      (((Instruction.statement expr).inked refs).flatMap shader.trace).count mark := by
  have isWhole : (Instruction.statement expr).builds refs = false →
      ((Instruction.statement expr).inked refs).flatMap shader.trace = shader.trace expr := by
    intro isSeen
    rw [Instruction.inked, isSeen]
    exact List.flatMap_singleton _ _
  cases expr with
  | construct made args =>
    rw [traceInstruction, traceConstruction]
    by_cases isRef : made.var ∈ refs
    · rw [discreet.temporary _ isRef]
      exact Nat.zero_le _
    · have isSeen : (Instruction.statement (.construct made args)).builds refs = false := by
        rw [← Bool.not_eq_true, Instruction.builds_iff]
        rintro ⟨made', args', same, isRef'⟩
        rw [Instruction.statement.injEq, Expr.construct.injEq] at same
        exact isRef (same.1 ▸ isRef')
      rw [isWhole isSeen]
      split
      · exact Nat.le_refl _
      · exact Nat.le_refl _
      · exact Nat.zero_le _
  | _ =>
    rw [isWhole rfl]
    exact Nat.le_refl _

/-- What is written in pairs is written in two lists. -/
theorem count_flatMap_append {α : Type} (list : List α) (first second : α → List Mark) :
    (list.flatMap fun item => first item ++ second item).count mark =
      (list.flatMap first).count mark + (list.flatMap second).count mark := by
  induction list with
  | nil => rfl
  | cons item list ih =>
    simp only [List.flatMap_cons, List.count_append, ih]
    omega

/-- The bodies of overloads are among their blocks. -/
theorem bodies_sublist (overloads : List Overload) : (overloads.map Overload.body).Sublist
    (overloads.flatMap fun overload => [overload.args, overload.body]) := by
  induction overloads with
  | nil => exact List.Sublist.refl _
  | cons overload overloads ih => exact (ih.cons_cons _).cons _

/-- An instruction that is no statement and has no header writes its expressions and its blocks. -/
theorem count_traceInstruction_le (body : BlockId → List Mark) {instr : Instruction}
    (isOther : instr.kind ≠ .statement) (noHeader : .forArgs ∉ instr.kinds) :
    (shader.traceInstruction body instr).count mark ≤
      (instr.exprs.flatMap shader.trace).count mark + (instr.slots.flatMap body).count mark := by
  cases instr with
  | statement expr => exact absurd rfl isOther
  | ret value mismatch => exact Nat.le_add_right _ _
  | branch cases =>
    rw [traceInstruction, count_flatMap_append, Instruction.exprs, Instruction.slots,
      List.flatMap_assoc, List.flatMap_map]
  | forLoop header block =>
    cases header with
    | recorded args stacked policy => exact absurd List.mem_cons_self noHeader
    | clauses clauses =>
      rw [traceInstruction, List.count_append, Instruction.slots, List.flatMap_singleton]
      exact Nat.add_le_add_right (count_traceClauses_le clauses) _
  | whileLoop condition block =>
    rw [traceInstruction, List.count_append, Instruction.exprs, Instruction.slots,
      List.flatMap_singleton, List.flatMap_singleton]
  | doWhile block condition =>
    rw [traceInstruction, List.count_append, Instruction.exprs, Instruction.slots,
      List.flatMap_singleton, Nat.add_comm]
  | switch selector cases =>
    rw [traceInstruction, List.count_append, Instruction.exprs, Instruction.slots,
      List.flatMap_singleton, List.flatMap_map]
  | function decl =>
    have isPart := (bodies_sublist decl.overloads).flatMap body
    rw [List.flatMap_map] at isPart
    exact Nat.le_add_left_of_le (isPart.count_le mark)
  | _ => exact Nat.zero_le _

/-- An instruction writes no more than its expressions and its blocks. -/
theorem Discreet.count_traceInstruction_le (discreet : shader.Discreet refs) {instr : Instruction}
    (suits : shader.tree.Suits instr) :
    (shader.traceInstruction (shader.traceBlockWithin depth) instr).count mark ≤
      ((instr.inked refs).flatMap shader.trace).count mark +
        (instr.slots.map (shader.weight refs mark depth)).sum := by
  have plain : instr.kind ≠ .statement → .forArgs ∉ instr.kinds →
      (shader.traceInstruction (shader.traceBlockWithin depth) instr).count mark ≤
        (instr.exprs.flatMap shader.trace).count mark +
          (instr.slots.map (shader.weight refs mark depth)).sum := by
    intro isOther noHeader
    have bodies : ∀ id ∈ instr.slots, shader.tree.kind? id ≠ some .forArgs := by
      intro id isSlot isHeader
      obtain ⟨kind, isOne, isKind⟩ := suits.kind_of_slot isSlot
      rw [isHeader] at isKind
      exact noHeader (Option.some.inj isKind ▸ isOne)
    rw [← count_bodies bodies]
    exact Shader.count_traceInstruction_le _ isOther noHeader
  cases instr with
  | statement expr =>
    exact (discreet.count_traceStatement_le _ expr).trans (Nat.le_add_right _ _)
  | forLoop header block =>
    cases header with
    | clauses clauses => exact plain Kind.noConfusion (by simp [Instruction.kinds])
    | recorded args stacked policy =>
      have isKinds : shader.tree.kind? args = some .forArgs ∧
          shader.tree.kind? block = some .plain := by
        simpa [Tree.Suits, Instruction.slots, Instruction.kinds] using suits
      have isHeader := @count_traceHeader_le shader refs mark depth discreet args isKinds.1 stacked
        policy
      have isBody : shader.weight refs mark depth block =
          (shader.traceBlockWithin depth block).count mark := if_neg (by simp [isKinds.2])
      simp only [traceInstruction, Instruction.slots, List.count_append, List.map_cons,
        List.map_nil, List.sum_cons, List.sum_nil]
      rw [isBody, ← Nat.add_assoc]
      exact Nat.add_le_add_right isHeader _
  | _ => exact plain Kind.noConfusion (by simp [Instruction.kinds])

/-- A block writes no more than its instructions and the blocks in their slots. -/
theorem Discreet.weight_succ_le (discreet : shader.Discreet refs) (id : BlockId) :
    shader.weight refs mark (depth + 1) id ≤
      ((shader.inkedIn refs id).flatMap shader.trace).count mark +
        ((shader.nestedIn id).map (shader.weight refs mark depth)).sum := by
  by_cases isHeader : shader.tree.kind? id = some .forArgs
  · rw [weight, if_pos isHeader]
    exact Nat.le_add_right _ _
  · rw [weight, if_neg isHeader, traceBlockWithin, inkedIn, nestedIn]
    cases found : shader.tree.block? id with
    | none => exact Nat.zero_le _
    | some block =>
      have all := @sum_weight_le _ _ block.instructions.toList Instruction.slots
        (fun instr => ((instr.inked refs).flatMap shader.trace).count mark)
        (fun instr =>
          (shader.traceInstruction (shader.traceBlockWithin depth) instr).count mark)
        (shader.weight refs mark depth) ?_
      · simp only [Option.elim_some]
        rw [List.flatMap_assoc, List.count_flatMap, List.count_flatMap]
        exact all
      · intro instr isInstr
        obtain ⟨site, -, isAt⟩ := Tree.exists_site found isInstr
        exact discreet.count_traceInstruction_le (discreet.shaped.suits site instr isAt)

/-- A shader whose blocks stand in one slot each writes no more than its instructions. -/
theorem Discreet.count_traceAll_le (discreet : shader.Discreet refs)
    (isPerm : (shader.tree.instructions.flatMap Instruction.slots).Perm shader.tree.inner) :
    shader.traceAll.count mark ≤
      ((shader.tree.instructions.flatMap (·.inked refs)).flatMap shader.trace).count mark := by
  have rooted := discreet.shaped.rooted
  have once : ((.root :: shader.tree.inner).flatMap shader.nestedIn).Subperm shader.tree.inner := by
    unfold nestedIn
    rw [Tree.flatMap_block? rooted, ← List.flatMap_assoc]
    exact isPerm.subperm
  have base : ∀ id ∈ .root :: shader.tree.inner, shader.weight refs mark 0 id ≤
      ((shader.inkedIn refs id).flatMap shader.trace).count mark := by
    intro id _
    unfold weight
    split
    · exact Nat.le_refl _
    · exact Nat.zero_le _
  have bounded := weight_le_sum once base (fun depth id _ => discreet.weight_succ_le id)
    (shader.tree.size + 1)
  have isRoot : shader.weight refs mark (shader.tree.size + 1) .root = shader.traceAll.count mark :=
    if_neg (by simp [discreet.shaped.root])
  have isSum : ((.root :: shader.tree.inner).map fun id =>
      ((shader.inkedIn refs id).flatMap shader.trace).count mark).sum =
      ((shader.tree.instructions.flatMap (·.inked refs)).flatMap shader.trace).count mark := by
    have isAll : (.root :: shader.tree.inner).flatMap (shader.inkedIn refs) =
        shader.tree.instructions.flatMap (·.inked refs) := by
      unfold inkedIn
      rw [Tree.flatMap_block? rooted, ← List.flatMap_assoc]
      rfl
    rw [← isAll, List.flatMap_assoc, List.count_flatMap]
    rfl
  rwa [isRoot, isSum] at bounded

/-- A variable that is replaced by a value is constructed by a statement of the tree. -/
theorem statement_of_inlined? {id : VarId} {value : Expr}
    (isInlined : shader.inlined? id = some value) :
    .statement value ∈ shader.tree.instructions ∧
      ∃ made args, value = .construct made args ∧ made.var = id := by
  unfold inlined? at isInlined
  split at isInlined
  · exact statement_of_constructionOf? isInlined
  · cases isInlined

/-- The values of different variables stand in different statements. -/
theorem values_subperm (nodup : refs.Nodup) :
    ((refs.filterMap shader.inlined?).map Instruction.statement).Subperm
      (shader.tree.instructions.filter (·.builds refs)) := by
  have isNodup : (refs.filterMap shader.inlined?).Nodup := by
    refine nodup.filterMap ?_
    intro id other value isValue isOther
    obtain ⟨-, made, args, rfl, rfl⟩ := statement_of_inlined? isValue
    obtain ⟨-, made, args, same, rfl⟩ := statement_of_inlined? isOther
    rw [Expr.construct.injEq] at same
    rw [same.1]
  refine (isNodup.map fun _ _ => Instruction.statement.inj).subperm ?_
  intro instr isInstr
  obtain ⟨value, isValue, rfl⟩ := List.mem_map.mp isInstr
  obtain ⟨id, isRef, isInlined⟩ := List.mem_filterMap.mp isValue
  obtain ⟨isStatement, made, args, rfl, rfl⟩ := statement_of_inlined? isInlined
  exact List.mem_filter.mpr ⟨isStatement, Instruction.builds_iff.mpr ⟨made, args, rfl, isRef⟩⟩

/-- What instructions may write where they stand is in those that construct none of the given
variables. -/
theorem flatMap_inked (instrs : List Instruction) (refs : List VarId) :
    instrs.flatMap (·.inked refs) =
      (instrs.filter fun instr => !instr.builds refs).flatMap Instruction.exprs := by
  induction instrs with
  | nil => rfl
  | cons instr instrs ih =>
    rw [List.flatMap_cons, ih, List.filter_cons, Instruction.inked]
    cases instr.builds refs <;> rfl

/-- What is written where it stands and the values that are written elsewhere are all held. -/
theorem inked_subperm (nodup : refs.Nodup) :
    (shader.tree.instructions.flatMap (·.inked refs) ++ refs.filterMap shader.inlined?).Subperm
      (shader.tree.instructions.flatMap Instruction.exprs) := by
  have isValues : refs.filterMap shader.inlined? =
      ((refs.filterMap shader.inlined?).map Instruction.statement).flatMap Instruction.exprs := by
    rw [List.flatMap_map]
    exact (List.flatMap_singleton' _).symm
  have isPart := subperm_flatMap (@values_subperm shader refs nodup) Instruction.exprs
  have isPerm := (List.filter_append_perm (·.builds refs) shader.tree.instructions).flatMap_right
    Instruction.exprs
  rw [← isValues] at isPart
  rw [List.flatMap_append] at isPerm
  rw [flatMap_inked]
  exact List.perm_append_comm.subperm.trans ((isPart.append (.refl _)).trans isPerm.subperm)

/-- A shader writes no more of variables than its tree holds, if the variables that are replaced by
their values are referred to once and written nowhere else. -/
theorem Discreet.count_traceAll_le_marks (discreet : shader.Discreet refs)
    (isPerm : (shader.tree.instructions.flatMap Instruction.slots).Perm shader.tree.inner)
    (isRefs : shader.tree.marks.filterMap shader.replaced? = refs) (nodup : refs.Nodup)
    (mark : Mark) : shader.traceAll.count mark ≤ shader.tree.marks.count mark := by
  have isMarks : shader.tree.marks =
      (shader.tree.instructions.flatMap Instruction.exprs).flatMap Expr.marks :=
    List.flatMap_assoc.symm
  rw [isMarks] at isRefs ⊢
  exact (discreet.count_traceAll_le isPerm).trans
    (shader.count_trace_le isRefs (inked_subperm nodup) mark)

end Shader

end ShaderLoom
