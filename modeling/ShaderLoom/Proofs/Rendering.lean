import ShaderLoom.Proofs.Legible

/-!
# Rendering never fails

What an honest build leaves can be written in every dialect and layout. Every way in which writing
could fail is ruled out by what is known of the tree: all blocks are there, the statements of a
header can be sorted into its clauses, and every instruction stands where it belongs.
-/
namespace ShaderLoom

namespace Sorting

/-- What was sorted so far. -/
def exprs (sorting : Sorting) : List Expr :=
  sorting.inits ++ sorting.captured.toList ++ sorting.increments

/-- A sorted statement is in one place, and may take that of another. -/
theorem exprs_add (stacked : Bool) (sorting : Sorting) (expr : Expr) :
    (sorting.add stacked expr).exprs.Subperm (sorting.exprs ++ [expr]) := by
  have isInit : (sorting.toInits expr).exprs.Subperm (sorting.exprs ++ [expr]) := by
    simp only [toInits, exprs, List.append_assoc]
    exact ((List.perm_append_comm.trans (by rw [List.append_assoc])).append_left _).subperm
  have isCondition : (sorting.toCondition expr).exprs.Subperm (sorting.exprs ++ [expr]) := by
    simp only [toCondition, exprs, List.append_assoc]
    refine (List.perm_append_comm.append_left _).subperm.trans ?_
    exact ((List.sublist_append_right _ _).append_left _).subperm
  have isIncrement : (sorting.toIncrements expr).exprs.Subperm (sorting.exprs ++ [expr]) := by
    simp only [toIncrements, exprs, List.append_assoc]
    exact .refl _
  unfold add
  split <;> (try split) <;> (try split) <;> assumption

/-- What was sorted is what was there to sort. -/
theorem exprs_foldl (stacked : Bool) (sorting : Sorting) (list : List Expr) :
    (list.foldl (add stacked) sorting).exprs.Subperm (sorting.exprs ++ list) := by
  induction list generalizing sorting with
  | nil =>
    rw [List.append_nil]
    exact .refl _
  | cons expr list ih =>
    have added := (List.subperm_append_right list).mpr (exprs_add stacked sorting expr)
    rw [List.append_assoc, List.singleton_append] at added
    exact (ih (sorting.add stacked expr)).trans added

end Sorting

/-- Statements make a header. -/
theorem exists_headerStatements {instrs : List Instruction}
    (statements : ∀ instr ∈ instrs, instr.kind = .statement) :
    ∃ exprs, headerStatements instrs = .ok exprs := by
  induction instrs with
  | nil => exact ⟨[], rfl⟩
  | cons instr instrs ih =>
    rw [List.forall_mem_cons] at statements
    obtain ⟨exprs, isHeader⟩ := ih statements.2
    cases instr with
    | statement expr =>
      refine ⟨expr :: exprs, ?_⟩
      rw [headerStatements, isHeader]
      rfl
    | _ => cases statements.1

/-- A header is made of statements. -/
theorem eq_map_of_headerStatements {instrs : List Instruction} {exprs : List Expr}
    (isHeader : headerStatements instrs = .ok exprs) : instrs = exprs.map .statement := by
  induction instrs generalizing exprs with
  | nil =>
    obtain rfl := Except.ok.inj isHeader
    rfl
  | cons instr instrs ih =>
    cases instr with
    | statement expr =>
      rw [headerStatements] at isHeader
      cases found : headerStatements instrs with
      | error error =>
        rw [found] at isHeader
        cases isHeader
      | ok rest =>
        rw [found] at isHeader
        obtain rfl := Except.ok.inj isHeader
        rw [ih found, List.map_cons]
    | _ => cases isHeader

/-- The chosen condition is one of the two. -/
theorem ConditionPolicy.toList_choose (policy : ConditionPolicy) (captured stacked : Option Expr) :
    (policy.choose captured stacked).toList.Subperm (captured.toList ++ stacked.toList) := by
  cases policy <;> cases captured <;> cases stacked <;>
    simp [choose, List.Subperm.refl, List.singleton_subperm_iff]

/-- The clauses of a header hold what its statements hold, and the condition given beside it. -/
theorem exprs_of_partition {instrs : List Instruction} {stacked : Option Expr}
    {policy : ConditionPolicy} {clauses : ForClauses}
    (sorted : partition instrs stacked policy = .ok clauses) :
    clauses.exprs.Subperm (instrs.flatMap Instruction.exprs ++ stacked.toList) := by
  unfold partition at sorted
  cases found : headerStatements instrs with
  | error error =>
    rw [found] at sorted
    cases sorted
  | ok exprs =>
    rw [found] at sorted
    obtain rfl := Except.ok.inj sorted
    obtain rfl := eq_map_of_headerStatements found
    have sorted := Sorting.exprs_foldl stacked.isSome .start exprs
    generalize exprs.foldl (Sorting.add stacked.isSome) .start = sorting at sorted
    have chosen := policy.toList_choose sorting.captured stacked
    have instrsExprs : (exprs.map Instruction.statement).flatMap Instruction.exprs = exprs := by
      rw [List.flatMap_map]
      exact List.flatMap_singleton' exprs
    rw [instrsExprs]
    refine List.Subperm.trans ?_ ((List.subperm_append_right stacked.toList).mpr sorted)
    simp only [ForClauses.exprs, Sorting.exprs, List.append_assoc]
    rw [List.subperm_append_left]
    refine ((List.subperm_append_right sorting.increments).mpr chosen).trans (List.Perm.subperm ?_)
    rw [List.append_assoc]
    exact List.perm_append_comm.append_left _

namespace Shader

variable {shader : Shader} {dialect : Dialect}

/-- One init can be written. -/
theorem Legible.succeeds_writeInit (legible : shader.Legible) {expr : Expr}
    (within : expr.Within shader.registry.size) (follows : Bool) :
    Succeeds (shader.writeInit dialect follows expr) := by
  have written : Succeeds (shader.write dialect expr) := legible.succeeds_write within
  cases within with
  | @construct _ made args known =>
    have valued : ∀ target, Succeeds (if args.isEmpty then pure target else do
        let value ← shader.write dialect (.construct made args)
        pure (target ++ " = " ++ value)) := by
      intro target
      split
      · exact .pure trivial
      · exact written.bind fun _ _ => .pure trivial
    simp only [writeInit]
    split
    · split
      · exact (succeeds_nameOf known).bind fun target _ => valued target
      · exact (succeeds_writeDeclaration known).bind fun target _ => valued target
    · exact written
  | _ => exact written

/-- The inits of a header can be written. -/
theorem Legible.succeeds_writeInits (legible : shader.Legible) {exprs : List Expr}
    (within : ∀ expr ∈ exprs, expr.Within shader.registry.size) (follows : Bool) :
    Succeeds (shader.writeInits dialect follows exprs) := by
  induction exprs generalizing follows with
  | nil => exact .pure trivial
  | cons expr exprs ih =>
    rw [List.forall_mem_cons] at within
    refine (legible.succeeds_writeInit within.1 follows).bind fun _ _ => ?_
    exact (ih within.2 true).bind fun _ _ => .pure trivial

/-- A header can be written. -/
theorem Legible.succeeds_writeHeader (legible : shader.Legible) {clauses : ForClauses}
    (within : ∀ expr ∈ clauses.exprs, expr.Within shader.registry.size) :
    Succeeds (shader.writeHeader dialect clauses) := by
  rw [ForClauses.exprs, List.forall_mem_append, List.forall_mem_append] at within
  obtain ⟨⟨inits, condition⟩, increments⟩ := within
  have last : Succeeds (clauses.increments.mapM (shader.write dialect)) :=
    succeeds_mapM fun expr isExpr => legible.succeeds_write (increments expr isExpr)
  refine (legible.succeeds_writeInits inits false).bind fun _ _ => ?_
  cases isCondition : clauses.condition with
  | none =>
    have blank : Succeeds (pure "" : Naming String) := .pure trivial
    exact blank.bind fun _ _ => last.bind fun _ _ => .pure trivial
  | some test =>
    have tested : Succeeds (shader.write dialect test) := by
      apply legible.succeeds_write
      apply condition
      rw [isCondition]
      exact List.mem_cons_self
    exact tested.bind fun _ _ => last.bind fun _ _ => .pure trivial

/-- The clauses of a header that stands in its place can be worked out. -/
theorem Legible.exists_clauses (legible : shader.Legible) {site : Address} {header : ForHeader}
    {body : BlockId} (isAt : shader.tree.instruction? site = some (.forLoop header body))
    (within : ∀ expr ∈ (Instruction.forLoop header body).exprs,
      expr.Within shader.registry.size) :
    ∃ clauses, shader.clauses header = .ok clauses ∧
      ∀ expr ∈ clauses.exprs, expr.Within shader.registry.size := by
  cases header with
  | clauses clauses => exact ⟨clauses, rfl, within⟩
  | recorded args stacked policy =>
    have isKind : shader.tree.kind? args = some .forArgs := by
      have suits := legible.shaped.suits site _ isAt
      simp only [Tree.Suits, Instruction.slots, Instruction.kinds, List.map_cons,
        List.cons.injEq] at suits
      exact suits.1
    obtain ⟨block, found, -⟩ := Option.map_eq_some_iff.mp isKind
    have inHeader : ∀ instr ∈ block.instructions.toList, instr.kind = .statement ∧
        ∀ expr ∈ instr.exprs, expr.Within shader.registry.size := by
      intro instr isInstr
      obtain ⟨place, rfl, isThere⟩ := Tree.exists_site found isInstr
      cases legible.writable place instr .forArgs isThere isKind with
      | clause clause => exact ⟨rfl, List.forall_mem_singleton.mpr clause⟩
      | declaration isBody | statement isBody | other isBody => cases isBody
    obtain ⟨exprs, isHeader⟩ :=
      exists_headerStatements fun instr isInstr => (inHeader instr isInstr).1
    obtain ⟨sortedClauses, sorted⟩ :
        ∃ clauses, partition block.instructions.toList stacked policy = .ok clauses := by
      unfold partition
      rw [isHeader]
      exact ⟨_, rfl⟩
    refine ⟨sortedClauses, ?_, ?_⟩
    · rw [clauses, found]
      exact sorted
    · intro expr isExpr
      have isGiven := (exprs_of_partition sorted).subset isExpr
      obtain inside | beside := List.mem_append.mp isGiven
      · obtain ⟨instr, isInstr, isExpr⟩ := List.mem_flatMap.mp inside
        exact (inHeader instr isInstr).2 expr isExpr
      · exact within expr beside

/-- The parameters of an overload can be written. -/
theorem Legible.succeeds_writeParameters (legible : shader.Legible) {args : BlockId} {block : Block}
    (found : shader.tree.block? args = some block)
    (isKind : shader.tree.kind? args = some .funcArgs) :
    Succeeds (shader.writeParameters dialect block.instructions.toList) := by
  have isParameter : ∀ instr ∈ block.instructions.toList, ∃ made args,
      instr = .statement (.construct made args) ∧ made.flags.functionArgument ∧
        made.var.index < shader.registry.size := by
    intro instr isInstr
    obtain ⟨site, rfl, isAt⟩ := Tree.exists_site found isInstr
    cases legible.writable site instr .funcArgs isAt isKind with
    | parameter isParameter declared => exact ⟨_, _, rfl, isParameter, known_of_status? declared⟩
    | declaration isBody | statement isBody | other isBody => cases isBody
  generalize block.instructions.toList = instrs at isParameter
  induction instrs with
  | nil => exact .pure trivial
  | cons instr instrs ih =>
    rw [List.forall_mem_cons] at isParameter
    obtain ⟨⟨made, args, rfl, isParameter, known⟩, rest⟩ := isParameter
    simp only [writeParameters]
    rw [if_pos isParameter]
    refine (succeeds_writeDeclaration known).bind fun _ _ => ?_
    exact (ih rest).bind fun _ _ => .pure trivial

/-- A construction can be written as a statement. -/
theorem Legible.succeeds_writeConstruction (legible : shader.Legible) {kind : BlockKind}
    (isBody : kind.isBody) {made : Construction} {args : List Expr}
    (writable : (Instruction.statement (.construct made args)).Writable shader.registry kind) :
    Succeeds (shader.writeConstruction dialect made args) := by
  cases writable with
  | parameter | clause => cases isBody
  | other _ plain => exact absurd rfl plain
  | declaration _ plain declared =>
    unfold writeConstruction
    rw [plain, declared]
    refine (Drafting.gives_wording (succeeds_writeDeclaration ?_)).bind fun _ _ => ?_
    · exact known_of_status? declared
    · exact Drafting.succeeds_line _
  | statement _ within =>
    have written : Succeeds (shader.write dialect (.construct made args)) :=
      legible.succeeds_write within
    obtain ⟨known, plain⟩ := within.construction rfl
    obtain ⟨record, found⟩ := Registry.exists_record known
    have declared : Succeeds (shader.writeDeclaration dialect made) :=
      succeeds_writeDeclaration known
    unfold writeConstruction
    rw [plain, Registry.status?, found, Option.map_some]
    cases record.status with
    | temporary => exact .pure trivial
    | forward =>
      exact (Drafting.gives_wording written).bind fun _ _ => Drafting.succeeds_line _
    | declaration =>
      exact (Drafting.gives_wording declared).bind fun _ _ => Drafting.succeeds_line _
    | initialisation =>
      refine (Drafting.gives_wording declared).bind fun _ _ => ?_
      exact (Drafting.gives_wording written).bind fun _ _ => Drafting.succeeds_line _

section Blocks

open Drafting

variable {body : BlockId → Drafting Unit}

/-- A return can be written. -/
theorem Legible.succeeds_writeReturn (legible : shader.Legible) {value : Option Expr}
    (within : ∀ expr ∈ value.toList, expr.Within shader.registry.size)
    (mismatch : Option Mismatch) : Succeeds (shader.writeReturn dialect value mismatch) := by
  cases value with
  | none =>
    cases mismatch with
    | none => exact succeeds_line _
    | some mismatch => exact (succeeds_line _).bind fun _ _ => succeeds_line _
  | some value =>
    have returned : Succeeds (do
        let value ← wording (shader.write dialect value)
        line ("return " ++ value ++ ";")) := by
      refine (gives_wording (legible.succeeds_write ?_)).bind fun _ _ => succeeds_line _
      exact within value List.mem_cons_self
    cases mismatch with
    | none => exact returned
    | some mismatch => exact (succeeds_line _).bind fun _ _ => returned

/-- The members of a struct can be written. -/
theorem succeeds_writeFields (fields : List Field) : Succeeds (writeFields dialect fields) :=
  succeeds_deeper (succeeds_forM fun _ _ => succeeds_line _)

/-- A struct can be written. -/
theorem succeeds_writeStruct (name : String) (fields : List Field) :
    Succeeds (writeStruct dialect name fields) :=
  (succeeds_line _).bind fun _ _ => (succeeds_writeFields fields).bind fun _ _ => succeeds_line _

/-- An interface block can be written. -/
theorem succeeds_writeInterface {decl : InterfaceDecl}
    (known : decl.var.index < shader.registry.size) :
    Succeeds (shader.writeInterface dialect decl) := by
  refine (gives_wording (succeeds_nameOf known)).bind fun inst _ => ?_
  cases dialect.interfaceStyle with
  | block =>
    refine (succeeds_line _).bind fun _ _ => ?_
    exact (succeeds_writeFields _).bind fun _ _ => succeeds_line _
  | constantBuffer => exact (succeeds_writeStruct _ _).bind fun _ _ => succeeds_line _

/-- A chain of conditions can be written. -/
theorem Legible.succeeds_writeCases (legible : shader.Legible) {cases : List IfCase}
    (conditions : ∀ expr ∈ cases.flatMap (·.condition.toList), expr.Within shader.registry.size)
    (bodies : ∀ case ∈ cases, Succeeds (body case.body)) (follows : Bool) :
    Succeeds (shader.writeCases dialect body follows cases) := by
  induction cases generalizing follows with
  | nil => exact .pure trivial
  | cons case rest ih =>
    rw [List.flatMap_cons, List.forall_mem_append] at conditions
    rw [List.forall_mem_cons] at bodies
    have goesOn : Succeeds (do
        deeper (body case.body)
        shader.writeCases dialect body true rest) :=
      (succeeds_deeper bodies.1).bind fun _ _ => ih conditions.2 bodies.2 true
    simp only [writeCases]
    cases isCondition : case.condition with
    | none => exact (succeeds_line _).bind fun _ _ => goesOn
    | some condition =>
      have tested : Succeeds (shader.write dialect condition) := by
        apply legible.succeeds_write
        apply conditions.1
        rw [isCondition]
        exact List.mem_cons_self
      refine (gives_wording tested).bind fun _ _ => ?_
      exact (succeeds_line _).bind fun _ _ => goesOn

/-- A case of a switch can be written. -/
theorem succeeds_writeSwitchCase {case : SwitchCase} (inner : Succeeds (body case.body)) :
    Succeeds (writeSwitchCase dialect body case) := by
  have goesOn : Succeeds (do
      deeper (body case.body)
      line "\x7d") := (succeeds_deeper inner).bind fun _ _ => succeeds_line _
  unfold writeSwitchCase
  cases case.label with
  | none => exact (succeeds_line _).bind fun _ _ => goesOn
  | some label => exact (succeeds_line _).bind fun _ _ => goesOn

/-- The overloads of a function can be written. -/
theorem Legible.succeeds_writeOverloads (legible : shader.Legible) {overloads : List Overload}
    (signatures : ∀ overload ∈ overloads, shader.tree.kind? overload.args = some .funcArgs)
    (bodies : ∀ overload ∈ overloads, Succeeds (body overload.body)) (returns name : String)
    (follows : Bool) :
    Succeeds (shader.writeOverloads dialect body returns name follows overloads) := by
  induction overloads generalizing follows with
  | nil => exact .pure trivial
  | cons overload rest ih =>
    rw [List.forall_mem_cons] at signatures bodies
    obtain ⟨block, found, -⟩ := Option.map_eq_some_iff.mp signatures.1
    have params : Succeeds (shader.writeParameters dialect block.instructions.toList) :=
      legible.succeeds_writeParameters found signatures.1
    simp only [writeOverloads, found]
    have goesOn : Succeeds (do
        let params ← wording (shader.writeParameters dialect block.instructions.toList)
        line (returns ++ " " ++ name ++ "(" ++ ", ".intercalate params ++ ") \x7b")
        deeper (body overload.body)
        line "\x7d"
        shader.writeOverloads dialect body returns name true rest) := by
      refine (gives_wording params).bind fun _ _ => (succeeds_line _).bind fun _ _ => ?_
      refine (succeeds_deeper bodies.1).bind fun _ _ => (succeeds_line _).bind fun _ _ => ?_
      exact ih signatures.2 bodies.2 true
    split
    · exact succeeds_gap.bind fun _ _ => goesOn
    · exact goesOn

/-- An instruction can be written where it stands if its bodies can. -/
theorem Legible.succeeds_writeInstruction (legible : shader.Legible) {site : Address}
    {instr : Instruction} {kind : BlockKind} (isAt : shader.tree.instruction? site = some instr)
    (isKind : shader.tree.kind? site.block = some kind) (isBody : kind.isBody)
    (bodies : ∀ id ∈ instr.slots, ∀ kind, shader.tree.kind? id = some kind → kind.isBody →
      Succeeds (body id)) :
    Succeeds (shader.writeInstruction dialect body instr) := by
  have writable := legible.writable site instr kind isAt isKind
  have suits := legible.shaped.suits site instr isAt
  have complete := legible.complete site instr isAt
  have allBodies : (∀ kind ∈ instr.kinds, kind.isBody) →
      ∀ id ∈ instr.slots, Succeeds (body id) := by
    intro plain id isSlot
    obtain ⟨kind, isOne, isKind⟩ := suits.kind_of_slot isSlot
    exact bodies id isSlot kind isKind (plain kind isOne)
  cases writable with
  | parameter | clause => cases isBody
  | declaration _ plain declared =>
    exact legible.succeeds_writeConstruction isBody (.declaration isBody plain declared)
  | @statement _ expr _ within =>
    cases expr with
    | construct made args =>
      exact legible.succeeds_writeConstruction isBody (.statement isBody within)
    | _ => exact (gives_wording (legible.succeeds_write within)).bind fun _ _ => succeeds_line _
  | other _ plain exprs names =>
    cases instr with
    | statement => exact absurd rfl plain
    | ret value mismatch => exact legible.succeeds_writeReturn exprs mismatch
    | special stmt => cases stmt <;> exact succeeds_line _
    | branch cases =>
      refine (legible.succeeds_writeCases exprs ?_ false).bind fun _ _ => succeeds_line _
      intro case isCase
      exact allBodies (by simp [Instruction.kinds, BlockKind.isBody]) _ (List.mem_map_of_mem isCase)
    | forLoop header block =>
      obtain ⟨clauses, isClauses, within⟩ := legible.exists_clauses isAt exprs
      have inner : Succeeds (body block) := by
        apply bodies block (by cases header <;> simp [Instruction.slots]) .plain _ rfl
        cases header <;> simp_all [Tree.Suits, Instruction.slots, Instruction.kinds]
      refine (gives_lift isClauses).bind fun _ isOne => ?_
      subst isOne
      refine (gives_wording (legible.succeeds_writeHeader within)).bind fun _ _ => ?_
      refine (succeeds_line _).bind fun _ _ => ?_
      exact (succeeds_deeper inner).bind fun _ _ => succeeds_line _
    | whileLoop condition block =>
      have inner := allBodies (by simp [Instruction.kinds, BlockKind.isBody]) block
        List.mem_cons_self
      have tested : Succeeds (shader.write dialect condition) :=
        legible.succeeds_write (exprs condition List.mem_cons_self)
      refine (gives_wording tested).bind fun _ _ => (succeeds_line _).bind fun _ _ => ?_
      exact (succeeds_deeper inner).bind fun _ _ => succeeds_line _
    | doWhile block condition =>
      have inner := allBodies (by simp [Instruction.kinds, BlockKind.isBody]) block
        List.mem_cons_self
      cases condition with
      | none => cases complete
      | some condition =>
        have tested : Succeeds (shader.write dialect condition) :=
          legible.succeeds_write (exprs condition List.mem_cons_self)
        refine (succeeds_line _).bind fun _ _ => (succeeds_deeper inner).bind fun _ _ => ?_
        exact (gives_wording tested).bind fun _ _ => succeeds_line _
    | switch selector cases =>
      have selected : Succeeds (shader.write dialect selector) :=
        legible.succeeds_write (exprs selector List.mem_cons_self)
      refine (gives_wording selected).bind fun _ _ => (succeeds_line _).bind fun _ _ => ?_
      refine (succeeds_deeper (succeeds_forM ?_)).bind fun _ _ => succeeds_line _
      intro case isCase
      apply succeeds_writeSwitchCase
      exact allBodies (by simp [Instruction.kinds, BlockKind.isBody]) _ (List.mem_map_of_mem isCase)
    | function decl =>
      refine (gives_wording (succeeds_nameOf (names decl.var rfl))).bind fun name _ => ?_
      refine legible.succeeds_writeOverloads ?_ ?_ _ name false
      · exact fun overload isOverload => (suits.overload isOverload).1
      · intro overload isOverload
        refine bodies overload.body ?_ _ (suits.overload isOverload).2 rfl
        exact List.mem_flatMap.mpr ⟨overload, isOverload, by simp⟩
    | struct decl => exact succeeds_writeStruct _ _
    | interface decl => exact succeeds_writeInterface (names decl.var rfl)

/-- Instructions can be written one after the other if each of them can. -/
theorem succeeds_writeSequence {write : Instruction → Drafting Unit} {instrs : List Instruction}
    (each : ∀ instr ∈ instrs, Succeeds (write instr)) (separate : Bool)
    (previous : Option Instruction) :
    Succeeds (writeSequence write separate previous instrs) := by
  induction instrs generalizing previous with
  | nil => exact .pure trivial
  | cons instr instrs ih =>
    rw [List.forall_mem_cons] at each
    have goesOn : Succeeds (do
        write instr
        writeSequence write separate (some instr) instrs) :=
      each.1.bind fun _ _ => ih each.2 (some instr)
    simp only [writeSequence]
    split
    · exact succeeds_gap.bind fun _ _ => goesOn
    · exact goesOn

/-- A body can be written to the depth that is left below it. -/
theorem Legible.succeeds_writeBlockWithin (legible : shader.Legible) {depth : Nat} {id : BlockId}
    (enough : shader.tree.size ≤ id.index + depth) {kind : BlockKind}
    (isKind : shader.tree.kind? id = some kind) (isBody : kind.isBody) :
    Succeeds (shader.writeBlockWithin dialect depth id) := by
  obtain ⟨block, found, -⟩ := Option.map_eq_some_iff.mp isKind
  induction depth generalizing id kind block with
  | zero =>
    have absent : shader.tree.block? id = none := Tree.block?_eq_none_iff.mpr enough
    rw [absent] at found
    cases found
  | succ depth ih =>
    rw [writeBlockWithin, found]
    apply succeeds_writeSequence
    intro instr isInstr
    obtain ⟨site, rfl, isAt⟩ := Tree.exists_site found isInstr
    refine legible.succeeds_writeInstruction isAt isKind isBody ?_
    -- A block in a slot is numbered after the block that holds the instruction.
    intro inner isSlot innerKind isInnerKind isInnerBody
    obtain ⟨innerBlock, foundInner, -⟩ := Option.map_eq_some_iff.mp isInnerKind
    have isChild := (legible.linked.slots site inner (by rwa [Tree.slotsAt, isAt])).2.2
    have later := (legible.linked.parent_lt isChild).1
    exact ih (by omega) isInnerKind isInnerBody innerBlock foundInner

end Blocks

/-- A preamble can be written. -/
theorem succeeds_writePreamble : Succeeds (writePreamble dialect) := by
  unfold writePreamble
  cases dialect.preamble with
  | none => exact .pure trivial
  | some preamble => exact (Drafting.succeeds_line _).bind fun _ _ => Drafting.succeeds_gap

/-- A legible shader can be written in every dialect and layout. -/
theorem Legible.exists_render (legible : shader.Legible) (dialect : Dialect) (layout : Layout) :
    ∃ text, shader.render dialect layout = .ok text := by
  have main : Succeeds (shader.writeBlock dialect .root) :=
    legible.succeeds_writeBlockWithin (by omega) legible.shaped.root rfl
  have whole : Succeeds (do
      if layout.preamble then writePreamble dialect
      shader.writeBlock dialect .root) := by
    split
    · exact succeeds_writePreamble.bind fun _ _ => main
    · exact main
  obtain ⟨_, draft, written, -⟩ := whole ⟨.start shader, .blank layout⟩
  refine ⟨draft.page.finish layout.trailingNewline, ?_⟩
  unfold render
  rw [StateT.run, written]
  rfl

end Shader

/-- Leaving out what nobody reads keeps declarations. -/
theorem Registry.keeps_elideDead (registry : Registry) : registry.Keeps registry.elideDead.1 where
  size := by simp [size, elideDead]
  declared id declared := by
    obtain ⟨record, found, isDeclared⟩ := Option.map_eq_some_iff.mp declared
    have alive : record.isDead = false := by simp [Record.isDead, isDeclared]
    simp [status?, get?_elideDead, found, Record.elide, alive, isDeclared]

namespace Bench

/-- What a sound build leaves can be written. -/
theorem Sound.legible {bench : Bench} (sound : bench.Sound) (grounded : bench.session.Grounded)
    {shader : Shader} {after : Session}
    (finished : Build.finish bench.session = .ok shader after) : shader.Legible := by
  obtain ⟨-, closed, -, rfl⟩ := Build.finish_ok_iff.mp finished
  have keeps : bench.session.registry.Keeps
      (if bench.session.options.elideDead then bench.session.registry.elideDead.1
        else bench.session.registry) := by
    split
    · exact Registry.keeps_elideDead _
    · exact ⟨Nat.le_refl _, fun _ declared => declared⟩
  constructor
  case linked => exact grounded.linked
  case shaped => exact sound.shaped
  case complete =>
    intro site instr isAt
    have settled := (Build.moves_settle bench.session).keeps
      (fun _ _ grounded => Session.Grounded.move grounded) grounded
    obtain isComplete | isOpen := settled.complete site instr isAt
    · exact isComplete
    · rw [closed] at isOpen
      cases isOpen
  case writable =>
    intro site instr kind isAt isKind
    exact (sound.writable site instr kind isAt isKind).keep keeps

/-- The shader of an honest build can be written in every dialect and layout. -/
theorem render_finish (options : BuildOptions) (calls : List Call)
    (honest : (start options).Follows Honest calls) (shader : Shader) (after : Session)
    (finished : Build.finish (Session.reached options calls) = .ok shader after)
    (dialect : Dialect) (layout : Layout) : ∃ text, shader.render dialect layout = .ok text := by
  have sane := (Build.finish_ok_iff.mp finished).1
  have sound := sound_after honest sane
  have grounded := Session.grounded_reached options calls sane
  rw [← after_session] at finished grounded
  exact (sound.legible grounded finished).exists_render dialect layout

/-- A function whose value is consumed, and a loop that calls it, with a header that holds a value
and a condition. -/
def loopedCalls : List Call :=
  [.beginFunc "f" (.scalar .float), .nextOverload [], .construct (.scalar .float) [.int 1],
   .consume ⟨1⟩, .returnValue (.ref ⟨1⟩) (.scalar .float), .endFunc,
   .beginFor, .beginForArgs, .construct (.scalar .int) [.int 0], .use ⟨2⟩,
   .forward (.scalar .bool) (.binary .lt (.ref ⟨2⟩) (.int 4)), .beginForBody,
   .push (.call (.function ⟨0⟩) []), .endFor]

/-- The calls of `loopedCalls` are honest. -/
theorem honest_loopedCalls : (start .standard).Follows Honest loopedCalls := by
  refine ⟨?_, ?_, ?_, ?_, ?_, ?_, ?_, ?_, ?_, ?_, ?_, ?_, ?_, ?_, trivial⟩
  case refine_5 =>
    exact ⟨rfl, List.forall_mem_singleton.mpr (.head _), by decide, by decide⟩
  case refine_11 =>
    exact ⟨rfl, List.forall_mem_singleton.mpr (.tail _ (.head _)), by decide, by decide⟩
  all_goals exact ⟨rfl, nofun, by decide, by decide⟩

/-- The shader of `loopedCalls` can be written. -/
theorem render_finish_looped :
    (start .standard).Follows Honest loopedCalls ∧
      ∃ shader after, Build.finish (Session.reached .standard loopedCalls) = .ok shader after ∧
        ∀ dialect layout, ∃ text, shader.render dialect layout = .ok text :=
  ⟨honest_loopedCalls, _, _, rfl, render_finish .standard loopedCalls honest_loopedCalls _ _ rfl⟩

end Bench

end ShaderLoom
