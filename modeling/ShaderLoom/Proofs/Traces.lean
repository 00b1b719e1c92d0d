import ShaderLoom.Proofs.Hands
import ShaderLoom.Proofs.Marking

/-!
# What a rendering writes of variables

Writing with notes gives the same text as writing without (`Traces`), so the notes tell what stands
in the text. They depend neither on the dialect nor on names: a reference that is replaced by a
value is noted, and after it everything that the value notes (`Shader.traceWithin`). What a whole
shader notes is said block by block (`Shader.traceBlockWithin`).
-/
namespace ShaderLoom

/-- Whether a computation with notes does what the plain one does, and notes the given marks. -/
def Traces {σ α : Type} (marked : Marking (StateT σ (Except RenderError)) α)
    (plain : StateT σ (Except RenderError) α) (marks : List Mark) : Prop :=
  ∀ before, marked before = (fun value => (value, before ++ marks)) <$> plain

namespace Traces

variable {σ α β : Type} {marked : Marking (StateT σ (Except RenderError)) α}
  {plain : StateT σ (Except RenderError) α} {marks later : List Mark}

/-- An answer notes nothing. -/
theorem pure (value : α) :
    Traces (Pure.pure value : Marking (StateT σ (Except RenderError)) α) (Pure.pure value) [] := by
  intro before
  rw [List.append_nil, map_pure]
  rfl

/-- A plain computation notes nothing. -/
theorem lift (plain : StateT σ (Except RenderError) α) : Traces (liftM plain) plain [] := by
  intro before
  rw [List.append_nil, map_eq_pure_bind]
  rfl

/-- A failure is the same with and without notes. -/
theorem throw (error : RenderError) (marks : List Mark) :
    Traces (MonadExcept.throw error : Marking (StateT σ (Except RenderError)) α)
      (MonadExcept.throw error) marks := fun _ => rfl

/-- One thing after another notes what both note. -/
theorem bind {next : α → Marking (StateT σ (Except RenderError)) β}
    {plainNext : α → StateT σ (Except RenderError) β} (first : Traces marked plain marks)
    (second : ∀ value, Traces (next value) (plainNext value) later) :
    Traces (marked >>= next) (plain >>= plainNext) (marks ++ later) := by
  intro before
  show (marked before >>= fun found => next found.1 found.2) = _
  rw [first before, bind_map_left, map_bind]
  congr 1
  funext value
  rw [second value, List.append_assoc]

/-- What is noted first comes first. -/
theorem note (mark : Mark) (rest : Traces marked plain marks) :
    Traces (ShaderLoom.note mark >>= fun _ => marked) plain (mark :: marks) := by
  intro before
  show marked (before ++ [mark]) = _
  rw [rest, List.append_assoc, List.singleton_append]

/-- One thing after another, of which the first notes nothing. -/
theorem next {next : α → Marking (StateT σ (Except RenderError)) β}
    {plainNext : α → StateT σ (Except RenderError) β} (first : Traces marked plain [])
    (second : ∀ value, Traces (next value) (plainNext value) marks) :
    Traces (marked >>= next) (plain >>= plainNext) marks := first.bind second

/-- An answer that is worked out from another notes what that notes. -/
theorem last {next : α → Marking (StateT σ (Except RenderError)) β}
    {plainNext : α → StateT σ (Except RenderError) β} (first : Traces marked plain marks)
    (second : ∀ value, Traces (next value) (plainNext value) []) :
    Traces (marked >>= next) (plain >>= plainNext) marks := by
  have both := first.bind second
  rwa [List.append_nil] at both

end Traces

/-- An operand notes what it notes anywhere. -/
theorem traces_enclosed {parent : Rank} {wrapTies : Bool} {rank : Naming Rank}
    {marked : Marking Naming String} {text : Naming String} {marks : List Mark}
    (traces : Traces marked text marks) :
    Traces (enclosedMarked parent wrapTies rank marked) (enclosed parent wrapTies rank text)
      marks := by
  refine (Traces.lift rank).next fun child => traces.last fun text => ?_
  split
  · exact .pure _
  · exact .pure _

namespace Drafting

/-- A changed text is worked out as the text is. -/
theorem wording_map {α β : Type} (change : α → β) (text : Naming α) :
    wording (change <$> text) = change <$> wording text := by
  funext draft
  unfold wording
  simp only [Functor.map, StateT.map]
  cases text draft.names <;> rfl

/-- A text notes what it notes, wherever it is worked out. -/
theorem traces_wording {α : Type} {marked : Marking Naming α} {text : Naming α}
    {marks : List Mark} (traces : Traces marked text marks) :
    Traces (wordingMarked marked) (wording text) marks := by
  intro before
  unfold wordingMarked
  rw [traces before, wording_map]

/-- What is written one level deeper notes the same. -/
theorem traces_deeper {marked : Marking Drafting Unit} {content : Drafting Unit}
    {marks : List Mark} (traces : Traces marked content marks) :
    Traces (deeperMarked marked) (deeper content) marks :=
  (Traces.lift _).next fun _ => traces.last fun _ => .lift _

end Drafting

namespace Expr

mutual

/-- What an expression holds of variables by itself. -/
def marks : Expr → List Mark
  | .literal _ => []
  | .ref id => [.reference id]
  | .construct made args => .value made.var :: marksOf args
  | .binary _ lhs rhs => marks lhs ++ marks rhs
  | .unary _ _ operand => marks operand
  | .ternary condition yes no => marks condition ++ marks yes ++ marks no
  | .subscript object index => marks object ++ marks index
  | .member object _ => marks object
  | .swizzle object _ => marks object
  | .call _ args => marksOf args

/-- What a list of expressions holds of variables. -/
def marksOf : List Expr → List Mark
  | [] => []
  | expr :: rest => marks expr ++ marksOf rest

end

/-- What a list holds is what its expressions hold. -/
theorem marksOf_eq (exprs : List Expr) : marksOf exprs = exprs.flatMap marks := by
  induction exprs with
  | nil => rfl
  | cons expr rest ih => rw [marksOf, ih, List.flatMap_cons]

end Expr

namespace Shader

variable (shader : Shader) (dialect : Dialect)

/-- What is written where something is marked: after a reference, what it is replaced by. -/
def followed (deep : Expr → List Mark) : Mark → List Mark
  | .value id => [.value id]
  | .reference id => .reference id :: (shader.inlined? id).elim [] deep

/-- What is written of an expression, with values inlined to a depth. -/
def traceWithin : Nat → Expr → List Mark
  | 0, _ => []
  | depth + 1, expr => expr.marks.flatMap (shader.followed (traceWithin depth))

/-- What is written of an expression. -/
def trace (expr : Expr) : List Mark := shader.traceWithin shader.inlineDepth expr

section Exprs

variable {shader dialect} {marked : Expr → Marking Naming String} {deep : Expr → Naming String}
  {trace : Expr → List Mark} {rank : Expr → Naming Rank}

/-- A variable that is replaced by its value is so at once. -/
theorem binding_of_inlined {id : VarId} {value : Expr}
    (isInlined : shader.inlined? id = some value) :
    shader.binding id = pure (.inlined value) := by
  have isKnown : (shader.var? id).isNone = false := by
    unfold inlined? at isInlined
    cases found : shader.var? id with
    | none => simp [found] at isInlined
    | some record => rfl
  unfold binding
  rw [isKnown, isInlined]
  rfl

/-- A variable that is not replaced is written by name. -/
theorem binding_of_named {id : VarId} (isNamed : shader.inlined? id = none) :
    ∃ name : Naming String, shader.binding id = .named <$> name := by
  unfold binding
  rw [isNamed]
  cases (shader.var? id).isNone with
  | true => exact ⟨throw (.unregisteredVariable id), rfl⟩
  | false => exact ⟨shader.nameOf id, rfl⟩

/-- A reference notes itself and what it is replaced by. -/
theorem traces_ref (each : ∀ expr, Traces (marked expr) (deep expr) (trace expr)) (id : VarId) :
    Traces (shader.markWith dialect marked rank (.ref id))
      (shader.writeWith dialect deep rank (.ref id))
      (shader.followed trace (.reference id)) := by
  rw [markWith, writeWith]
  apply Traces.note
  cases isInlined : shader.inlined? id with
  | some value =>
    rw [binding_of_inlined isInlined]
    simp only [liftM_pure, pure_bind]
    exact each value
  | none =>
    obtain ⟨name, isName⟩ := binding_of_named isInlined
    rw [isName]
    simp only [liftM_map, bind_map_left]
    exact (Traces.lift name).next fun _ => .pure _

/-- Arguments note what they note one by one. -/
theorem traces_writeArgs {args : List Expr}
    (each : ∀ arg ∈ args, Traces (shader.markWith dialect marked rank arg)
      (shader.writeWith dialect deep rank arg) (arg.marks.flatMap (shader.followed trace))) :
    Traces (shader.markArgs dialect marked rank args) (shader.writeArgs dialect deep rank args)
      ((Expr.marksOf args).flatMap (shader.followed trace)) := by
  induction args with
  | nil =>
    rw [markArgs, writeArgs]
    exact .pure _
  | cons arg args ih =>
    rw [List.forall_mem_cons] at each
    rw [markArgs, writeArgs, Expr.marksOf, List.flatMap_append]
    refine (traces_enclosed each.1).bind fun _ => ?_
    exact (ih each.2).last fun _ => .pure _

/-- A construction notes the value of its variable and what its arguments note. -/
theorem traces_construct {made : Construction} {args : List Expr}
    (each : ∀ arg ∈ args, Traces (shader.markWith dialect marked rank arg)
      (shader.writeWith dialect deep rank arg) (arg.marks.flatMap (shader.followed trace))) :
    Traces (shader.markWith dialect marked rank (.construct made args))
      (shader.writeWith dialect deep rank (.construct made args))
      (.value made.var :: (Expr.marksOf args).flatMap (shader.followed trace)) := by
  have all := traces_writeArgs each
  match args with
  | [only] =>
    rw [List.forall_mem_singleton] at each
    rw [markWith, writeWith, Expr.marksOf, Expr.marksOf, List.append_nil]
    apply Traces.note
    split
    · exact each
    · dsimp only
      split
      · exact (traces_enclosed each).last fun _ => .pure _
      · exact each.last fun _ => .pure _
  | [] | _ :: _ :: _ =>
    rw [markWith, writeWith]
    · apply Traces.note
      dsimp only
      split
      · exact all.last fun _ => .pure _
      · split
        · exact .throw _ _
        · exact all.last fun _ => .pure _
    · simp
    · simp

/-- The text of an expression notes what the expression holds, with what its references are
replaced by. -/
theorem traces_writeWith (each : ∀ expr, Traces (marked expr) (deep expr) (trace expr))
    (expr : Expr) :
    Traces (shader.markWith dialect marked rank expr) (shader.writeWith dialect deep rank expr)
      (expr.marks.flatMap (shader.followed trace)) := by
  induction expr using Expr.induct with
  | literal value =>
    rw [markWith, writeWith]
    exact .pure _
  | ref id =>
    rw [Expr.marks, List.flatMap_singleton]
    exact traces_ref each id
  | construct made args inner =>
    rw [Expr.marks, List.flatMap_cons]
    exact traces_construct inner
  | binary op lhs rhs left right =>
    rw [markWith, writeWith, Expr.marks, List.flatMap_append]
    refine (traces_enclosed left).bind fun _ => ?_
    exact (traces_enclosed right).last fun _ => .pure _
  | unary op fixity operand inner =>
    rw [markWith, writeWith, Expr.marks]
    refine (traces_enclosed inner).last fun _ => ?_
    cases fixity <;> exact .pure _
  | ternary condition yes no first second third =>
    rw [markWith, writeWith, Expr.marks, List.flatMap_append, List.flatMap_append,
      List.append_assoc]
    refine (traces_enclosed first).bind fun _ => (traces_enclosed second).bind fun _ => ?_
    exact (traces_enclosed third).last fun _ => .pure _
  | subscript object index outer inner =>
    rw [markWith, writeWith, Expr.marks, List.flatMap_append]
    refine (traces_enclosed outer).bind fun _ => ?_
    exact (traces_enclosed inner).last fun _ => .pure _
  | member object name inner | swizzle object components inner =>
    rw [markWith, writeWith, Expr.marks]
    exact (traces_enclosed inner).last fun _ => .pure _
  | call callee args inner =>
    have written := traces_writeArgs inner
    cases callee with
    | builtin name =>
      rw [markWith, writeWith, Expr.marks]
      exact (Traces.pure _).next fun _ => written.last fun _ => .pure _
    | function id =>
      rw [markWith, writeWith, Expr.marks]
      exact (Traces.lift _).next fun _ => written.last fun _ => .pure _

end Exprs

/-- An expression notes its trace. -/
theorem traces_write (shader : Shader) (dialect : Dialect) (expr : Expr) :
    Traces (shader.mark dialect expr) (shader.write dialect expr) (shader.trace expr) := by
  have within : ∀ depth expr, Traces (shader.markWithin dialect depth expr)
      (shader.writeWithin dialect depth expr) (shader.traceWithin depth expr) := by
    intro depth
    induction depth with
    | zero => exact fun _ => .throw _ _
    | succ depth ih => exact traces_writeWith ih
  exact within shader.inlineDepth expr

end Shader

/-- Whether an init declares a variable and gives it no value. -/
def Expr.isBare : Expr → Bool
  | .construct made [] => made.status == .declaration || made.status == .initialisation
  | _ => false

namespace Shader

variable (shader : Shader) (dialect : Dialect)

/-- What is written of one init of a header. -/
def traceInit (expr : Expr) : List Mark := if expr.isBare then [] else shader.trace expr

/-- What is written of the clauses of a header. -/
def traceClauses (clauses : ForClauses) : List Mark :=
  clauses.inits.flatMap shader.traceInit ++ clauses.condition.toList.flatMap shader.trace ++
    clauses.increments.flatMap shader.trace

/-- What is written of a header. -/
def traceHeader (header : ForHeader) : List Mark :=
  match shader.clauses header with
  | .ok clauses => shader.traceClauses clauses
  | .error _ => []

/-- What is written of a construction as a statement: its value, unless it has none or vanishes. -/
def traceConstruction (made : Construction) (args : List Expr) : List Mark :=
  match shader.registry.status? made.var with
  | some .forward | some .initialisation => shader.trace (.construct made args)
  | _ => []

/-- What is written of an instruction, given what is written of a block. -/
def traceInstruction (body : BlockId → List Mark) : Instruction → List Mark
  | .statement (.construct made args) => shader.traceConstruction made args
  | .statement expr => shader.trace expr
  | .ret value _ => value.toList.flatMap shader.trace
  | .branch cases => cases.flatMap fun case =>
    case.condition.toList.flatMap shader.trace ++ body case.body
  | .forLoop header block => shader.traceHeader header ++ body block
  | .whileLoop condition block => shader.trace condition ++ body block
  | .doWhile block condition => body block ++ condition.toList.flatMap shader.trace
  | .switch selector cases => shader.trace selector ++ cases.flatMap fun case => body case.body
  | .function decl => decl.overloads.flatMap fun overload => body overload.body
  | _ => []

/-- What is written of a block, with blocks inside it to a depth. -/
def traceBlockWithin : Nat → BlockId → List Mark
  | 0, _ => []
  | depth + 1, id => (shader.tree.block? id).elim [] fun block =>
    block.instructions.toList.flatMap (shader.traceInstruction (traceBlockWithin depth))

/-- What is written of the whole shader. -/
def traceAll : List Mark := shader.traceBlockWithin (shader.tree.size + 1) .root

variable {shader dialect}

/-- An init notes its trace. -/
theorem traces_writeInit (follows : Bool) (expr : Expr) :
    Traces (shader.markInit dialect follows expr) (shader.writeInit dialect follows expr)
      (shader.traceInit expr) := by
  have written := traces_write shader dialect expr
  unfold markInit writeInit traceInit
  cases expr with
  | construct made args =>
    by_cases declares : made.status = .declaration ∨ made.status = .initialisation
    · have valued : ∀ target, Traces (if args.isEmpty then pure target else do
          let value ← shader.mark dialect (.construct made args)
          pure (target ++ " = " ++ value)) (if args.isEmpty then pure target else do
          let value ← shader.write dialect (.construct made args)
          pure (target ++ " = " ++ value))
          (if (Expr.construct made args).isBare then []
            else shader.trace (.construct made args)) := by
        intro target
        cases args with
        | nil =>
          have isBare : (Expr.construct made []).isBare := by simpa [Expr.isBare] using declares
          rw [if_pos isBare]
          exact .pure _
        | cons arg args => exact written.last fun _ => .pure _
      simp only [if_pos declares]
      split
      · exact (Traces.lift _).next valued
      · exact (Traces.lift _).next valued
    · have isWhole : (Expr.construct made args).isBare = false := by
        cases args with
        | nil => simpa [Expr.isBare] using declares
        | cons arg args => rfl
      simp only [if_neg declares, isWhole]
      exact written
  | _ => exact written

/-- Inits note their traces. -/
theorem traces_writeInits (follows : Bool) (exprs : List Expr) :
    Traces (shader.markInits dialect follows exprs) (shader.writeInits dialect follows exprs)
      (exprs.flatMap shader.traceInit) := by
  induction exprs generalizing follows with
  | nil => exact .pure _
  | cons expr exprs ih =>
    rw [List.flatMap_cons]
    exact (traces_writeInit follows expr).bind fun _ => (ih true).last fun _ => .pure _

/-- A list of expressions notes their traces. -/
theorem traces_mapM (shader : Shader) (dialect : Dialect) (exprs : List Expr) :
    Traces (exprs.mapM (shader.mark dialect)) (exprs.mapM (shader.write dialect))
      (exprs.flatMap shader.trace) := by
  induction exprs with
  | nil => exact .pure _
  | cons expr exprs ih =>
    rw [List.mapM_cons, List.mapM_cons, List.flatMap_cons]
    exact (traces_write shader dialect expr).bind fun _ => ih.last fun _ => .pure _

/-- The clauses of a header note their traces. -/
theorem traces_writeHeader (shader : Shader) (dialect : Dialect) (clauses : ForClauses) :
    Traces (shader.markHeader dialect clauses) (shader.writeHeader dialect clauses)
      (shader.traceClauses clauses) := by
  have increments := traces_mapM shader dialect clauses.increments
  unfold markHeader writeHeader traceClauses
  rw [List.append_assoc]
  refine (traces_writeInits false clauses.inits).bind fun _ => ?_
  cases clauses.condition with
  | none =>
    exact (Traces.pure _).next fun _ => increments.last fun _ => .pure _
  | some condition =>
    rw [Option.toList_some, List.flatMap_singleton]
    exact (traces_write shader dialect condition).bind fun _ => increments.last fun _ => .pure _

section Blocks

open Drafting

variable {marked : BlockId → Marking Drafting Unit} {body : BlockId → Drafting Unit}
  {trace : BlockId → List Mark}

/-- A construction as a statement notes its trace where its value is written. -/
theorem traces_writeConstruction (made : Construction) (args : List Expr) :
    Traces (shader.markConstruction dialect made args)
      (shader.writeConstruction dialect made args) (shader.traceConstruction made args) := by
  have written := traces_wording (traces_write shader dialect (.construct made args))
  unfold markConstruction writeConstruction traceConstruction
  cases made.flags.functionArgument with
  | true => exact fun _ => rfl
  | false =>
    cases shader.registry.status? made.var with
    | none => exact .throw _ _
    | some status =>
      cases status with
      | temporary => exact .pure _
      | forward => exact written.last fun _ => .lift _
      | declaration => exact (Traces.lift _).next fun _ => .lift _
      | initialisation => exact (Traces.lift _).next fun _ => written.last fun _ => .lift _

/-- A return notes the trace of its value. -/
theorem traces_writeReturn (value : Option Expr) (mismatch : Option Mismatch) :
    Traces (shader.markReturn dialect value mismatch) (shader.writeReturn dialect value mismatch)
      (value.toList.flatMap shader.trace) := by
  cases value with
  | none =>
    cases mismatch with
    | none => exact .lift _
    | some mismatch => exact (Traces.lift _).next fun _ => .lift _
  | some value =>
    have returned : Traces (do
        let value ← wordingMarked (shader.mark dialect value)
        line ("return " ++ value ++ ";")) (do
        let value ← wording (shader.write dialect value)
        line ("return " ++ value ++ ";")) (shader.trace value) :=
      (traces_wording (traces_write shader dialect value)).last fun _ => .lift _
    rw [Option.toList_some, List.flatMap_singleton]
    cases mismatch with
    | none => exact returned
    | some mismatch => exact (Traces.lift _).next fun _ => returned

/-- The cases of a chain of conditions note their conditions and bodies. -/
theorem traces_writeCases (each : ∀ id, Traces (marked id) (body id) (trace id)) (follows : Bool)
    (cases : List IfCase) :
    Traces (shader.markCases dialect marked follows cases)
      (shader.writeCases dialect body follows cases) (cases.flatMap fun case =>
        case.condition.toList.flatMap shader.trace ++ trace case.body) := by
  induction cases generalizing follows with
  | nil => exact .pure _
  | cons case rest ih =>
    have goesOn := (traces_deeper (each case.body)).bind fun _ => ih true
    rw [List.flatMap_cons, List.append_assoc]
    simp only [markCases, writeCases]
    cases case.condition with
    | none => exact (Traces.lift _).next fun _ => goesOn
    | some condition =>
      rw [Option.toList_some, List.flatMap_singleton]
      refine (traces_wording (traces_write shader dialect condition)).bind fun _ => ?_
      exact (Traces.lift _).next fun _ => goesOn

/-- A case of a switch notes its body. -/
theorem traces_writeSwitchCase (each : ∀ id, Traces (marked id) (body id) (trace id))
    (case : SwitchCase) :
    Traces (markSwitchCase dialect marked case) (writeSwitchCase dialect body case)
      (trace case.body) := by
  have goesOn := (traces_deeper (each case.body)).last fun _ => Traces.lift (line "\x7d")
  unfold markSwitchCase writeSwitchCase
  cases case.label <;> exact (Traces.lift _).next fun _ => goesOn

/-- The overloads of a function note their bodies. -/
theorem traces_writeOverloads (each : ∀ id, Traces (marked id) (body id) (trace id))
    (returns name : String) (follows : Bool) (overloads : List Overload) :
    Traces (shader.markOverloads dialect marked returns name follows overloads)
      (shader.writeOverloads dialect body returns name follows overloads)
      (overloads.flatMap fun overload => trace overload.body) := by
  induction overloads generalizing follows with
  | nil => exact .pure _
  | cons overload rest ih =>
    have goesOn := (traces_deeper (each overload.body)).bind fun _ =>
      (Traces.lift (line "\x7d")).next fun _ => ih true
    rw [List.flatMap_cons]
    simp only [markOverloads, writeOverloads]
    cases shader.tree.block? overload.args with
    | none => cases follows <;> exact fun _ => rfl
    | some block =>
      cases follows with
      | false => exact (Traces.lift _).next fun _ => (Traces.lift _).next fun _ => goesOn
      | true =>
        refine (Traces.lift _).next fun _ => ?_
        exact (Traces.lift _).next fun _ => (Traces.lift _).next fun _ => goesOn

/-- An instruction notes its trace. -/
theorem traces_writeInstruction (each : ∀ id, Traces (marked id) (body id) (trace id))
    (instr : Instruction) :
    Traces (shader.markInstruction dialect marked instr)
      (shader.writeInstruction dialect body instr) (shader.traceInstruction trace instr) := by
  have written := traces_write shader dialect
  cases instr with
  | statement expr =>
    cases expr with
    | construct made args => exact traces_writeConstruction made args
    | _ => exact (traces_wording (written _)).last fun _ => .lift _
  | ret value mismatch => exact traces_writeReturn value mismatch
  | special stmt => cases stmt <;> exact .lift _
  | branch cases => exact (traces_writeCases each false cases).last fun _ => .lift _
  | forLoop header block =>
    rw [markInstruction, writeInstruction, traceInstruction, traceHeader]
    cases shader.clauses header with
    | error error => exact fun _ => rfl
    | ok clauses =>
      have sorted := traces_wording (traces_writeHeader shader dialect clauses)
      have written := sorted.bind fun header =>
        (Traces.lift (line ("for (" ++ header ++ ") \x7b"))).next fun _ =>
        (traces_deeper (each block)).last fun _ => Traces.lift (line "\x7d")
      exact fun before => written before
  | whileLoop condition block =>
    refine (traces_wording (written condition)).bind fun _ => (Traces.lift _).next fun _ => ?_
    exact (traces_deeper (each block)).last fun _ => .lift _
  | doWhile block condition =>
    cases condition with
    | none => exact .throw _ _
    | some condition =>
      rw [traceInstruction, Option.toList_some, List.flatMap_singleton]
      refine (Traces.lift _).next fun _ => (traces_deeper (each block)).bind fun _ => ?_
      exact (traces_wording (written condition)).last fun _ => .lift _
  | switch selector cases =>
    have all : Traces (cases.forM (markSwitchCase dialect marked))
        (cases.forM (writeSwitchCase dialect body))
        (cases.flatMap fun case => trace case.body) := by
      induction cases with
      | nil => exact .pure _
      | cons case cases ih =>
        rw [List.flatMap_cons]
        exact (traces_writeSwitchCase each case).bind fun _ => ih
    refine (traces_wording (written selector)).bind fun _ => (Traces.lift _).next fun _ => ?_
    exact (traces_deeper all).last fun _ => .lift _
  | function decl =>
    exact (Traces.lift _).next fun _ => traces_writeOverloads each _ _ false decl.overloads
  | struct decl => exact .lift _
  | interface decl => exact .lift _

/-- Instructions note their traces one after the other. -/
theorem traces_writeSequence {marked : Instruction → Marking Drafting Unit}
    {write : Instruction → Drafting Unit} {trace : Instruction → List Mark}
    (each : ∀ instr, Traces (marked instr) (write instr) (trace instr)) (separate : Bool)
    (previous : Option Instruction) (instrs : List Instruction) :
    Traces (markSequence marked separate previous instrs)
      (writeSequence write separate previous instrs) (instrs.flatMap trace) := by
  induction instrs generalizing previous with
  | nil => exact .pure _
  | cons instr instrs ih =>
    have goesOn := (each instr).bind fun _ => ih (some instr)
    rw [List.flatMap_cons]
    simp only [markSequence, writeSequence]
    split
    · exact (Traces.lift _).next fun _ => goesOn
    · exact goesOn

/-- A block notes its trace. -/
theorem traces_writeBlockWithin (depth : Nat) (id : BlockId) :
    Traces (shader.markBlockWithin dialect depth id) (shader.writeBlockWithin dialect depth id)
      (shader.traceBlockWithin depth id) := by
  induction depth generalizing id with
  | zero => exact .throw _ _
  | succ depth ih =>
    rw [markBlockWithin, writeBlockWithin, traceBlockWithin]
    cases shader.tree.block? id with
    | none => exact .throw _ _
    | some block => exact traces_writeSequence (traces_writeInstruction ih) _ _ _

end Blocks

/-- Rendering with notes gives the same text as rendering without, and notes the trace of the
shader. -/
theorem renderMarked_eq (shader : Shader) (dialect : Dialect) (layout : Layout) :
    shader.renderMarked dialect layout =
      (fun text => (text, shader.traceAll)) <$> shader.render dialect layout := by
  have main : Traces (shader.markBlockWithin dialect (shader.tree.size + 1) .root)
      (shader.writeBlock dialect .root) shader.traceAll := traces_writeBlockWithin _ _
  have whole : Traces (do
      if layout.preamble then writePreamble dialect
      shader.markBlockWithin dialect (shader.tree.size + 1) .root : Marking Drafting Unit) (do
      if layout.preamble then writePreamble dialect
      shader.writeBlock dialect .root) shader.traceAll := by
    cases layout.preamble with
    | false => exact main
    | true => exact (Traces.lift _).next fun _ => main
  unfold renderMarked render
  rw [whole [], StateT.run_map, List.nil_append]
  cases StateT.run (σ := Draft) _ _ <;> rfl

end Shader

end ShaderLoom
