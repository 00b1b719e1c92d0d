import ShaderLoom.Proofs.Rows

/-!
# How instructions end

Whatever a dialect spells, an instruction that does not vanish ends with a line that does not end in
a newline of its own, except for a text of a vendor that does and a function without a body
(`Shader.adds_writeInstruction`). So no blank line stands at the end of it.
-/
namespace ShaderLoom

/-- Whether a text ends in something else than a newline. -/
def isClosed (text : String) : Bool := text.toList.getLast?.any (· != '\n')

/-- A text is closed if its end is. -/
theorem isClosed_append (text : String) {tail : String} (closed : isClosed tail) :
    isClosed (text ++ tail) := by
  obtain ⟨last, isLast, isFine⟩ := (Option.any_eq_true _ _).mp closed
  rw [isClosed, String.toList_append, List.getLast?_append, isLast]
  exact isFine

/-- A text without newlines is closed unless it is empty. -/
theorem isClosed_of_newline {text : String} (some : text ≠ "") (noNewline : '\n' ∉ text.toList) :
    isClosed text := by
  have spelled : text.toList ≠ [] := fun isEmpty => some (String.toList_eq_nil_iff.mp isEmpty)
  rw [isClosed, List.getLast?_eq_some_getLast spelled, Option.any_some, bne_iff_ne]
  exact fun isNewline => noNewline (isNewline ▸ List.getLast_mem spelled)

/-- Whether rows end with a line, and this does not end in a newline of its own. -/
def Closed (rows : List Row) : Prop :=
  ∃ others depth content, rows = others ++ [.line depth content] ∧ isClosed content

/-- Rows are closed if the last of them are. -/
theorem Closed.append (rows : List Row) {more : List Row} (closed : Closed more) :
    Closed (rows ++ more) := by
  obtain ⟨others, depth, content, rfl, isFine⟩ := closed
  exact ⟨rows ++ others, depth, content, (List.append_assoc ..).symm, isFine⟩

/-- Whether nothing keeps an instruction from ending with a closed line. -/
def Instruction.Closes : Instruction → Prop
  | .special (.vendor text) => isClosed text
  | .function decl => decl.overloads ≠ []
  | _ => True

/-- Whether a computation adds rows as described, whatever names have been handed out. -/
abbrev Adds (depth : Nat) (work : Drafting Unit) (good : List Row → Prop) : Prop :=
  Writes (fun _ => True) depth work good

namespace Adds

open Drafting

variable {depth : Nat} {work : Drafting Unit} {next : Unit → Drafting Unit} {content : String}

/-- To work out a text adds nothing. -/
theorem worded {α : Type} {text : Naming α} {next : α → Drafting Unit} {good : List Row → Prop}
    (second : ∀ value, Adds depth (next value) good) : Adds depth (wording text >>= next) good :=
  Writes.worded (.anything text) fun value _ => second value

/-- A closed line is added. -/
theorem closing (closed : isClosed content) : Adds depth (line content) Closed :=
  .line ⟨[], depth, content, rfl, closed⟩

/-- What is closed at the end is closed, whatever comes before. -/
theorem andThen (first : Adds depth work fun _ => True) (second : Adds depth (next ()) Closed) :
    Adds depth (work >>= next) Closed :=
  first.bind second fun rows _ _ closed => closed.append rows

/-- Whatever is added, one thing after another adds something. -/
theorem both (first : Adds depth work fun _ => True) (second : Adds depth (next ()) fun _ => True) :
    Adds depth (work >>= next) fun _ => True :=
  first.bind second fun _ _ _ _ => trivial

/-- What is added may be anything. -/
theorem any {good : List Row → Prop} (adds : Adds depth work good) :
    Adds depth work fun _ => True := adds.weaken fun _ _ => trivial

/-- One thing for each item of a list adds something. -/
theorem forM {α : Type} {items : List α} {each : α → Drafting Unit}
    (adds : ∀ item ∈ items, Adds depth (each item) fun _ => True) :
    Adds depth (items.forM each) fun _ => True := by
  induction items with
  | nil => exact .nothing trivial
  | cons item items ih =>
    rw [List.forall_mem_cons] at adds
    exact both adds.1 (ih adds.2)

/-- A line in braces, what stands between them, and what closes them. -/
theorem braced {inner : Drafting Unit} (inside : Adds (depth + 1) inner fun _ => True)
    (behind : Adds depth (next ()) Closed) :
    Adds depth (line content >>= fun _ => deeper inner >>= next) Closed :=
  andThen (.line trivial) (andThen inside.deeper behind)

end Adds

namespace Shader

open Drafting

variable {shader : Shader} {dialect : Dialect} {depth : Nat}

/-- A construction ends with a closed line unless it vanishes. -/
theorem adds_writeConstruction {made : Construction} {args : List Expr} :
    Adds depth (shader.writeConstruction dialect made args) fun rows =>
      shader.registry.status? made.var ≠ some .temporary → Closed rows := by
  have closed : ∀ text : String, Adds depth (line (text ++ ";")) fun rows =>
      shader.registry.status? made.var ≠ some .temporary → Closed rows := fun text =>
    (Adds.closing (isClosed_append text (by decide))).weaken fun _ closed _ => closed
  unfold writeConstruction
  cases made.flags.functionArgument with
  | true => exact fun _ _ _ _ ran => nomatch ran
  | false =>
    cases isStatus : shader.registry.status? made.var with
    | none => exact .throw _
    | some status =>
      rw [isStatus] at closed
      cases status with
      | temporary => exact .nothing fun stays => absurd rfl stays
      | forward | declaration => exact .worded fun text => closed text
      | initialisation =>
        exact .worded fun target => .worded fun value => closed _

/-- A return ends with a closed line. -/
theorem adds_writeReturn {value : Option Expr} {mismatch : Option Mismatch} :
    Adds depth (shader.writeReturn dialect value mismatch) Closed := by
  unfold writeReturn
  cases mismatch <;> cases value
  · exact .closing (by decide)
  · exact .worded fun text => .closing (isClosed_append _ (by decide))
  · exact .andThen (.line trivial) (.closing (by decide))
  · refine .andThen (.line trivial) ?_
    exact .worded fun text => .closing (isClosed_append _ (by decide))

/-- Members are lines. -/
theorem adds_writeFields (fields : List Field) :
    Adds (depth + 1)
      (fields.forM fun field => line (dialect.declarator field.ty field.name ++ ";"))
      fun _ => True :=
  .forM fun _ _ => .line trivial

/-- A struct ends with a closed line. -/
theorem adds_writeStruct (name : String) (fields : List Field) :
    Adds depth (writeStruct dialect name fields) Closed :=
  .braced (adds_writeFields fields) (.closing (by decide))

/-- An interface block ends with a closed line. -/
theorem adds_writeInterface (decl : InterfaceDecl) :
    Adds depth (shader.writeInterface dialect decl) Closed := by
  refine .worded fun inst => ?_
  cases dialect.interfaceStyle with
  | block =>
    exact .braced (adds_writeFields decl.fields) (.closing (isClosed_append _ (by decide)))
  | constantBuffer =>
    refine .andThen (adds_writeStruct decl.name decl.fields).any ?_
    exact .closing (isClosed_append _ (by decide))

section Blocks

variable {body : BlockId → Drafting Unit}

/-- Cases are added. -/
theorem adds_writeCases (each : ∀ id depth, Adds depth (body id) fun _ => True) (follows : Bool)
    (cases : List IfCase) :
    Adds depth (shader.writeCases dialect body follows cases) fun _ => True := by
  induction cases generalizing follows with
  | nil => exact .nothing trivial
  | cons case rest ih =>
    have goesOn : Adds depth
        (deeper (body case.body) >>= fun _ => shader.writeCases dialect body true rest)
        fun _ => True := .both (each case.body (depth + 1)).deeper (ih true)
    simp only [writeCases]
    cases case.condition with
    | none => exact .both (.line trivial) goesOn
    | some condition => exact .worded fun text => .both (.line trivial) goesOn

/-- A case of a switch is added. -/
theorem adds_writeSwitchCase (each : ∀ id depth, Adds depth (body id) fun _ => True)
    (case : SwitchCase) : Adds depth (writeSwitchCase dialect body case) fun _ => True := by
  unfold writeSwitchCase
  cases case.label with
  | none | some label =>
    exact .both (.line trivial) (.both (each case.body (depth + 1)).deeper (.line trivial))

/-- Overloads end with a closed line if there are any. -/
theorem adds_writeOverloads (each : ∀ id depth, Adds depth (body id) fun _ => True)
    {returns name : String} (follows : Bool) (overloads : List Overload) :
    Adds depth (shader.writeOverloads dialect body returns name follows overloads) fun rows =>
      overloads ≠ [] → Closed rows := by
  induction overloads generalizing follows with
  | nil => exact .nothing fun some => absurd rfl some
  | cons overload rest ih =>
    have closed : Adds depth
        (line "\x7d" >>= fun _ => shader.writeOverloads dialect body returns name true rest)
        Closed := by
      have brace : Adds depth (line "\x7d") Closed := .closing (by decide)
      cases rest with
      | nil =>
        have nothing : Adds depth (pure ()) (· = []) := .nothing rfl
        refine brace.bind nothing fun rows more closed isEmpty => ?_
        rwa [isEmpty, List.append_nil]
      | cons next rest =>
        exact .andThen brace.any ((ih true).weaken fun _ closed => closed (List.cons_ne_nil _ _))
    have written : Adds depth
        (shader.writeOverloads dialect body returns name false (overload :: rest)) Closed := by
      simp only [writeOverloads]
      cases shader.tree.block? overload.args with
      | none => exact .throw _
      | some block =>
        exact .worded fun params => .braced (each overload.body (depth + 1)) closed
    refine Writes.weaken ?_ fun _ closed _ => closed
    cases follows with
    | false => exact written
    | true => exact Adds.andThen (.gap trivial trivial) written

/-- An instruction that does not vanish ends with a closed line if nothing keeps it from that. -/
theorem adds_writeInstruction (each : ∀ id depth, Adds depth (body id) fun _ => True)
    (instr : Instruction) :
    Adds depth (shader.writeInstruction dialect body instr) fun rows =>
      ¬ shader.vanishes instr → instr.Closes → Closed rows := by
  have brace : Adds depth (line "\x7d") Closed := .closing (by decide)
  -- Only constructions, texts of vendors and functions may end otherwise.
  have closed : ∀ {work : Drafting Unit}, Adds depth work Closed →
      Adds depth work fun rows => ¬ shader.vanishes instr → instr.Closes → Closed rows :=
    fun adds => adds.weaken fun _ closed _ _ => closed
  cases instr with
  | statement expr =>
    cases expr with
    | construct made args =>
      refine adds_writeConstruction.weaken fun rows closed stays _ => closed fun isTemporary => ?_
      simp [vanishes, Instruction.construction?, Expr.construction?, isTemporary] at stays
    | _ => exact closed (.worded fun text => .closing (isClosed_append text (by decide)))
  | ret value mismatch => exact closed adds_writeReturn
  | special stmt =>
    cases stmt with
    | vendor text => exact .line fun _ isClosed => ⟨[], depth, text, rfl, isClosed⟩
    | _ => exact closed (.closing (isClosed_append _ (by decide)))
  | branch cases => exact closed (.andThen (adds_writeCases each false cases) brace)
  | forLoop header block =>
    refine closed (Writes.lifted fun clauses _ => Adds.worded fun text => ?_)
    exact .braced (each block (depth + 1)) brace
  | whileLoop condition block =>
    exact closed (.worded fun text => .braced (each block (depth + 1)) brace)
  | doWhile block condition =>
    cases condition with
    | none => exact .throw _
    | some condition =>
      refine closed (.braced (each block (depth + 1)) (.worded fun text => ?_))
      exact .closing (isClosed_append _ (by decide))
  | switch selector cases =>
    refine closed (.worded fun text => .braced (.forM fun case _ => ?_) brace)
    exact adds_writeSwitchCase each case
  | function decl =>
    refine .worded fun name => ?_
    exact (adds_writeOverloads each false decl.overloads).weaken fun _ closed _ some => closed some
  | struct decl => exact closed (adds_writeStruct decl.name decl.fields)
  | interface decl => exact closed (adds_writeInterface decl)

/-- A sequence of instructions is added. -/
theorem adds_writeSequence {write : Instruction → Drafting Unit}
    (each : ∀ instr, Adds depth (write instr) fun _ => True) (separate : Bool)
    (previous : Option Instruction) (instrs : List Instruction) :
    Adds depth (writeSequence write separate previous instrs) fun _ => True := by
  induction instrs generalizing previous with
  | nil => exact .nothing trivial
  | cons instr instrs ih =>
    have goesOn : Adds depth
        (write instr >>= fun _ => writeSequence write separate (some instr) instrs)
        fun _ => True := .both (each instr) (ih (some instr))
    simp only [writeSequence]
    split
    · exact .both (.gap trivial trivial) goesOn
    · exact goesOn

/-- A block is added. -/
theorem adds_writeBlockWithin (steps : Nat) (id : BlockId) (depth : Nat) :
    Adds depth (shader.writeBlockWithin dialect steps id) fun _ => True := by
  induction steps generalizing id depth with
  | zero => exact .throw _
  | succ steps ih =>
    simp only [writeBlockWithin]
    cases shader.tree.block? id with
    | none => exact .throw _
    | some block =>
      exact adds_writeSequence (fun instr => (adds_writeInstruction ih instr).any) _ _ _

end Blocks

end Shader

end ShaderLoom
