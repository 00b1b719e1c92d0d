import ShaderLoom.Proofs.Hands
import ShaderLoom.Text.Shader

/-!
# What does not depend on the dialect

A dialect decides how things are spelled and where parentheses and lines stand, never what is
looked up next. Two computations are alike (`Alike`) when they fail in the same way and hand out
the same names, whatever texts and ranks they answer with. Each part of writing a shader is alike
for any two dialects and on any two pages, and so is the whole (`Shader.alike_writeBlock`).
-/
namespace ShaderLoom

/-- Whether two computations, from states that hold the same names, fail alike or end in states
that hold the same names. What they answer is left open. -/
def Alike {σ α β : Type} (names : σ → Names) (one : StateT σ (Except RenderError) α)
    (other : StateT σ (Except RenderError) β) : Prop :=
  ∀ first second, names first = names second →
    (fun found => names found.2) <$> one first = (fun found => names found.2) <$> other second

/-- Whether a computation never fails and hands out no names. -/
def Quiet {σ α : Type} (names : σ → Names) (content : StateT σ (Except RenderError) α) : Prop :=
  ∀ state, (fun found => names found.2) <$> content state = .ok (names state)

section Rules

variable {σ α β γ δ : Type} {names : σ → Names} {one : StateT σ (Except RenderError) α}
  {other : StateT σ (Except RenderError) β} {next : α → StateT σ (Except RenderError) γ}
  {otherNext : β → StateT σ (Except RenderError) δ}

/-- An answer is quiet. -/
theorem Quiet.pure (value : α) :
    Quiet names (Pure.pure value : StateT σ (Except RenderError) α) := fun _ => rfl

/-- One quiet thing after another is quiet. -/
theorem Quiet.bind (first : Quiet names one) (second : ∀ value, Quiet names (next value)) :
    Quiet names (one >>= next) := by
  intro state
  have begun := first state
  show _ <$> (one state >>= fun found => next found.1 found.2) = _
  cases ran : one state with
  | error error =>
    rw [ran] at begun
    cases begun
  | ok found =>
    rw [ran] at begun
    have same : names found.2 = names state := Except.ok.inj begun
    rw [← same]
    exact second found.1 found.2

/-- Two quiet computations are alike. -/
theorem Quiet.alike (first : Quiet names one) (second : Quiet names other) :
    Alike names one other := by
  intro before others same
  rw [first before, second others, same]

namespace Alike

/-- Two answers are alike. -/
theorem pure (value : α) (answer : β) :
    Alike names (Pure.pure value : StateT σ (Except RenderError) α)
      (Pure.pure answer : StateT σ (Except RenderError) β) :=
  (Quiet.pure value).alike (Quiet.pure answer)

/-- The same failure is alike. -/
theorem throw (error : RenderError) :
    Alike names (MonadExcept.throw error : StateT σ (Except RenderError) α)
      (MonadExcept.throw error : StateT σ (Except RenderError) β) := fun _ _ _ => rfl

/-- One thing after another is alike if both are, whatever is answered in between. -/
theorem bind (first : Alike names one other)
    (second : ∀ value answer, Alike names (next value) (otherNext answer)) :
    Alike names (one >>= next) (other >>= otherNext) := by
  intro before others same
  have begun := first before others same
  show _ <$> (one before >>= fun found => next found.1 found.2) =
    _ <$> (other others >>= fun found => otherNext found.1 found.2)
  cases ran : one before with
  | error error =>
    cases went : other others with
    | error failure =>
      rw [ran, went] at begun
      have failed : error = failure := Except.error.inj begun
      rw [failed]
      rfl
    | ok found =>
      rw [ran, went] at begun
      cases begun
  | ok found =>
    cases went : other others with
    | error failure =>
      rw [ran, went] at begun
      cases begun
    | ok outcome =>
      rw [ran, went] at begun
      exact second found.1 outcome.1 found.2 outcome.2 (Except.ok.inj begun)

/-- What comes after quiet things decides. -/
theorem skip (first : Quiet names one) (second : Quiet names other)
    (rest : ∀ value answer, Alike names (next value) (otherNext answer)) :
    Alike names (one >>= next) (other >>= otherNext) := (first.alike second).bind rest

end Alike

end Rules

namespace Naming

variable {α β γ δ : Type}

/-- The same computation of names is alike to itself. -/
theorem alike_self (text : Naming α) : Alike id text text := by
  intro first second same
  rw [show first = second from same]

/-- After the same computation of names, what comes next may use its answer. -/
theorem alike_same (text : Naming α) {next : α → Naming γ} {otherNext : α → Naming δ}
    (rest : ∀ value, Alike id (next value) (otherNext value)) :
    Alike id (text >>= next) (text >>= otherNext) := by
  intro first second same
  rw [show first = second from same]
  show _ <$> (text second >>= fun found => next found.1 found.2) =
    _ <$> (text second >>= fun found => otherNext found.1 found.2)
  cases text second with
  | error error => rfl
  | ok found => exact rest found.1 found.2 found.2 rfl

/-- Operands are alike if their ranks and texts are: the rank decides on parentheses only. -/
theorem alike_enclosed {parent otherParent : Rank} {wrapTies otherTies : Bool}
    {rank otherRank : Naming Rank} {text otherText : Naming String}
    (ranks : Alike id rank otherRank) (texts : Alike id text otherText) :
    Alike id (enclosed parent wrapTies rank text)
      (enclosed otherParent otherTies otherRank otherText) := by
  refine ranks.bind fun _ _ => texts.bind fun _ _ => ?_
  split <;> split <;> exact .pure _ _

end Naming

namespace Drafting

/-- Alike texts are alike wherever they are worked out. -/
theorem alike_wording {α β : Type} {text : Naming α} {other : Naming β}
    (alike : Alike id text other) : Alike Draft.names (wording text) (wording other) := by
  intro first second same
  have worded := alike first.names second.names same
  unfold wording
  cases ran : text first.names with
  | error error =>
    cases went : other second.names with
    | error failure =>
      rw [ran, went] at worded
      exact worded
    | ok found =>
      rw [ran, went] at worded
      cases worded
  | ok found =>
    cases went : other second.names with
    | error failure =>
      rw [ran, went] at worded
      cases worded
    | ok outcome =>
      rw [ran, went] at worded
      exact worded

/-- A line is quiet. -/
theorem quiet_line (content : String) : Quiet Draft.names (line content) := fun _ => rfl

/-- A blank line is quiet. -/
theorem quiet_gap : Quiet Draft.names gap := fun _ => rfl

/-- Two lines are alike, whatever stands in them. -/
theorem alike_line (content other : String) : Alike Draft.names (line content) (line other) :=
  (quiet_line content).alike (quiet_line other)

/-- What is quiet is so one level deeper. -/
theorem quiet_deeper {content : Drafting Unit} (quiet : Quiet Draft.names content) :
    Quiet Draft.names (deeper content) :=
  Quiet.bind (fun _ => rfl) fun _ => quiet.bind fun _ => fun _ => rfl

/-- What is alike is so one level deeper. -/
theorem alike_deeper {content other : Drafting Unit} (alike : Alike Draft.names content other) :
    Alike Draft.names (deeper content) (deeper other) :=
  Alike.skip (fun _ => rfl) (fun _ => rfl) fun _ _ =>
    alike.bind fun _ _ => Quiet.alike (fun _ => rfl) fun _ => rfl

/-- Alike texts, each on a line of its own. -/
theorem alike_worded {text other : Naming String} (alike : Alike id text other)
    (content otherContent : String → String) :
    Alike Draft.names (do
      let text ← wording text
      line (content text)) (do
      let text ← wording other
      line (otherContent text)) :=
  (alike_wording alike).bind fun _ _ => alike_line _ _

end Drafting

namespace Shader

open Naming Drafting

variable {shader : Shader} {dialect other : Dialect}

section Exprs

variable {rank otherRank : Expr → Naming Rank} {deep otherDeep : Expr → Naming String}

/-- The rank of an expression asks for the same names in every dialect. -/
theorem alike_rankWith (ranks : ∀ expr, Alike id (rank expr) (otherRank expr)) (expr : Expr) :
    Alike id (shader.rankWith dialect rank expr) (shader.rankWith other otherRank expr) := by
  induction expr using Expr.induct with
  | ref id =>
    simp only [rankWith]
    refine alike_same _ fun binding => ?_
    cases binding with
    | named name => exact .pure _ _
    | inlined value => exact ranks value
  | construct made args inner =>
    match args with
    | [only] =>
      rw [List.forall_mem_singleton] at inner
      simp only [rankWith]
      split
      · exact .pure _ _
      · exact inner
    | [] | _ :: _ :: _ => exact .pure _ _
  | _ => simp only [rankWith]; exact .pure _ _

/-- With values inlined to a depth, ranks ask for the same names in every dialect. -/
theorem alike_rankWithin (depth : Nat) (expr : Expr) :
    Alike id (shader.rankWithin dialect depth expr) (shader.rankWithin other depth expr) := by
  induction depth generalizing expr with
  | zero => exact .throw _
  | succ depth ih => exact alike_rankWith ih expr

/-- An operand is alike in any two places if its text is. -/
theorem alike_operand (ranks : ∀ expr, Alike id (rank expr) (otherRank expr)) {expr : Expr}
    {parent otherParent : Rank} {wrapTies otherTies : Bool}
    (text : Alike id (shader.writeWith dialect deep rank expr)
      (shader.writeWith other otherDeep otherRank expr)) :
    Alike id (enclosed parent wrapTies (shader.rankWith dialect rank expr)
        (shader.writeWith dialect deep rank expr))
      (enclosed otherParent otherTies (shader.rankWith other otherRank expr)
        (shader.writeWith other otherDeep otherRank expr)) :=
  alike_enclosed (alike_rankWith ranks expr) text

/-- Arguments are alike if each of them is. -/
theorem alike_writeArgs (ranks : ∀ expr, Alike id (rank expr) (otherRank expr)) {args : List Expr}
    (each : ∀ arg ∈ args, Alike id (shader.writeWith dialect deep rank arg)
      (shader.writeWith other otherDeep otherRank arg)) :
    Alike id (shader.writeArgs dialect deep rank args)
      (shader.writeArgs other otherDeep otherRank args) := by
  induction args with
  | nil =>
    simp only [writeArgs]
    exact .pure _ _
  | cons arg rest ih =>
    rw [List.forall_mem_cons] at each
    simp only [writeArgs]
    refine (alike_operand ranks each.1).bind fun _ _ => ?_
    exact (ih each.2).bind fun _ _ => .pure _ _

/-- A construction is alike if its arguments are. -/
theorem alike_construct (ranks : ∀ expr, Alike id (rank expr) (otherRank expr))
    {made : Construction} {args : List Expr}
    (each : ∀ arg ∈ args, Alike id (shader.writeWith dialect deep rank arg)
      (shader.writeWith other otherDeep otherRank arg)) :
    Alike id (shader.writeWith dialect deep rank (.construct made args))
      (shader.writeWith other otherDeep otherRank (.construct made args)) := by
  have all := alike_writeArgs ranks each
  match args with
  | [only] =>
    rw [List.forall_mem_singleton] at each
    simp only [writeWith]
    split
    · exact each
    · split
      · exact (alike_operand ranks each).bind fun _ _ => .pure _ _
      · exact each.bind fun _ _ => .pure _ _
  | [] | _ :: _ :: _ =>
    simp only [writeWith]
    split
    · exact all.bind fun _ _ => .pure _ _
    · split
      · exact .throw _
      · exact all.bind fun _ _ => .pure _ _

/-- The text of an expression asks for the same names in every dialect. -/
theorem alike_writeWith (ranks : ∀ expr, Alike id (rank expr) (otherRank expr))
    (texts : ∀ expr, Alike id (deep expr) (otherDeep expr)) (expr : Expr) :
    Alike id (shader.writeWith dialect deep rank expr)
      (shader.writeWith other otherDeep otherRank expr) := by
  induction expr using Expr.induct with
  | literal value =>
    simp only [writeWith]
    exact .pure _ _
  | ref id =>
    simp only [writeWith]
    refine alike_same _ fun binding => ?_
    cases binding with
    | named name => exact .pure _ _
    | inlined value => exact texts value
  | construct made args inner => exact alike_construct ranks inner
  | binary op lhs rhs left right =>
    simp only [writeWith]
    refine (alike_operand ranks left).bind fun _ _ => ?_
    exact (alike_operand ranks right).bind fun _ _ => .pure _ _
  | unary op fixity operand inner =>
    simp only [writeWith]
    refine (alike_operand ranks inner).bind fun _ _ => ?_
    cases fixity <;> exact .pure _ _
  | ternary condition yes no first second third =>
    simp only [writeWith]
    refine (alike_operand ranks first).bind fun _ _ => ?_
    refine (alike_operand ranks second).bind fun _ _ => ?_
    exact (alike_operand ranks third).bind fun _ _ => .pure _ _
  | subscript object index outer inner =>
    simp only [writeWith]
    refine (alike_operand ranks outer).bind fun _ _ => ?_
    exact (alike_operand ranks inner).bind fun _ _ => .pure _ _
  | member object name inner | swizzle object components inner =>
    simp only [writeWith]
    exact (alike_operand ranks inner).bind fun _ _ => .pure _ _
  | call callee args inner =>
    have written := alike_writeArgs ranks inner
    simp only [writeWith]
    cases callee with
    | builtin name => exact (Alike.pure _ _).bind fun _ _ => written.bind fun _ _ => .pure _ _
    | function id =>
      exact (alike_self _).bind fun _ _ => written.bind fun _ _ => .pure _ _

end Exprs

/-- The text of an expression, wherever it is worked out, asks for the same names in every
dialect. -/
theorem alike_write (expr : Expr) :
    Alike id (shader.write dialect expr) (shader.write other expr) := by
  have within : ∀ depth expr, Alike id (shader.writeWithin dialect depth expr)
      (shader.writeWithin other depth expr) := by
    intro depth
    induction depth with
    | zero => exact fun _ => .throw _
    | succ depth ih => exact alike_writeWith (alike_rankWithin depth) ih
  exact within shader.inlineDepth expr

/-- A declaration asks for the name of its variable. -/
theorem alike_writeDeclaration (made : Construction) :
    Alike id (shader.writeDeclaration dialect made) (shader.writeDeclaration other made) := by
  refine (alike_self _).bind fun _ _ => ?_
  cases made.qualifier <;> exact .pure _ _

/-- An init of a header asks for the same names in every dialect. -/
theorem alike_writeInit (follows : Bool) (expr : Expr) :
    Alike id (shader.writeInit dialect follows expr) (shader.writeInit other follows expr) := by
  have written := @alike_write shader dialect other expr
  cases expr with
  | construct made args =>
    simp only [writeInit]
    split
    · have valued : ∀ target otherTarget, Alike id
          (if args.isEmpty then pure target else do
            let value ← shader.write dialect (.construct made args)
            pure (target ++ " = " ++ value))
          (if args.isEmpty then pure otherTarget else do
            let value ← shader.write other (.construct made args)
            pure (otherTarget ++ " = " ++ value)) := by
        intro target otherTarget
        split
        · exact .pure _ _
        · exact written.bind fun _ _ => .pure _ _
      split
      · exact (alike_self _).bind valued
      · exact (alike_writeDeclaration made).bind valued
    · exact written
  | _ => exact written

/-- The inits of a header ask for the same names in every dialect. -/
theorem alike_writeInits (follows : Bool) (exprs : List Expr) :
    Alike id (shader.writeInits dialect follows exprs)
      (shader.writeInits other follows exprs) := by
  induction exprs generalizing follows with
  | nil => exact .pure _ _
  | cons expr exprs ih =>
    exact (alike_writeInit follows expr).bind fun _ _ => (ih true).bind fun _ _ => .pure _ _

/-- A list of expressions asks for the same names in every dialect. -/
theorem alike_mapM (exprs : List Expr) :
    Alike id (exprs.mapM (shader.write dialect)) (exprs.mapM (shader.write other)) := by
  induction exprs with
  | nil => exact .pure _ _
  | cons expr exprs ih =>
    rw [List.mapM_cons, List.mapM_cons]
    exact (alike_write expr).bind fun _ _ => ih.bind fun _ _ => .pure _ _

/-- A header asks for the same names in every dialect. -/
theorem alike_writeHeader (clauses : ForClauses) :
    Alike id (shader.writeHeader dialect clauses) (shader.writeHeader other clauses) := by
  unfold writeHeader
  refine (alike_writeInits false clauses.inits).bind fun _ _ => ?_
  cases clauses.condition with
  | none =>
    exact (Alike.pure _ _).bind fun _ _ =>
      (alike_mapM clauses.increments).bind fun _ _ => .pure _ _
  | some condition =>
    exact (alike_write condition).bind fun _ _ =>
      (alike_mapM clauses.increments).bind fun _ _ => .pure _ _

/-- Parameters ask for the same names in every dialect, and are refused for the same reason. -/
theorem alike_writeParameters (instrs : List Instruction) :
    Alike id (shader.writeParameters dialect instrs) (shader.writeParameters other instrs) := by
  induction instrs with
  | nil => exact .pure _ _
  | cons instr instrs ih =>
    simp only [writeParameters]
    split
    · split
      · exact (alike_writeDeclaration _).bind fun _ _ => ih.bind fun _ _ => .pure _ _
      · exact .throw _
    · exact .throw _

section Statements

/-- A construction as a statement asks for the same names in every dialect. -/
theorem alike_writeConstruction (made : Construction) (args : List Expr) :
    Alike Draft.names (shader.writeConstruction dialect made args)
      (shader.writeConstruction other made args) := by
  have value := @alike_write shader dialect other (.construct made args)
  have target := @alike_writeDeclaration shader dialect other made
  unfold writeConstruction
  cases made.flags.functionArgument with
  | true => exact fun _ _ _ => rfl
  | false =>
    cases shader.registry.status? made.var with
    | none => exact .throw _
    | some status =>
      cases status with
      | temporary => exact .pure _ _
      | forward => exact alike_worded value _ _
      | declaration => exact alike_worded target _ _
      | initialisation => exact (alike_wording target).bind fun _ _ => alike_worded value _ _

/-- A return asks for the same names in every dialect; the note above it is quiet. -/
theorem alike_writeReturn (value : Option Expr) (mismatch : Option Mismatch) :
    Alike Draft.names (shader.writeReturn dialect value mismatch)
      (shader.writeReturn other value mismatch) := by
  cases value with
  | none =>
    cases mismatch with
    | none => exact alike_line _ _
    | some mismatch => exact .skip (quiet_line _) (quiet_line _) fun _ _ => alike_line _ _
  | some value =>
    have returned : Alike Draft.names (do
        let value ← wording (shader.write dialect value)
        line ("return " ++ value ++ ";")) (do
        let value ← wording (shader.write other value)
        line ("return " ++ value ++ ";")) := alike_worded (alike_write value) _ _
    cases mismatch with
    | none => exact returned
    | some mismatch => exact .skip (quiet_line _) (quiet_line _) fun _ _ => returned

/-- The members of a struct are quiet. -/
theorem quiet_writeFields (dialect : Dialect) (fields : List Field) :
    Quiet Draft.names (writeFields dialect fields) := by
  apply quiet_deeper
  induction fields with
  | nil => exact .pure _
  | cons field fields ih => exact (quiet_line _).bind fun _ => ih

/-- A struct is quiet. -/
theorem quiet_writeStruct (dialect : Dialect) (name : String) (fields : List Field) :
    Quiet Draft.names (writeStruct dialect name fields) :=
  (quiet_line _).bind fun _ => (quiet_writeFields dialect fields).bind fun _ => quiet_line _

/-- An interface block asks for the name of its instance, whatever form it has. -/
theorem alike_writeInterface (decl : InterfaceDecl) :
    Alike Draft.names (shader.writeInterface dialect decl)
      (shader.writeInterface other decl) := by
  have quietBlock : ∀ (dialect : Dialect) (inst : String), Quiet Draft.names (do
      line (dialect.qualifier decl.qualifier ++ " " ++ decl.name ++ " \x7b")
      writeFields dialect decl.fields
      line ("\x7d " ++ inst ++ ";")) := fun _ _ =>
    (quiet_line _).bind fun _ => (quiet_writeFields _ _).bind fun _ => quiet_line _
  have quietBuffer : ∀ (dialect : Dialect) (inst : String), Quiet Draft.names (do
      writeStruct dialect decl.name decl.fields
      line ("ConstantBuffer<" ++ decl.name ++ "> " ++ inst ++ ";")) := fun _ _ =>
    (quiet_writeStruct _ _ _).bind fun _ => quiet_line _
  refine (alike_wording (alike_self _)).bind fun inst name => ?_
  cases dialect.interfaceStyle <;> cases other.interfaceStyle
  · exact (quietBlock dialect inst).alike (quietBlock other name)
  · exact (quietBlock dialect inst).alike (quietBuffer other name)
  · exact (quietBuffer dialect inst).alike (quietBlock other name)
  · exact (quietBuffer dialect inst).alike (quietBuffer other name)

end Statements

section Blocks

variable {body otherBody : BlockId → Drafting Unit}

/-- The cases of a chain of conditions are alike if their bodies are. -/
theorem alike_writeCases (each : ∀ id, Alike Draft.names (body id) (otherBody id))
    (follows : Bool) (cases : List IfCase) :
    Alike Draft.names (shader.writeCases dialect body follows cases)
      (shader.writeCases other otherBody follows cases) := by
  induction cases generalizing follows with
  | nil => exact .pure _ _
  | cons case rest ih =>
    have goesOn := (alike_deeper (each case.body)).bind fun _ _ => ih true
    simp only [writeCases]
    cases case.condition with
    | none => exact .skip (quiet_line _) (quiet_line _) fun _ _ => goesOn
    | some condition =>
      refine (alike_wording (alike_write condition)).bind fun _ _ => ?_
      exact .skip (quiet_line _) (quiet_line _) fun _ _ => goesOn

/-- A case of a switch is alike if its body is. -/
theorem alike_writeSwitchCase (each : ∀ id, Alike Draft.names (body id) (otherBody id))
    (case : SwitchCase) :
    Alike Draft.names (writeSwitchCase dialect body case)
      (writeSwitchCase other otherBody case) := by
  have goesOn := (alike_deeper (each case.body)).bind fun _ _ =>
    alike_line "\x7d" "\x7d"
  unfold writeSwitchCase
  cases case.label <;> exact .skip (quiet_line _) (quiet_line _) fun _ _ => goesOn

/-- The overloads of a function are alike if their bodies are. -/
theorem alike_writeOverloads (each : ∀ id, Alike Draft.names (body id) (otherBody id))
    (returns name otherReturns otherName : String) (follows : Bool) (overloads : List Overload) :
    Alike Draft.names (shader.writeOverloads dialect body returns name follows overloads)
      (shader.writeOverloads other otherBody otherReturns otherName follows overloads) := by
  induction overloads generalizing follows with
  | nil => exact .pure _ _
  | cons overload rest ih =>
    have goesOn := (alike_deeper (each overload.body)).bind fun _ _ =>
      Alike.skip (quiet_line "\x7d") (quiet_line "\x7d") fun _ _ => ih true
    have overloaded : Alike Draft.names
        (shader.writeOverloads dialect body returns name false (overload :: rest))
        (shader.writeOverloads other otherBody otherReturns otherName false
          (overload :: rest)) := by
      simp only [writeOverloads]
      cases shader.tree.block? overload.args with
      | none => exact .throw _
      | some block =>
        refine (alike_wording (alike_writeParameters _)).bind fun _ _ => ?_
        exact .skip (quiet_line _) (quiet_line _) fun _ _ => goesOn
    cases follows with
    | false => exact overloaded
    | true => exact .skip quiet_gap quiet_gap fun _ _ => overloaded

/-- An instruction is alike in every dialect if the blocks inside it are. -/
theorem alike_writeInstruction (each : ∀ id, Alike Draft.names (body id) (otherBody id))
    (instr : Instruction) :
    Alike Draft.names (shader.writeInstruction dialect body instr)
      (shader.writeInstruction other otherBody instr) := by
  have inside : ∀ block, Alike Draft.names (do
      deeper (body block)
      line "\x7d") (do
      deeper (otherBody block)
      line "\x7d") := fun block =>
    (alike_deeper (each block)).bind fun _ _ => alike_line _ _
  cases instr with
  | statement expr =>
    cases expr with
    | construct made args => exact alike_writeConstruction made args
    | _ => exact alike_worded (alike_write _) _ _
  | ret value mismatch => exact alike_writeReturn value mismatch
  | special stmt => cases stmt <;> exact alike_line _ _
  | branch cases => exact (alike_writeCases each false cases).bind fun _ _ => alike_line _ _
  | forLoop header block =>
    simp only [writeInstruction]
    cases shader.clauses header with
    | error error => exact fun _ _ _ => rfl
    | ok clauses =>
      have sorted := @alike_writeHeader shader dialect other clauses
      have written := (alike_wording sorted).bind fun header otherHeader =>
        Alike.skip (quiet_line ("for (" ++ header ++ ") \x7b"))
          (quiet_line ("for (" ++ otherHeader ++ ") \x7b")) fun _ _ => inside block
      exact fun first second same => written first second same
  | whileLoop condition block =>
    refine (alike_wording (alike_write condition)).bind fun _ _ => ?_
    exact .skip (quiet_line _) (quiet_line _) fun _ _ => inside block
  | doWhile block condition =>
    cases condition with
    | none => exact .throw _
    | some condition =>
      refine .skip (quiet_line _) (quiet_line _) fun _ _ => ?_
      refine (alike_deeper (each block)).bind fun _ _ => ?_
      exact alike_worded (alike_write condition) _ _
  | switch selector cases =>
    have all : Alike Draft.names (cases.forM (writeSwitchCase dialect body))
        (cases.forM (writeSwitchCase other otherBody)) := by
      induction cases with
      | nil => exact .pure _ _
      | cons case cases ih => exact (alike_writeSwitchCase each case).bind fun _ _ => ih
    refine (alike_wording (alike_write selector)).bind fun _ _ => ?_
    refine .skip (quiet_line _) (quiet_line _) fun _ _ => ?_
    exact (alike_deeper all).bind fun _ _ => alike_line _ _
  | function decl =>
    refine (alike_wording (alike_self _)).bind fun _ _ => ?_
    exact alike_writeOverloads each _ _ _ _ false decl.overloads
  | struct decl => exact (quiet_writeStruct _ _ _).alike (quiet_writeStruct _ _ _)
  | interface decl => exact alike_writeInterface decl

/-- Instructions in order are alike if each of them is. -/
theorem alike_writeSequence {write otherWrite : Instruction → Drafting Unit}
    (each : ∀ instr, Alike Draft.names (write instr) (otherWrite instr)) (separate : Bool)
    (previous : Option Instruction) (instrs : List Instruction) :
    Alike Draft.names (writeSequence write separate previous instrs)
      (writeSequence otherWrite separate previous instrs) := by
  induction instrs generalizing previous with
  | nil => exact .pure _ _
  | cons instr instrs ih =>
    have goesOn := (each instr).bind fun _ _ => ih (some instr)
    simp only [writeSequence]
    split
    · exact .skip quiet_gap quiet_gap fun _ _ => goesOn
    · exact goesOn

/-- A block hands out the same names in every dialect, or fails alike. -/
theorem alike_writeBlock (id : BlockId) :
    Alike Draft.names (shader.writeBlock dialect id) (shader.writeBlock other id) := by
  have within : ∀ depth id, Alike Draft.names (shader.writeBlockWithin dialect depth id)
      (shader.writeBlockWithin other depth id) := by
    intro depth
    induction depth with
    | zero => exact fun _ => .throw _
    | succ depth ih =>
      intro id
      simp only [writeBlockWithin]
      cases shader.tree.block? id with
      | none => exact .throw _
      | some block => exact alike_writeSequence (alike_writeInstruction ih) _ _ _
  exact within (shader.tree.size + 1) id

end Blocks

/-- The preamble is quiet. -/
theorem quiet_writePreamble (dialect : Dialect) : Quiet Draft.names (writePreamble dialect) := by
  unfold writePreamble
  cases dialect.preamble with
  | none => exact .pure _
  | some preamble => exact (quiet_line _).bind fun _ => quiet_gap

/-- A shader behind a preamble, if wanted, hands out the names of the shader. -/
theorem alike_writePreamble (layout otherLayout : Layout) :
    Alike Draft.names (do
      if layout.preamble then writePreamble dialect
      shader.writeBlock dialect .root) (do
      if otherLayout.preamble then writePreamble other
      shader.writeBlock other .root) := by
  have main := @alike_writeBlock shader dialect other .root
  have quiet := quiet_writePreamble
  have empty : Quiet Draft.names (pure ()) := .pure ()
  cases layout.preamble <;> cases otherLayout.preamble
  · exact main
  · exact .skip empty (quiet other) fun _ _ => main
  · exact .skip (quiet dialect) empty fun _ _ => main
  · exact .skip (quiet dialect) (quiet other) fun _ _ => main

/-- The page a rendering ends with and the names it has handed out by then. -/
def draft (shader : Shader) (dialect : Dialect) (layout : Layout) : Except RenderError Draft :=
  Prod.snd <$> StateT.run (do
    if layout.preamble then writePreamble dialect
    shader.writeBlock dialect .root) ⟨.start shader, .blank layout⟩

/-- A rendering is the text of the page it ends with. -/
theorem render_eq_draft (shader : Shader) (dialect : Dialect) (layout : Layout) :
    shader.render dialect layout =
      (fun draft => draft.page.finish layout.trailingNewline) <$> shader.draft dialect layout := by
  unfold render draft
  cases StateT.run (σ := Draft) _ _ <;> rfl

/-- The names a rendering has handed out when it is done, by variable. -/
def finalNames (shader : Shader) (dialect : Dialect) (layout : Layout) :
    Except RenderError Names := Draft.names <$> shader.draft dialect layout

/-- A rendering fails exactly as the handing out of its names does. -/
theorem render_error_iff {shader : Shader} {dialect : Dialect} {layout : Layout}
    {error : RenderError} :
    shader.render dialect layout = .error error ↔
      shader.finalNames dialect layout = .error error := by
  rw [render_eq_draft, finalNames]
  cases shader.draft dialect layout with
  | error failure => simp only [Functor.map, Except.map, Except.error.injEq]
  | ok draft => exact ⟨nofun, nofun⟩

/-- The names a rendering hands out do not depend on the dialect or the layout. -/
theorem finalNames_eq (shader : Shader) (dialect other : Dialect) (layout otherLayout : Layout) :
    shader.finalNames dialect layout = shader.finalNames other otherLayout := by
  have ends := @alike_writePreamble shader dialect other layout otherLayout
    ⟨.start shader, .blank layout⟩ ⟨.start shader, .blank otherLayout⟩ rfl
  unfold finalNames draft
  rw [Functor.map_map, Functor.map_map]
  exact ends

/-- Whatever the two dialects and layouts, a shader fails to render in one exactly if it does in
the other, for the same reason, and two renderings that succeed end with the same table of
names. -/
theorem render_names_agree (shader : Shader) (dialect other : Dialect)
    (layout otherLayout : Layout) :
    (∀ error, shader.render dialect layout = .error error ↔
      shader.render other otherLayout = .error error) ∧
    ∀ text otherText, shader.render dialect layout = .ok text →
      shader.render other otherLayout = .ok otherText →
      ∃ drafted otherDrafted, shader.draft dialect layout = .ok drafted ∧
        drafted.page.finish layout.trailingNewline = text ∧
        shader.draft other otherLayout = .ok otherDrafted ∧
        otherDrafted.page.finish otherLayout.trailingNewline = otherText ∧
        drafted.names = otherDrafted.names := by
  have same := finalNames_eq shader dialect other layout otherLayout
  constructor
  · intro error
    rw [render_error_iff, render_error_iff, same]
  · intro text otherText rendered otherRendered
    rw [render_eq_draft] at rendered otherRendered
    rw [finalNames, finalNames] at same
    cases found : shader.draft dialect layout with
    | error error => rw [found] at rendered; cases rendered
    | ok drafted =>
      cases otherFound : shader.draft other otherLayout with
      | error error => rw [otherFound] at otherRendered; cases otherRendered
      | ok otherDrafted =>
        rw [found] at rendered same
        rw [otherFound] at otherRendered same
        exact ⟨drafted, otherDrafted, rfl, Except.ok.inj rendered, rfl,
          Except.ok.inj otherRendered, Except.ok.inj same⟩

end Shader

end ShaderLoom
