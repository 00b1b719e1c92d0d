import ShaderLoom.Text.Shader

/-!
# Writing with notes

The writer is run here with a note, wherever it writes the value of a variable or a reference to
one, of which variable that is (`Shader.renderMarked`). Everything else is as it is without notes:
only expressions are noted, and where they are written is decided by the same steps in the same
order.
-/
namespace ShaderLoom

/-- What a text can hold of a variable. -/
inductive Mark where
  /-- Its value: the arguments of its construction. -/
  | value (id : VarId)
  /-- A reference to it, whatever it is written as. -/
  | reference (id : VarId)
deriving DecidableEq, Repr

/-- A computation that notes what it writes. -/
abbrev Marking (m : Type → Type) := StateT (List Mark) m

/-- Note one thing. -/
def note {m : Type → Type} [Monad m] (mark : Mark) : Marking m PUnit := modify (· ++ [mark])

/-- An operand in its place, with notes. -/
def enclosedMarked (parent : Rank) (wrapTies : Bool) (rank : Naming Rank)
    (text : Marking Naming String) : Marking Naming String := do
  let child ← rank
  let text ← text
  if parent.needsParens child || (wrapTies && child == parent) then pure ("(" ++ text ++ ")")
  else pure text

namespace Drafting

/-- Work out a text with notes. -/
def wordingMarked {α : Type} (text : Marking Naming α) : Marking Drafting α := fun marks =>
  wording (text marks)

/-- Write something one level deeper, with notes. -/
def deeperMarked (content : Marking Drafting Unit) : Marking Drafting Unit := do
  (modify fun draft => { draft with page := draft.page.indent } : Drafting Unit)
  content
  (modify fun draft => { draft with page := draft.page.dedent } : Drafting Unit)

end Drafting

namespace Shader

open Drafting

variable (shader : Shader) (dialect : Dialect)

mutual

/-- The text of an expression with notes, given the texts and ranks of inlined values. -/
def markWith (deep : Expr → Marking Naming String) (rank : Expr → Naming Rank) :
    Expr → Marking Naming String
  | .literal value => pure (dialect.literal value)
  | .ref id => do
    note (.reference id)
    match ← shader.binding id with
    | .named name => pure name
    | .inlined value => deep value
  | .construct made [only] => do
    note (.value made.var)
    if made.status = .forward then markWith deep rank only
    else
      let typeName := if made.flags.displayType then dialect.typeName made.ty else ""
      if made.flags.parenthesis then
        let arg ← enclosedMarked argumentRank false (shader.rankWith dialect rank only)
          (markWith deep rank only)
        pure (typeName ++ "(" ++ arg ++ ")")
      else
        let value ← markWith deep rank only
        pure (typeName ++ value)
  | .construct made args => do
    note (.value made.var)
    let typeName := if made.flags.displayType then dialect.typeName made.ty else ""
    if made.flags.parenthesis then
      let args ← markArgs deep rank args
      pure (typeName ++ "(" ++ ", ".intercalate args ++ ")")
    else if args.isEmpty then throw (.invalidConstructor made.var)
    else
      let args ← markArgs deep rank args
      pure (typeName ++ ", ".intercalate args)
  | .binary op lhs rhs => do
    let parent := dialect.binaryRank op
    let lhs ← enclosedMarked parent (op.assoc == .right) (shader.rankWith dialect rank lhs)
      (markWith deep rank lhs)
    let rhs ← enclosedMarked parent (op.assoc == .left) (shader.rankWith dialect rank rhs)
      (markWith deep rank rhs)
    pure (lhs ++ " " ++ dialect.binarySymbol op ++ " " ++ rhs)
  | .unary op fixity operand => do
    let text ← enclosedMarked (dialect.unaryRank op fixity) (fixity == .before)
      (shader.rankWith dialect rank operand) (markWith deep rank operand)
    match fixity with
    | .before => pure (dialect.unarySymbol op ++ text)
    | .after => pure (text ++ dialect.unarySymbol op)
  | .ternary condition yes no => do
    let condition ← enclosedMarked .ternary true (shader.rankWith dialect rank condition)
      (markWith deep rank condition)
    let yes ← enclosedMarked .lowest false (shader.rankWith dialect rank yes)
      (markWith deep rank yes)
    let no ← enclosedMarked .ternary false (shader.rankWith dialect rank no)
      (markWith deep rank no)
    pure (condition ++ " ? " ++ yes ++ " : " ++ no)
  | .subscript object index => do
    let object ← enclosedMarked .after false (shader.rankWith dialect rank object)
      (markWith deep rank object)
    let index ← enclosedMarked .lowest false (shader.rankWith dialect rank index)
      (markWith deep rank index)
    pure (object ++ "[" ++ index ++ "]")
  | .member object name => do
    let object ← enclosedMarked .after false (shader.rankWith dialect rank object)
      (markWith deep rank object)
    pure (object ++ "." ++ name)
  | .swizzle object components => do
    let object ← enclosedMarked .after false (shader.rankWith dialect rank object)
      (markWith deep rank object)
    pure (object ++ "." ++ String.ofList (components.map Component.letter))
  | .call callee args => do
    let name ← match callee with
      | .builtin name => pure (dialect.builtin name)
      | .function id => shader.nameOf id
    let args ← markArgs deep rank args
    pure (name ++ "(" ++ ", ".intercalate args ++ ")")

/-- The texts of arguments with notes. -/
def markArgs (deep : Expr → Marking Naming String) (rank : Expr → Naming Rank) :
    List Expr → Marking Naming (List String)
  | [] => pure []
  | arg :: rest => do
    let arg ← enclosedMarked argumentRank false (shader.rankWith dialect rank arg)
      (markWith deep rank arg)
    let rest ← markArgs deep rank rest
    pure (arg :: rest)

end

/-- The text of an expression with notes, with values inlined to a depth. -/
def markWithin : Nat → Expr → Marking Naming String
  | 0, _ => throw .endlessValue
  | depth + 1, expr =>
    shader.markWith dialect (markWithin depth) (shader.rankWithin dialect depth) expr

/-- The text of an expression in a place that takes any, with notes. -/
def mark (expr : Expr) : Marking Naming String :=
  shader.markWithin dialect shader.inlineDepth expr

/-- One init of a header, with notes. -/
def markInit (follows : Bool) (expr : Expr) : Marking Naming String := do
  match expr with
  | .construct made args =>
    if made.status = .declaration ∨ made.status = .initialisation then
      let target ←
        if follows || made.flags.multipleInits then shader.nameOf made.var
        else shader.writeDeclaration dialect made
      if args.isEmpty then pure target
      else
        let value ← shader.mark dialect expr
        pure (target ++ " = " ++ value)
    else shader.mark dialect expr
  | _ => shader.mark dialect expr

/-- The inits of a header in order, with notes. -/
def markInits (follows : Bool) : List Expr → Marking Naming (List String)
  | [] => pure []
  | expr :: rest => do
    let text ← shader.markInit dialect follows expr
    let rest ← markInits true rest
    pure (text :: rest)

/-- The three clauses of a header, with notes. -/
def markHeader (clauses : ForClauses) : Marking Naming String := do
  let inits ← shader.markInits dialect false clauses.inits
  let condition ← match clauses.condition with
    | some condition => shader.mark dialect condition
    | none => pure ""
  let increments ← clauses.increments.mapM (shader.mark dialect)
  pure (", ".intercalate inits ++ ";" ++ clauseText condition ++ ";" ++
    clauseText (", ".intercalate increments))

/-- A construction as a statement, with notes. -/
def markConstruction (made : Construction) (args : List Expr) : Marking Drafting Unit := do
  if made.flags.functionArgument then throw .strayParameter
  match shader.registry.status? made.var with
  | none => throw (.unregisteredVariable made.var)
  | some .temporary => pure ()
  | some .forward =>
    let value ← wordingMarked (shader.mark dialect (.construct made args))
    line (value ++ ";")
  | some .declaration =>
    let target ← wording (shader.writeDeclaration dialect made)
    line (target ++ ";")
  | some .initialisation =>
    let target ← wording (shader.writeDeclaration dialect made)
    let value ← wordingMarked (shader.mark dialect (.construct made args))
    line (target ++ " = " ++ value ++ ";")

/-- A return, with notes. -/
def markReturn (value : Option Expr) (mismatch : Option Mismatch) : Marking Drafting Unit := do
  match mismatch with
  | some mismatch =>
    line ("// error: return type mismatch (expected " ++ dialect.typeName mismatch.expected ++
      ", found " ++ dialect.typeName mismatch.found ++ ")")
  | none => pure ()
  match value with
  | some value =>
    let value ← wordingMarked (shader.mark dialect value)
    line ("return " ++ value ++ ";")
  | none => line "return;"

section Blocks

variable (body : BlockId → Marking Drafting Unit)

/-- The cases of a chain of conditions, with notes. -/
def markCases (follows : Bool) : List IfCase → Marking Drafting Unit
  | [] => pure ()
  | case :: rest => do
    match case.condition with
    | some condition =>
      let condition ← wordingMarked (shader.mark dialect condition)
      line ((if follows then "\x7d else if (" else "if (") ++ condition ++ ") \x7b")
    | none => line "\x7d else \x7b"
    deeperMarked (body case.body)
    markCases true rest

/-- One case of a switch, with notes. -/
def markSwitchCase (case : SwitchCase) : Marking Drafting Unit := do
  match case.label with
  | some label => line ("case " ++ dialect.literal label ++ ": \x7b")
  | none => line "default: \x7b"
  deeperMarked (body case.body)
  line "\x7d"

/-- The overloads of a function, with notes. -/
def markOverloads (returns name : String) (follows : Bool) :
    List Overload → Marking Drafting Unit
  | [] => pure ()
  | overload :: rest => do
    if follows then gap
    match shader.tree.block? overload.args with
    | none => throw (.unknownBlock overload.args)
    | some block =>
      let params ← wording (shader.writeParameters dialect block.instructions.toList)
      line (returns ++ " " ++ name ++ "(" ++ ", ".intercalate params ++ ") \x7b")
      deeperMarked (body overload.body)
      line "\x7d"
      markOverloads returns name true rest

/-- One instruction with notes, given what writes the instructions of a block. -/
def markInstruction : Instruction → Marking Drafting Unit
  | .statement (.construct made args) => shader.markConstruction dialect made args
  | .statement expr => do
    let text ← wordingMarked (shader.mark dialect expr)
    line (text ++ ";")
  | .ret value mismatch => shader.markReturn dialect value mismatch
  | .special (.vendor text) => line text
  | .special stmt => line (dialect.special stmt ++ ";")
  | .branch cases => do
    shader.markCases dialect body false cases
    line "\x7d"
  | .forLoop header block => do
    let clauses ← shader.clauses header
    let header ← wordingMarked (shader.markHeader dialect clauses)
    line ("for (" ++ header ++ ") \x7b")
    deeperMarked (body block)
    line "\x7d"
  | .whileLoop condition block => do
    let condition ← wordingMarked (shader.mark dialect condition)
    line ("while (" ++ condition ++ ") \x7b")
    deeperMarked (body block)
    line "\x7d"
  | .doWhile block condition => do
    match condition with
    | none => throw .missingLoopCondition
    | some condition =>
      line "do \x7b"
      deeperMarked (body block)
      let condition ← wordingMarked (shader.mark dialect condition)
      line ("\x7d while (" ++ condition ++ ");")
  | .switch selector cases => do
    let selector ← wordingMarked (shader.mark dialect selector)
    line ("switch (" ++ selector ++ ") \x7b")
    deeperMarked (cases.forM (markSwitchCase dialect body))
    line "\x7d"
  | .function decl => do
    let name ← wording (shader.nameOf decl.var)
    shader.markOverloads dialect body (dialect.typeName decl.returns) name false decl.overloads
  | .struct decl => writeStruct dialect decl.name decl.fields
  | .interface decl => shader.writeInterface dialect decl

end Blocks

/-- Instructions in order, with notes. -/
def markSequence (write : Instruction → Marking Drafting Unit) (separate : Bool) :
    Option Instruction → List Instruction → Marking Drafting Unit
  | _, [] => pure ()
  | previous, instr :: rest => do
    if separate && previous.any (fun before => before.standsApart || instr.standsApart) then gap
    write instr
    markSequence write separate (some instr) rest

/-- The instructions of a block with notes, with blocks inside it to a depth. -/
def markBlockWithin : Nat → BlockId → Marking Drafting Unit
  | 0, id => throw (.unknownBlock id)
  | depth + 1, id =>
    match shader.tree.block? id with
    | none => throw (.unknownBlock id)
    | some block =>
      markSequence (shader.markInstruction dialect (markBlockWithin depth)) id.isRoot none
        block.instructions.toList

/-- The whole shader as text, with a list of what the text holds of variables. -/
def renderMarked (layout : Layout) : Except RenderError (String × List Mark) := do
  let ((_, marks), draft) ← StateT.run ((do
    if layout.preamble then writePreamble dialect
    shader.markBlockWithin dialect (shader.tree.size + 1) .root : Marking Drafting Unit) [])
    ⟨.start shader, .blank layout⟩
  pure (draft.page.finish layout.trailingNewline, marks)

end Shader

end ShaderLoom
