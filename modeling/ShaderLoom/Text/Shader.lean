import ShaderLoom.Text.Header
import ShaderLoom.Text.Page

/-!
# Writing shaders

Instructions are written one after the other, and what stands in a block of its own one level
deeper. At top level a blank line stands around functions, structs and interface blocks.

Writing one instruction leaves its blocks to a given function (`writeInstruction`), and
`writeBlockWithin` iterates this to a depth. Blocks nest no deeper than there are blocks.
-/
namespace ShaderLoom

/-- A page in the making and the names handed out for it. -/
structure Draft where
  names : Names
  page : Page

/-- A computation that writes to a page, or fails. -/
abbrev Drafting := StateT Draft (Except RenderError)

namespace Drafting

/-- Work out a text, which may hand out names. -/
def wording {α : Type} (text : Naming α) : Drafting α := fun draft => do
  let (value, names) ← text draft.names
  pure (value, { draft with names })

/-- Write one line. -/
def line (content : String) : Drafting Unit :=
  modify fun draft => { draft with page := draft.page.line content }

/-- Leave one blank line. -/
def gap : Drafting Unit := modify fun draft => { draft with page := draft.page.gap }

/-- Write something one level deeper. -/
def deeper (content : Drafting Unit) : Drafting Unit := do
  modify fun draft => { draft with page := draft.page.indent }
  content
  modify fun draft => { draft with page := draft.page.dedent }

end Drafting

namespace Shader

open Drafting

variable (shader : Shader) (dialect : Dialect)

/-- A construction as a statement. It declares its variable, stands as a bare expression, or
vanishes because the value is written where it is used; the current status of the variable
decides. -/
def writeConstruction (made : Construction) (args : List Expr) : Drafting Unit := do
  if made.flags.functionArgument then throw .strayParameter
  match shader.registry.status? made.var with
  | none => throw (.unregisteredVariable made.var)
  | some .temporary => pure ()
  | some .forward =>
    let value ← wording (shader.write dialect (.construct made args))
    line (value ++ ";")
  | some .declaration =>
    let target ← wording (shader.writeDeclaration dialect made)
    line (target ++ ";")
  | some .initialisation =>
    let target ← wording (shader.writeDeclaration dialect made)
    let value ← wording (shader.write dialect (.construct made args))
    line (target ++ " = " ++ value ++ ";")

/-- A return, below a note if its value has the wrong type. -/
def writeReturn (value : Option Expr) (mismatch : Option Mismatch) : Drafting Unit := do
  match mismatch with
  | some mismatch =>
    line ("// error: return type mismatch (expected " ++ dialect.typeName mismatch.expected ++
      ", found " ++ dialect.typeName mismatch.found ++ ")")
  | none => pure ()
  match value with
  | some value =>
    let value ← wording (shader.write dialect value)
    line ("return " ++ value ++ ";")
  | none => line "return;"

/-- The members of a struct or an interface block. -/
def writeFields (fields : List Field) : Drafting Unit :=
  deeper (fields.forM fun field => line (dialect.declarator field.ty field.name ++ ";"))

/-- A struct. -/
def writeStruct (name : String) (fields : List Field) : Drafting Unit := do
  line ("struct " ++ name ++ " \x7b")
  writeFields dialect fields
  line "\x7d;"

/-- An interface block in the form the dialect has for it. -/
def writeInterface (decl : InterfaceDecl) : Drafting Unit := do
  let inst ← wording (shader.nameOf decl.var)
  match dialect.interfaceStyle with
  | .block =>
    line (dialect.qualifier decl.qualifier ++ " " ++ decl.name ++ " \x7b")
    writeFields dialect decl.fields
    line ("\x7d " ++ inst ++ ";")
  | .constantBuffer =>
    writeStruct dialect decl.name decl.fields
    line ("ConstantBuffer<" ++ decl.name ++ "> " ++ inst ++ ";")

/-- The parameters in a list of instructions that are all parameters. -/
def writeParameters : List Instruction → Naming (List String)
  | [] => pure []
  | instr :: rest => do
    match instr with
    | .statement (.construct made _) =>
      if made.flags.functionArgument then
        let text ← shader.writeDeclaration dialect made
        let rest ← writeParameters rest
        pure (text :: rest)
      else throw (.inParameterList instr.kind)
    | _ => throw (.inParameterList instr.kind)

section Blocks

variable (body : BlockId → Drafting Unit)

/-- The cases of a chain of conditions, all but the closing brace; `follows` says whether another
case came before. -/
def writeCases (follows : Bool) : List IfCase → Drafting Unit
  | [] => pure ()
  | case :: rest => do
    match case.condition with
    | some condition =>
      let condition ← wording (shader.write dialect condition)
      line ((if follows then "\x7d else if (" else "if (") ++ condition ++ ") \x7b")
    | none => line "\x7d else \x7b"
    deeper (body case.body)
    writeCases true rest

/-- One case of a switch. -/
def writeSwitchCase (case : SwitchCase) : Drafting Unit := do
  match case.label with
  | some label => line ("case " ++ dialect.literal label ++ ": \x7b")
  | none => line "default: \x7b"
  deeper (body case.body)
  line "\x7d"

/-- The overloads of a function, a blank line between them. -/
def writeOverloads (returns name : String) (follows : Bool) : List Overload → Drafting Unit
  | [] => pure ()
  | overload :: rest => do
    if follows then gap
    match shader.tree.block? overload.args with
    | none => throw (.unknownBlock overload.args)
    | some block =>
      let params ← wording (shader.writeParameters dialect block.instructions.toList)
      line (returns ++ " " ++ name ++ "(" ++ ", ".intercalate params ++ ") \x7b")
      deeper (body overload.body)
      line "\x7d"
      writeOverloads returns name true rest

/-- One instruction, given what writes the instructions of a block. -/
def writeInstruction : Instruction → Drafting Unit
  | .statement (.construct made args) => shader.writeConstruction dialect made args
  | .statement expr => do
    let text ← wording (shader.write dialect expr)
    line (text ++ ";")
  | .ret value mismatch => shader.writeReturn dialect value mismatch
  | .special (.vendor text) => line text
  | .special stmt => line (dialect.special stmt ++ ";")
  | .branch cases => do
    shader.writeCases dialect body false cases
    line "\x7d"
  | .forLoop header block => do
    let clauses ← shader.clauses header
    let header ← wording (shader.writeHeader dialect clauses)
    line ("for (" ++ header ++ ") \x7b")
    deeper (body block)
    line "\x7d"
  | .whileLoop condition block => do
    let condition ← wording (shader.write dialect condition)
    line ("while (" ++ condition ++ ") \x7b")
    deeper (body block)
    line "\x7d"
  | .doWhile block condition => do
    match condition with
    | none => throw .missingLoopCondition
    | some condition =>
      line "do \x7b"
      deeper (body block)
      let condition ← wording (shader.write dialect condition)
      line ("\x7d while (" ++ condition ++ ");")
  | .switch selector cases => do
    let selector ← wording (shader.write dialect selector)
    line ("switch (" ++ selector ++ ") \x7b")
    deeper (cases.forM (writeSwitchCase dialect body))
    line "\x7d"
  | .function decl => do
    let name ← wording (shader.nameOf decl.var)
    shader.writeOverloads dialect body (dialect.typeName decl.returns) name false decl.overloads
  | .struct decl => writeStruct dialect decl.name decl.fields
  | .interface decl => shader.writeInterface dialect decl

end Blocks

/-- Instructions in order, with a blank line, if wanted, between two of which one stands apart. -/
def writeSequence (write : Instruction → Drafting Unit) (separate : Bool) :
    Option Instruction → List Instruction → Drafting Unit
  | _, [] => pure ()
  | previous, instr :: rest => do
    if separate && previous.any (fun before => before.standsApart || instr.standsApart) then gap
    write instr
    writeSequence write separate (some instr) rest

/-- The instructions of a block, with blocks inside it to a depth. -/
def writeBlockWithin : Nat → BlockId → Drafting Unit
  | 0, id => throw (.unknownBlock id)
  | depth + 1, id =>
    match shader.tree.block? id with
    | none => throw (.unknownBlock id)
    | some block =>
      writeSequence (shader.writeInstruction dialect (writeBlockWithin depth)) id.isRoot none
        block.instructions.toList

/-- The instructions of a block and of every block inside it. -/
def writeBlock (id : BlockId) : Drafting Unit :=
  shader.writeBlockWithin dialect (shader.tree.size + 1) id

/-- The preamble of the dialect and a blank line. -/
def writePreamble : Drafting Unit := do
  match dialect.preamble with
  | some preamble =>
    line preamble
    gap
  | none => pure ()

/-- The whole shader as text. -/
def render (layout : Layout) : Except RenderError String := do
  let (_, draft) ← StateT.run (do
    if layout.preamble then writePreamble dialect
    shader.writeBlock dialect .root) ⟨.start shader, .blank layout⟩
  pure (draft.page.finish layout.trailingNewline)

/-- The contents of one block as text, named as if they were all there is. -/
def renderBlock (layout : Layout) (id : BlockId) : Except RenderError String := do
  let (_, draft) ← StateT.run (shader.writeBlock dialect id) ⟨.start shader, .blank layout⟩
  pure (draft.page.finish layout.trailingNewline)

end Shader

end ShaderLoom
