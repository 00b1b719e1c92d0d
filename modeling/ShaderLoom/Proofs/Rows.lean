import ShaderLoom.Proofs.Addresses
import ShaderLoom.Proofs.Wording

/-!
# Rows of a page

What is written to a page is a list of rows: lines, each at its depth, and blank ones
(`Page.Grows`). A computation that writes is described by the rows it adds (`Writes`), whatever
stands on the page before.

Rows are laid out from one level to another (`Laid`) if every line stands at the level that the
braces before it open, one less if it starts with a closing brace, and no brace stands anywhere but
at the end of a line that opens a level or at the start of one that closes it. Whatever a shader
writes is laid out like this, and what an instruction writes that does not vanish starts and ends
with a line (`Shader.Neat.writeInstruction`).
-/
namespace ShaderLoom

/-- A row of a page. -/
inductive Row where
  | line (depth : Nat) (content : String)
  | blank
deriving DecidableEq, Repr

namespace Row

/-- A row without the newline behind it; `width` is how many spaces a level has. -/
def body (width : Nat) : Row → List Char
  | .line depth content => List.replicate (depth * width) ' ' ++ content.toList
  | .blank => []

/-- A row and the newline behind it. -/
def chars (width : Nat) (row : Row) : List Char := row.body width ++ ['\n']

/-- Whether a row is a line. -/
def isLine : Row → Bool
  | .line _ _ => true
  | .blank => false

end Row

/-- Whether a page has become another one by rows that were added. -/
structure Page.Grows (page : Page) (rows : List Row) (later : Page) : Prop where
  indentWidth : later.indentWidth = page.indentWidth
  depth : later.depth = page.depth
  text : later.text.toList = page.text.toList ++ rows.flatMap (Row.chars page.indentWidth)

namespace Page

variable {page middle later : Page} {rows more : List Row}

/-- Nothing was added. -/
theorem Grows.refl (page : Page) : page.Grows [] page := ⟨rfl, rfl, by simp⟩

/-- Rows were added one after the other. -/
theorem Grows.trans (first : page.Grows rows middle) (second : middle.Grows more later) :
    page.Grows (rows ++ more) later where
  indentWidth := second.indentWidth.trans first.indentWidth
  depth := second.depth.trans first.depth
  text := by
    rw [second.text, first.text, first.indentWidth, List.flatMap_append, List.append_assoc]

/-- A line is added at the depth of the page. -/
theorem grows_line (page : Page) (content : String) :
    page.Grows [.line page.depth content] (page.line content) where
  indentWidth := rfl
  depth := rfl
  text := by
    simp [line, margin, Row.chars, Row.body]

/-- A gap adds a blank row or nothing. -/
theorem grows_gap (page : Page) : page.Grows [] page.gap ∨ page.Grows [.blank] page.gap := by
  unfold gap
  split
  · exact .inl (.refl page)
  · refine .inr ⟨rfl, rfl, ?_⟩
    simp [Row.chars, Row.body]

/-- What was added one level deeper was added. -/
theorem Grows.dedent (grows : page.indent.Grows rows later) : page.Grows rows later.dedent where
  indentWidth := grows.indentWidth
  depth := by
    show later.depth - 1 = page.depth
    rw [grows.depth]
    rfl
  text := grows.text

end Page

/-- What is cut from the end of a text are newlines. -/
theorem exists_trimNewlines (text : String) :
    ∃ count, text.toList = (trimNewlines text).toList ++ List.replicate count '\n' := by
  let cut := text.toList.reverse.takeWhile (· == '\n')
  have newlines : cut = List.replicate cut.length '\n' := by
    refine List.eq_replicate_of_mem fun c isCut => ?_
    exact beq_iff_eq.mp (List.all_eq_true.mp List.all_takeWhile c isCut)
  refine ⟨cut.length, ?_⟩
  have joined : cut ++ text.toList.reverse.dropWhile (· == '\n') = text.toList.reverse :=
    List.takeWhile_append_dropWhile
  have turned := congrArg List.reverse joined
  rw [List.reverse_reverse, List.reverse_append, newlines, List.reverse_replicate] at turned
  rw [trimNewlines, String.toList_ofList, turned]

/-- A newline at the end is cut. -/
theorem trimNewlines_newline (text : String) : trimNewlines (text ++ "\n") = trimNewlines text := by
  simp [trimNewlines]

/-- Whether a computation that starts with fit names on a page at a depth and succeeds adds rows as
described and ends with fit names. -/
def Writes (fit : Names → Prop) (depth : Nat) (work : Drafting Unit) (good : List Row → Prop) :
    Prop :=
  ∀ draft later, fit draft.names → draft.page.depth = depth → work draft = .ok ((), later) →
    fit later.names ∧ ∃ rows, draft.page.Grows rows later.page ∧ good rows

namespace Writes

open Drafting

variable {fit : Names → Prop} {depth : Nat} {work : Drafting Unit} {next : Unit → Drafting Unit}
  {good fine both : List Row → Prop}

/-- Nothing is added. -/
theorem nothing (isGood : good []) : Writes fit depth (pure ()) good := by
  intro draft later isFit _ ran
  obtain ⟨-, rfl⟩ := Prod.mk.inj (Except.ok.inj ran)
  exact ⟨isFit, [], .refl _, isGood⟩

/-- A failure adds nothing that could be seen. -/
theorem throw (error : RenderError) : Writes fit depth (MonadExcept.throw error) good :=
  fun _ _ _ _ ran => nomatch ran

/-- What is done next adds its rows behind those before. -/
theorem bind (first : Writes fit depth work good) (second : Writes fit depth (next ()) fine)
    (joined : ∀ rows more, good rows → fine more → both (rows ++ more)) :
    Writes fit depth (work >>= next) both := by
  intro draft later isFit isDepth ran
  obtain ⟨⟨⟩, middle, begun, ran⟩ := ok_of_bind ran
  obtain ⟨isFit, rows, grows, isGood⟩ := first draft middle isFit isDepth begun
  obtain ⟨isFit, more, growsMore, isFine⟩ :=
    second middle later isFit (grows.depth.trans isDepth) ran
  exact ⟨isFit, rows ++ more, grows.trans growsMore, joined rows more isGood isFine⟩

/-- What is known of the added rows can be left out. -/
theorem weaken (first : Writes fit depth work good) (weaker : ∀ rows, good rows → fine rows) :
    Writes fit depth work fine := by
  intro draft later isFit isDepth ran
  obtain ⟨isFit, rows, grows, isGood⟩ := first draft later isFit isDepth ran
  exact ⟨isFit, rows, grows, weaker rows isGood⟩

/-- To work out a text adds nothing. -/
theorem worded {α : Type} {text : Naming α} {fineText : α → Prop} {next : α → Drafting Unit}
    (first : Yields fit text fineText)
    (second : ∀ value, fineText value → Writes fit depth (next value) good) :
    Writes fit depth (wording text >>= next) good := by
  intro draft later isFit isDepth ran
  obtain ⟨value, middle, begun, ran⟩ := ok_of_bind ran
  change (text draft.names >>= fun found => pure (found.1, { draft with names := found.2 })) = _
    at begun
  cases found : text draft.names with
  | error error =>
    rw [found] at begun
    cases begun
  | ok answer =>
    rw [found] at begun
    obtain ⟨rfl, rfl⟩ := Prod.mk.inj (Except.ok.inj begun)
    obtain ⟨isFine, isFit⟩ := first draft.names answer.1 answer.2 isFit found
    exact second answer.1 isFine { draft with names := answer.2 } later isFit isDepth ran

/-- To look at an outcome adds nothing. -/
theorem lifted {α : Type} {outcome : Except RenderError α} {next : α → Drafting Unit}
    (second : ∀ value, outcome = .ok value → Writes fit depth (next value) good) :
    Writes fit depth (liftM outcome >>= next) good := by
  cases found : outcome with
  | error error => exact fun _ _ _ _ ran => nomatch ran
  | ok value => exact second value found

/-- A line is added at the depth of the page. -/
theorem line {content : String} (isGood : good [.line depth content]) :
    Writes fit depth (Drafting.line content) good := by
  intro draft later isFit isDepth ran
  obtain ⟨-, rfl⟩ := Prod.mk.inj (Except.ok.inj ran)
  subst isDepth
  exact ⟨isFit, _, draft.page.grows_line content, isGood⟩

/-- A gap adds a blank row or nothing. -/
theorem gap (without : good []) (within : good [.blank]) : Writes fit depth Drafting.gap good := by
  intro draft later isFit _ ran
  obtain ⟨-, rfl⟩ := Prod.mk.inj (Except.ok.inj ran)
  obtain grows | grows := draft.page.grows_gap
  · exact ⟨isFit, [], grows, without⟩
  · exact ⟨isFit, [.blank], grows, within⟩

/-- What is written one level deeper is added. -/
theorem deeper (inner : Writes fit (depth + 1) work good) :
    Writes fit depth (Drafting.deeper work) good := by
  intro draft later isFit isDepth ran
  obtain ⟨⟨⟩, inside, indented, ran⟩ := ok_of_bind ran
  obtain ⟨-, rfl⟩ := Prod.mk.inj (Except.ok.inj indented)
  obtain ⟨⟨⟩, behind, wrote, ran⟩ := ok_of_bind ran
  obtain ⟨-, rfl⟩ := Prod.mk.inj (Except.ok.inj ran)
  obtain ⟨isFit, rows, grows, isGood⟩ := inner { draft with page := draft.page.indent } behind
    isFit (congrArg (· + 1) isDepth) wrote
  exact ⟨isFit, rows, grows.dedent, isGood⟩

/-- A line and what is written behind it are added. -/
theorem lineThen {content : String} (second : Writes fit depth (next ()) fine)
    (joined : ∀ rows, fine rows → good (.line depth content :: rows)) :
    Writes fit depth (Drafting.line content >>= next) good := by
  have first : Writes fit depth (Drafting.line content) (· = [.line depth content]) := .line rfl
  refine first.bind second ?_
  rintro _ rows rfl isFine
  exact joined rows isFine

end Writes

/-- Rows that lead from one level of indentation to another. -/
inductive Laid (ban : Ban) : Nat → List Row → Nat → Prop where
  | nil {depth : Nat} : Laid ban depth [] depth
  | blank {depth last : Nat} {rows : List Row} (rest : Laid ban depth rows last) :
    Laid ban depth (.blank :: rows) last
  /-- A line without braces. -/
  | plain {depth last : Nat} {rows : List Row} {content : String} (allowed : ban.Allows content)
    (rest : Laid ban depth rows last) : Laid ban depth (.line depth content :: rows) last
  /-- A line that opens a level. -/
  | opens {depth last : Nat} {rows : List Row} {content head : String}
    (spelled : content = head ++ "\x7b") (allowed : ban.Allows head)
    (rest : Laid ban (depth + 1) rows last) : Laid ban depth (.line depth content :: rows) last
  /-- A line that closes a level and opens one. -/
  | turns {depth last : Nat} {rows : List Row} {content middle : String}
    (spelled : content = "\x7d" ++ middle ++ "\x7b") (free : ban.Free middle)
    (rest : Laid ban (depth + 1) rows last) :
    Laid ban (depth + 1) (.line depth content :: rows) last
  /-- A line that closes a level. -/
  | closes {depth last : Nat} {rows : List Row} {content tail : String}
    (spelled : content = "\x7d" ++ tail) (free : ban.Free tail)
    (rest : Laid ban depth rows last) : Laid ban (depth + 1) (.line depth content :: rows) last

/-- Rows that go on where others ended. -/
theorem Laid.append {ban : Ban} {depth middle last : Nat} {rows more : List Row}
    (first : Laid ban depth rows middle) (second : Laid ban middle more last) :
    Laid ban depth (rows ++ more) last := by
  induction first with
  | nil => exact second
  | blank _ ih => exact .blank (ih second)
  | plain allowed _ ih => exact .plain allowed (ih second)
  | opens spelled allowed _ ih => exact .opens spelled allowed (ih second)
  | turns spelled free _ ih => exact .turns spelled free (ih second)
  | closes spelled free _ ih => exact .closes spelled free (ih second)

/-- Rows hold no newlines where these are banned. -/
theorem Laid.newline {ban : Ban} {depth last : Nat} {rows : List Row}
    (laid : Laid ban depth rows last) (banned : '\n' ∈ ban.inside) (width : Nat) :
    ∀ row ∈ rows, '\n' ∉ row.body width := by
  have body : ∀ {depth : Nat} {content : String}, '\n' ∉ content.toList →
      '\n' ∉ (Row.line depth content).body width := by
    intro depth content noNewline isNewline
    obtain isMargin | isContent := List.mem_append.mp isNewline
    · exact absurd (List.eq_of_mem_replicate isMargin) (by decide)
    · exact noNewline isContent
  have free : ∀ {text : String}, ban.Free text → '\n' ∉ text.toList :=
    fun free mem => free _ mem banned
  induction laid with
  | nil => exact nofun
  | blank _ ih => exact List.forall_mem_cons.mpr ⟨nofun, ih⟩
  | plain allowed _ ih => exact List.forall_mem_cons.mpr ⟨body (free allowed.2), ih⟩
  | opens spelled allowed _ ih =>
    refine List.forall_mem_cons.mpr ⟨body ?_, ih⟩
    simp [spelled, free allowed.2]
  | turns spelled noNewline _ ih | closes spelled noNewline _ ih =>
    refine List.forall_mem_cons.mpr ⟨body ?_, ih⟩
    simp [spelled, free noNewline]

/-- Whether rows start and end with a line. -/
structure Solid (rows : List Row) : Prop where
  first : rows.head?.any Row.isLine
  last : rows.getLast?.any Row.isLine

/-- Rows end with a line if their last ones do. -/
theorem last_append {rows more : List Row} (last : more.getLast?.any Row.isLine) :
    (rows ++ more).getLast?.any Row.isLine := by
  obtain ⟨row, isLast, isLine⟩ := (Option.any_eq_true _ _).mp last
  rw [List.getLast?_append, isLast]
  exact isLine

/-- Rows that start with a line and others that end with one are solid together. -/
theorem Solid.ends {rows more : List Row} (first : rows.head?.any Row.isLine)
    (last : more.getLast?.any Row.isLine) : Solid (rows ++ more) where
  first := by
    obtain ⟨row, isFirst, isLine⟩ := (Option.any_eq_true _ _).mp first
    rw [List.head?_append, isFirst]
    exact isLine
  last := last_append last

/-- Solid rows that lead from one level to another. -/
structure Part (ban : Ban) (depth : Nat) (rows : List Row) (last : Nat) : Prop where
  laid : Laid ban depth rows last
  solid : Solid rows

namespace Part

variable {ban : Ban} {depth middle last : Nat} {rows more : List Row} {content : String}

/-- An allowed line is a part. -/
theorem plain (allowed : ban.Allows content) : Part ban depth [.line depth content] depth :=
  ⟨.plain allowed .nil, rfl, rfl⟩

/-- A line that closes a level is a part. -/
theorem closes {tail : String} (spelled : content = "\x7d" ++ tail) (free : ban.Free tail) :
    Part ban (depth + 1) [.line depth content] depth :=
  ⟨.closes spelled free .nil, rfl, rfl⟩

/-- One part after another. -/
theorem append (first : Part ban depth rows middle) (second : Part ban middle more last) :
    Part ban depth (rows ++ more) last :=
  ⟨first.laid.append second.laid, .ends first.solid.first second.solid.last⟩

end Part

namespace Drafting

variable {ban : Ban} {fit : Names → Prop} {depth last : Nat} {content head : String}

/-- An allowed line is a part. -/
theorem writes_line (allowed : ban.Allows content) :
    Writes fit depth (line content) (Part ban depth · depth) := .line (.plain allowed)

/-- A line that closes a level is a part. -/
theorem writes_closing {tail : String} (spelled : content = "\x7d" ++ tail)
    (free : ban.Free tail) : Writes fit depth (line content) (Part ban (depth + 1) · depth) :=
  .line (.closes spelled free)

/-- A closing brace is a part. -/
theorem writes_brace (ban : Ban) :
    Writes fit depth (line "\x7d") (Part ban (depth + 1) · depth) :=
  writes_closing (show _ = "\x7d" ++ "" from rfl) (ban.free_of_isPlain (by decide))

/-- What stands in braces is a part with what closes them. -/
theorem writes_braced {inner : Drafting Unit} {tail : Unit → Drafting Unit}
    (spelled : content = head ++ "\x7b") (allowed : ban.Allows head)
    (inside : Writes fit (depth + 1) inner (Laid ban (depth + 1) · (depth + 1)))
    (behind : Writes fit depth (tail ()) (Part ban (depth + 1) · last)) :
    Writes fit depth (line content >>= fun _ => deeper inner >>= tail) (Part ban depth · last) := by
  have after : Writes fit depth (deeper inner >>= tail) fun rows =>
      Laid ban (depth + 1) rows last ∧ rows.getLast?.any Row.isLine := by
    refine inside.deeper.bind behind fun rows more laid part => ⟨laid.append part.laid, ?_⟩
    exact last_append part.solid.last
  refine Writes.lineThen after fun rows ⟨laid, isLast⟩ => ⟨.opens spelled allowed laid, ?_⟩
  have first : [Row.line depth content].head?.any Row.isLine := rfl
  exact Solid.ends first isLast

end Drafting

/-- A part of several lines one below the other, if there are any. -/
theorem writes_lines {ban : Ban} {fit : Names → Prop} {depth : Nat} {α : Type} {items : List α}
    {content : α → String} (allowed : ∀ item ∈ items, ban.Allows (content item)) :
    Writes fit depth (items.forM fun item => Drafting.line (content item))
      (Laid ban depth · depth) := by
  induction items with
  | nil => exact .nothing .nil
  | cons item items ih =>
    rw [List.forall_mem_cons] at allowed
    exact Writes.lineThen (ih allowed.2) fun rows laid => .plain allowed.1 laid

namespace Shader

open Drafting

variable {shader : Shader} {dialect : Dialect} {ban : Ban} {depth : Nat}

/-- Whether an instruction writes nothing of its own: a construction of a value that is written
where it is used. -/
def vanishes (shader : Shader) (instr : Instruction) : Bool :=
  instr.construction?.any fun made => shader.registry.status? made.var == some .temporary

/-- Whether a shader speaks of allowed names only, holds allowed texts of vendors only, and every
chain of conditions in it starts with a condition and every function has a body. -/
structure Neat (shader : Shader) (ban : Ban) : Prop where
  speaks : shader.Speaks ban
  vendors : ∀ text, .special (.vendor text) ∈ shader.tree.instructions → ban.Allows text
  chains : ∀ cases, .branch cases ∈ shader.tree.instructions →
    ∃ condition body rest, cases = ⟨some condition, body⟩ :: rest
  overloads : ∀ decl, .function decl ∈ shader.tree.instructions → decl.overloads ≠ []

/-- A construction is a part unless it vanishes. -/
theorem Speaks.writeConstruction (speaks : shader.Speaks ban) (spells : dialect.Spells ban)
    {made : Construction} {args : List Expr}
    (names : ∀ name ∈ (Expr.construct made args).names, ban.Allows name) :
    Writes ban.Fit depth (shader.writeConstruction dialect made args) fun rows =>
      (shader.registry.status? made.var = some .temporary ∧ rows = []) ∨
        Part ban depth rows depth := by
  have semicolon : ban.Free ";" := ban.free_of_isPlain (by decide)
  have value := speaks.write spells names
  rw [Expr.names, List.forall_mem_append] at names
  have target := speaks.writeDeclaration spells names.1
  have written : ∀ {text : String}, ban.Allows text →
      Writes ban.Fit depth (line text) fun rows =>
        (shader.registry.status? made.var = some .temporary ∧ rows = []) ∨
          Part ban depth rows depth :=
    fun allowed => (writes_line allowed).weaken fun _ => .inr
  unfold Shader.writeConstruction
  cases made.flags.functionArgument with
  | true =>
    intro draft later _ _ ran
    cases ran
  | false =>
    cases isStatus : shader.registry.status? made.var with
    | none => exact .throw _
    | some status =>
      rw [isStatus] at written
      cases status with
      | temporary => exact .nothing (.inl ⟨rfl, rfl⟩)
      | forward =>
        exact .worded value fun text allowed => written (allowed.append semicolon)
      | declaration =>
        exact .worded target fun text allowed => written (allowed.append semicolon)
      | initialisation =>
        refine .worded target fun name declared => .worded value fun text allowed => written ?_
        have equals : ban.Free " = " := ban.free_of_isPlain (by decide)
        exact ((declared.append equals).append allowed.2).append semicolon

/-- A return is a part. -/
theorem Speaks.writeReturn (speaks : shader.Speaks ban) (spells : dialect.Spells ban)
    {value : Option Expr} {mismatch : Option Mismatch}
    (names : ∀ name ∈ (Instruction.ret value mismatch).names, ban.Allows name) :
    Writes ban.Fit depth (shader.writeReturn dialect value mismatch) (Part ban depth · depth) := by
  have plain : ∀ {text : String}, Ban.isPlain text → ban.Free text := ban.free_of_isPlain
  rw [Instruction.names, List.forall_mem_append] at names
  have noted : ∀ found, mismatch = some found →
      ban.Allows ("// error: return type mismatch (expected " ++ dialect.typeName found.expected ++
        ", found " ++ dialect.typeName found.found ++ ")") := by
    rintro found rfl
    have tyNames : (∀ name ∈ found.expected.names, ban.Allows name) ∧
        ∀ name ∈ found.found.names, ban.Allows name := by
      simpa [Instruction.ownNames, or_imp, forall_and] using names.2
    have expected := (Ban.free_append.mp (spells.typeName _ tyNames.1).2).1
    have given := (Ban.free_append.mp (spells.typeName _ tyNames.2).2).1
    have started : ban.Allows "// error: return type mismatch (expected " :=
      ban.allows_of_isProper (by decide)
    refine (((started.append expected).append ?_).append given).append ?_
    · exact plain (by decide)
    · exact plain (by decide)
  unfold Shader.writeReturn
  cases value with
  | none =>
    have written : Writes ban.Fit depth (line "return;") (Part ban depth · depth) :=
      writes_line (ban.allows_of_isProper (by decide))
    cases mismatch with
    | none => exact written
    | some mismatch => exact (writes_line (noted mismatch rfl)).bind written fun _ _ => .append
  | some value =>
    have valueNames : ∀ name ∈ value.names, ban.Allows name := by
      simpa [Instruction.exprs] using names.1
    have written : Writes ban.Fit depth (do
        let value ← wording (shader.write dialect value)
        line ("return " ++ value ++ ";")) (Part ban depth · depth) := by
      refine .worded (speaks.write spells valueNames) fun text allowed => writes_line ?_
      exact ((ban.allows_of_isProper (by decide)).append allowed.2).append (plain (by decide))
    cases mismatch with
    | none => exact written
    | some mismatch => exact (writes_line (noted mismatch rfl)).bind written fun _ _ => .append

/-- Members are lines one level deeper. -/
theorem writes_writeFields {fit : Names → Prop} (spells : dialect.Spells ban) {fields : List Field}
    (names : ∀ name ∈ fields.flatMap Field.names, ban.Allows name) :
    Writes fit (depth + 1)
      (fields.forM fun field => line (dialect.declarator field.ty field.name ++ ";"))
      (Laid ban (depth + 1) · (depth + 1)) := by
  refine writes_lines fun field isField => ?_
  have fieldNames : ∀ name ∈ field.names, ban.Allows name := fun name isName =>
    names name (List.mem_flatMap.mpr ⟨field, isField, isName⟩)
  rw [Field.names, List.forall_mem_cons] at fieldNames
  exact (spells.declarator _ _ fieldNames.2 fieldNames.1.2).append
    (ban.free_of_isPlain (by decide))

/-- A struct is a part. -/
theorem writes_writeStruct {fit : Names → Prop} (spells : dialect.Spells ban) {name : String}
    {fields : List Field} (allowed : ban.Allows name)
    (names : ∀ name ∈ fields.flatMap Field.names, ban.Allows name) :
    Writes fit depth (writeStruct dialect name fields) (Part ban depth · depth) := by
  have opened : "struct " ++ name ++ " \x7b" = ("struct " ++ name ++ " ") ++ "\x7b" := by
    simp only [String.append_assoc]
    rfl
  refine writes_braced opened ?_ (writes_writeFields spells names)
    (writes_closing (show "\x7d;" = "\x7d" ++ ";" from rfl) ?_)
  · exact ((ban.allows_of_isProper (by decide)).append allowed.2).append
      (ban.free_of_isPlain (by decide))
  · exact ban.free_of_isPlain (by decide)

/-- An interface block is a part. -/
theorem Speaks.writeInterface (speaks : shader.Speaks ban) (spells : dialect.Spells ban)
    {decl : InterfaceDecl} (names : ∀ name ∈ (Instruction.interface decl).names, ban.Allows name) :
    Writes ban.Fit depth (shader.writeInterface dialect decl) (Part ban depth · depth) := by
  have plain : ∀ {text : String}, Ban.isPlain text → ban.Free text := ban.free_of_isPlain
  have ownNames : ban.Allows decl.name ∧ ∀ name ∈ decl.fields.flatMap Field.names,
      ban.Allows name := List.forall_mem_cons.mp (List.forall_mem_append.mp names).2
  refine .worded (speaks.nameOf decl.var) fun inst allowed => ?_
  cases dialect.interfaceStyle with
  | block =>
    have opened : dialect.qualifier decl.qualifier ++ " " ++ decl.name ++ " \x7b" =
        (dialect.qualifier decl.qualifier ++ " " ++ decl.name ++ " ") ++ "\x7b" := by
      simp only [String.append_assoc]
      rfl
    have closed : "\x7d " ++ inst ++ ";" = "\x7d" ++ (" " ++ inst ++ ";") := by
      simp only [← String.append_assoc]
      rfl
    refine writes_braced opened ?_ (writes_writeFields spells ownNames.2) (writes_closing closed ?_)
    · exact ((spells.qualifier decl.qualifier).append ownNames.1.2).append (plain (by decide))
    · exact Ban.free_append.mpr ⟨Ban.free_append.mpr ⟨plain (by decide), allowed.2⟩,
        plain (by decide)⟩
  | constantBuffer =>
    refine (writes_writeStruct spells ownNames.1 ownNames.2).bind (writes_line ?_)
      fun _ _ => .append
    refine ((((ban.allows_of_isProper (by decide)).append ownNames.1.2).append ?_).append
      allowed.2).append ?_
    · exact plain (by decide)
    · exact plain (by decide)

section Blocks

variable {body : BlockId → Drafting Unit}

/-- Later cases of a chain of conditions go on one level deeper. -/
theorem Speaks.writeCases (speaks : shader.Speaks ban) (spells : dialect.Spells ban)
    (each : ∀ id depth, Writes ban.Fit depth (body id) (Laid ban depth · depth))
    {cases : List IfCase}
    (names : ∀ expr ∈ cases.flatMap (·.condition.toList), ∀ name ∈ expr.names, ban.Allows name) :
    Writes ban.Fit depth (shader.writeCases dialect body true cases)
      (Laid ban (depth + 1) · (depth + 1)) := by
  induction cases with
  | nil => exact .nothing .nil
  | cons case rest ih =>
    rw [List.flatMap_cons, List.forall_mem_append] at names
    have goesOn : Writes ban.Fit depth
        (deeper (body case.body) >>= fun _ => shader.writeCases dialect body true rest)
        (Laid ban (depth + 1) · (depth + 1)) :=
      (each case.body (depth + 1)).deeper.bind (ih names.2) fun _ _ => .append
    simp only [Shader.writeCases]
    cases isCondition : case.condition with
    | none =>
      refine Writes.lineThen goesOn fun rows laid => ?_
      exact .turns (show _ = "\x7d" ++ " else " ++ "\x7b" from rfl)
        (ban.free_of_isPlain (by decide)) laid
    | some condition =>
      have conditionNames := names.1 condition (by simp [isCondition])
      refine .worded (speaks.write spells conditionNames) fun text allowed => ?_
      refine Writes.lineThen goesOn fun rows laid => ?_
      have turned : "\x7d else if (" ++ text ++ ") \x7b" =
          "\x7d" ++ (" else if (" ++ text ++ ") ") ++ "\x7b" := by
        simp only [String.append_assoc]
        rfl
      refine .turns turned ?_ laid
      exact Ban.free_append.mpr ⟨Ban.free_append.mpr
        ⟨ban.free_of_isPlain (by decide), allowed.2⟩, ban.free_of_isPlain (by decide)⟩

/-- A chain of conditions is a part. -/
theorem Speaks.writeBranch (speaks : shader.Speaks ban) (spells : dialect.Spells ban)
    (each : ∀ id depth, Writes ban.Fit depth (body id) (Laid ban depth · depth)) {condition : Expr}
    {block : BlockId} {rest : List IfCase}
    (names : ∀ expr ∈ (Instruction.branch (⟨some condition, block⟩ :: rest)).exprs,
      ∀ name ∈ expr.names, ban.Allows name) :
    Writes ban.Fit depth (do
      shader.writeCases dialect body false (⟨some condition, block⟩ :: rest)
      line "\x7d") (Part ban depth · depth) := by
  have names := List.forall_mem_cons.mp names
  have later : Writes ban.Fit depth (shader.writeCases dialect body true rest)
    (Laid ban (depth + 1) · (depth + 1)) := speaks.writeCases spells each names.2
  have goesOn : Writes ban.Fit depth
      (deeper (body block) >>= fun _ => shader.writeCases dialect body true rest)
      (Laid ban (depth + 1) · (depth + 1)) :=
    (each block (depth + 1)).deeper.bind later fun _ _ => .append
  have opened : Writes ban.Fit depth
      (shader.writeCases dialect body false (⟨some condition, block⟩ :: rest)) fun rows =>
      Laid ban depth rows (depth + 1) ∧ rows.head?.any Row.isLine := by
    refine .worded (speaks.write spells names.1) fun text allowed => ?_
    refine Writes.lineThen goesOn fun rows laid => ⟨?_, rfl⟩
    have spelled : "if (" ++ text ++ ") \x7b" = ("if (" ++ text ++ ") ") ++ "\x7b" := by
      simp only [String.append_assoc]
      rfl
    refine .opens spelled ?_ laid
    exact ((ban.allows_of_isProper (by decide)).append allowed.2).append
      (ban.free_of_isPlain (by decide))
  refine opened.bind (writes_brace ban) fun rows more laid part => ⟨laid.1.append part.laid, ?_⟩
  exact .ends laid.2 part.solid.last

/-- A case of a switch is a part. -/
theorem writes_writeSwitchCase {fit : Names → Prop} (spells : dialect.Spells ban)
    (each : ∀ id depth, Writes fit depth (body id) (Laid ban depth · depth)) (case : SwitchCase) :
    Writes fit depth (writeSwitchCase dialect body case) (Part ban depth · depth) := by
  unfold writeSwitchCase
  cases case.label with
  | none =>
    exact writes_braced (show _ = "default: " ++ "\x7b" from rfl)
      (ban.allows_of_isProper (by decide)) (each case.body (depth + 1)) (writes_brace ban)
  | some label =>
    have spelled : "case " ++ dialect.literal label ++ ": \x7b" =
        ("case " ++ dialect.literal label ++ ": ") ++ "\x7b" := by
      simp only [String.append_assoc]
      rfl
    refine writes_braced spelled ?_ (each case.body (depth + 1)) (writes_brace ban)
    exact ((ban.allows_of_isProper (by decide)).append (spells.literal label).2).append
      (ban.free_of_isPlain (by decide))

/-- The cases of a switch are laid out one below the other. -/
theorem writes_switchCases {fit : Names → Prop} (spells : dialect.Spells ban)
    (each : ∀ id depth, Writes fit depth (body id) (Laid ban depth · depth))
    (cases : List SwitchCase) :
    Writes fit depth (cases.forM (writeSwitchCase dialect body)) (Laid ban depth · depth) := by
  induction cases with
  | nil => exact .nothing .nil
  | cons case cases ih =>
    refine (writes_writeSwitchCase spells each case).bind ih fun rows more part laid => ?_
    exact part.laid.append laid

/-- The overloads of a function are parts with gaps between them. -/
theorem Speaks.writeOverloads (speaks : shader.Speaks ban) (spells : dialect.Spells ban)
    (each : ∀ id depth, Writes ban.Fit depth (body id) (Laid ban depth · depth))
    {returns name : String} (allowed : ban.Allows (returns ++ " ")) (named : ban.Free name)
    (overloads : List Overload) :
    Writes ban.Fit depth (shader.writeOverloads dialect body returns name true overloads)
      (fun rows => Laid ban depth rows depth ∧ (rows = [] ∨ rows.getLast?.any Row.isLine)) ∧
    (overloads ≠ [] →
      Writes ban.Fit depth (shader.writeOverloads dialect body returns name false overloads)
        (Part ban depth · depth)) := by
  induction overloads with
  | nil => exact ⟨.nothing ⟨.nil, .inl rfl⟩, fun some => absurd rfl some⟩
  | cons overload rest ih =>
    have closed : Writes ban.Fit depth
        (line "\x7d" >>= fun _ => shader.writeOverloads dialect body returns name true rest)
        (Part ban (depth + 1) · depth) := by
      refine (writes_brace ban).bind ih.1 ?_
      rintro rows more part ⟨laid, rfl | isLast⟩
      · rwa [List.append_nil]
      · exact ⟨part.laid.append laid, .ends part.solid.first isLast⟩
    have written : Writes ban.Fit depth
        (shader.writeOverloads dialect body returns name false (overload :: rest))
        (Part ban depth · depth) := by
      simp only [Shader.writeOverloads]
      cases found : shader.tree.block? overload.args with
      | none => exact .throw _
      | some block =>
        have listed : ∀ instr ∈ block.instructions.toList, instr ∈ shader.tree.instructions := by
          intro instr isInstr
          obtain ⟨site, -, isAt⟩ := Tree.exists_site found isInstr
          exact Tree.mem_instructions.mpr ⟨site, isAt⟩
        refine .worded (speaks.writeParameters spells listed) fun params fine => ?_
        have spelled : returns ++ " " ++ name ++ "(" ++ ", ".intercalate params ++ ") \x7b" =
            (returns ++ " " ++ name ++ "(" ++ ", ".intercalate params ++ ") ") ++ "\x7b" := by
          simp only [String.append_assoc]
          rfl
        refine writes_braced spelled ?_ (each overload.body (depth + 1)) closed
        refine (((allowed.append named).append ?_).append ?_).append ?_
        · exact ban.free_of_isPlain (by decide)
        · exact Ban.free_intercalate fun text isText => (fine text isText).2
        · exact ban.free_of_isPlain (by decide)
    refine ⟨?_, fun _ => written⟩
    have apart : Writes ban.Fit depth gap fun rows => rows = [] ∨ rows = [.blank] :=
      .gap (.inl rfl) (.inr rfl)
    refine apart.bind written ?_
    rintro _ rows (rfl | rfl) part
    · exact ⟨part.laid, .inr part.solid.last⟩
    · exact ⟨.blank part.laid, .inr (last_append part.solid.last)⟩

/-- An instruction is a part unless it vanishes. -/
theorem Neat.writeInstruction (neat : shader.Neat ban) (spells : dialect.Spells ban)
    (each : ∀ id depth, Writes ban.Fit depth (body id) (Laid ban depth · depth))
    {instr : Instruction} (isInstr : instr ∈ shader.tree.instructions) :
    Writes ban.Fit depth (shader.writeInstruction dialect body instr) fun rows =>
      (shader.vanishes instr ∧ rows = []) ∨ Part ban depth rows depth := by
  have plain : ∀ {text : String}, Ban.isPlain text → ban.Free text := ban.free_of_isPlain
  have proper : ∀ {text : String}, Ban.isProper text → ban.Allows text := ban.allows_of_isProper
  have names := neat.speaks.instr isInstr
  have exprNames : ∀ expr ∈ instr.exprs, ∀ name ∈ expr.names, ban.Allows name :=
    fun _ isExpr => neat.speaks.expr isInstr isExpr
  have closed : Writes ban.Fit depth (line "\x7d") (Part ban (depth + 1) · depth) :=
    writes_brace ban
  cases instr with
  | statement expr =>
    have written := neat.speaks.write spells (exprNames expr List.mem_cons_self)
    cases expr with
    | construct made args =>
      refine (neat.speaks.writeConstruction spells (exprNames _ List.mem_cons_self)).weaken
        fun rows => Or.imp_left fun ⟨isTemporary, isEmpty⟩ => ⟨?_, isEmpty⟩
      simp [vanishes, Instruction.construction?, Expr.construction?, isTemporary]
    | _ =>
      refine .worded written fun text allowed => ?_
      exact (writes_line (allowed.append (plain (by decide)))).weaken fun _ => .inr
  | ret value mismatch => exact (neat.speaks.writeReturn spells names).weaken fun _ => .inr
  | special stmt =>
    cases stmt with
    | vendor text => exact (writes_line (neat.vendors text isInstr)).weaken fun _ => .inr
    | _ =>
      refine (writes_line ((spells.special _ ?_).before ?_)).weaken fun _ => .inr
      · simp
      · exact proper (by decide)
  | branch cases =>
    obtain ⟨condition, block, rest, rfl⟩ := neat.chains cases isInstr
    exact (neat.speaks.writeBranch spells each exprNames).weaken fun _ => .inr
  | forLoop header block =>
    refine .lifted fun clauses sorted => ?_
    have clauseNames := neat.speaks.clauses isInstr sorted
    refine .worded (neat.speaks.writeHeader spells clauseNames) fun text free => ?_
    have spelled : "for (" ++ text ++ ") \x7b" = ("for (" ++ text ++ ") ") ++ "\x7b" := by
      simp only [String.append_assoc]
      rfl
    refine (writes_braced spelled ?_ (each block (depth + 1)) closed).weaken fun _ => .inr
    exact ((proper (by decide)).append free).append (plain (by decide))
  | whileLoop condition block =>
    have tested := neat.speaks.write spells (exprNames condition List.mem_cons_self)
    refine .worded tested fun text allowed => ?_
    have spelled : "while (" ++ text ++ ") \x7b" = ("while (" ++ text ++ ") ") ++ "\x7b" := by
      simp only [String.append_assoc]
      rfl
    refine (writes_braced spelled ?_ (each block (depth + 1)) closed).weaken fun _ => .inr
    exact ((proper (by decide)).append allowed.2).append (plain (by decide))
  | doWhile block condition =>
    cases condition with
    | none => exact .throw _
    | some condition =>
      have tested := neat.speaks.write spells (exprNames condition List.mem_cons_self)
      have behind : Writes ban.Fit depth (do
          let condition ← wording (shader.write dialect condition)
          line ("\x7d while (" ++ condition ++ ");")) (Part ban (depth + 1) · depth) := by
        refine .worded tested fun text allowed => ?_
        have spelled : "\x7d while (" ++ text ++ ");" = "\x7d" ++ (" while (" ++ text ++ ");") := by
          simp only [← String.append_assoc]
          rfl
        refine writes_closing spelled ?_
        refine Ban.free_append.mpr ⟨Ban.free_append.mpr ⟨?_, allowed.2⟩, ?_⟩
        · exact plain (by decide)
        · exact plain (by decide)
      exact (writes_braced (show _ = "do " ++ "\x7b" from rfl) (proper (by decide))
        (each block (depth + 1)) behind).weaken fun _ => .inr
  | switch selector cases =>
    have selected := neat.speaks.write spells (exprNames selector List.mem_cons_self)
    refine .worded selected fun text allowed => ?_
    have spelled : "switch (" ++ text ++ ") \x7b" = ("switch (" ++ text ++ ") ") ++ "\x7b" := by
      simp only [String.append_assoc]
      rfl
    refine (writes_braced spelled ?_ (writes_switchCases spells each cases) closed).weaken
      fun _ => .inr
    exact ((proper (by decide)).append allowed.2).append (plain (by decide))
  | function decl =>
    have ownNames := List.forall_mem_cons.mp (List.forall_mem_append.mp names).2
    refine .worded (neat.speaks.nameOf decl.var) fun name allowed => ?_
    refine ((neat.speaks.writeOverloads spells each (spells.typeName decl.returns ownNames.2)
      allowed.2 decl.overloads).2 ?_).weaken fun _ => .inr
    exact neat.overloads decl isInstr
  | struct decl =>
    have ownNames := List.forall_mem_cons.mp (List.forall_mem_append.mp names).2
    exact (writes_writeStruct spells ownNames.1 ownNames.2).weaken fun _ => .inr
  | interface decl => exact (neat.speaks.writeInterface spells names).weaken fun _ => .inr

/-- Instructions in order are laid out if each of them is. -/
theorem writes_writeSequence {fit : Names → Prop} {write : Instruction → Drafting Unit}
    {instrs : List Instruction}
    (each : ∀ instr ∈ instrs, Writes fit depth (write instr) (Laid ban depth · depth))
    (separate : Bool) (previous : Option Instruction) :
    Writes fit depth (writeSequence write separate previous instrs) (Laid ban depth · depth) := by
  induction instrs generalizing previous with
  | nil => exact .nothing .nil
  | cons instr instrs ih =>
    rw [List.forall_mem_cons] at each
    have goesOn : Writes fit depth
        (write instr >>= fun _ => writeSequence write separate (some instr) instrs)
        (Laid ban depth · depth) :=
      each.1.bind (ih each.2 (some instr)) fun _ _ => .append
    simp only [writeSequence]
    split
    · have apart : Writes fit depth gap (Laid ban depth · depth) := .gap .nil (.blank .nil)
      exact apart.bind goesOn fun _ _ => .append
    · exact goesOn

/-- A block is laid out at the level it starts at, with the blocks inside it. -/
theorem Neat.writeBlockWithin (neat : shader.Neat ban) (spells : dialect.Spells ban)
    (steps : Nat) (id : BlockId) (depth : Nat) :
    Writes ban.Fit depth (shader.writeBlockWithin dialect steps id) (Laid ban depth · depth) := by
  induction steps generalizing id depth with
  | zero => exact .throw _
  | succ steps ih =>
    simp only [Shader.writeBlockWithin]
    cases found : shader.tree.block? id with
    | none => exact .throw _
    | some block =>
      refine writes_writeSequence (fun instr isListed => ?_) id.isRoot none
      obtain ⟨site, -, isAt⟩ := Tree.exists_site found isListed
      have isInstr := Tree.mem_instructions.mpr ⟨site, isAt⟩
      refine (neat.writeInstruction spells ih isInstr).weaken ?_
      rintro rows (⟨-, rfl⟩ | part)
      · exact .nil
      · exact part.laid

end Blocks

end Shader

/-- Whether a chain of conditions starts with one. -/
def Instruction.Chained : Instruction → Prop
  | .branch cases => ∃ condition body rest, cases = ⟨some condition, body⟩ :: rest
  | _ => True

/-- What is amended keeps its first condition. -/
theorem Call.Amends.chained {call : Call} {instr amended : Instruction}
    (amends : call.Amends instr amended) (chained : instr.Chained) : amended.Chained := by
  cases amends with
  | elseIf condition cases body | otherwise cases body =>
    obtain ⟨first, block, rest, rfl⟩ := chained
    exact ⟨first, block, _, rfl⟩
  | _ => trivial

namespace Session

variable {s after : Session} {call : Call}

/-- What a call pushes starts with a condition if it is a chain of them. -/
theorem Placed.chained_pushed (placed : s.Placed) {reply : Reply} {instr : Instruction}
    (ran : call.run s = .ok reply after) (writes : call.writes? = some instr.kind)
    (isAt : after.tree.instruction? s.site = some instr) : instr.Chained := by
  cases instr with
  | branch cases =>
    obtain ⟨condition, rfl⟩ : ∃ condition, call = .beginIf condition := by
      cases call <;> first | exact ⟨_, rfl⟩ | cases writes
    obtain ⟨_, ran, -⟩ := Build.map_ok_iff.mp ran
    obtain ⟨-, -, rfl⟩ := Build.beginIf_ok_iff.mp ran
    have tree : (s.settle.opened [.plain] (.branch [⟨some condition, s.tree.next⟩])
        (.branch s.site s.current false) s.tree.next).tree =
        (s.tree.addBlocks s.current [.plain]).push s.current
          (.branch [⟨some condition, s.tree.next⟩]) := commit_tree _ _ _
    rw [tree, placed.instruction?_pushed, if_pos rfl] at isAt
    obtain rfl := Instruction.branch.inj (Option.some.inj isAt)
    exact ⟨_, _, _, rfl⟩
  | _ => trivial

/-- Every chain of conditions starts with one wherever calls lead without failing. -/
theorem chained_reached (options : BuildOptions) (calls : List Call)
    (sane : (reached options calls).failure = none) :
    ∀ site instr, (reached options calls).tree.instruction? site = some instr →
      instr.Chained := by
  have atStart : ∀ options site instr, (start options).tree.instruction? site = some instr →
      instr.Chained := by
    intro options site instr isAt
    rw [start, Tree.instruction?_empty] at isAt
    cases isAt
  refine @reached_of_effects options (fun _ s => ∀ site instr,
    s.tree.instruction? site = some instr → instr.Chained) (atStart options)
    (fun _ => atStart) ?_ calls sane
  intro calls call reply after placed chained goesOn ran _ site instr isAt
  cases placed.change ran goesOn with
  | kept tree => exact chained site instr (by rw [← tree, isAt])
  | pushed new kinds writes tree =>
    have isPushed := isAt
    rw [tree, placed.instruction?_pushed] at isPushed
    split_ifs at isPushed with here
    · obtain rfl := Option.some.inj isPushed
      rw [here] at isAt
      exact placed.chained_pushed ran writes isAt
    · exact chained site instr isPushed
  | amended continued =>
    obtain ⟨frame, old, kinds, change, -, isOld, tree, amends⟩ := continued
    rw [tree, Tree.instruction?_amended isOld] at isAt
    split_ifs at isAt with here
    · obtain rfl := Option.some.inj isAt
      exact amends.chained (chained frame.site old isOld)
    · exact chained site instr isAt

/-- Nothing is missing from a finished shader. -/
theorem complete_finish {options : BuildOptions} {calls : List Call} {shader : Shader}
    (finished : Build.finish (reached options calls) = .ok shader after) {site : Address}
    {instr : Instruction} (isAt : shader.tree.instruction? site = some instr) :
    instr.Complete := by
  obtain ⟨sane, closed, -, rfl⟩ := Build.finish_ok_iff.mp finished
  have settled := (Build.moves_settle (reached options calls)).keeps
    (fun _ _ grounded => Grounded.move grounded) (grounded_reached options calls sane)
  obtain isComplete | isOpen := settled.complete site instr isAt
  · exact isComplete
  · rw [closed] at isOpen
    cases isOpen

/-- A finished shader is neat if its names and its vendors' texts are allowed. -/
theorem neat_finish {options : BuildOptions} {calls : List Call} {shader : Shader}
    (finished : Build.finish (reached options calls) = .ok shader after) {ban : Ban}
    (speaks : shader.Speaks ban)
    (vendors : ∀ text, .special (.vendor text) ∈ shader.tree.instructions → ban.Allows text) :
    shader.Neat ban := by
  have sane := (Build.finish_ok_iff.mp finished).1
  have isTree : shader.tree = (reached options calls).tree := by
    obtain ⟨-, -, -, rfl⟩ := Build.finish_ok_iff.mp finished
    rfl
  refine ⟨speaks, vendors, fun cases isInstr => ?_, fun decl isInstr => ?_⟩
  · obtain ⟨site, isAt⟩ := Tree.mem_instructions.mp isInstr
    rw [isTree] at isAt
    exact chained_reached options calls sane site _ isAt
  · obtain ⟨site, isAt⟩ := Tree.mem_instructions.mp isInstr
    exact complete_finish finished isAt

end Session

end ShaderLoom
