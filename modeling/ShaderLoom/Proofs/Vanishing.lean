import ShaderLoom.Proofs.Agreement
import ShaderLoom.Proofs.Endings
import ShaderLoom.Proofs.ParameterLists

/-!
# Instructions that vanish

A construction whose value is written where it is used leaves nothing on the page, and no trace in
the layout either: a shader is rendered as if it did not stand at top level at all, and the blank
lines between the instructions that are left depend on these alone (`Shader.render_visible`).

Two runs are compared, one over all instructions and one over those that are left (`InStep`). After
an instruction that vanishes the first run may be ahead of the second one by a gap, which the next
instruction that does not vanish asks for again, or which is cut from the end.
-/
namespace ShaderLoom

namespace Page

variable {page later : Page} {rows : List Row}

/-- Whether a page is empty or ends in a newline. -/
def Whole (page : Page) : Prop := page.text = "" ∨ ∃ text, page.text = text ++ "\n"

/-- A page is whole behind a line. -/
theorem whole_line (page : Page) (content : String) : (page.line content).Whole := .inr ⟨_, rfl⟩

/-- Rows keep a page whole. -/
theorem Grows.whole (grows : page.Grows rows later) (whole : page.Whole) : later.Whole := by
  obtain rfl | ⟨others, row, rfl⟩ := rows.eq_nil_or_concat
  · have same : later.text = page.text := by
      rw [← String.toList_inj, grows.text, List.flatMap_nil, List.append_nil]
    rwa [Whole, same]
  · right
    refine ⟨page.text ++ String.ofList (others.flatMap (Row.chars page.indentWidth) ++
      row.body page.indentWidth), ?_⟩
    rw [← String.toList_inj, grows.text]
    simp [Row.chars]

/-- A gap keeps a page whole. -/
theorem Whole.gap (whole : page.Whole) : page.gap.Whole := by
  obtain grows | grows := page.grows_gap
  · exact grows.whole whole
  · exact grows.whole whole

/-- Where there is a gap, another one changes nothing. -/
theorem Whole.gap_gap (whole : page.Whole) : page.gap.gap = page.gap := by
  by_cases settled : page.text.isEmpty || endsBlank page.text
  · have same : page.gap = page := if_pos settled
    rw [same, same]
  · have apart : page.gap = { page with text := page.text ++ "\n" } := if_neg settled
    obtain isEmpty | ⟨text, isText⟩ := whole
    · rw [isEmpty] at settled
      exact absurd rfl settled
    · rw [apart, Page.gap, if_pos]
      simp [isText, endsBlank]

/-- A gap at the end is cut. -/
theorem finish_gap (page : Page) (trailingNewline : Bool) :
    page.gap.finish trailingNewline = page.finish trailingNewline := by
  have cut : trimNewlines page.gap.text = trimNewlines page.text := by
    unfold gap
    split
    · rfl
    · exact trimNewlines_newline page.text
  rw [finish, cut, finish]

/-- Closed rows are a closed text and a newline. -/
theorem Grows.exists_closed (grows : page.Grows rows later) (closed : Closed rows) :
    ∃ chunk, later.text = page.text ++ chunk ++ "\n" ∧ isClosed chunk := by
  obtain ⟨others, depth, content, rfl, isFine⟩ := closed
  refine ⟨String.ofList (others.flatMap (Row.chars page.indentWidth) ++
    List.replicate (depth * page.indentWidth) ' ') ++ content, ?_, isClosed_append _ isFine⟩
  rw [← String.toList_inj, grows.text]
  simp [Row.chars, Row.body]

/-- Behind a closed text and a newline a gap is one more newline. -/
theorem gap_of_closed {upper : String} (isText : page.text = upper ++ "\n")
    (closed : isClosed upper) : page.gap = { page with text := page.text ++ "\n" } := by
  apply if_neg
  obtain ⟨last, isLast, isFine⟩ := (Option.any_eq_true _ _).mp closed
  obtain ⟨others, spelled⟩ := List.getLast?_eq_some_iff.mp isLast
  have noBlank : endsBlank page.text = false := by
    rw [endsBlank, isText, String.toList_append, spelled]
    simp [bne_iff_ne.mp isFine]
  rw [noBlank, Bool.or_false, isText]
  simp

/-- Nothing is cut from a closed text. -/
theorem exists_finish_of_closed {upper more : String} (isText : page.text = upper ++ more)
    (closed : isClosed upper) (trailingNewline : Bool) :
    ∃ lower, page.finish trailingNewline = upper ++ lower := by
  have kept : trimNewlines page.text = upper ++ trimNewlines more := by
    obtain ⟨last, isLast, isFine⟩ := (Option.any_eq_true _ _).mp closed
    obtain ⟨others, spelled⟩ := List.getLast?_eq_some_iff.mp isLast
    have stays : upper.toList.reverse.dropWhile (· == '\n') = upper.toList.reverse := by
      simp [spelled, bne_iff_ne.mp isFine]
    rw [← String.toList_inj, isText]
    simp only [trimNewlines, String.toList_append, String.toList_ofList, List.reverse_append,
      List.dropWhile_append, stays]
    by_cases all : (more.toList.reverse.dropWhile (· == '\n')).isEmpty
    · rw [if_pos all, List.isEmpty_iff.mp all, List.reverse_nil, List.reverse_reverse,
        List.append_nil]
    · rw [if_neg all, List.reverse_append, List.reverse_reverse]
  rw [finish, kept]
  split
  · exact ⟨_, String.append_assoc⟩
  · exact ⟨_, rfl⟩

end Page

namespace Draft

/-- Leave a gap. -/
def gap (draft : Draft) : Draft := { draft with page := draft.page.gap }

/-- Leave a gap before an instruction if it or the one before stands apart. -/
def spaced (draft : Draft) (previous : Option Instruction) (instr : Instruction) : Draft :=
  if previous.any fun before => before.standsApart || instr.standsApart then draft.gap else draft

/-- What a page starts with. -/
def started (names : Names) (dialect : Dialect) (layout : Layout) : Draft :=
  match layout.preamble, dialect.preamble with
  | true, some preamble => ⟨names, ((Page.blank layout).line preamble).gap⟩
  | _, _ => ⟨names, .blank layout⟩

/-- What is left before an instruction keeps the page whole. -/
theorem whole_spaced {draft : Draft} (whole : draft.page.Whole) (previous : Option Instruction)
    (instr : Instruction) : (draft.spaced previous instr).page.Whole := by
  unfold spaced
  split
  · exact whole.gap
  · exact whole

/-- What is left before an instruction hands out no names. -/
theorem names_spaced (draft : Draft) (previous : Option Instruction) (instr : Instruction) :
    (draft.spaced previous instr).names = draft.names := by
  unfold spaced
  split <;> rfl

/-- A page starts whole. -/
theorem whole_started (names : Names) (dialect : Dialect) (layout : Layout) :
    (started names dialect layout).page.Whole := by
  unfold started
  split
  · exact (Page.whole_line _ _).gap
  · exact .inl rfl

/-- A page has its gap from the start. -/
theorem gap_started (names : Names) (dialect : Dialect) (layout : Layout) :
    (started names dialect layout).page.gap = (started names dialect layout).page := by
  unfold started
  split
  · exact (Page.whole_line _ _).gap_gap
  · rfl

/-- The preamble hands out no names, and leaves the page at its lowest level. -/
theorem fresh_started (names : Names) (dialect : Dialect) (layout : Layout) :
    (started names dialect layout).names = names ∧
      (started names dialect layout).page.depth = 0 := by
  unfold started
  split
  · refine ⟨rfl, ?_⟩
    obtain grows | grows := ((Page.blank layout).line _).grows_gap
    · exact grows.depth
    · exact grows.depth
  · exact ⟨rfl, rfl⟩

end Draft

/-- What stands between two neighbours at top level. -/
def Instruction.separator (one two : Instruction) : String :=
  if one.standsApart || two.standsApart then "\n" else ""

/-- Behind a closed text the separator is what is left before the next instruction. -/
theorem Draft.spaced_of_closed {draft : Draft} {upper : String}
    (isText : draft.page.text = upper ++ "\n") (closed : isClosed upper) (one two : Instruction) :
    (draft.spaced (some one) two).page.text = upper ++ "\n" ++ one.separator two := by
  rw [Draft.spaced, Option.any_some, Instruction.separator]
  split
  · rw [← isText, Draft.gap, Page.gap_of_closed isText closed]
  · rw [isText, String.append_empty]

/-- A part starts with something else than a newline where these are banned. -/
theorem Part.exists_first {ban : Ban} {depth last : Nat} {rows : List Row}
    (part : Part ban depth rows last) (banned : '\n' ∈ ban.inside) (width : Nat) :
    ∃ first rest, rows.flatMap (Row.chars width) = first :: rest ∧ first ≠ '\n' := by
  obtain ⟨row, isFirst, isLine⟩ := (Option.any_eq_true _ _).mp part.solid.first
  obtain ⟨others, rfl⟩ := List.head?_eq_some_iff.mp isFirst
  have noNewline := part.laid.newline banned width row List.mem_cons_self
  have filled : row.body width ≠ [] := by
    cases part.laid with
    | blank => cases isLine
    | plain allowed =>
      obtain ⟨⟨c, isHead, -⟩, -⟩ := allowed
      exact List.append_ne_nil_of_right_ne_nil _ (List.ne_nil_of_mem (List.mem_of_mem_head? isHead))
    | opens spelled | turns spelled | closes spelled => simp [Row.body, spelled]
  obtain ⟨first, rest, isBody⟩ := List.exists_cons_of_ne_nil filled
  refine ⟨first, rest ++ '\n' :: others.flatMap (Row.chars width), ?_, ?_⟩
  · rw [List.flatMap_cons, Row.chars, isBody]
    simp
  · rintro rfl
    exact noNewline (isBody ▸ List.mem_cons_self)

namespace Shader

variable {shader : Shader} {dialect : Dialect} {layout : Layout}

/-- The instructions at top level that do not vanish. -/
def visible (shader : Shader) : List Instruction :=
  (shader.tree.listing .root).filter fun instr => !shader.vanishes instr

/-- One instruction at top level, with the blocks inside it. -/
def writeTop (shader : Shader) (dialect : Dialect) : Instruction → Drafting Unit :=
  shader.writeInstruction dialect (shader.writeBlockWithin dialect shader.tree.size)

/-- The page and the names a rendering would end with if instructions made up the top level, while
values and names stay those of the shader. -/
def draftOf (shader : Shader) (dialect : Dialect) (layout : Layout) (instrs : List Instruction) :
    Except RenderError Draft :=
  Prod.snd <$> StateT.run (do
    if layout.preamble then writePreamble dialect
    writeSequence (shader.writeTop dialect) true none instrs) ⟨.start shader, .blank layout⟩

/-- What a shader would be rendered to if instructions made up its top level. -/
def renderOf (shader : Shader) (dialect : Dialect) (layout : Layout) (instrs : List Instruction) :
    Except RenderError String :=
  (fun draft => draft.page.finish layout.trailingNewline) <$> shader.draftOf dialect layout instrs

/-- What would stand on the page then, with all newlines at its end. -/
def pageOf (shader : Shader) (dialect : Dialect) (layout : Layout) (instrs : List Instruction) :
    Except RenderError String :=
  (fun draft => draft.page.text) <$> shader.draftOf dialect layout instrs

/-- An instruction that vanishes does not stand apart. -/
theorem standsApart_of_vanishes {instr : Instruction} (vanishes : shader.vanishes instr) :
    instr.standsApart = false := by
  cases instr with
  | function decl | struct decl | interface decl => cases vanishes
  | _ => rfl

/-- An instruction that vanishes changes nothing. -/
theorem writeTop_of_vanishes {instr : Instruction} (vanishes : shader.vanishes instr)
    {draft later : Draft} (ran : shader.writeTop dialect instr draft = .ok ((), later)) :
    later = draft := by
  obtain ⟨made, isMade, isTemporary⟩ := (Option.any_eq_true _ _).mp vanishes
  obtain ⟨args, rfl⟩ : ∃ args, instr = .statement (.construct made args) := by
    cases instr with
    | statement expr =>
      cases expr with
      | construct found args =>
        obtain rfl := Option.some.inj isMade
        exact ⟨args, rfl⟩
      | _ => cases isMade
    | _ => cases isMade
  simp only [writeTop, writeInstruction, writeConstruction, beq_iff_eq.mp isTemporary] at ran
  split at ran
  · cases ran
  · obtain ⟨-, rfl⟩ := Prod.mk.inj (Except.ok.inj ran)
    rfl

/-- The next instruction is written behind the gap before it. -/
theorem writeSequence_cons (write : Instruction → Drafting Unit) (previous : Option Instruction)
    (instr : Instruction) (rest : List Instruction) (draft : Draft) :
    writeSequence write true previous (instr :: rest) draft =
      (write instr >>= fun _ => writeSequence write true (some instr) rest)
        (draft.spaced previous instr) := by
  rw [writeSequence, Draft.spaced]
  cases previous.any fun before => before.standsApart || instr.standsApart <;> rfl

/-- Whether a run over instructions, some of which vanish, and one over the others are at the same
place: the last instructions they have seen, and where they stand. -/
structure InStep (shader : Shader) (previous : Option Instruction) (draft : Draft)
    (shown : Option Instruction) (other : Draft) : Prop where
  whole : other.page.Whole
  top : shown = none → other.page.gap = other.page
  near : (previous = shown ∧ draft = other) ∨ ∃ hidden, previous = some hidden ∧
    shader.vanishes hidden ∧ draft = if shown.any Instruction.standsApart then other.gap else other

namespace InStep

variable {previous shown : Option Instruction} {draft other : Draft} {instr : Instruction}

/-- An instruction that vanishes leaves the other run where it is. -/
theorem hidden (inStep : shader.InStep previous draft shown other)
    (vanishes : shader.vanishes instr) :
    shader.InStep (some instr) (draft.spaced previous instr) shown other := by
  refine ⟨inStep.whole, inStep.top, .inr ⟨instr, rfl, vanishes, ?_⟩⟩
  have noDecl := standsApart_of_vanishes vanishes
  obtain ⟨rfl, rfl⟩ | ⟨before, rfl, isHidden, isDraft⟩ := inStep.near
  · simp only [Draft.spaced, noDecl, Bool.or_false]
  · rw [← isDraft]
    simp [Draft.spaced, noDecl, standsApart_of_vanishes isHidden]

/-- Before an instruction that does not vanish both runs leave the same gap. -/
theorem spaced_eq (inStep : shader.InStep previous draft shown other) (instr : Instruction) :
    draft.spaced previous instr = other.spaced shown instr := by
  obtain ⟨rfl, rfl⟩ | ⟨before, rfl, isHidden, rfl⟩ := inStep.near
  · rfl
  · have noDecl := standsApart_of_vanishes isHidden
    cases shown with
    | none =>
      have settled : other.gap = other := congrArg (Draft.mk other.names) (inStep.top rfl)
      simp [Draft.spaced, noDecl, settled]
    | some last =>
      have settled : other.gap.gap = other.gap :=
        congrArg (Draft.mk other.names) inStep.whole.gap_gap
      cases isApart : last.standsApart <;> cases isNext : instr.standsApart <;>
        simp [Draft.spaced, noDecl, isApart, isNext, settled]

end InStep

/-- What is written at top level is added to the page, and ends with a closed line if the
instruction does not vanish and nothing keeps it from that. -/
theorem grows_writeTop {instr : Instruction} {draft later : Draft}
    (wrote : shader.writeTop dialect instr draft = .ok ((), later)) :
    ∃ rows, draft.page.Grows rows later.page ∧
      (¬ shader.vanishes instr → instr.Closes → Closed rows) :=
  (adds_writeInstruction (adds_writeBlockWithin shader.tree.size) instr draft later trivial rfl
    wrote).2

/-- A run over instructions ends as the run over those that do not vanish does, but for a gap. -/
theorem InStep.run (instrs : List Instruction) {previous shown : Option Instruction}
    {draft other later : Draft} (inStep : shader.InStep previous draft shown other)
    (ran : writeSequence (shader.writeTop dialect) true previous instrs draft = .ok ((), later)) :
    ∃ last, writeSequence (shader.writeTop dialect) true shown
      (instrs.filter fun instr => !shader.vanishes instr) other = .ok ((), last) ∧
        (later = last ∨ later = last.gap) := by
  induction instrs generalizing previous shown draft other with
  | nil =>
    obtain ⟨-, rfl⟩ := Prod.mk.inj (Except.ok.inj ran)
    refine ⟨other, rfl, ?_⟩
    obtain ⟨-, rfl⟩ | ⟨before, -, -, rfl⟩ := inStep.near
    · exact .inl rfl
    · split
      · exact .inr rfl
      · exact .inl rfl
  | cons instr instrs ih =>
    rw [writeSequence_cons] at ran
    obtain ⟨⟨⟩, middle, wrote, ran⟩ := ok_of_bind ran
    by_cases vanishes : shader.vanishes instr
    · rw [List.filter_cons_of_neg (by simp [vanishes])]
      obtain rfl := writeTop_of_vanishes vanishes wrote
      exact ih (inStep.hidden vanishes) ran
    · rw [List.filter_cons_of_pos (by simp [vanishes]), writeSequence_cons]
      rw [inStep.spaced_eq instr] at wrote
      rw [bind_ok wrote]
      obtain ⟨rows, grows, -⟩ := grows_writeTop wrote
      have whole := grows.whole (Draft.whole_spaced inStep.whole shown instr)
      exact ih ⟨whole, nofun, .inl ⟨rfl, rfl⟩⟩ ran

/-- What is written behind the preamble is written to what a page starts with. -/
theorem run_started (names : Names) (dialect : Dialect) (layout : Layout) (work : Drafting Unit) :
    StateT.run (do
      if layout.preamble then writePreamble dialect
      work) ⟨names, .blank layout⟩ = work (.started names dialect layout) := by
  unfold Draft.started writePreamble
  cases layout.preamble <;> cases dialect.preamble <;> rfl

/-- What a run at top level leaves on the page. -/
theorem pageOf_of_run {instrs : List Instruction} {draft : Draft}
    (ran : writeSequence (shader.writeTop dialect) true none instrs
      (.started (.start shader) dialect layout) = .ok ((), draft)) :
    shader.pageOf dialect layout instrs = .ok draft.page.text := by
  rw [pageOf, draftOf, run_started, ran]
  rfl

/-- The instructions that are left are written as all of them are, but for a gap. -/
theorem draftOf_visible {draft : Draft} (drafted : shader.draft dialect layout = .ok draft) :
    ∃ last, shader.draftOf dialect layout shader.visible = .ok last ∧
      (draft = last ∨ draft = last.gap) := by
  rw [Shader.draft, run_started, writeBlock, writeBlockWithin] at drafted
  obtain ⟨⟨⟨⟩, later⟩, ran, rfl⟩ := outcome_of_map drafted
  cases found : shader.tree.block? .root with
  | none =>
    rw [found] at ran
    cases ran
  | some block =>
    rw [found] at ran
    have started : shader.InStep none (.started (.start shader) dialect layout) none
        (.started (.start shader) dialect layout) :=
      ⟨Draft.whole_started _ dialect layout, fun _ => Draft.gap_started _ dialect layout,
        .inl ⟨rfl, rfl⟩⟩
    obtain ⟨last, isLast, near⟩ := started.run block.instructions.toList ran
    refine ⟨last, ?_, near⟩
    rw [draftOf, run_started, visible, Tree.listing, found]
    exact congrArg (Prod.snd <$> ·) isLast

/-- A run over some instructions and then others goes on where the first ones end. -/
theorem writeSequence_append {write : Instruction → Drafting Unit} {instrs more : List Instruction}
    {previous : Option Instruction} {draft later : Draft}
    (ran : writeSequence write true previous (instrs ++ more) draft = .ok ((), later)) :
    ∃ middle, writeSequence write true previous instrs draft = .ok ((), middle) ∧
      writeSequence write true (instrs.getLast?.or previous) more middle = .ok ((), later) := by
  induction instrs generalizing previous draft with
  | nil => exact ⟨draft, rfl, ran⟩
  | cons instr instrs ih =>
    rw [List.cons_append, writeSequence_cons] at ran
    obtain ⟨⟨⟩, behind, wrote, ran⟩ := ok_of_bind ran
    obtain ⟨middle, begun, ran⟩ := ih ran
    have isLast : (instr :: instrs).getLast?.or previous = instrs.getLast?.or (some instr) := by
      rw [List.getLast?_cons]
      cases instrs.getLast? <;> rfl
    rw [writeSequence_cons, bind_ok wrote, isLast]
    exact ⟨middle, begun, ran⟩

/-- The last instruction of a run is written behind the gap before it. -/
theorem writeSequence_concat {write : Instruction → Drafting Unit} {instrs : List Instruction}
    {instr : Instruction} {draft later : Draft}
    (ran : writeSequence write true none (instrs ++ [instr]) draft = .ok ((), later)) :
    ∃ middle, writeSequence write true none instrs draft = .ok ((), middle) ∧
      write instr (middle.spaced instrs.getLast? instr) = .ok ((), later) := by
  obtain ⟨middle, begun, ran⟩ := writeSequence_append ran
  rw [Option.or_none, writeSequence_cons] at ran
  obtain ⟨⟨⟩, last, wrote, ran⟩ := ok_of_bind ran
  obtain ⟨-, rfl⟩ := Prod.mk.inj (Except.ok.inj ran)
  exact ⟨middle, begun, wrote⟩

/-- Names stay allowed at top level. -/
theorem Neat.fit_run {ban : Ban} (neat : shader.Neat ban) (spells : dialect.Spells ban)
    {instrs : List Instruction} (listed : ∀ instr ∈ instrs, instr ∈ shader.tree.instructions)
    {draft : Draft} (ran : writeSequence (shader.writeTop dialect) true none instrs
      (.started (.start shader) dialect layout) = .ok ((), draft)) : ban.Fit draft.names := by
  obtain ⟨noNames, noDepth⟩ := Draft.fresh_started (.start shader) dialect layout
  have written : Writes ban.Fit 0 (writeSequence (shader.writeTop dialect) true none instrs)
      (Laid ban 0 · 0) := by
    refine writes_writeSequence (fun instr isInstr => ?_) true none
    refine (neat.writeInstruction spells (neat.writeBlockWithin spells _)
      (listed instr isInstr)).weaken ?_
    rintro rows (⟨-, rfl⟩ | part)
    · exact .nil
    · exact part.laid
  have fit : ban.Fit (Draft.started (.start shader) dialect layout).names := by
    rw [noNames]
    exact nofun
  exact (written _ draft fit noDepth ran).1

/-- Whether what a shader is rendered to separates two neighbours as they ask for. -/
structure Separates (shader : Shader) (dialect : Dialect) (layout : Layout)
    (before : List Instruction) (one two : Instruction) (text upper chunk lower : String) :
    Prop where
  /-- What stands on the page up to the first of them. -/
  above : shader.pageOf dialect layout (before ++ [one]) = .ok (upper ++ "\n")
  /-- What the second one adds to that. -/
  below : shader.pageOf dialect layout (before ++ [one, two]) =
    .ok (upper ++ "\n" ++ one.separator two ++ chunk ++ "\n")
  /-- What it is all rendered to. -/
  rendered : text = upper ++ "\n" ++ one.separator two ++ chunk ++ lower
  /-- No blank line stands at the end of the first one, or of the second one. -/
  ends : isClosed upper ∧ isClosed chunk
  /-- Nor does one stand at the start of the second one if the dialect spells no newlines. -/
  starts : dialect.Spells Ban.lines → ∃ c ∈ chunk.toList.head?, c ≠ '\n'

/-- What a neat shader writes next at top level does not start with a newline. -/
theorem Neat.exists_first (neat : shader.Neat Ban.lines) (spells : dialect.Spells Ban.lines)
    {instr : Instruction} (isInstr : instr ∈ shader.tree.instructions)
    (stays : ¬ shader.vanishes instr) {draft later : Draft} (fit : Ban.lines.Fit draft.names)
    (wrote : shader.writeTop dialect instr draft = .ok ((), later)) :
    ∃ first rest, later.page.text.toList = draft.page.text.toList ++ first :: rest ∧
      first ≠ '\n' := by
  obtain ⟨-, rows, grows, ⟨vanishes, -⟩ | part⟩ := neat.writeInstruction spells
    (neat.writeBlockWithin spells shader.tree.size) isInstr draft later fit rfl wrote
  · exact absurd vanishes stays
  · obtain ⟨first, rest, spelled, isFine⟩ := part.exists_first (by decide) draft.page.indentWidth
    exact ⟨first, rest, by rw [grows.text, spelled], isFine⟩

/-- A run over two neighbours and others is cut behind each of the two. -/
theorem exists_neighbours {before behind : List Instruction} {one two : Instruction} {last : Draft}
    (ran : writeSequence (shader.writeTop dialect) true none (before ++ one :: two :: behind)
      (.started (.start shader) dialect layout) = .ok ((), last)) :
    ∃ start draft later rows,
      writeSequence (shader.writeTop dialect) true none (before ++ [one])
        (.started (.start shader) dialect layout) = .ok ((), draft) ∧
      writeSequence (shader.writeTop dialect) true none (before ++ [one, two])
        (.started (.start shader) dialect layout) = .ok ((), later) ∧
      shader.writeTop dialect one start = .ok ((), draft) ∧
      shader.writeTop dialect two (draft.spaced (some one) two) = .ok ((), later) ∧
      later.page.Grows rows last.page := by
  have isBoth : before ++ [one, two] = (before ++ [one]) ++ [two] := by simp
  have isAll : before ++ one :: two :: behind = (before ++ [one, two]) ++ behind := by simp
  rw [isAll] at ran
  obtain ⟨later, ranBoth, ran⟩ := writeSequence_append ran
  obtain ⟨draft, ranOne, wroteTwo⟩ := writeSequence_concat (isBoth ▸ ranBoth)
  obtain ⟨start, -, wroteOne⟩ := writeSequence_concat ranOne
  rw [List.getLast?_concat] at wroteTwo
  have each : ∀ instr, Adds later.page.depth (shader.writeTop dialect instr) fun _ => True :=
    fun instr => (adds_writeInstruction (adds_writeBlockWithin shader.tree.size) instr).any
  obtain ⟨-, rows, grows, -⟩ := adds_writeSequence each true _ behind later last trivial rfl ran
  exact ⟨_, draft, later, rows, ranOne, ranBoth, wroteOne, wroteTwo, grows⟩

/-- Neighbours that are closed are separated as they ask for. -/
theorem Neat.exists_separates (neat : shader.Neat Ban.lines) {before behind : List Instruction}
    {one two : Instruction} (listed : ∀ instr ∈ before ++ [one, two],
      instr ∈ shader.tree.instructions ∧ ¬ shader.vanishes instr ∧ instr.Closes) {last : Draft}
    (ran : writeSequence (shader.writeTop dialect) true none (before ++ one :: two :: behind)
      (.started (.start shader) dialect layout) = .ok ((), last)) :
    ∃ upper chunk lower, shader.Separates dialect layout before one two
      (last.page.finish layout.trailingNewline) upper chunk lower := by
  obtain ⟨start, draft, later, others, ranOne, ranBoth, wroteOne, wroteTwo, growsOn⟩ :=
    exists_neighbours ran
  obtain ⟨-, oneStays, oneCloses⟩ := listed one (by simp)
  obtain ⟨isTwo, twoStays, twoCloses⟩ := listed two (by simp)
  obtain ⟨upper, isUpper, upperClosed⟩ : ∃ upper, draft.page.text = upper ++ "\n" ∧
      isClosed upper := by
    obtain ⟨rows, grows, closed⟩ := grows_writeTop wroteOne
    obtain ⟨chunk, isText, chunkClosed⟩ := grows.exists_closed (closed oneStays oneCloses)
    exact ⟨_, isText, isClosed_append _ chunkClosed⟩
  have spaced := Draft.spaced_of_closed isUpper upperClosed one two
  obtain ⟨rows, grows, closed⟩ := grows_writeTop wroteTwo
  obtain ⟨chunk, isText, chunkClosed⟩ := grows.exists_closed (closed twoStays twoCloses)
  have isLast : last.page.text = (draft.spaced (some one) two).page.text ++ chunk ++ ("\n" ++
      String.ofList (others.flatMap (Row.chars later.page.indentWidth))) := by
    rw [← String.toList_inj, growsOn.text, isText]
    simp
  obtain ⟨lower, rendered⟩ := Page.exists_finish_of_closed isLast (isClosed_append _ chunkClosed)
    layout.trailingNewline
  refine ⟨upper, chunk, lower, ?_, ?_, ?_, ⟨upperClosed, chunkClosed⟩, fun spells => ?_⟩
  · rw [pageOf_of_run ranOne, isUpper]
  · rw [pageOf_of_run ranBoth, isText, spaced]
  · rw [rendered, spaced]
  · have fit : Ban.lines.Fit (draft.spaced (some one) two).names := by
      rw [Draft.names_spaced]
      refine neat.fit_run spells (fun instr isInstr => (listed instr ?_).1) ranOne
      refine List.mem_append.mpr ((List.mem_append.mp isInstr).imp_right fun isOne => ?_)
      exact List.mem_cons.mpr (.inl (List.mem_singleton.mp isOne))
    obtain ⟨first, rest, spelled, isFine⟩ := neat.exists_first spells isTwo twoStays fit wroteTwo
    obtain ⟨c, others, isChunk⟩ : ∃ c others, chunk.toList = c :: others := by
      cases isChunk : chunk.toList with
      | nil =>
        rw [isClosed, isChunk] at chunkClosed
        cases chunkClosed
      | cons c others => exact ⟨c, others, rfl⟩
    rw [isText, String.toList_append, String.toList_append, List.append_assoc, isChunk] at spelled
    obtain ⟨rfl, -⟩ := List.cons.inj (List.append_cancel_left spelled)
    exact ⟨c, by rw [isChunk]; rfl, isFine⟩

/-- A shader is rendered as if the instructions that vanish were not at top level. If it is a
finished one and no name or text of a vendor is empty or has a newline in it, then two neighbours
among the others are separated by one blank line if one of them stands apart, and by none otherwise,
whatever vanishes around them. -/
theorem render_visible (shader : Shader) (dialect : Dialect) (layout : Layout) {text : String}
    (rendered : shader.render dialect layout = .ok text) :
    shader.renderOf dialect layout shader.visible = .ok text ∧
    ∀ (options : BuildOptions) (calls : List Call) (after : Session),
      Build.finish (Session.reached options calls) = .ok shader after →
      (∀ name ∈ shader.names, name ≠ "" ∧ '\n' ∉ name.toList) →
      (∀ vendor, .special (.vendor vendor) ∈ shader.tree.instructions →
        vendor ≠ "" ∧ '\n' ∉ vendor.toList) →
      ∀ before one two behind, shader.visible = before ++ one :: two :: behind →
        ∃ upper chunk lower,
          shader.Separates dialect layout before one two text upper chunk lower := by
  rw [render_eq_draft] at rendered
  obtain ⟨draft, drafted, rfl⟩ := outcome_of_map rendered
  obtain ⟨last, isLast, near⟩ := draftOf_visible drafted
  have finished : draft.page.finish layout.trailingNewline =
      last.page.finish layout.trailingNewline := by
    obtain rfl | rfl := near
    · rfl
    · exact last.page.finish_gap layout.trailingNewline
  have same : shader.renderOf dialect layout shader.visible =
      .ok (last.page.finish layout.trailingNewline) := by
    rw [renderOf, isLast]
    rfl
  rw [finished]
  refine ⟨same, ?_⟩
  intro options calls after finished named vended before one two behind split
  have allowed : ∀ {text : String}, text ≠ "" ∧ '\n' ∉ text.toList → Ban.lines.Allows text := by
    rintro text ⟨some, noNewline⟩
    refine Ban.allows_of_first some fun c mem isNewline => noNewline ?_
    rwa [← List.mem_singleton.mp isNewline]
  have neat : shader.Neat Ban.lines := Session.neat_finish finished
    (fun name isName => allowed (named name isName))
    fun vendor isVendor => allowed (vended vendor isVendor)
  have listed : ∀ instr ∈ shader.visible,
      instr ∈ shader.tree.instructions ∧ ¬ shader.vanishes instr ∧ instr.Closes := by
    intro instr isVisible
    obtain ⟨isListed, stays⟩ := List.mem_filter.mp isVisible
    obtain ⟨index, isAt⟩ := Tree.mem_listing.mp isListed
    have isInstr := Tree.mem_instructions.mpr ⟨_, isAt⟩
    refine ⟨isInstr, by simpa using stays, ?_⟩
    cases instr with
    | special stmt =>
      cases stmt with
      | vendor vendor =>
        exact isClosed_of_newline (vended vendor isInstr).1 (vended vendor isInstr).2
      | _ => trivial
    | function decl => exact neat.overloads decl isInstr
    | _ => trivial
  rw [draftOf, run_started] at isLast
  obtain ⟨⟨⟨⟩, last⟩, ran, rfl⟩ := outcome_of_map isLast
  rw [split] at ran listed
  refine neat.exists_separates (fun instr isInstr => listed instr ?_) ran
  have isAll : before ++ one :: two :: behind = (before ++ [one, two]) ++ behind := by simp
  rw [isAll]
  exact List.mem_append_left _ isInstr

end Shader

/-- A struct, a value that is used up, and a global variable. -/
def usedUpCalls : List Call :=
  [.declareStruct "Light" [⟨.scalar .bool, "lit"⟩], .construct (.scalar .int) [.literal (.int 1)],
   .consume ⟨0⟩, .declareGlobal .uniform (.scalar .bool) "dim"]

/-- The page that `usedUpCalls` lead to. -/
def usedUpPage : Page :=
  ((((Page.blank ⟨2, false, true⟩).line "struct Light \x7b").indent.line "bool lit;").dedent.line
    "\x7d;").gap.line "uniform bool dim;"

/-- One blank line stands between a struct and a variable behind it if what stands between them
vanishes. -/
theorem Shader.render_visible_usedUp :
    ∃ shader after one hidden two,
      Build.finish (Session.reached ⟨.preferCaptured, false⟩ usedUpCalls) = .ok shader after ∧
      shader.tree.listing .root = [one, hidden, two] ∧ shader.visible = [one, two] ∧
      shader.render .glsl ⟨2, false, true⟩ =
        .ok "struct Light \x7b\n  bool lit;\n\x7d;\n\nuniform bool dim;\n" ∧
      shader.renderOf .glsl ⟨2, false, true⟩ [one, two] =
        .ok "struct Light \x7b\n  bool lit;\n\x7d;\n\nuniform bool dim;\n" ∧
      one.separator two = "\n" ∧ ∃ upper chunk lower,
        shader.Separates .glsl ⟨2, false, true⟩ [] one two
          "struct Light \x7b\n  bool lit;\n\x7d;\n\nuniform bool dim;\n" upper chunk lower := by
  have built : ∃ shader after one hidden two,
      Build.finish (Session.reached ⟨.preferCaptured, false⟩ usedUpCalls) = .ok shader after ∧
      shader.tree.listing .root = [one, hidden, two] ∧ shader.visible = [one, two] ∧
      shader.names = ["dim", "Light", "lit"] ∧
      (∀ vendor, .special (.vendor vendor) ∉ shader.tree.instructions) ∧
      one.separator two = "\n" ∧
      shader.draft .glsl ⟨2, false, true⟩ =
        .ok ⟨{ Names.start shader with handed := [(⟨1⟩, "dim")] }, usedUpPage⟩ := by
    refine ⟨_, _, .struct ⟨"Light", [⟨.scalar .bool, "lit"⟩]⟩,
      .statement (.construct ⟨⟨0⟩, .scalar .int, .initialisation, .call, none⟩ [.literal (.int 1)]),
      .statement (.construct ⟨⟨1⟩, .scalar .bool, .declaration, .none, some .uniform⟩ []),
      rfl, rfl, rfl, rfl, ?_, rfl, rfl⟩
    intro vendor isVendor
    change _ ∈ [Instruction.struct _, .statement _, .statement _] at isVendor
    simp at isVendor
  obtain ⟨shader, after, one, hidden, two, finished, listing, visible, names, vendors, separator,
    drafted⟩ := built
  have text : usedUpPage.finish true =
      "struct Light \x7b\n  bool lit;\n\x7d;\n\nuniform bool dim;\n" := by
    simp [usedUpPage, Page.finish, Page.line, Page.gap, Page.blank, Page.indent, Page.dedent,
      Page.margin, endsBlank, trimNewlines]
  have rendered : shader.render .glsl ⟨2, false, true⟩ =
      .ok "struct Light \x7b\n  bool lit;\n\x7d;\n\nuniform bool dim;\n" := by
    rw [render_eq_draft, drafted]
    exact congrArg Except.ok text
  have named : ∀ name ∈ shader.names, name ≠ "" ∧ '\n' ∉ name.toList := by
    rw [names]
    simp
  obtain ⟨same, separates⟩ := render_visible shader .glsl ⟨2, false, true⟩ rendered
  refine ⟨shader, after, one, hidden, two, finished, listing, visible, rendered, visible ▸ same,
    separator, ?_⟩
  exact separates ⟨.preferCaptured, false⟩ usedUpCalls after finished named
    (fun vendor isVendor => absurd isVendor (vendors vendor)) [] one two [] visible

end ShaderLoom
