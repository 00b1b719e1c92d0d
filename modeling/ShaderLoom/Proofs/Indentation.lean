import Mathlib
import ShaderLoom.Proofs.Agreement
import ShaderLoom.Proofs.Rows

/-!
# Indentation

Every line of a rendered shader is indented by as many levels as braces are open before it, one less
if it starts with a closing brace, and the braces of the text match
(`Session.indented_by_braces`).

The braces of a row lead from one level of indentation to the next (`Leads`), and the row is
indented by the first of them (`Indented`). That follows from how rows are laid out, by one look at
each kind of row (`Laid.step`); what there is to say of a page follows by going from row to row.
-/
namespace ShaderLoom

/-- Opening braces less closing ones. -/
def braces (chars : List Char) : Int := chars.count '\x7b' - chars.count '\x7d'

@[simp]
theorem braces_nil : braces [] = 0 := rfl

@[simp]
theorem braces_append (chars more : List Char) :
    braces (chars ++ more) = braces chars + braces more := by
  simp only [braces, List.count_append]
  omega

/-- What holds no braces opens no level. -/
theorem braces_eq_zero {chars : List Char} (none : ∀ c ∈ chars, c ≠ '\x7b' ∧ c ≠ '\x7d') :
    braces chars = 0 := by
  have opening : '\x7b' ∉ chars := fun mem => (none _ mem).1 rfl
  have closing : '\x7d' ∉ chars := fun mem => (none _ mem).2 rfl
  rw [braces, List.count_eq_zero_of_not_mem opening, List.count_eq_zero_of_not_mem closing]
  rfl

/-- Whether no more levels are ever closed than are open, if a text starts at a level. -/
def Above (level : Int) (chars : List Char) : Prop :=
  ∀ start, start <+: chars → 0 ≤ level + braces start

/-- Texts one after the other close no more than is open if each of them does not. -/
theorem Above.append {level : Int} {chars more : List Char} (first : Above level chars)
    (second : Above (level + braces chars) more) : Above level (chars ++ more) := by
  intro start isStart
  obtain within | ⟨rest, rfl⟩ :=
    List.prefix_or_prefix_of_prefix isStart (List.prefix_append chars more)
  · exact first start within
  · have behind := second rest ((List.prefix_append_right_inj chars).mp isStart)
    rw [braces_append]
    omega

/-- What holds no braces closes nothing. -/
theorem above_of_none {level : Int} (atLeast : 0 ≤ level) {chars : List Char}
    (none : ∀ c ∈ chars, c ≠ '\x7b' ∧ c ≠ '\x7d') : Above level chars := by
  intro start isStart
  have still := braces_eq_zero fun c mem => none c (isStart.subset mem)
  omega

/-- A single brace closes nothing but the level it is for. -/
theorem above_singleton {level : Int} {c : Char} (before : 0 ≤ level)
    (after : 0 ≤ level + braces [c]) : Above level [c] := by
  intro start isStart
  obtain rfl | ⟨rest, rfl, isRest⟩ := List.prefix_cons_iff.mp isStart
  · simpa using before
  · rwa [List.prefix_nil.mp isRest]

/-- Whether braces lead from one level of indentation to another one, and never below the lowest. -/
structure Leads (level : Nat) (chars : List Char) (next : Nat) : Prop where
  braces : (next : Int) = level + braces chars
  above : Above level chars

namespace Leads

variable {level middle next : Nat} {chars more : List Char}

/-- What holds no braces keeps the level. -/
theorem none (none : ∀ c ∈ chars, c ≠ '\x7b' ∧ c ≠ '\x7d') : Leads level chars level where
  braces := by
    rw [braces_eq_zero none, add_zero]
  above := above_of_none (Int.natCast_nonneg level) none

/-- An opening brace leads one level deeper. -/
theorem opening : Leads level ['\x7b'] (level + 1) :=
  ⟨rfl, above_singleton (Int.natCast_nonneg level) (Int.natCast_nonneg (level + 1))⟩

/-- A closing brace leads one level back. -/
theorem closing : Leads (level + 1) ['\x7d'] level where
  braces := by
    show (level : Int) = (level + 1 : Nat) + -1
    omega
  above := by
    refine above_singleton (Int.natCast_nonneg _) ?_
    show (0 : Int) ≤ (level + 1 : Nat) + -1
    omega

/-- One text leads on from where another one led. -/
theorem append (first : Leads level chars middle) (second : Leads middle more next) :
    Leads level (chars ++ more) next where
  braces := by
    rw [second.braces, first.braces, braces_append, add_assoc]
  above := first.above.append (first.braces ▸ second.above)

end Leads

/-- Whether a line is indented by a level, one less if it starts with a closing brace. -/
def Indented (width : Nat) (level : Int) (line : List Char) : Prop :=
  ∃ depth first rest, line = List.replicate (width * depth) ' ' ++ first :: rest ∧ first ≠ ' ' ∧
    (depth : Int) = level - if first = '\x7d' then 1 else 0

section Rows

variable {depth level last width : Nat} {text : String} {row : Row} {rows : List Row}

/-- A text without banned characters keeps the level. -/
theorem Ban.Free.leads (free : Ban.layout.Free text) : Leads level text.toList level := by
  refine .none fun c mem => ⟨?_, ?_⟩
  · rintro rfl
    exact free _ mem (by decide)
  · rintro rfl
    exact free _ mem (by decide)

/-- The blanks before a line keep the level. -/
theorem leads_margin (count : Nat) : Leads level (List.replicate count ' ') level := by
  refine .none fun c mem => ?_
  rw [List.eq_of_mem_replicate mem]
  decide

/-- An allowed line is indented by its depth. -/
theorem Ban.Allows.indented (allowed : Ban.layout.Allows text) (more : List Char) :
    Indented width depth (List.replicate (depth * width) ' ' ++ (text.toList ++ more)) := by
  obtain ⟨⟨first, isFirst, isFine⟩, -⟩ := allowed
  obtain ⟨rest, spelled⟩ := List.head?_eq_some_iff.mp isFirst
  refine ⟨depth, first, rest ++ more, ?_, ?_, ?_⟩
  · rw [spelled, Nat.mul_comm, List.cons_append]
  · rintro rfl
    exact isFine (by decide)
  · have noBrace : first ≠ '\x7d' := by
      rintro rfl
      exact isFine (by decide)
    rw [if_neg noBrace, sub_zero]

/-- A line that starts with a closing brace is indented by one level less. -/
theorem indented_closing (rest : List Char) :
    Indented width (depth + 1 : Nat) (List.replicate (depth * width) ' ' ++ '\x7d' :: rest) := by
  refine ⟨depth, '\x7d', rest, by rw [Nat.mul_comm], by decide, ?_⟩
  rw [if_pos rfl]
  omega

/-- A row is indented by the level before it, and its braces lead to the level behind it. -/
theorem Laid.step (laid : Laid Ban.layout level (row :: rows) last) (width : Nat) :
    (row.body width ≠ [] → Indented width level (row.body width)) ∧
      ∃ next, Leads level (row.body width) next ∧ Laid Ban.layout next rows last := by
  cases laid with
  | blank rest => exact ⟨fun some => absurd rfl some, level, .none nofun, rest⟩
  | plain allowed rest =>
    refine ⟨fun _ => ?_, level, (leads_margin _).append allowed.2.leads, rest⟩
    simpa [Row.body] using allowed.indented []
  | @opens _ _ _ content head spelled allowed rest =>
    have body : (Row.line level content).body width =
        List.replicate (level * width) ' ' ++ (head.toList ++ ['\x7b']) := by
      rw [Row.body, spelled, String.toList_append]
      rfl
    rw [body]
    refine ⟨fun _ => allowed.indented _, level + 1, ?_, rest⟩
    exact (leads_margin _).append (allowed.2.leads.append .opening)
  | @turns depth _ _ content middle spelled free rest =>
    have body : (Row.line depth content).body width =
        List.replicate (depth * width) ' ' ++ (['\x7d'] ++ (middle.toList ++ ['\x7b'])) := by
      rw [Row.body, spelled, String.toList_append, String.toList_append, List.append_assoc]
      rfl
    rw [body]
    refine ⟨fun _ => indented_closing _, depth + 1, ?_, rest⟩
    exact (leads_margin _).append (Leads.closing.append (free.leads.append .opening))
  | @closes depth _ _ content tail spelled free rest =>
    have body : (Row.line depth content).body width =
        List.replicate (depth * width) ' ' ++ (['\x7d'] ++ tail.toList) := by
      rw [Row.body, spelled, String.toList_append]
      rfl
    rw [body]
    refine ⟨fun _ => indented_closing _, depth, ?_, rest⟩
    exact (leads_margin _).append (Leads.closing.append free.leads)

/-- The braces of rows lead from the level before them to the one behind them. -/
theorem Laid.leads (laid : Laid Ban.layout level rows last) (width : Nat) :
    Leads level (rows.flatMap (Row.chars width)) last := by
  induction rows generalizing level with
  | nil =>
    cases laid
    exact .none nofun
  | cons row rows ih =>
    obtain ⟨-, next, leads, rest⟩ := laid.step width
    have newline : Leads next ['\n'] next :=
      .none (List.forall_mem_singleton.mpr (by decide))
    rw [List.flatMap_cons, Row.chars, List.append_assoc]
    exact leads.append (newline.append (ih rest))

/-- Every row is indented by the level that the braces of the rows before it lead to. -/
theorem Laid.indented (laid : Laid Ban.layout level rows last) {width : Nat}
    {before after : List (List Char)} {line : List Char}
    (split : rows.map (Row.body width) = before ++ line :: after) (some : line ≠ []) :
    Indented width (level + braces before.flatten) line := by
  induction rows generalizing level before with
  | nil => cases before <;> cases split
  | cons row rows ih =>
    obtain ⟨indented, next, leads, rest⟩ := laid.step width
    cases before with
    | nil =>
      obtain ⟨rfl, -⟩ := List.cons.inj split
      simpa using indented some
    | cons first before =>
      obtain ⟨rfl, others⟩ := List.cons.inj split
      have later := ih rest others
      rwa [leads.braces, add_assoc, ← braces_append, ← List.flatten_cons] at later

/-- Rows without newlines are the lines of what they spell, with an empty one behind the last
newline. -/
theorem splitOn_rows (noNewline : ∀ row ∈ rows, '\n' ∉ row.body width) :
    (rows.flatMap (Row.chars width)).splitOn '\n' = (rows ++ [Row.blank]).map (Row.body width) := by
  induction rows with
  | nil => rfl
  | cons row rows ih =>
    rw [List.forall_mem_cons] at noNewline
    rw [List.flatMap_cons, Row.chars, List.append_assoc, List.singleton_append,
      List.splitOn_append_cons_self_of_not_mem noNewline.1, ih noNewline.2]
    rfl

/-- Newlines at the end add empty lines. -/
theorem splitOn_newlines (chars : List Char) (count : Nat) :
    (chars ++ List.replicate count '\n').splitOn '\n' =
      chars.splitOn '\n' ++ List.replicate count [] := by
  induction count with
  | zero => simp
  | succ count ih =>
    rw [List.replicate_succ', ← List.append_assoc, List.splitOn_append_cons_self, ih,
      List.splitOn_nil, List.append_assoc, List.replicate_succ']

/-- The finished text is what its rows spell but for newlines at the end. -/
theorem exists_finish {page : Page}
    (spelled : page.text.toList = rows.flatMap (Row.chars width)) (trailingNewline : Bool) :
    ∃ count, page.text.toList =
      (page.finish trailingNewline).toList ++ List.replicate count '\n' := by
  obtain rfl | ⟨others, row, rfl⟩ := rows.eq_nil_or_concat
  · have isEmpty : page.text = "" := String.toList_eq_nil_iff.mp spelled
    refine ⟨0, ?_⟩
    rw [Page.finish, isEmpty]
    cases trailingNewline <;> rfl
  · -- There is a newline to be cut, so that one can be put back.
    obtain ⟨text, isText⟩ : ∃ text, page.text = text ++ "\n" := by
      refine ⟨String.ofList (others.flatMap (Row.chars width) ++ row.body width), ?_⟩
      rw [← String.toList_inj, spelled]
      simp [Row.chars]
    obtain ⟨count, isCut⟩ := exists_trimNewlines text
    rw [Page.finish, isText, trimNewlines_newline, String.toList_append, isCut]
    split
    · refine ⟨count, ?_⟩
      simp [List.append_assoc, ← List.replicate_succ, ← List.replicate_succ']
    · refine ⟨count + 1, ?_⟩
      simp [List.append_assoc, List.replicate_succ']

end Rows

namespace Shader

variable {shader : Shader} {ban : Ban} {dialect : Dialect} {layout : Layout}

/-- The preamble is laid out at the lowest level. -/
theorem writes_writePreamble {fit : Names → Prop}
    (preamble : ∀ line ∈ dialect.preamble, ban.Allows line) :
    Writes fit 0 (writePreamble dialect) (Laid ban 0 · 0) := by
  unfold writePreamble
  cases isPreamble : dialect.preamble with
  | none => exact .nothing .nil
  | some line =>
    have apart : Writes fit 0 Drafting.gap (Laid ban 0 · 0) := .gap .nil (.blank .nil)
    exact Writes.lineThen apart fun rows laid => .plain (preamble line isPreamble) laid

/-- The page of a neat shader is laid out from the lowest level back to it. -/
theorem Neat.laid_draft (neat : shader.Neat ban) (spells : dialect.Spells ban)
    (preamble : ∀ line ∈ dialect.preamble, ban.Allows line) {draft : Draft}
    (drafted : shader.draft dialect layout = .ok draft) :
    ∃ rows, (Page.blank layout).Grows rows draft.page ∧ Laid ban 0 rows 0 := by
  have body := neat.writeBlockWithin spells (shader.tree.size + 1) .root 0
  have written : Writes ban.Fit 0 (do
      if layout.preamble then writePreamble dialect
      shader.writeBlock dialect .root) (Laid ban 0 · 0) := by
    cases layout.preamble with
    | false => exact body
    | true => exact (writes_writePreamble preamble).bind body fun _ _ => .append
  obtain ⟨⟨⟨⟩, later⟩, ran, rfl⟩ := outcome_of_map drafted
  exact (written ⟨.start shader, .blank layout⟩ later nofun rfl ran).2

end Shader

/-- In what a finished shader without vendors' texts is rendered to, every line that is not empty is
indented by the braces that are open before it, and braces match, whatever the width of a level and
in both dialects, if no name is empty or has blanks, newlines or braces in it. -/
theorem Session.indented_by_braces (options : BuildOptions) (calls : List Call) {shader : Shader}
    {after : Session} (finished : Build.finish (reached options calls) = .ok shader after)
    (unvended : ∀ text, .special (.vendor text) ∉ shader.tree.instructions)
    (named : ∀ name ∈ shader.names,
      name ≠ "" ∧ ∀ c ∈ name.toList, c ∉ [' ', '\n', '\x7b', '\x7d'])
    {dialect : Dialect} (standard : dialect = .glsl ∨ dialect = .hlsl) (layout : Layout)
    {text : String} (rendered : shader.render dialect layout = .ok text) :
    (∀ before line behind, text.toList.splitOn '\n' = before ++ line :: behind → line ≠ [] →
      Indented layout.indentWidth (braces before.flatten) line) ∧
    braces text.toList = 0 ∧ ∀ start, start <+: text.toList → 0 ≤ braces start := by
  have spells : dialect.Spells Ban.layout := by
    obtain rfl | rfl := standard
    · exact spells_glsl _
    · exact spells_hlsl _
  have preamble : ∀ line ∈ dialect.preamble, Ban.layout.Allows line := by
    obtain rfl | rfl := standard
    · rintro _ ⟨⟩
      exact Ban.layout.allows_of_isProper (by decide)
    · exact nofun
  have neat : shader.Neat Ban.layout := neat_finish finished
    (fun name isName => Ban.allows_of_first (named name isName).1 (named name isName).2)
    fun text isVendor => absurd isVendor (unvended text)
  rw [Shader.render_eq_draft] at rendered
  obtain ⟨draft, drafted, rfl⟩ := outcome_of_map rendered
  obtain ⟨rows, grows, laid⟩ := neat.laid_draft spells preamble drafted
  have spelled : draft.page.text.toList = rows.flatMap (Row.chars layout.indentWidth) := grows.text
  obtain ⟨count, isCut⟩ := exists_finish spelled layout.trailingNewline
  have leads := laid.leads layout.indentWidth
  rw [← spelled, isCut] at leads
  refine ⟨fun before line behind split isSome => ?_, ?_, fun start isStart => ?_⟩
  · -- The empty lines that are cut stand behind all others.
    have lines := splitOn_rows (laid.newline (by decide) layout.indentWidth)
    rw [← spelled, isCut, splitOn_newlines, split, List.append_assoc] at lines
    have ended : Laid Ban.layout 0 (rows ++ [.blank]) 0 := laid.append (.blank .nil)
    simpa using ended.indented lines.symm isSome
  · have newlines : braces (List.replicate count '\n') = 0 := by
      refine braces_eq_zero fun c mem => ?_
      rw [List.eq_of_mem_replicate mem]
      decide
    simpa [newlines] using leads.braces.symm
  · simpa using leads.above start (isStart.trans (List.prefix_append _ _))

/-- A global variable and a loop that is left at once. -/
def brokenLoopCalls : List Call :=
  [.declareGlobal .uniform (.scalar .bool) "lit", .beginWhile (.literal (.bool true)),
   .addStatement .breakLoop, .endWhile]

/-- The line inside a loop is indented by the brace before it, and the closing brace is not. -/
theorem Session.indented_by_braces_brokenLoop :
    ∃ shader after, Build.finish (reached .standard brokenLoopCalls) = .ok shader after ∧
      shader.names = ["lit"] ∧ shader.render .glsl ⟨2, false, true⟩ =
        .ok "uniform bool lit;\nwhile (true) \x7b\n  break;\n\x7d\n" ∧
      Indented 2 (braces ["uniform bool lit;".toList, "while (true) \x7b".toList].flatten)
        "  break;".toList ∧
      Indented 2 (braces ["uniform bool lit;".toList, "while (true) \x7b".toList,
        "  break;".toList].flatten) "\x7d".toList := by
  have finished : ∃ shader after,
      Build.finish (reached .standard brokenLoopCalls) = .ok shader after ∧
      shader.names = ["lit"] ∧
      (∀ text, .special (.vendor text) ∉ shader.tree.instructions) ∧
      shader.render .glsl ⟨2, false, true⟩ =
        .ok "uniform bool lit;\nwhile (true) \x7b\n  break;\n\x7d\n" := by
    refine ⟨_, _, rfl, by cbv, ?_, by cbv⟩
    intro text isVendor
    change _ ∈ [Instruction.statement _, .whileLoop _ _, .special .breakLoop] at isVendor
    simp at isVendor
  obtain ⟨shader, after, finished, names, unvended, rendered⟩ := finished
  have named : ∀ name ∈ shader.names,
      name ≠ "" ∧ ∀ c ∈ name.toList, c ∉ [' ', '\n', '\x7b', '\x7d'] := by
    rw [names]
    simp
  have laid := (indented_by_braces .standard brokenLoopCalls finished unvended named (.inl rfl)
    ⟨2, false, true⟩ rendered).1
  have lines : "uniform bool lit;\nwhile (true) \x7b\n  break;\n\x7d\n".toList.splitOn '\n' =
      ["uniform bool lit;".toList, "while (true) \x7b".toList, "  break;".toList, "\x7d".toList,
        []] := by
    cbv
  refine ⟨shader, after, finished, names, rendered, ?_, ?_⟩
  · exact laid [_, _] _ [_, _] lines (by simp)
  · exact laid [_, _, _] _ [_] lines (by simp)

end ShaderLoom
