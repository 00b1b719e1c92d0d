import Mathlib
import ShaderLoom.Dialect.Standard
import ShaderLoom.Proofs.HeaderClauses
import ShaderLoom.Proofs.Yields

/-!
# Types in the headers of loops

The inits of a header are written here as items that still tell how each variable is introduced
(`Shader.initItems`): behind its type, or by its name alone. The texts of the items are what the
header is written with (`Shader.writeInits_eq`).

The type is left out by position. In a build that never asks for that itself the first item is
written with its type if it declares a variable, and every later one without
(`Shader.yields_initItems`). So each variable is introduced with its own type exactly if the first
item declares one of that type (`InitItem.ByPosition.keepTypes_iff`).
-/
namespace ShaderLoom

/-- One init of a header as it is written. -/
inductive InitItem where
  /-- A variable behind its type. -/
  | typed (made : Construction) (name : String) (value : Option String)
  /-- A variable by its name alone. -/
  | bare (made : Construction) (name : String) (value : Option String)
  /-- An expression that declares nothing. -/
  | plain (text : String)
deriving DecidableEq, Repr

/-- Whether a construction was made to declare its variable. -/
def Construction.IsDeclared (made : Construction) : Prop :=
  made.status = .declaration ∨ made.status = .initialisation

instance (made : Construction) : Decidable made.IsDeclared :=
  inferInstanceAs (Decidable (_ ∨ _))

/-- The construction of the variable that an init declares, if it declares one. -/
def Expr.declared? (expr : Expr) : Option Construction :=
  expr.construction?.filter (·.IsDeclared)

namespace InitItem

/-- The construction of the variable that an item introduces, if it introduces one. -/
def declared? : InitItem → Option Construction
  | .typed made _ _ => some made
  | .bare made _ _ => some made
  | .plain _ => none

/-- Whether an item has its type before it. -/
def isTyped : InitItem → Bool
  | .typed _ _ _ => true
  | _ => false

/-- A target and its value, if it has one. -/
def binding (target : String) (value : Option String) : String :=
  value.elim target fun value => target ++ " = " ++ value

/-- The text of an item. -/
def text (dialect : Dialect) : InitItem → String
  | .typed made name value =>
    binding ((made.qualifier.elim "" fun qualifier => dialect.qualifier qualifier ++ " ") ++
      dialect.declarator made.ty name) value
  | .bare _ name value => binding name value
  | .plain text => text

/-- Whether every variable that items introduce by name alone has the type of an earlier one that
was introduced with its type. -/
def KeepTypes (items : List InitItem) : Prop :=
  ∀ before made name value after, items = before ++ .bare made name value :: after →
    ∃ first firstName firstValue, .typed first firstName firstValue ∈ before ∧ first.ty = made.ty

end InitItem

namespace Shader

variable (shader : Shader) (dialect : Dialect)

/-- One init of a header; `follows` says whether another came before. -/
def initItem (follows : Bool) : Expr → Naming InitItem
  | .construct made args => do
    if made.IsDeclared then
      let name ← shader.nameOf made.var
      let value ← (if args.isEmpty then pure none
        else some <$> shader.write dialect (.construct made args))
      pure (if follows || made.flags.multipleInits then .bare made name value
        else .typed made name value)
    else .plain <$> shader.write dialect (.construct made args)
  | expr => .plain <$> shader.write dialect expr

/-- The inits of a header in order; `follows` says whether another came before. -/
def initItems (follows : Bool) : List Expr → Naming (List InitItem)
  | [] => pure []
  | expr :: rest => do
    let item ← shader.initItem dialect follows expr
    let rest ← initItems true rest
    pure (item :: rest)

variable {shader dialect}

/-- An init is written as the text of its item. -/
theorem writeInit_eq (follows : Bool) (expr : Expr) :
    shader.writeInit dialect follows expr =
      InitItem.text dialect <$> shader.initItem dialect follows expr := by
  cases expr with
  | construct made args =>
    by_cases isDeclared : made.IsDeclared
    · have declares : made.status = .declaration ∨ made.status = .initialisation := isDeclared
      simp only [writeInit, initItem, if_pos isDeclared, if_pos declares]
      cases follows || made.flags.multipleInits <;> cases args <;>
        cases qualified : made.qualifier <;>
        simp [writeDeclaration, qualified, InitItem.text, InitItem.binding]
    · have declaresNot : ¬ (made.status = .declaration ∨ made.status = .initialisation) :=
        isDeclared
      simp [writeInit, initItem, if_neg isDeclared, if_neg declaresNot, InitItem.text]
  | _ => simp [writeInit, initItem, InitItem.text]

/-- The inits of a header are written as the texts of its items. -/
theorem writeInits_eq (follows : Bool) (exprs : List Expr) :
    shader.writeInits dialect follows exprs =
      List.map (InitItem.text dialect) <$> shader.initItems dialect follows exprs := by
  induction exprs generalizing follows with
  | nil => rfl
  | cons expr exprs ih =>
    rw [writeInits, initItems, writeInit_eq, ih]
    simp

/-- An item introduces what its init declares, with its type if nothing says otherwise. -/
theorem yields_initItem (follows : Bool) (expr : Expr) :
    Yields (fun _ => True) (shader.initItem dialect follows expr) fun item =>
      item.declared? = expr.declared? ∧
        item.isTyped = expr.declared?.any fun made => !(follows || made.flags.multipleInits) := by
  cases expr with
  | construct made args =>
    by_cases isDeclared : made.IsDeclared
    · have declares : (Expr.construct made args).declared? = some made := by
        simp [Expr.declared?, Expr.construction?, isDeclared]
      rw [initItem, if_pos isDeclared, declares]
      refine (Yields.anything _).bind fun name _ => (Yields.anything _).bind fun value _ => .pure ?_
      rw [Option.any_some]
      cases follows || made.flags.multipleInits
      · exact ⟨rfl, rfl⟩
      · exact ⟨rfl, rfl⟩
    · have declaresNot : (Expr.construct made args).declared? = none := by
        simp [Expr.declared?, Expr.construction?, isDeclared]
      rw [initItem, if_neg isDeclared, declaresNot]
      exact (Yields.anything _).map fun text _ => ⟨rfl, rfl⟩
  | _ => exact (Yields.anything _).map fun text _ => ⟨rfl, rfl⟩

end Shader

namespace InitItem

/-- Whether items introduce what a list of inits declares, and only the first of them, if it declares
a variable, has its type before it. -/
structure ByPosition (exprs : List Expr) (items : List InitItem) : Prop where
  declared : items.map declared? = exprs.map Expr.declared?
  first : ∀ item ∈ items.head?, item.isTyped = item.declared?.isSome
  later : ∀ item ∈ items.tail, item.isTyped = false

/-- An item that introduces a variable behind its type is of that form. -/
theorem eq_typed {item : InitItem} {made : Construction} (introduces : item.declared? = some made)
    (isTyped : item.isTyped) : ∃ name value, item = .typed made name value := by
  cases item with
  | typed found name value =>
    obtain rfl := Option.some.inj introduces
    exact ⟨name, value, rfl⟩
  | _ => cases isTyped

/-- An item that introduces a variable, but not behind its type, is of that form. -/
theorem eq_bare {item : InitItem} {made : Construction} (introduces : item.declared? = some made)
    (untyped : item.isTyped = false) : ∃ name value, item = .bare made name value := by
  cases item with
  | bare found name value =>
    obtain rfl := Option.some.inj introduces
    exact ⟨name, value, rfl⟩
  | typed => cases untyped
  | plain => cases introduces

/-- Items that are typed by position keep the types of their variables exactly if every later
variable has the type of one that comes first. -/
theorem ByPosition.keepTypes_iff {exprs : List Expr} {items : List InitItem}
    (position : ByPosition exprs items) :
    KeepTypes items ↔ ∀ made ∈ exprs.tail.filterMap Expr.declared?,
      ∃ first ∈ exprs.head?.bind Expr.declared?, first.ty = made.ty := by
  obtain ⟨declared, first, later⟩ := position
  cases items with
  | nil =>
    obtain rfl : exprs = [] := by simpa using declared.symm
    simp [KeepTypes]
  | cons item items =>
    obtain ⟨expr, exprs, rfl⟩ : ∃ expr rest, exprs = expr :: rest := by
      cases exprs with
      | nil => cases declared
      | cons expr exprs => exact ⟨expr, exprs, rfl⟩
    rw [List.map_cons, List.map_cons, List.cons.injEq] at declared
    obtain ⟨same, declared⟩ := declared
    have members : ∀ made, made ∈ exprs.filterMap Expr.declared? ↔
        some made ∈ items.map declared? := by
      intro made
      rw [declared, List.mem_filterMap, List.mem_map]
    rw [List.tail_cons, List.head?_cons, Option.bind_some]
    constructor
    · intro keep made isMade
      obtain ⟨other, isOther, introduces⟩ := List.mem_map.mp ((members made).mp isMade)
      obtain ⟨name, value, rfl⟩ := eq_bare introduces (later other isOther)
      obtain ⟨before, after, rfl⟩ := List.append_of_mem isOther
      obtain ⟨start, startName, startValue, isBefore, sameTy⟩ :=
        keep (item :: before) made name value after rfl
      -- No later item has its type, so the typed one is the first.
      obtain rfl | isLater := List.mem_cons.mp isBefore
      · exact ⟨start, same.symm, sameTy⟩
      · cases later _ (List.mem_append_left _ isLater)
    · intro agree before made name value after split
      cases before with
      | nil =>
        obtain ⟨rfl, -⟩ := List.cons.inj split
        cases first _ rfl
      | cons start before =>
        obtain ⟨rfl, rfl⟩ := List.cons.inj split
        obtain ⟨made', isFirst, sameTy⟩ := agree made ((members made).mpr (by simp [declared?]))
        have introduces : item.declared? = some made' := same.trans isFirst
        have isTyped : item.isTyped := by rw [first item rfl, introduces]; rfl
        obtain ⟨firstName, firstValue, rfl⟩ := eq_typed introduces isTyped
        exact ⟨made', firstName, firstValue, List.mem_cons_self, sameTy⟩

end InitItem

namespace Shader

variable {shader : Shader} {dialect : Dialect}

/-- What follows another init is written without its type. -/
theorem yields_initItems_following (exprs : List Expr) :
    Yields (fun _ => True) (shader.initItems dialect true exprs) fun items =>
      items.map InitItem.declared? = exprs.map Expr.declared? ∧
        ∀ item ∈ items, item.isTyped = false := by
  induction exprs with
  | nil => exact .pure ⟨rfl, by simp⟩
  | cons expr exprs ih =>
    refine (yields_initItem true expr).bind fun item described => ih.bind fun items rest => .pure ?_
    have untyped : item.isTyped = false := by simpa using described.2
    rw [List.map_cons, List.map_cons, described.1, rest.1]
    exact ⟨rfl, List.forall_mem_cons.mpr ⟨untyped, rest.2⟩⟩

/-- Inits that do not ask for it themselves are written with their type by position. -/
theorem yields_initItems {exprs : List Expr}
    (unflagged : ∀ expr ∈ exprs, ∀ made ∈ expr.construction?, made.flags.multipleInits = false) :
    Yields (fun _ => True) (shader.initItems dialect false exprs) (InitItem.ByPosition exprs) := by
  cases exprs with
  | nil => exact .pure ⟨rfl, by simp, by simp⟩
  | cons expr exprs =>
    rw [initItems]
    refine (yields_initItem false expr).bind fun item described =>
      (yields_initItems_following exprs).bind fun items rest => .pure ⟨?_, ?_, rest.2⟩
    · rw [List.map_cons, List.map_cons, described.1, rest.1]
    · rintro _ ⟨⟩
      rw [described.2, described.1]
      cases declares : expr.declared? with
      | none => rfl
      | some made =>
        have isMade := (Option.filter_eq_some_iff.mp declares).1
        simp [unflagged expr List.mem_cons_self made isMade]

/-- A header opens with the texts of its items. -/
theorem exists_initItems {clauses : ForClauses} {names later : Names} {header : String}
    (written : shader.writeHeader dialect clauses names = .ok (header, later)) :
    ∃ items middle rest, shader.initItems dialect false clauses.inits names = .ok (items, middle) ∧
      header = ", ".intercalate (items.map (InitItem.text dialect)) ++ ";" ++ rest := by
  rw [writeHeader, writeInits_eq] at written
  obtain ⟨texts, middle, begun, written⟩ := ok_of_bind written
  obtain ⟨items, isItems, rfl⟩ := ok_of_map begun
  -- The condition is worked out or left out before the same last steps.
  obtain ⟨condition, last, written⟩ : ∃ condition last, (do
      let increments ← clauses.increments.mapM (shader.write dialect)
      pure (", ".intercalate (items.map (InitItem.text dialect)) ++ ";" ++ clauseText condition ++
        ";" ++ clauseText (", ".intercalate increments)) : Naming String) last =
        .ok (header, later) := by
    cases isCondition : clauses.condition with
    | none =>
      rw [isCondition] at written
      exact ⟨"", middle, written⟩
    | some condition =>
      rw [isCondition] at written
      obtain ⟨text, last, -, written⟩ := ok_of_bind written
      exact ⟨text, last, written⟩
  obtain ⟨increments, final, -, written⟩ := ok_of_bind written
  obtain ⟨rfl, -⟩ := Prod.mk.inj (Except.ok.inj written)
  refine ⟨items, middle, clauseText condition ++ (";" ++ clauseText (", ".intercalate increments)),
    isItems, ?_⟩
  simp only [String.append_assoc]

/-- The inits of a recorded header are statements of its block. -/
theorem statement_of_init {args : BlockId} {stacked : Option Expr} {policy : ConditionPolicy}
    {clauses : ForClauses} (sorted : shader.clauses (.recorded args stacked policy) = .ok clauses)
    {expr : Expr} (isInit : expr ∈ clauses.inits) :
    ∃ site, shader.tree.instruction? site = some (.statement expr) := by
  rw [Shader.clauses] at sorted
  cases found : shader.tree.block? args with
  | none =>
    rw [found] at sorted
    cases sorted
  | some block =>
    rw [found] at sorted
    obtain ⟨exprs, isHeader⟩ | ⟨before, other, after, isHeader, stray⟩ :=
      exists_statements_or_stray block.instructions.toList
    · obtain ⟨inits, conditions, increments, runs, rfl⟩ := Clauses.exists_cut stacked.isSome exprs
      obtain ⟨phase, isSorted⟩ := runs.foldl_add
      simp only [isHeader, partition_map, isSorted] at sorted
      obtain rfl := Except.ok.inj sorted
      have isStatement : Instruction.statement expr ∈ block.instructions.toList := by
        rw [isHeader]
        exact List.mem_map_of_mem (by simp [isInit])
      obtain ⟨site, -, isAt⟩ := Tree.exists_site found isStatement
      exact ⟨site, isAt⟩
    · simp only [isHeader, partition_stray before stray] at sorted
      cases sorted

end Shader

/-- Whether a call gives no construction that it pushes the flag of a later declaration. -/
def Call.Unflagged : Call → Prop
  | .emit spec => spec.flags.multipleInits = false
  | .push expr => ∀ made ∈ expr.construction?, made.flags.multipleInits = false
  | _ => True

/-- What a call pushes that sets no such flag has none. -/
theorem Call.Unflagged.statement {s : Session} {call : Call} (unflagged : call.Unflagged)
    {expr : Expr} (given : s.statement? call = some expr) :
    ∀ made ∈ expr.construction?, made.flags.multipleInits = false := by
  cases call with
  | push pushed =>
    obtain rfl := Option.some.inj given
    exact unflagged
  | emit spec =>
    obtain rfl := Option.some.inj given
    rintro _ ⟨⟩
    exact unflagged
  | construct | constructNamed | declare | forward | declareGlobal | declareConst | declareParam =>
    obtain rfl := Option.some.inj given
    rintro _ ⟨⟩
    rfl
  | _ => cases given

/-- No construction that stands as a statement has the flag of a later declaration if no call set
it. -/
theorem Session.unflagged_reached (options : BuildOptions) (calls : List Call)
    (sane : (reached options calls).failure = none) (unflagged : ∀ call ∈ calls, call.Unflagged) :
    ∀ site expr, (reached options calls).tree.instruction? site = some (.statement expr) →
      ∀ made ∈ expr.construction?, made.flags.multipleInits = false := by
  revert unflagged
  have atStart : ∀ (calls : List Call) (options : BuildOptions),
      (∀ call ∈ calls, call.Unflagged) → ∀ site expr,
      (start options).tree.instruction? site = some (.statement expr) →
        ∀ made ∈ expr.construction?, made.flags.multipleInits = false := by
    intro calls options _ site expr isAt
    rw [start, Tree.instruction?_empty] at isAt
    cases isAt
  refine @reached_of_effects options (fun calls s => (∀ call ∈ calls, call.Unflagged) →
    ∀ site expr, s.tree.instruction? site = some (.statement expr) →
      ∀ made ∈ expr.construction?, made.flags.multipleInits = false)
    (atStart [] options) (fun calls options => atStart _ options) ?_ calls sane
  intro calls call reply after placed before goesOn ran effect unflagged site expr isAt
  cases effect.origin placed isAt with
  | old wasAt =>
    exact before (fun call isCall => unflagged call (List.mem_append_left _ isCall)) site expr wasAt
  | pushed _ _ adds _ =>
    cases adds with
    | statement given =>
      exact (unflagged call (List.mem_append_right _ List.mem_cons_self)).statement given
    | other _ plain => exact absurd rfl plain
  | amended old _ opens same => rw [← same] at opens; cases opens

/-- **Types in a recorded header go by position.** In a build that gives no construction the flag of
a later declaration, the first init of a header is written with its type if it declares a variable,
and every later one without, whatever its type. So every variable that is introduced by its name
alone has the type of one that was introduced with its type before, exactly if every declared init
but the first has the type of a declared first one. -/
theorem Session.types_by_position (options : BuildOptions) (calls : List Call)
    (unflagged : ∀ call ∈ calls, call.Unflagged) {shader : Shader} {after : Session}
    (finished : Build.finish (reached options calls) = .ok shader after) {args : BlockId}
    {stacked : Option Expr} {policy : ConditionPolicy} {clauses : ForClauses}
    (sorted : shader.clauses (.recorded args stacked policy) = .ok clauses) (dialect : Dialect)
    {names later : Names} {header : String}
    (written : shader.writeHeader dialect clauses names = .ok (header, later)) :
    ∃ items middle rest, shader.initItems dialect false clauses.inits names = .ok (items, middle) ∧
      header = ", ".intercalate (items.map (InitItem.text dialect)) ++ ";" ++ rest ∧
      items.map InitItem.declared? = clauses.inits.map Expr.declared? ∧
      (∀ item ∈ items.head?, item.isTyped = item.declared?.isSome) ∧
      (∀ item ∈ items.tail, item.isTyped = false) ∧
      (InitItem.KeepTypes items ↔ ∀ made ∈ clauses.inits.tail.filterMap Expr.declared?,
        ∃ first ∈ clauses.inits.head?.bind Expr.declared?, first.ty = made.ty) := by
  obtain ⟨items, middle, rest, isItems, spelled⟩ := Shader.exists_initItems written
  have sane := (Build.finish_ok_iff.mp finished).1
  have plain : ∀ expr ∈ clauses.inits, ∀ made ∈ expr.construction?,
      made.flags.multipleInits = false := by
    intro expr isInit
    obtain ⟨site, isAt⟩ := Shader.statement_of_init sorted isInit
    obtain ⟨-, -, -, rfl⟩ := Build.finish_ok_iff.mp finished
    exact unflagged_reached options calls sane unflagged site expr isAt
  have position := (Shader.yields_initItems plain names items middle trivial isItems).1
  exact ⟨items, middle, rest, isItems, spelled, position.declared, position.first, position.later,
    position.keepTypes_iff⟩

/-- A loop whose header declares a variable of each of two types. -/
def pairedHeaderCalls (one two : Ty) : List Call :=
  [.beginFor, .beginForArgs, .construct one [.int 0], .construct two [.int 1], .beginForBody,
   .endFor]

/-- No call of `pairedHeaderCalls` asks for types to be left out. -/
theorem unflagged_pairedHeaderCalls (one two : Ty) :
    ∀ call ∈ pairedHeaderCalls one two, call.Unflagged := by
  simp [pairedHeaderCalls, Call.Unflagged]

/-- Two integers are written in one header and keep their types. -/
theorem Session.types_by_position_paired :
    (∀ call ∈ pairedHeaderCalls (.scalar .int) (.scalar .int), call.Unflagged) ∧
      ∃ shader after clauses later,
        Build.finish (reached .standard (pairedHeaderCalls (.scalar .int) (.scalar .int))) =
          .ok shader after ∧
        shader.clauses (.recorded ⟨1⟩ none .preferCaptured) = .ok clauses ∧
        shader.writeHeader .glsl clauses (.start shader) =
          .ok ("int x0 = int(0), x1 = int(1);;", later) ∧
        ∃ items middle,
          shader.initItems .glsl false clauses.inits (.start shader) = .ok (items, middle) ∧
          items.map InitItem.declared? = clauses.inits.map Expr.declared? ∧
          InitItem.KeepTypes items := by
  have unflagged := unflagged_pairedHeaderCalls (.scalar .int) (.scalar .int)
  have written : ∃ shader after clauses,
      Build.finish (reached .standard (pairedHeaderCalls (.scalar .int) (.scalar .int))) =
        .ok shader after ∧
      shader.clauses (.recorded ⟨1⟩ none .preferCaptured) = .ok clauses ∧
      clauses.inits.head?.bind Expr.declared? =
        some ⟨⟨0⟩, .scalar .int, .initialisation, .call, none⟩ ∧
      clauses.inits.tail.filterMap Expr.declared? =
        [⟨⟨1⟩, .scalar .int, .initialisation, .call, none⟩] ∧
      shader.writeHeader .glsl clauses (.start shader) =
        .ok ("int x0 = int(0), x1 = int(1);;",
          ⟨[(⟨1⟩, "x1"), (⟨0⟩, "x0")], ["x1", "x0"], #v[2, 0, 0, 0, 0, 0, 0]⟩) :=
    ⟨_, _, _, rfl, rfl, rfl, rfl, by cbv⟩
  obtain ⟨shader, after, clauses, finished, sorted, first, others, written⟩ := written
  obtain ⟨items, middle, -, isItems, -, introduced, -, -, keep⟩ :=
    types_by_position .standard _ unflagged finished sorted .glsl written
  refine ⟨unflagged, shader, after, clauses, _, finished, sorted, written, items, middle, isItems,
    introduced, keep.mpr ?_⟩
  rw [first, others]
  exact List.forall_mem_singleton.mpr ⟨_, rfl, rfl⟩

/-- A float that is declared behind an integer is introduced by its name alone, so the header gives it
the type of the integer. -/
theorem Session.not_keepTypes_mixed :
    (∀ call ∈ pairedHeaderCalls (.scalar .int) (.scalar .float), call.Unflagged) ∧
      ∃ shader after clauses items middle,
        Build.finish (reached .standard (pairedHeaderCalls (.scalar .int) (.scalar .float))) =
          .ok shader after ∧
        shader.tree.instruction? ⟨.root, 0⟩ =
          some (.forLoop (.recorded ⟨1⟩ none .preferCaptured) ⟨2⟩) ∧
        shader.render .glsl ⟨4, false, true⟩ =
          .ok "for (int x0 = int(0), x1 = float(1);;) \x7b\n\x7d\n" ∧
        shader.clauses (.recorded ⟨1⟩ none .preferCaptured) = .ok clauses ∧
        shader.initItems .glsl false clauses.inits (.start shader) = .ok (items, middle) ∧
        ¬ InitItem.KeepTypes items := by
  let items : List InitItem :=
    [.typed ⟨⟨0⟩, .scalar .int, .initialisation, .call, none⟩ "x0" (some "int(0)"),
      .bare ⟨⟨1⟩, .scalar .float, .initialisation, .call, none⟩ "x1" (some "float(1)")]
  refine ⟨unflagged_pairedHeaderCalls _ _, _, _, _, items,
    ⟨[(⟨1⟩, "x1"), (⟨0⟩, "x0")], ["x1", "x0"], #v[2, 0, 0, 0, 0, 0, 0]⟩, rfl, rfl, by cbv, rfl,
    by cbv, ?_⟩
  intro keep
  obtain ⟨first, name, value, isTyped, same⟩ := keep [_] _ _ _ _ rfl
  cases List.mem_singleton.mp isTyped
  cases same

end ShaderLoom
