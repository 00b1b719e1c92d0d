import Mathlib.Tactic.Common
import ShaderLoom.Build.Call
import ShaderLoom.Shader

/-!
# Programs and the calls that write them

A program is a list of statements, nested to any depth. Its calls come in the order in which it is
read, and every chain of conditions may be written in one of two styles (`Program.calls`). Not every
statement may stand everywhere: what surrounds it decides (`Program.fits`). A finished shader shows
a program when its blocks, read from the main one, hold the program's statements and nothing else
(`Program.ShownBy`); it shows no two programs that differ in more than the style of their chains.
-/
namespace ShaderLoom

/-- How the cases of a chain of conditions follow one another. -/
inductive ChainStyle where
  /-- Every case is closed before the next. -/
  | closing
  /-- The next case closes the one before it. -/
  | flowing
deriving DecidableEq, Repr

/-- A parameter of an overload. -/
structure Parameter where
  ty : Ty
  /-- The name it is given, if any. -/
  name : Option String
  /-- How it is passed, if that is said. -/
  qualifier : Option Qualifier
deriving DecidableEq, Repr

mutual

/-- One statement of a program. -/
inductive Stmt where
  | expr (expr : Expr)
  | special (stmt : Special)
  /-- A return, with its value and the type of it if it has one. -/
  | ret (value : Option (Expr × Ty))
  /-- A chain of conditions: its first case and the others. -/
  | branch (style : ChainStyle) (condition : Expr) (body : Program) (others : Chain)
  /-- A loop whose header is recorded, with the condition given beside it if there is one. -/
  | forLoop (header : List Expr) (stacked : Option Expr) (body : Program)
  | forClauses (clauses : ForClauses) (body : Program)
  | whileLoop (condition : Expr) (body : Program)
  | doWhile (body : Program) (condition : Expr)
  | switch (selector : Expr) (cases : Cases)
  | function (name : String) (returns : Ty) (overloads : Overloads)

/-- Statements in order. -/
inductive Program where
  | nil
  | cons (stmt : Stmt) (rest : Program)

/-- The cases of a chain of conditions after its first. -/
inductive Chain where
  | done
  | elseIf (condition : Expr) (body : Program) (others : Chain)
  | otherwise (body : Program)

/-- The cases of a switch; the default has no label. -/
inductive Cases where
  | nil
  | cons (label : Option Literal) (body : Program) (rest : Cases)

/-- The overloads of a function, which has one at least. -/
inductive Overloads where
  | last (params : List Parameter) (body : Program)
  | cons (params : List Parameter) (body : Program) (rest : Overloads)

end

/-- How many defaults there are. -/
def Cases.defaults : Cases → Nat
  | .nil => 0
  | .cons label _ rest => (if label.isNone then 1 else 0) + rest.defaults

section Calls

/-- The call that declares a parameter. -/
def Parameter.call (param : Parameter) : Call :=
  .declareParam param.ty param.name param.qualifier

/-- What is called at the end of a case that is not the last. -/
def ChainStyle.pause : ChainStyle → List Call
  | .closing => [.endIfSubBlock]
  | .flowing => []

/-- What is called at the end of a chain's `else`. -/
def ChainStyle.close : ChainStyle → Call
  | .closing => .endIfSubBlock
  | .flowing => .endIf

mutual

/-- The calls of a statement. -/
def Stmt.calls : Stmt → List Call
  | .expr expr => [.push expr]
  | .special stmt => [.addStatement stmt]
  | .ret none => [.returnVoid]
  | .ret (some (value, ty)) => [.returnValue value ty]
  | .branch style condition body others =>
    .beginIf condition :: (body.calls ++ others.calls style)
  | .forLoop header stacked body =>
    .beginFor :: .beginForArgs :: (header.map .push ++ ((stacked.map .stackForCondition).toList ++
      .beginForBody :: (body.calls ++ [.endFor])))
  | .forClauses clauses body => .beginForClauses clauses :: (body.calls ++ [.endFor])
  | .whileLoop condition body => .beginWhile condition :: (body.calls ++ [.endWhile])
  | .doWhile body condition => .beginDoWhile :: (body.calls ++ [.endDoWhile condition])
  | .switch selector cases => .beginSwitch selector :: (cases.calls ++ [.endSwitch])
  | .function name returns overloads => .beginFunc name returns :: (overloads.calls ++ [.endFunc])

/-- The calls of a program. -/
def Program.calls : Program → List Call
  | .nil => []
  | .cons stmt rest => stmt.calls ++ rest.calls

/-- The calls of a chain of conditions from the end of a case on. -/
def Chain.calls (style : ChainStyle) : Chain → List Call
  | .done => style.pause ++ [.endIf]
  | .elseIf condition body others =>
    style.pause ++ .beginElseIf condition :: (body.calls ++ others.calls style)
  | .otherwise body => style.pause ++ .beginElse :: (body.calls ++ [style.close])

/-- The calls of the cases of a switch. -/
def Cases.calls : Cases → List Call
  | .nil => []
  | .cons label body rest => .addCase label :: (body.calls ++ rest.calls)

/-- The calls of the overloads of a function. -/
def Overloads.calls : Overloads → List Call
  | .last params body =>
    .nextOverload (params.map Parameter.ty) :: (params.map Parameter.call ++ body.calls)
  | .cons params body rest =>
    .nextOverload (params.map Parameter.ty) ::
      (params.map Parameter.call ++ (body.calls ++ rest.calls))

end

end Calls

/-- What surrounds a statement, as far as it decides which statements may stand there. -/
structure Setting where
  /-- A loop body or a case of a switch is around it, in the same function. -/
  breaks : Bool
  /-- A loop body is around it, in the same function. -/
  continues : Bool
  /-- What the function around it returns, if there is one. -/
  returns : Option Ty
deriving DecidableEq, Repr

namespace Setting

/-- Outside everything. -/
def top : Setting := ⟨false, false, none⟩

/-- Inside the body of a loop. -/
def inLoop (setting : Setting) : Setting := { setting with breaks := true, continues := true }

/-- Inside a case of a switch. -/
def inCase (setting : Setting) : Setting := { setting with breaks := true }

/-- Inside the body of a function. -/
def inFunction (returns : Ty) : Setting := ⟨false, false, some returns⟩

/-- Whether a keyword may stand here. -/
def admits (setting : Setting) : Special → Bool
  | .breakLoop => setting.breaks
  | .continueLoop => setting.continues
  | .discard => setting.returns.isSome
  | .vendor _ => true

end Setting

section Fits

mutual

/-- Whether a statement may stand in a setting: expression statements construct nothing, keywords
and returns stand inside what they need, a switch has one default at most, and functions do not
nest. -/
def Stmt.fits (setting : Setting) : Stmt → Bool
  | .expr expr => expr.construction?.isNone
  | .special stmt => setting.admits stmt
  | .ret _ => setting.returns.isSome
  | .branch _ _ body others => body.fits setting && others.fits setting
  | .forLoop header _ body =>
    header.all (·.construction?.isNone) && body.fits setting.inLoop
  | .forClauses _ body => body.fits setting.inLoop
  | .whileLoop _ body => body.fits setting.inLoop
  | .doWhile body _ => body.fits setting.inLoop
  | .switch _ cases => decide (cases.defaults ≤ 1) && cases.fits setting.inCase
  | .function _ returns overloads => setting.returns.isNone && overloads.fits (.inFunction returns)

/-- Whether every statement of a program may stand in a setting. -/
def Program.fits (setting : Setting) : Program → Bool
  | .nil => true
  | .cons stmt rest => stmt.fits setting && rest.fits setting

/-- Whether the other cases of a chain of conditions may stand in a setting. -/
def Chain.fits (setting : Setting) : Chain → Bool
  | .done => true
  | .elseIf _ body others => body.fits setting && others.fits setting
  | .otherwise body => body.fits setting

/-- Whether the bodies of the cases of a switch may stand in a setting. -/
def Cases.fits (setting : Setting) : Cases → Bool
  | .nil => true
  | .cons _ body rest => body.fits setting && rest.fits setting

/-- Whether the bodies of overloads may stand in a setting. -/
def Overloads.fits (setting : Setting) : Overloads → Bool
  | .last _ body => body.fits setting
  | .cons _ body rest => body.fits setting && rest.fits setting

end

end Fits

/-- The instructions of a block, in order. -/
def Tree.instructions? (tree : Tree) (id : BlockId) : Option (List Instruction) :=
  (tree.block? id).map (·.instructions.toList)

/-- The name a variable was given, if it is known. -/
def Registry.name? (registry : Registry) (var : VarId) : Option (Option String) :=
  (registry.get? var).map (·.name)

section Shows

/-- Whether an instruction declares a parameter. -/
def Parameter.Shows (registry : Registry) (param : Parameter) (instr : Instruction) : Prop :=
  ∃ var, registry.name? var = some param.name ∧
    instr = .statement (.construct
      { var, ty := param.ty, status := .declaration, flags := .parameter,
        qualifier := param.qualifier } [])

variable (tree : Tree) (registry : Registry)

mutual

/-- Whether an instruction, with the blocks it owns, is a statement; `returns` is what the function
around it returns. -/
def Stmt.Shows (returns : Option Ty) : Stmt → Instruction → Prop
  | .expr expr, instr => instr = .statement expr
  | .special stmt, instr => instr = .special stmt
  | .ret value, instr =>
    ∃ expected, returns = some expected ∧
      instr = .ret (value.map Prod.fst)
        (if expected = value.elim .void Prod.snd then none
        else some ⟨expected, value.elim .void Prod.snd⟩)
  | .branch _ condition body others, instr =>
    ∃ block instrs cases, instr = .branch (⟨some condition, block⟩ :: cases) ∧
      tree.instructions? block = some instrs ∧ body.Shows returns instrs ∧
      others.Shows returns cases
  | .forLoop header stacked body, instr =>
    ∃ args block instrs policy, instr = .forLoop (.recorded args stacked policy) block ∧
      tree.instructions? args = some (header.map .statement) ∧
      tree.instructions? block = some instrs ∧ body.Shows returns instrs
  | .forClauses clauses body, instr =>
    ∃ block instrs, instr = .forLoop (.clauses clauses) block ∧
      tree.instructions? block = some instrs ∧ body.Shows returns instrs
  | .whileLoop condition body, instr =>
    ∃ block instrs, instr = .whileLoop condition block ∧
      tree.instructions? block = some instrs ∧ body.Shows returns instrs
  | .doWhile body condition, instr =>
    ∃ block instrs, instr = .doWhile block (some condition) ∧
      tree.instructions? block = some instrs ∧ body.Shows returns instrs
  | .switch selector cases, instr =>
    ∃ found, instr = .switch selector found ∧ cases.Shows returns found
  | .function name result overloads, instr =>
    ∃ var found, instr = .function ⟨var, name, result, found⟩ ∧
      registry.name? var = some (some name) ∧ overloads.Shows (some result) found

/-- Whether instructions are the statements of a program, in order. -/
def Program.Shows (returns : Option Ty) : Program → List Instruction → Prop
  | .nil, instrs => instrs = []
  | .cons stmt rest, instrs =>
    ∃ first others, instrs = first :: others ∧ stmt.Shows returns first ∧
      rest.Shows returns others

/-- Whether cases are the others of a chain of conditions. -/
def Chain.Shows (returns : Option Ty) : Chain → List IfCase → Prop
  | .done, cases => cases = []
  | .elseIf condition body others, cases =>
    ∃ block instrs rest, cases = ⟨some condition, block⟩ :: rest ∧
      tree.instructions? block = some instrs ∧ body.Shows returns instrs ∧
      others.Shows returns rest
  | .otherwise body, cases =>
    ∃ block instrs, cases = [⟨none, block⟩] ∧
      tree.instructions? block = some instrs ∧ body.Shows returns instrs

/-- Whether cases are those of a switch. -/
def Cases.Shows (returns : Option Ty) : Cases → List SwitchCase → Prop
  | .nil, cases => cases = []
  | .cons label body rest, cases =>
    ∃ block instrs others, cases = ⟨label, block⟩ :: others ∧
      tree.instructions? block = some instrs ∧ body.Shows returns instrs ∧
      rest.Shows returns others

/-- Whether overloads are those of a function. -/
def Overloads.Shows (returns : Option Ty) : Overloads → List Overload → Prop
  | .last params body, overloads =>
    ∃ args declared block instrs, overloads = [⟨params.map Parameter.ty, args, block⟩] ∧
      tree.instructions? args = some declared ∧
      List.Forall₂ (Parameter.Shows registry) params declared ∧
      tree.instructions? block = some instrs ∧ body.Shows returns instrs
  | .cons params body rest, overloads =>
    ∃ args declared block instrs others,
      overloads = ⟨params.map Parameter.ty, args, block⟩ :: others ∧
      tree.instructions? args = some declared ∧
      List.Forall₂ (Parameter.Shows registry) params declared ∧
      tree.instructions? block = some instrs ∧ body.Shows returns instrs ∧
      rest.Shows returns others

end

end Shows

/-- Whether a shader, read from its main block, is a program. -/
def Program.ShownBy (program : Program) (shader : Shader) : Prop :=
  ∃ instrs, shader.tree.instructions? .root = some instrs ∧
    program.Shows shader.tree shader.registry none instrs

section Plain

mutual

/-- A statement with all its chains of conditions in one style. -/
def Stmt.plain : Stmt → Stmt
  | .expr expr => .expr expr
  | .special stmt => .special stmt
  | .ret value => .ret value
  | .branch _ condition body others => .branch .flowing condition body.plain others.plain
  | .forLoop header stacked body => .forLoop header stacked body.plain
  | .forClauses clauses body => .forClauses clauses body.plain
  | .whileLoop condition body => .whileLoop condition body.plain
  | .doWhile body condition => .doWhile body.plain condition
  | .switch selector cases => .switch selector cases.plain
  | .function name returns overloads => .function name returns overloads.plain

/-- A program with all its chains of conditions in one style. -/
def Program.plain : Program → Program
  | .nil => .nil
  | .cons stmt rest => .cons stmt.plain rest.plain

/-- The other cases of a chain with all chains of conditions in one style. -/
def Chain.plain : Chain → Chain
  | .done => .done
  | .elseIf condition body others => .elseIf condition body.plain others.plain
  | .otherwise body => .otherwise body.plain

/-- The cases of a switch with all chains of conditions in one style. -/
def Cases.plain : Cases → Cases
  | .nil => .nil
  | .cons label body rest => .cons label body.plain rest.plain

/-- Overloads with all chains of conditions in one style. -/
def Overloads.plain : Overloads → Overloads
  | .last params body => .last params body.plain
  | .cons params body rest => .cons params body.plain rest.plain

end

end Plain

section Unique

variable {tree : Tree} {registry : Registry}

/-- An instruction declares one parameter at most. -/
theorem Parameter.Shows.unique {first second : Parameter} {instr : Instruction}
    (shows : first.Shows registry instr) (showsToo : second.Shows registry instr) :
    first = second := by
  obtain ⟨ty, name, qualifier⟩ := first
  obtain ⟨ty', name', qualifier'⟩ := second
  obtain ⟨var, isName, rfl⟩ := shows
  obtain ⟨var', isName', isInstr⟩ := showsToo
  simp only [Instruction.statement.injEq, Expr.construct.injEq, Construction.mk.injEq] at isInstr
  obtain ⟨⟨rfl, rfl, -, -, rfl⟩, -⟩ := isInstr
  rw [isName] at isName'
  obtain rfl := Option.some.inj isName'
  rfl

/-- Instructions declare one list of parameters at most. -/
theorem params_unique {first second : List Parameter} {instrs : List Instruction}
    (shows : List.Forall₂ (Parameter.Shows registry) first instrs)
    (showsToo : List.Forall₂ (Parameter.Shows registry) second instrs) : first = second := by
  induction shows generalizing second with
  | nil =>
    cases showsToo
    rfl
  | cons isFirst _ ih =>
    cases showsToo with
    | cons isSecond showsToo => rw [isFirst.unique isSecond, ih showsToo]

/-- A return notes the type of its value together with what its function returns. -/
theorem mismatch_unique {expected first second : Ty}
    (same : (if expected = first then none else some (⟨expected, first⟩ : Mismatch)) =
      if expected = second then none else some ⟨expected, second⟩) : first = second := by
  split at same
  case isTrue isFirst =>
    split at same
    case isTrue isSecond => exact isFirst.symm.trans isSecond
    case isFalse => cases same
  case isFalse =>
    split at same
    case isTrue => cases same
    case isFalse => exact (Mismatch.mk.inj (Option.some.inj same)).2

mutual

/-- An instruction is one statement at most, up to the style of chains of conditions. -/
theorem Stmt.plain_unique (first second : Stmt) {returns : Option Ty} {instr : Instruction}
    (shows : first.Shows tree registry returns instr)
    (showsToo : second.Shows tree registry returns instr) : first.plain = second.plain := by
  cases first with
  | expr expr =>
    rw [Stmt.Shows] at shows
    obtain rfl := shows
    cases second with
    | expr expr' =>
      cases showsToo
      rfl
    | _ => simp [Stmt.Shows] at showsToo
  | special stmt =>
    rw [Stmt.Shows] at shows
    obtain rfl := shows
    cases second with
    | special stmt' =>
      cases showsToo
      rfl
    | _ => simp [Stmt.Shows] at showsToo
  | ret value =>
    rw [Stmt.Shows] at shows
    obtain ⟨expected, rfl, rfl⟩ := shows
    cases second with
    | ret value' =>
      rw [Stmt.Shows] at showsToo
      obtain ⟨_, isExpected, isInstr⟩ := showsToo
      cases isExpected
      obtain ⟨isValue, isMismatch⟩ := Instruction.ret.inj isInstr
      have isType := mismatch_unique isMismatch
      cases value <;> cases value' <;> simp_all [Stmt.plain, Prod.ext_iff]
    | _ => simp [Stmt.Shows] at showsToo
  | branch style condition body others =>
    rw [Stmt.Shows] at shows
    obtain ⟨block, instrs, cases, rfl, isBody, shows, showsOthers⟩ := shows
    cases second with
    | branch style' condition' body' others' =>
      rw [Stmt.Shows] at showsToo
      obtain ⟨_, _, _, isInstr, isBody', showsToo, showsOthersToo⟩ := showsToo
      cases isInstr
      rw [isBody] at isBody'
      cases isBody'
      rw [Stmt.plain, Stmt.plain, Program.plain_unique body body' shows showsToo,
        Chain.plain_unique others others' showsOthers showsOthersToo]
    | _ => simp [Stmt.Shows] at showsToo
  | forLoop header stacked body =>
    rw [Stmt.Shows] at shows
    obtain ⟨args, block, instrs, policy, rfl, isHeader, isBody, shows⟩ := shows
    cases second with
    | forLoop header' stacked' body' =>
      rw [Stmt.Shows] at showsToo
      obtain ⟨_, _, _, _, isInstr, isHeader', isBody', showsToo⟩ := showsToo
      cases isInstr
      rw [isHeader] at isHeader'
      rw [isBody] at isBody'
      cases isBody'
      have sameHeader : header = header' :=
        (List.map_inj_right fun _ _ => Instruction.statement.inj).mp (Option.some.inj isHeader')
      rw [Stmt.plain, Stmt.plain, sameHeader, Program.plain_unique body body' shows showsToo]
    | _ => simp [Stmt.Shows] at showsToo
  | forClauses clauses body =>
    rw [Stmt.Shows] at shows
    obtain ⟨block, instrs, rfl, isBody, shows⟩ := shows
    cases second with
    | forClauses clauses' body' =>
      rw [Stmt.Shows] at showsToo
      obtain ⟨_, _, isInstr, isBody', showsToo⟩ := showsToo
      cases isInstr
      rw [isBody] at isBody'
      cases isBody'
      rw [Stmt.plain, Stmt.plain, Program.plain_unique body body' shows showsToo]
    | _ => simp [Stmt.Shows] at showsToo
  | whileLoop condition body =>
    rw [Stmt.Shows] at shows
    obtain ⟨block, instrs, rfl, isBody, shows⟩ := shows
    cases second with
    | whileLoop condition' body' =>
      rw [Stmt.Shows] at showsToo
      obtain ⟨_, _, isInstr, isBody', showsToo⟩ := showsToo
      cases isInstr
      rw [isBody] at isBody'
      cases isBody'
      rw [Stmt.plain, Stmt.plain, Program.plain_unique body body' shows showsToo]
    | _ => simp [Stmt.Shows] at showsToo
  | doWhile body condition =>
    rw [Stmt.Shows] at shows
    obtain ⟨block, instrs, rfl, isBody, shows⟩ := shows
    cases second with
    | doWhile body' condition' =>
      rw [Stmt.Shows] at showsToo
      obtain ⟨_, _, isInstr, isBody', showsToo⟩ := showsToo
      cases isInstr
      rw [isBody] at isBody'
      cases isBody'
      rw [Stmt.plain, Stmt.plain, Program.plain_unique body body' shows showsToo]
    | _ => simp [Stmt.Shows] at showsToo
  | switch selector cases =>
    rw [Stmt.Shows] at shows
    obtain ⟨found, rfl, shows⟩ := shows
    cases second with
    | switch selector' cases' =>
      rw [Stmt.Shows] at showsToo
      obtain ⟨_, isInstr, showsToo⟩ := showsToo
      cases isInstr
      rw [Stmt.plain, Stmt.plain, Cases.plain_unique cases cases' shows showsToo]
    | _ => simp [Stmt.Shows] at showsToo
  | function name result overloads =>
    rw [Stmt.Shows] at shows
    obtain ⟨var, found, rfl, -, shows⟩ := shows
    cases second with
    | function name' result' overloads' =>
      rw [Stmt.Shows] at showsToo
      obtain ⟨_, _, isInstr, -, showsToo⟩ := showsToo
      cases isInstr
      rw [Stmt.plain, Stmt.plain, Overloads.plain_unique overloads overloads' shows showsToo]
    | _ => simp [Stmt.Shows] at showsToo
termination_by structural first

/-- Instructions are one program at most, up to the style of chains of conditions. -/
theorem Program.plain_unique (first second : Program) {returns : Option Ty}
    {instrs : List Instruction} (shows : first.Shows tree registry returns instrs)
    (showsToo : second.Shows tree registry returns instrs) : first.plain = second.plain := by
  cases first with
  | nil =>
    rw [Program.Shows] at shows
    obtain rfl := shows
    cases second with
    | nil => rfl
    | cons stmt rest => simp [Program.Shows] at showsToo
  | cons stmt rest =>
    rw [Program.Shows] at shows
    obtain ⟨instr, others, rfl, shows, showsRest⟩ := shows
    cases second with
    | nil => cases showsToo
    | cons stmt' rest' =>
      rw [Program.Shows] at showsToo
      obtain ⟨_, _, isInstrs, showsToo, showsRestToo⟩ := showsToo
      cases isInstrs
      rw [Program.plain, Program.plain, Stmt.plain_unique stmt stmt' shows showsToo,
        Program.plain_unique rest rest' showsRest showsRestToo]
termination_by structural first

/-- Cases are the others of one chain of conditions at most, up to the style of chains. -/
theorem Chain.plain_unique (first second : Chain) {returns : Option Ty} {cases : List IfCase}
    (shows : first.Shows tree registry returns cases)
    (showsToo : second.Shows tree registry returns cases) : first.plain = second.plain := by
  cases first with
  | done =>
    rw [Chain.Shows] at shows
    obtain rfl := shows
    cases second with
    | done => rfl
    | _ => simp [Chain.Shows] at showsToo
  | elseIf condition body others =>
    rw [Chain.Shows] at shows
    obtain ⟨block, instrs, rest, rfl, isBody, shows, showsOthers⟩ := shows
    cases second with
    | elseIf condition' body' others' =>
      rw [Chain.Shows] at showsToo
      obtain ⟨_, _, _, isCases, isBody', showsToo, showsOthersToo⟩ := showsToo
      cases isCases
      rw [isBody] at isBody'
      cases isBody'
      rw [Chain.plain, Chain.plain, Program.plain_unique body body' shows showsToo,
        Chain.plain_unique others others' showsOthers showsOthersToo]
    | _ => simp [Chain.Shows] at showsToo
  | otherwise body =>
    rw [Chain.Shows] at shows
    obtain ⟨block, instrs, rfl, isBody, shows⟩ := shows
    cases second with
    | otherwise body' =>
      rw [Chain.Shows] at showsToo
      obtain ⟨_, _, isCases, isBody', showsToo⟩ := showsToo
      cases isCases
      rw [isBody] at isBody'
      cases isBody'
      rw [Chain.plain, Chain.plain, Program.plain_unique body body' shows showsToo]
    | _ => simp [Chain.Shows] at showsToo
termination_by structural first

/-- Cases are those of one switch at most, up to the style of chains of conditions. -/
theorem Cases.plain_unique (first second : Cases) {returns : Option Ty}
    {cases : List SwitchCase} (shows : first.Shows tree registry returns cases)
    (showsToo : second.Shows tree registry returns cases) : first.plain = second.plain := by
  cases first with
  | nil =>
    rw [Cases.Shows] at shows
    obtain rfl := shows
    cases second with
    | nil => rfl
    | cons label body rest => simp [Cases.Shows] at showsToo
  | cons label body rest =>
    rw [Cases.Shows] at shows
    obtain ⟨block, instrs, others, rfl, isBody, shows, showsRest⟩ := shows
    cases second with
    | nil => cases showsToo
    | cons label' body' rest' =>
      rw [Cases.Shows] at showsToo
      obtain ⟨_, _, _, isCases, isBody', showsToo, showsRestToo⟩ := showsToo
      cases isCases
      rw [isBody] at isBody'
      cases isBody'
      rw [Cases.plain, Cases.plain, Program.plain_unique body body' shows showsToo,
        Cases.plain_unique rest rest' showsRest showsRestToo]
termination_by structural first

/-- Overloads are those of one function at most, up to the style of chains of conditions. -/
theorem Overloads.plain_unique (first second : Overloads) {returns : Option Ty}
    {overloads : List Overload} (shows : first.Shows tree registry returns overloads)
    (showsToo : second.Shows tree registry returns overloads) : first.plain = second.plain := by
  cases first with
  | last params body =>
    rw [Overloads.Shows] at shows
    obtain ⟨args, declared, block, instrs, rfl, isArgs, showsParams, isBody, shows⟩ := shows
    cases second with
    | last params' body' =>
      rw [Overloads.Shows] at showsToo
      obtain ⟨_, _, _, _, isOverloads, isArgs', showsParams', isBody', showsToo⟩ := showsToo
      simp only [List.cons.injEq, Overload.mk.injEq, and_true] at isOverloads
      obtain ⟨-, rfl, rfl⟩ := isOverloads
      rw [isArgs] at isArgs'
      rw [isBody] at isBody'
      cases isArgs'
      cases isBody'
      rw [Overloads.plain, Overloads.plain, params_unique showsParams showsParams',
        Program.plain_unique body body' shows showsToo]
    | cons params' body' rest' =>
      rw [Overloads.Shows] at showsToo
      obtain ⟨_, _, _, _, others, isOverloads, -, -, -, -, showsRest⟩ := showsToo
      simp only [List.cons.injEq] at isOverloads
      rw [← isOverloads.2] at showsRest
      cases rest' <;> simp [Overloads.Shows] at showsRest
  | cons params body rest =>
    rw [Overloads.Shows] at shows
    obtain ⟨args, declared, block, instrs, others, rfl, isArgs, showsParams, isBody, shows,
      showsRest⟩ := shows
    cases second with
    | last params' body' =>
      rw [Overloads.Shows] at showsToo
      obtain ⟨_, _, _, _, isOverloads, -⟩ := showsToo
      simp only [List.cons.injEq] at isOverloads
      rw [isOverloads.2] at showsRest
      cases rest <;> simp [Overloads.Shows] at showsRest
    | cons params' body' rest' =>
      rw [Overloads.Shows] at showsToo
      obtain ⟨_, _, _, _, _, isOverloads, isArgs', showsParams', isBody', showsToo,
        showsRestToo⟩ := showsToo
      simp only [List.cons.injEq, Overload.mk.injEq] at isOverloads
      obtain ⟨⟨-, rfl, rfl⟩, rfl⟩ := isOverloads
      rw [isArgs] at isArgs'
      rw [isBody] at isBody'
      cases isArgs'
      cases isBody'
      rw [Overloads.plain, Overloads.plain, params_unique showsParams showsParams',
        Program.plain_unique body body' shows showsToo,
        Overloads.plain_unique rest rest' showsRest showsRestToo]
termination_by structural first

end

end Unique

end ShaderLoom
