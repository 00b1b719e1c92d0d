import ShaderLoom.Proofs.Rendering

/-!
# The clauses of a recorded header

A recorded header is a run of inits, a run of conditions and a run of increments, in this order and
with nothing between them. `Clauses` says what each run may hold and where it ends. Every list of
statements can be cut into such runs (`Clauses.exists_cut`), and in one way only, since sorting the
list gives the runs back (`Clauses.foldl_add`).

A header that holds anything but statements has no clauses; the first instruction that is none is
what sorting fails with.
-/
namespace ShaderLoom

/-- A construction that was not made as a forward. -/
def Expr.Declares (expr : Expr) : Prop :=
  ∃ made, expr.construction? = some made ∧ made.status ≠ .forward

/-- Three runs of statements that are the clauses of one header; `stacked` says whether a condition
was given beside it. -/
structure Clauses (stacked : Bool) (inits conditions increments : List Expr) : Prop where
  /-- A plain expression may open the inits if no condition was given beside the header. -/
  opens : ∀ expr ∈ inits.head?, (expr.construction? = none ∧ stacked = false) ∨ expr.Declares
  declares : ∀ expr ∈ inits.tail, expr.Declares
  boolean : ∀ expr ∈ conditions, ∃ made, expr.construction? = some made ∧ made.ty.isBool
  captures : ∀ expr ∈ conditions.head?,
    ∃ made, expr.construction? = some made ∧ made.status = .forward
  /-- The increments start with a plain expression that could not open the inits, or with a
  construction that is not boolean, and a forward if it ends the inits. -/
  steps : ∀ expr ∈ increments.head?,
    (expr.construction? = none ∧ ¬ (inits = [] ∧ conditions = [] ∧ stacked = false)) ∨
      ∃ made, expr.construction? = some made ∧ made.ty.isBool = false ∧
        (conditions = [] → made.status = .forward)

namespace Sorting

variable {stacked : Bool} {inits : List Expr} {captured : Option Expr}

/-- Declared values are inits until a forward comes. -/
theorem foldl_declares {list : List Expr} (declares : ∀ expr ∈ list, expr.Declares) :
    list.foldl (add stacked) ⟨.inits, inits, none, []⟩ = ⟨.inits, inits ++ list, none, []⟩ := by
  induction list generalizing inits with
  | nil => simp
  | cons expr list ih =>
    rw [List.forall_mem_cons] at declares
    obtain ⟨made, isMade, declared⟩ := declares.1
    have added : add stacked ⟨.inits, inits, none, []⟩ expr =
        ⟨.inits, inits ++ [expr], none, []⟩ := by
      simp [add, isMade, declared, toInits]
    rw [List.foldl_cons, added, ih declares.2, List.append_assoc, List.singleton_append]

/-- Once there is a condition, each boolean construction takes the place of the one before. -/
theorem foldl_boolean {list : List Expr} {condition : Expr}
    (boolean : ∀ expr ∈ list, ∃ made, expr.construction? = some made ∧ made.ty.isBool) :
    list.foldl (add stacked) ⟨.condition, inits, some condition, []⟩ =
      ⟨.condition, inits, (condition :: list).getLast?, []⟩ := by
  induction list generalizing condition with
  | nil => simp
  | cons expr list ih =>
    rw [List.forall_mem_cons] at boolean
    obtain ⟨made, isMade, isBool⟩ := boolean.1
    have added : add stacked ⟨.condition, inits, some condition, []⟩ expr =
        ⟨.condition, inits, some expr, []⟩ := by
      simp [add, isMade, isBool, toCondition]
    rw [List.foldl_cons, added, ih boolean.2, List.getLast?_cons_cons]

/-- After an increment there are increments only. -/
theorem foldl_increments {increments list : List Expr} :
    list.foldl (add stacked) ⟨.increments, inits, captured, increments⟩ =
      ⟨.increments, inits, captured, increments ++ list⟩ := by
  induction list generalizing increments with
  | nil => simp
  | cons expr list ih =>
    have added : add stacked ⟨.increments, inits, captured, increments⟩ expr =
        ⟨.increments, inits, captured, increments ++ [expr]⟩ := by
      unfold add
      split <;> simp_all [toIncrements]
    rw [List.foldl_cons, added, ih, List.append_assoc, List.singleton_append]

end Sorting

namespace Clauses

open Sorting

variable {stacked : Bool} {inits conditions increments : List Expr}

/-- The inits of a header are sorted as such. -/
theorem foldl_inits (clauses : Clauses stacked inits conditions increments) :
    inits.foldl (add stacked) .start = ⟨.inits, inits, none, []⟩ := by
  cases inits with
  | nil => rfl
  | cons first rest =>
    have added : add stacked .start first = ⟨.inits, [first], none, []⟩ := by
      rcases clauses.opens first rfl with ⟨plain, unstacked⟩ | ⟨made, isMade, declared⟩
      · simp [add, start, plain, unstacked, toInits]
      · simp [add, start, isMade, declared, toInits]
    rw [List.foldl_cons, added]
    exact foldl_declares clauses.declares

/-- Behind the inits of a header its conditions are sorted as such, and the last one stays. -/
theorem foldl_conditions (clauses : Clauses stacked inits conditions increments) :
    conditions.foldl (add stacked) ⟨.inits, inits, none, []⟩ =
      ⟨if conditions = [] then .inits else .condition, inits, conditions.getLast?, []⟩ := by
  cases conditions with
  | nil => rfl
  | cons first rest =>
    obtain ⟨made, isMade, isForward⟩ := clauses.captures first rfl
    have boolean := clauses.boolean
    rw [List.forall_mem_cons] at boolean
    obtain ⟨isBool, restBoolean⟩ := boolean
    have added : add stacked ⟨.inits, inits, none, []⟩ first =
        ⟨.condition, inits, some first, []⟩ := by
      obtain ⟨_, isMade', isBool⟩ := isBool
      obtain rfl := Option.some.inj (isMade.symm.trans isMade')
      simp [add, isMade, isForward, isBool, toCondition]
    rw [List.foldl_cons, added, foldl_boolean restBoolean, if_neg (by simp)]

/-- The runs of a header are what its statements are sorted into. -/
theorem foldl_add (clauses : Clauses stacked inits conditions increments) :
    ∃ phase, (inits ++ conditions ++ increments).foldl (add stacked) .start =
      ⟨phase, inits, conditions.getLast?, increments⟩ := by
  rw [List.foldl_append, List.foldl_append, clauses.foldl_inits, clauses.foldl_conditions]
  cases increments with
  | nil => exact ⟨_, rfl⟩
  | cons first rest =>
    have added : add stacked
        ⟨if conditions = [] then .inits else .condition, inits, conditions.getLast?, []⟩ first =
          ⟨.increments, inits, conditions.getLast?, [first]⟩ := by
      rcases clauses.steps first rfl with ⟨plain, apart⟩ | ⟨made, isMade, notBool, ends⟩
      · by_cases none : conditions = []
        · have closed : (inits.isEmpty && !stacked) = false := by
            cases stacked <;> simp_all
          simp [add, plain, none, closed, toIncrements]
        · simp [add, plain, none, toIncrements]
      · by_cases none : conditions = []
        · simp [add, isMade, none, ends none, notBool, toIncrements]
        · simp [add, isMade, none, notBool, toIncrements]
    exact ⟨.increments, by rw [List.foldl_cons, added, foldl_increments, List.singleton_append]⟩

/-- Runs that are cut from one list are the same. -/
theorem unique {inits' conditions' increments' : List Expr}
    (clauses : Clauses stacked inits conditions increments)
    (clauses' : Clauses stacked inits' conditions' increments')
    (same : inits ++ conditions ++ increments = inits' ++ conditions' ++ increments') :
    inits = inits' ∧ conditions = conditions' ∧ increments = increments' := by
  obtain ⟨_, sorted⟩ := clauses.foldl_add
  obtain ⟨_, sorted'⟩ := clauses'.foldl_add
  rw [same, sorted', Sorting.mk.injEq] at sorted
  obtain ⟨-, rfl, -, rfl⟩ := sorted
  exact ⟨rfl, by simpa using same, rfl⟩

/-- One more statement goes to the run that is open, or starts a later one. -/
theorem exists_concat (clauses : Clauses stacked inits conditions increments) (expr : Expr) :
    ∃ inits' conditions' increments', Clauses stacked inits' conditions' increments' ∧
      inits ++ conditions ++ increments ++ [expr] = inits' ++ conditions' ++ increments' := by
  obtain ⟨opens, declares, boolean, captures, steps⟩ := clauses
  by_cases stepping : increments = []
  · subst stepping
    by_cases capturing : conditions = []
    · subst capturing
      cases isMade : expr.construction? with
      | none =>
        by_cases opening : inits = [] ∧ stacked = false
        · refine ⟨[expr], [], [], ⟨?_, by simp, by simp, by simp, by simp⟩, by simp [opening]⟩
          simp [isMade, opening]
        · refine ⟨inits, [], [expr], ⟨opens, declares, by simp, by simp, ?_⟩, by simp⟩
          simpa [isMade] using opening
      | some made =>
        by_cases isForward : made.status = .forward
        · cases isBool : made.ty.isBool with
          | true =>
            refine ⟨inits, [expr], [], ⟨opens, declares, ?_, ?_, by simp⟩, by simp⟩
            · simp [isMade, isBool]
            · simp [isMade, isForward]
          | false =>
            refine ⟨inits, [], [expr], ⟨opens, declares, by simp, by simp, ?_⟩, by simp⟩
            simp [isMade, isBool, isForward]
        · have declared : expr.Declares := ⟨made, isMade, isForward⟩
          refine ⟨inits ++ [expr], [], [], ⟨?_, ?_, by simp, by simp, by simp⟩, by simp⟩
          · cases inits with
            | nil => simp [declared]
            | cons first rest => simpa using opens
          · cases inits with
            | nil => simp
            | cons first rest =>
              intro other mem
              rw [List.cons_append, List.tail_cons] at mem
              rcases List.mem_append.mp mem with old | new
              · exact declares other old
              · obtain rfl := List.mem_singleton.mp new
                exact declared
    · by_cases isBool : ∃ made, expr.construction? = some made ∧ made.ty.isBool
      · refine ⟨inits, conditions ++ [expr], [], ⟨opens, declares, ?_, ?_, by simp⟩, by simp⟩
        · intro other mem
          rcases List.mem_append.mp mem with old | new
          · exact boolean other old
          · obtain rfl := List.mem_singleton.mp new
            exact isBool
        · rwa [List.head?_append_of_ne_nil _ capturing]
      · refine ⟨inits, conditions, [expr], ⟨opens, declares, boolean, captures, ?_⟩, by simp⟩
        cases isMade : expr.construction? with
        | none => simp [isMade, capturing]
        | some made => simpa [isMade, capturing] using isBool
  · refine ⟨inits, conditions, increments ++ [expr],
      ⟨opens, declares, boolean, captures, ?_⟩, by simp⟩
    rwa [List.head?_append_of_ne_nil _ stepping]

/-- Every list of statements can be cut into the clauses of a header. -/
theorem exists_cut (stacked : Bool) (exprs : List Expr) :
    ∃ inits conditions increments, Clauses stacked inits conditions increments ∧
      exprs = inits ++ conditions ++ increments := by
  induction exprs using List.reverseRecOn with
  | nil => exact ⟨[], [], [], ⟨by simp, by simp, by simp, by simp, by simp⟩, rfl⟩
  | append_singleton exprs expr ih =>
    obtain ⟨inits, conditions, increments, clauses, rfl⟩ := ih
    exact clauses.exists_concat expr

end Clauses

/-- The statements of a header are taken as they are. -/
theorem headerStatements_map (exprs : List Expr) :
    headerStatements (exprs.map .statement) = .ok exprs := by
  have statements : ∀ instr ∈ exprs.map Instruction.statement, instr.kind = .statement := by
    simp [Instruction.kind]
  obtain ⟨found, isHeader⟩ := exists_headerStatements statements
  have same := eq_map_of_headerStatements isHeader
  have injective : Function.Injective Instruction.statement :=
    fun _ _ same => Instruction.statement.inj same
  rw [isHeader, List.map_injective_iff.mpr injective same]

/-- Statements are sorted one by one. -/
theorem partition_map (exprs : List Expr) (stacked : Option Expr) (policy : ConditionPolicy) :
    partition (exprs.map .statement) stacked policy =
      let sorting := exprs.foldl (Sorting.add stacked.isSome) .start
      .ok ⟨sorting.inits, policy.choose sorting.captured stacked, sorting.increments⟩ := by
  rw [partition, headerStatements_map]
  rfl

/-- The first instruction that is no statement is what sorting fails with. -/
theorem partition_stray (before : List Expr) {other : Instruction}
    (stray : other.kind ≠ .statement) (after : List Instruction) (stacked : Option Expr)
    (policy : ConditionPolicy) :
    partition (before.map .statement ++ other :: after) stacked policy =
      .error (.inForHeader other.kind) := by
  have failed : headerStatements (before.map .statement ++ other :: after) =
      .error (.inForHeader other.kind) := by
    induction before with
    | nil =>
      cases other with
      | statement => exact absurd rfl stray
      | _ => rfl
    | cons expr before ih =>
      rw [List.map_cons, List.cons_append, headerStatements, ih]
      rfl
  rw [partition, failed]
  rfl

/-- Instructions are all statements, or one comes first that is none. -/
theorem exists_statements_or_stray (instrs : List Instruction) :
    (∃ exprs : List Expr, instrs = exprs.map .statement) ∨
      ∃ (before : List Expr) (other : Instruction) (after : List Instruction),
        instrs = before.map .statement ++ other :: after ∧ other.kind ≠ .statement := by
  induction instrs with
  | nil => exact .inl ⟨[], rfl⟩
  | cons instr instrs ih =>
    cases instr with
    | statement expr =>
      rcases ih with ⟨exprs, rfl⟩ | ⟨before, other, after, rfl, stray⟩
      · exact .inl ⟨expr :: exprs, rfl⟩
      · exact .inr ⟨expr :: before, other, after, rfl, stray⟩
    | _ => exact .inr ⟨[], _, instrs, rfl, by simp [Instruction.kind]⟩

/-- The condition of a loop is the last one in its header, unless there is none or the one given
beside the header comes first. -/
theorem ConditionPolicy.choose_getLast? (policy : ConditionPolicy) (conditions : List Expr)
    (stacked : Option Expr) :
    policy.choose conditions.getLast? stacked =
      if conditions ≠ [] ∧ (stacked = none ∨ policy = .preferCaptured) then conditions.getLast?
      else stacked := by
  cases last : conditions.getLast? with
  | none =>
    have none : conditions = [] := List.getLast?_eq_none_iff.mp last
    cases policy <;> cases stacked <;> simp [choose, none]
  | some condition =>
    have some : conditions ≠ [] := by
      rintro rfl
      cases last
    cases policy <;> cases stacked <;> simp [choose, some]

/-- A header is sorted unless it holds something else than statements, and the first such is what
sorting fails with. The statements are cut in the one way there is into inits, conditions and
increments; the last condition is the one of the loop, if there is any and none was given beside
the header or the one in the header comes first. -/
theorem partition_clauses (instrs : List Instruction) (stacked : Option Expr)
    (policy : ConditionPolicy) :
    (∀ error, partition instrs stacked policy = .error error ↔
      ∃ (before : List Expr) (other : Instruction) (after : List Instruction),
        instrs = before.map .statement ++ other :: after ∧ other.kind ≠ .statement ∧
          error = .inForHeader other.kind) ∧
    ∀ exprs : List Expr, instrs = exprs.map .statement →
      ∃ inits conditions increments,
        (∀ inits' conditions' increments',
          (exprs = inits' ++ conditions' ++ increments' ∧
            Clauses stacked.isSome inits' conditions' increments') ↔
          inits' = inits ∧ conditions' = conditions ∧ increments' = increments) ∧
        partition instrs stacked policy =
          .ok ⟨inits,
            if conditions ≠ [] ∧ (stacked = none ∨ policy = .preferCaptured)
              then conditions.getLast? else stacked,
            increments⟩ := by
  constructor
  · intro error
    rcases exists_statements_or_stray instrs with ⟨exprs, rfl⟩ | ⟨before, other, after, rfl, stray⟩
    · constructor
      · intro failed
        rw [partition_map] at failed
        cases failed
      · rintro ⟨before, other, after, same, stray, -⟩
        have mem : other ∈ exprs.map Instruction.statement := by simp [same]
        obtain ⟨expr, -, rfl⟩ := List.mem_map.mp mem
        exact absurd rfl stray
    · constructor
      · intro failed
        rw [partition_stray before stray] at failed
        exact ⟨before, other, after, rfl, stray, (Except.error.inj failed).symm⟩
      · rintro ⟨before', other', after', same, stray', rfl⟩
        rw [same, partition_stray before' stray']
  · rintro exprs rfl
    obtain ⟨inits, conditions, increments, clauses, rfl⟩ := Clauses.exists_cut stacked.isSome exprs
    refine ⟨inits, conditions, increments, ?_, ?_⟩
    · intro inits' conditions' increments'
      constructor
      · rintro ⟨same, clauses'⟩
        exact clauses'.unique clauses same.symm
      · rintro ⟨rfl, rfl, rfl⟩
        exact ⟨rfl, clauses⟩
    · obtain ⟨phase, sorted⟩ := clauses.foldl_add
      rw [partition_map, sorted, ← policy.choose_getLast? conditions stacked]

end ShaderLoom
