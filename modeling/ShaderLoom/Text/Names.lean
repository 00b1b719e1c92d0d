import ShaderLoom.Shader
import ShaderLoom.Text.Error

/-!
# Names

What a reference is written as is decided while the shader is written. A variable gets its name
the first time it is needed and keeps it: the name it was given, or else the stem of its category
with a number. Numbers are counted up category by category, and one that makes a name in use is
passed over (`Names.fresh`): the search ends because every number that is passed over makes another
one of the names in use. Names last for one rendering, so rendering a shader twice gives the same
names.
-/
namespace ShaderLoom

/-- A number can be told from its decimal text. -/
theorem toString_inj {number other : Nat} : toString number = toString other ↔ number = other := by
  constructor
  · intro same
    have digits : Nat.toDigits 10 number = Nat.toDigits 10 other := by
      simpa [Nat.toString_eq_repr, Nat.toList_repr] using congrArg String.toList same
    have values := congrArg (Nat.ofDigitChars 10 · 0) digits
    simpa using values
  · rintro rfl
    rfl

/-- The automatic name of a category with a number. -/
def Category.nameAt (category : Category) (number : Nat) : String :=
  category.stem ++ toString number

/-- In a category a number can be told from the name that it makes. -/
theorem Category.nameAt_inj {category : Category} {number other : Nat} :
    category.nameAt number = category.nameAt other ↔ number = other := by
  rw [nameAt, nameAt, String.append_right_inj, toString_inj]

/-- The names of one rendering. -/
structure Names where
  /-- The names handed out so far, the latest first. -/
  handed : List (VarId × String)
  /-- Every name in use: those given to variables, and the automatic ones made so far. -/
  taken : List String
  /-- The number to try next, category by category. -/
  counters : Vector Nat 7
deriving DecidableEq, Repr

namespace Names

/-- Before anything is written the names given to variables are in use, and no others. -/
def start (shader : Shader) : Names := ⟨[], shader.givenNames, .replicate 7 0⟩

/-- The name a variable has, if it has one. -/
def lookup (names : Names) (id : VarId) : Option String := names.handed.lookup id

/-- The number that a category tries next. -/
def counter (names : Names) (category : Category) : Nat := names.counters[category.index]

/-- One more number of a category is tried. -/
def advance (names : Names) (category : Category) : Names :=
  { names with
    counters := names.counters.set category.index (names.counter category + 1) }

/-- The names in use that the numbers tried so far do not make. -/
def ahead (names : Names) (category : Category) : List String :=
  names.taken.filter fun name =>
    name ∉ (List.range (names.counter category)).map category.nameAt

/-- The number that a category tries next is the one after that. -/
@[simp]
theorem counter_advance_self (names : Names) (category : Category) :
    (names.advance category).counter category = names.counter category + 1 := by
  simp [advance, counter]

/-- A number that makes a name in use leaves fewer such names ahead. -/
theorem ahead_advance_lt {names : Names} {category : Category}
    (isTaken : category.nameAt (names.counter category) ∈ names.taken) :
    ((names.advance category).ahead category).length < (names.ahead category).length := by
  have rest : (names.advance category).ahead category =
      (names.ahead category).filter (· ≠ category.nameAt (names.counter category)) := by
    unfold ahead
    rw [counter_advance_self, List.range_succ, List.filter_filter]
    apply List.filter_congr
    intro name _
    rw [List.map_append, List.map_singleton]
    grind
  rw [rest, List.length_filter_lt_length_iff_exists]
  refine ⟨_, List.mem_filter.mpr ⟨isTaken, ?_⟩, by simp⟩
  simp only [List.mem_map, List.mem_range, decide_eq_true_eq, not_exists, not_and]
  intro number tried same
  exact Nat.ne_of_lt tried (Category.nameAt_inj.mp same)

/-- A new automatic name of a category, the first number from its counter on that is free. -/
@[semireducible]
def fresh (names : Names) (category : Category) : String × Names :=
  let name := category.nameAt (names.counter category)
  let names' := names.advance category
  if name ∈ names.taken then names'.fresh category
  else (name, { names' with taken := name :: names.taken })
termination_by (names.ahead category).length
decreasing_by exact ahead_advance_lt ‹_›

/-- The names once a search has ended at a number: the name that it makes is in use, and the number
after it is tried next. -/
def reserve (names : Names) (category : Category) (number : Nat) : Names :=
  { names with
    taken := category.nameAt number :: names.taken
    counters := names.counters.set category.index (number + 1) }

/-- A search tries one number after the other and ends at the first one that is free. -/
theorem exists_fresh (names : Names) (category : Category) :
    ∃ number, names.counter category ≤ number ∧
      (∀ tried, names.counter category ≤ tried → tried < number →
        category.nameAt tried ∈ names.taken) ∧
      category.nameAt number ∉ names.taken ∧
      names.fresh category = (category.nameAt number, names.reserve category number) := by
  fun_induction fresh names category with
  | case1 names name names' isTaken ih =>
    obtain ⟨number, least, passed, free, isResult⟩ := ih
    rw [counter_advance_self] at least passed
    refine ⟨number, Nat.le_of_succ_le least, ?_, free, ?_⟩
    · intro tried isTried less
      obtain rfl | later := Nat.eq_or_lt_of_le isTried
      · exact isTaken
      · exact passed tried later less
    · rw [isResult]
      simp [names', advance, reserve]
  | case2 names name names' free =>
    refine ⟨names.counter category, Nat.le_refl _, ?_, free, rfl⟩
    intro tried isTried less
    exact absurd less (Nat.not_lt_of_le isTried)

/-- The name of a variable that has none yet: the one it was given, or an automatic one. -/
def assign (names : Names) (id : VarId) (record : Record) : String × Names :=
  let (name, names) := match record.name with
    | some name => (name, names)
    | none => names.fresh record.category
  (name, { names with handed := (id, name) :: names.handed })

/-- A variable is called by the name it was given, if it was given one. -/
theorem assign_name (names : Names) (id : VarId) (record : Record) :
    (names.assign id record).1 = record.name.getD (names.fresh record.category).1 := by
  unfold assign
  cases record.name <;> rfl

/-- An assigned name is handed out, behind those that were handed out before. -/
theorem handed_assign (names : Names) (id : VarId) (record : Record) :
    (names.assign id record).2.handed = (id, (names.assign id record).1) :: names.handed := by
  obtain ⟨number, -, -, -, isFresh⟩ := names.exists_fresh record.category
  unfold assign
  cases record.name with
  | some name => rfl
  | none =>
    rw [isFresh]
    rfl

/-- A variable has its name once it is assigned, and the others keep theirs. -/
theorem lookup_assign (names : Names) (id other : VarId) (record : Record) :
    (names.assign id record).2.lookup other =
      if other = id then some (names.assign id record).1 else names.lookup other := by
  rw [lookup, handed_assign, List.lookup_cons, lookup]
  by_cases same : other = id
  · simp [same]
  · simp [beq_eq_false_iff_ne.mpr same, same]

end Names

/-- A computation that may hand out names, or fail. -/
abbrev Naming := StateT Names (Except RenderError)

/-- What a reference is written as. -/
inductive Binding where
  | named (name : String)
  /-- The value itself, a construction. -/
  | inlined (value : Expr)

namespace Shader

/-- The name of a variable, handed out now if it has none yet. -/
def nameOf (shader : Shader) (id : VarId) : Naming String := do
  let names ← get
  match names.lookup id with
  | some name => pure name
  | none =>
    match shader.var? id with
    | none => throw (.unregisteredVariable id)
    | some record =>
      let (name, names) := names.assign id record
      set names
      pure name

/-- What a reference to a variable is written as. -/
def binding (shader : Shader) (id : VarId) : Naming Binding := do
  if (shader.var? id).isNone then throw (.unregisteredVariable id)
  match shader.inlined? id with
  | some value => pure (.inlined value)
  | none => .named <$> shader.nameOf id

end Shader

end ShaderLoom
