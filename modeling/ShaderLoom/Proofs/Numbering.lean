import Mathlib.Data.Nat.Nth
import Mathlib.Data.List.Perm.Subperm
import ShaderLoom.Text.Names

/-!
# The numbers of automatic names

While a shader is written, its names are asked for in some order. A variable that was given a name
is called by it. All others are numbered through, each category by itself: the first variable of a
category to be asked for gets the least number that makes no name given to any variable, the second
the next such number, and so on (`Shader.names_due`). So a number depends on what is asked before,
and on nothing that is asked later.

The proof follows the questions. A search that counts on from number to number finds the least
number that is free, as long as every number before its counter makes a name in use
(`Names.fresh_eq_leastFree`); that this number is the next of the enumeration is a fact about the
enumeration alone (`leastFree_eq_nth`). What one question adds to the names, to those in use and to
the counters is said once (`Shader.Handed.step`).
-/
namespace ShaderLoom

/-- What can be asked of the names while a shader is written. -/
inductive Question where
  /-- The name of a variable. -/
  | name (id : VarId)
  /-- What a reference to a variable is written as. -/
  | binding (id : VarId)
deriving DecidableEq, Repr

/-- The variable a question is about. -/
def Question.id : Question → VarId
  | .name id => id
  | .binding id => id

namespace Shader

variable (shader : Shader)

/-- The answer to a question, which may hand out a name. -/
def reply : Question → Naming Binding
  | .name id => .named <$> shader.nameOf id
  | .binding id => shader.binding id

/-- The names handed out after a question; one that fails hands out none. -/
def namesOn (names : Names) (question : Question) : Names :=
  match (shader.reply question).run names with
  | .ok (_, after) => after
  | .error _ => names

/-- The names after some questions, from the start on. -/
def namesAfter (history : List Question) : Names :=
  history.foldl shader.namesOn (.start shader)

/-- The value that answers a question, if no name does. -/
def valueFor? : Question → Option Expr
  | .name _ => none
  | .binding id => shader.inlined? id

/-- The variable whose name answers a question, if one does. -/
def asked? (question : Question) : Option VarId :=
  if (shader.var? question.id).isSome ∧ shader.valueFor? question = none then some question.id
  else none

/-- The variables whose names were asked for, as often as they were. -/
def asked (history : List Question) : List VarId := history.filterMap shader.asked?

/-- Whether a variable is of a category and was given no name. -/
def isUnnamed (category : Category) (id : VarId) : Bool :=
  (shader.var? id).any fun record => record.name.isNone && record.category == category

/-- The variables of a category without a given name, in the order in which their names were first
asked for. -/
def queue (category : Category) (history : List Question) : List VarId :=
  ((shader.asked history).filter (shader.isUnnamed category)).eraseDups

/-- A number that makes no name that a variable was given. -/
def Free (category : Category) (number : Nat) : Prop :=
  category.nameAt number ∉ shader.givenNames

/-- The name of a variable: the one it was given, or the stem of its category with the number at
its place in the queue, counted among the free numbers. -/
noncomputable def nameIn (history : List Question) (id : VarId) (record : Record) : String :=
  record.name.getD (record.category.nameAt (Nat.nth (shader.Free record.category)
    ((shader.queue record.category history).idxOf id)))

/-- The answer to a question that is one of `history`. -/
noncomputable def due (history : List Question) (question : Question) :
    Except RenderError Binding :=
  match shader.var? question.id with
  | none => .error (.unregisteredVariable question.id)
  | some record =>
    match shader.valueFor? question with
    | some value => .ok (.inlined value)
    | none => .ok (.named (shader.nameIn history question.id record))

end Shader

/-- A category can be told from its place. -/
theorem Category.index_inj {first second : Category} :
    first.index = second.index ↔ first = second := by
  cases first <;> cases second <;> decide

/-- A category and a number can be told from the name they make. -/
theorem Category.nameAt_eq_iff {first second : Category} {number otherNumber : Nat} :
    first.nameAt number = second.nameAt otherNumber ↔ first = second ∧ number = otherNumber := by
  constructor
  · intro same
    have oneLetter : ∀ category : Category, category.stem.toList.length = 1 := by
      intro category
      cases category <;> simp [Category.stem]
    have spelled := congrArg String.toList same
    simp only [nameAt, String.toList_append] at spelled
    obtain ⟨letters, digits⟩ := List.append_inj spelled (by rw [oneLetter, oneLetter])
    have sameStem : first.stem = second.stem := String.toList_inj.mp letters
    refine ⟨?_, toString_inj.mp (String.toList_inj.mp digits)⟩
    cases first <;> cases second <;> simp_all [Category.stem]
  · rintro ⟨rfl, rfl⟩
    rfl

/-- A list of names leaves a number free among the first ones. -/
theorem exists_free (category : Category) (used : List String) :
    ∃ number ≤ used.length, category.nameAt number ∉ used := by
  by_contra all
  push Not at all
  have distinct : ((List.range (used.length + 1)).map category.nameAt).Nodup := by
    apply List.nodup_range.map
    intro number other same
    exact Category.nameAt_inj.mp same
  have within : (List.range (used.length + 1)).map category.nameAt ⊆ used := by
    intro name mem
    obtain ⟨number, small, rfl⟩ := List.mem_map.mp mem
    exact all number (Nat.le_of_lt_succ (List.mem_range.mp small))
  have short := (distinct.subperm within).length_le
  simp at short

/-- The least number that makes no name of a list. Among the first ones, as many as there are names
and one more, there is one. -/
def leastFree (category : Category) (used : List String) : Nat :=
  ((List.range (used.length + 1)).find? fun number => category.nameAt number ∉ used).getD
    used.length

/-- The least free number is free, and no smaller one is. -/
theorem leastFree_isLeast (category : Category) (used : List String) :
    IsLeast {number | category.nameAt number ∉ used} (leastFree category used) := by
  obtain ⟨free, small, isFree⟩ := exists_free category used
  cases found : (List.range (used.length + 1)).find? fun number =>
      category.nameAt number ∉ used with
  | none =>
    have taken := List.find?_eq_none.mp found free (List.mem_range.mpr (by omega))
    exact absurd isFree (by simpa using taken)
  | some number =>
    obtain ⟨isFree, -, below⟩ := List.find?_range_eq_some.mp found
    rw [leastFree, found]
    constructor
    · simpa using isFree
    · intro other otherFree
      by_contra less
      have taken := below other (Nat.lt_of_not_le less)
      exact otherFree (by simpa using taken)

namespace Names

variable {names : Names} {category kind : Category} {number other : Nat}

/-- The automatic names in use are those that were in use before and the reserved one. -/
theorem nameAt_mem_reserve : kind.nameAt other ∈ (names.reserve category number).taken ↔
    (kind = category ∧ other = number) ∨ kind.nameAt other ∈ names.taken := by
  rw [reserve, List.mem_cons, Category.nameAt_eq_iff]

/-- The category goes on behind the reserved number, and the others go on where they were. -/
theorem counter_reserve : (names.reserve category number).counter kind =
    if kind = category then number + 1 else names.counter kind := by
  by_cases same : kind = category
  · subst same
    simp [reserve, counter]
  · have apart : (category.index : Nat) ≠ kind.index :=
      mt (fun isSame => (Category.index_inj.mp (Fin.ext isSame)).symm) same
    rw [if_neg same]
    simp [reserve, counter, Vector.getElem_set_ne _ _ apart]

/-- A search finds the least free number, where every number before the counter of the category
makes a name in use. It puts the name in use and goes on behind it the next time. -/
theorem fresh_eq_leastFree
    (tried : ∀ number < names.counter category, category.nameAt number ∈ names.taken) :
    names.fresh category = (category.nameAt (leastFree category names.taken),
      names.reserve category (leastFree category names.taken)) := by
  obtain ⟨number, -, passed, free, isFresh⟩ := names.exists_fresh category
  have isLeast : IsLeast {number | category.nameAt number ∉ names.taken} number := by
    refine ⟨free, fun other otherFree => ?_⟩
    by_contra less
    have before := Nat.lt_of_not_le less
    by_cases new : names.counter category ≤ other
    · exact otherFree (passed other new before)
    · exact otherFree (tried other (Nat.lt_of_not_le new))
  rw [isFresh, (leastFree_isLeast category names.taken).unique isLeast]

end Names

namespace Shader

variable {shader : Shader}

/-- There is no end of free numbers. -/
theorem infinite_free (shader : Shader) (category : Category) :
    {k | shader.Free category k}.Infinite := by
  rw [Set.infinite_iff_exists_gt]
  intro bound
  let used := shader.givenNames ++ (List.range (bound + 1)).map category.nameAt
  obtain ⟨number, -, free⟩ := exists_free category used
  rw [List.mem_append, not_or] at free
  refine ⟨number, free.1, ?_⟩
  by_contra small
  exact free.2 (List.mem_map.mpr ⟨number, List.mem_range.mpr (by omega), rfl⟩)

/-- Where the names in use are those given and the first `count` of the enumeration, the least free
number is the next of the enumeration. -/
theorem leastFree_eq_nth (shader : Shader) {category : Category} {used : List String} {count : Nat}
    (inUse : ∀ number, category.nameAt number ∈ used ↔
      ¬ shader.Free category number ∨ ∃ i < count, Nat.nth (shader.Free category) i = number) :
    leastFree category used = Nat.nth (shader.Free category) count := by
  have infinite := shader.infinite_free category
  have least : IsLeast {number | category.nameAt number ∉ used}
      (Nat.nth (shader.Free category) count) := by
    constructor
    · intro taken
      rcases (inUse _).mp taken with given | ⟨i, small, same⟩
      · exact given (Nat.nth_mem_of_infinite infinite count)
      · exact Nat.ne_of_lt small (Nat.nth_injective infinite same)
    · intro number free
      rw [Set.mem_ofPred_eq, inUse, not_or, not_not] at free
      obtain ⟨isFree, later⟩ := free
      obtain ⟨i, rfl⟩ : number ∈ Set.range (Nat.nth (shader.Free category)) := by
        rw [Nat.range_nth_of_infinite infinite]
        exact isFree
      by_contra less
      exact later ⟨i, (Nat.nth_lt_nth infinite).mp (Nat.lt_of_not_le less), rfl⟩
  exact (leastFree_isLeast category used).unique least

/-- An unnamed variable is one that was given no name, in its own category. -/
theorem isUnnamed_iff {category : Category} {id : VarId} :
    shader.isUnnamed category id ↔
      ∃ record, shader.var? id = some record ∧ record.name = none ∧
        record.category = category := by
  cases known : shader.var? id <;> simp [isUnnamed, known]

/-- Later questions ask for more. -/
theorem asked_append (history more : List Question) :
    shader.asked (history ++ more) = shader.asked history ++ shader.asked more :=
  List.filterMap_append

/-- The queue of a category holds its unnamed variables that were asked for. -/
theorem mem_queue {category : Category} {history : List Question} {id : VarId} :
    id ∈ shader.queue category history ↔
      id ∈ shader.asked history ∧ shader.isUnnamed category id := by
  rw [queue, List.mem_eraseDups, List.mem_filter]

/-- A queue grows at its end. -/
theorem queue_append (shader : Shader) (category : Category) (history more : List Question) :
    ∃ later, shader.queue category (history ++ more) = shader.queue category history ++ later := by
  unfold queue
  rw [asked_append, List.filter_append, List.eraseDups_append]
  exact ⟨_, rfl⟩

/-- A question leaves a queue as it is, or puts one variable at its end that was not in it. -/
theorem queue_concat (shader : Shader) (category : Category) (history : List Question)
    (question : Question) :
    shader.queue category (history ++ [question]) = shader.queue category history ∨
      ∃ id, id ∉ shader.queue category history ∧
        shader.queue category (history ++ [question]) = shader.queue category history ++ [id] := by
  unfold queue
  rw [asked_append, List.filter_append, List.eraseDups_append]
  generalize (shader.asked history).filter (shader.isUnnamed category) = before
  cases isAsked : shader.asked? question with
  | none => simp [asked, isAsked]
  | some id =>
    by_cases unnamed : shader.isUnnamed category id = true
    · by_cases old : id ∈ before
      · left
        simp [asked, isAsked, unnamed, List.removeAll, old]
      · right
        refine ⟨id, by rwa [List.mem_eraseDups], ?_⟩
        simp [asked, isAsked, unnamed, List.removeAll, old, List.eraseDups_cons]
    · left
      simp [asked, isAsked, unnamed]

/-- What is asked later does not change the name of a variable that was asked for. -/
theorem nameIn_append {history : List Question} {id : VarId} {record : Record}
    (isAsked : id ∈ shader.asked history) (known : shader.var? id = some record)
    (more : List Question) :
    shader.nameIn (history ++ more) id record = shader.nameIn history id record := by
  cases given : record.name with
  | some name => simp [nameIn, given]
  | none =>
    have queued : id ∈ shader.queue record.category history :=
      mem_queue.mpr ⟨isAsked, isUnnamed_iff.mpr ⟨record, known, given, rfl⟩⟩
    obtain ⟨later, grown⟩ := shader.queue_append record.category history more
    rw [nameIn, nameIn, grown, List.idxOf_append, if_pos queued]

/-- The name a variable was given is a given name. -/
theorem mem_givenNames {id : VarId} {record : Record} {name : String}
    (known : shader.var? id = some record) (given : record.name = some name) :
    name ∈ shader.givenNames := by
  have isRecord : record ∈ shader.registry.records.toList :=
    Array.mem_toList_iff.mpr (Array.mem_of_getElem? known)
  exact List.mem_filterMap.mpr ⟨record, isRecord, given⟩

/-- The names in use are those that were given and the first automatic ones of each category, as
many as `count` says; every number that was tried makes one of them. -/
structure Counted (shader : Shader) (count : Category → Nat) (names : Names) : Prop where
  taken : ∀ category number, category.nameAt number ∈ names.taken ↔
    ¬ shader.Free category number ∨
      ∃ i < count category, Nat.nth (shader.Free category) i = number
  tried : ∀ category, ∀ number < names.counter category, category.nameAt number ∈ names.taken

/-- The next automatic name of a category has the number that comes after those counted. -/
theorem Counted.fresh_eq {count : Category → Nat} {names : Names}
    (counted : shader.Counted count names) (category : Category) :
    let number := Nat.nth (shader.Free category) (count category)
    names.fresh category = (category.nameAt number, names.reserve category number) := by
  rw [Names.fresh_eq_leastFree (counted.tried category),
    shader.leastFree_eq_nth (counted.taken category)]

/-- One more automatic name of a category counts one more there, and none elsewhere. -/
theorem Counted.fresh {count : Category → Nat} {names : Names}
    (counted : shader.Counted count names) (category : Category) :
    shader.Counted (Function.update count category (count category + 1))
      (names.fresh category).2 := by
  rw [counted.fresh_eq]
  constructor
  · intro kind number
    rw [Names.nameAt_mem_reserve, counted.taken, or_left_comm]
    by_cases same : kind = category
    · subst same
      rw [Function.update_self, Nat.exists_lt_succ_right]
      grind
    · rw [Function.update_of_ne same]
      simp [same]
  · intro kind number small
    rw [Names.nameAt_mem_reserve, counted.taken]
    rw [Names.counter_reserve] at small
    by_cases same : kind = category
    · subst same
      rw [if_pos rfl] at small
      obtain rfl | less := Nat.eq_or_lt_of_le (Nat.le_of_lt_succ small)
      · exact .inl ⟨rfl, rfl⟩
      · -- A smaller number is free only if it comes earlier in the enumeration.
        by_cases free : shader.Free kind number
        · obtain ⟨i, rfl⟩ : number ∈ Set.range (Nat.nth (shader.Free kind)) := by
            rw [Nat.range_nth_of_infinite (shader.infinite_free kind)]
            exact free
          exact .inr (.inr ⟨i, (Nat.nth_lt_nth (shader.infinite_free kind)).mp less, rfl⟩)
        · exact .inr (.inl free)
    · rw [if_neg same] at small
      exact .inr ((counted.taken kind number).mp (counted.tried kind number small))

/-- The names after some questions: the variables that were asked for have theirs, and as many
automatic names are in use as there are variables in the queues. -/
structure Handed (shader : Shader) (history : List Question) (names : Names) : Prop where
  lookup : ∀ id, names.lookup id =
    if id ∈ shader.asked history then (shader.var? id).map (shader.nameIn history id) else none
  counted : shader.Counted (fun category => (shader.queue category history).length) names

/-- A question puts an unnamed variable that was not asked for before at the end of its queue. -/
theorem queue_of_isNew {history : List Question} {question : Question} {id : VarId}
    {record : Record} (isAsked : shader.asked? question = some id)
    (isNew : id ∉ shader.asked history) (known : shader.var? id = some record)
    (unnamed : record.name = none) :
    shader.queue record.category (history ++ [question]) =
      shader.queue record.category history ++ [id] := by
  have queued : id ∈ shader.queue record.category (history ++ [question]) :=
    mem_queue.mpr
      ⟨by simp [asked, isAsked], isUnnamed_iff.mpr ⟨record, known, unnamed, rfl⟩⟩
  have notYet : id ∉ shader.queue record.category history := fun old => isNew (mem_queue.mp old).1
  rcases shader.queue_concat record.category history question with same | ⟨last, -, grown⟩
  · exact absurd (same ▸ queued) notYet
  · rw [grown, List.mem_append, List.mem_singleton] at queued
    rw [grown, queued.resolve_left notYet]

/-- A question leaves a queue as it is if the variable whose name it asks for is not an unnamed one
of the category. -/
theorem queue_of_isOther {history : List Question} {question : Question} {category : Category}
    {id : VarId} (isAsked : shader.asked? question = some id)
    (isOther : shader.isUnnamed category id = false) :
    shader.queue category (history ++ [question]) = shader.queue category history := by
  have stays : (shader.asked (history ++ [question])).filter (shader.isUnnamed category) =
      (shader.asked history).filter (shader.isUnnamed category) := by
    simp [asked, isAsked, isOther]
  rw [queue, queue, stays]

/-- The name handed out to a variable that was not asked for before is the one that is due. -/
theorem Handed.assign_name {history : List Question} {names : Names} {question : Question}
    {id : VarId} {record : Record} (handed : shader.Handed history names)
    (isAsked : shader.asked? question = some id) (isNew : id ∉ shader.asked history)
    (known : shader.var? id = some record) :
    (names.assign id record).1 = shader.nameIn (history ++ [question]) id record := by
  rw [Names.assign_name]
  cases given : record.name with
  | some name => simp [nameIn, given]
  | none =>
    have notYet : id ∉ shader.queue record.category history :=
      fun old => isNew (mem_queue.mp old).1
    rw [nameIn, given, Option.getD_none, Option.getD_none, handed.counted.fresh_eq,
      queue_of_isNew isAsked isNew known given, List.idxOf_append, if_neg notYet,
      List.idxOf_cons_self, Nat.zero_add]

/-- A question that asks for no new name leaves every queue as it is. -/
theorem queue_of_isOld {history : List Question} {question : Question} {category : Category}
    (old : ∀ id, shader.asked? question = some id → id ∈ shader.asked history) :
    shader.queue category (history ++ [question]) = shader.queue category history := by
  rcases shader.queue_concat category history question with same | ⟨id, isNew, grown⟩
  · exact same
  · have queued : id ∈ shader.queue category (history ++ [question]) := by simp [grown]
    obtain ⟨isAsked, unnamed⟩ := mem_queue.mp queued
    rw [asked_append, List.mem_append] at isAsked
    have wasAsked : id ∈ shader.asked history := by
      rcases isAsked with before | now
      · exact before
      · exact old id (by simpa [asked] using now)
    exact absurd (mem_queue.mpr ⟨wasAsked, unnamed⟩) isNew

/-- A question that asks for no new name leaves the names as they are. -/
theorem Handed.keep {history : List Question} {names : Names} {question : Question}
    (handed : shader.Handed history names)
    (old : ∀ id, shader.asked? question = some id → id ∈ shader.asked history) :
    shader.Handed (history ++ [question]) names := by
  have same : ∀ id, id ∈ shader.asked (history ++ [question]) ↔ id ∈ shader.asked history := by
    intro id
    rw [asked_append, List.mem_append, or_iff_left_of_imp]
    intro isAsked
    obtain ⟨_, mem, isAsked⟩ := List.mem_filterMap.mp isAsked
    rw [List.mem_singleton.mp mem] at isAsked
    exact old id isAsked
  constructor
  · intro id
    rw [handed.lookup]
    by_cases isAsked : id ∈ shader.asked history
    · rw [if_pos isAsked, if_pos ((same id).mpr isAsked)]
      exact Option.map_congr fun record known => (nameIn_append isAsked known _).symm
    · rw [if_neg isAsked, if_neg (mt (same id).mp isAsked)]
  · simpa only [queue_of_isOld old] using handed.counted

/-- The first question for the name of a variable leaves the names in use counted. -/
theorem Handed.counted_assign {history : List Question} {names : Names} {question : Question}
    {id : VarId} {record : Record} (handed : shader.Handed history names)
    (isAsked : shader.asked? question = some id) (isNew : id ∉ shader.asked history)
    (known : shader.var? id = some record) :
    shader.Counted (fun category => (shader.queue category (history ++ [question])).length)
      (names.assign id record).2 := by
  have others : ∀ category, ¬ (record.name = none ∧ record.category = category) →
      shader.queue category (history ++ [question]) = shader.queue category history := by
    intro category isOther
    refine queue_of_isOther isAsked (Bool.eq_false_iff.mpr fun unnamed => isOther ?_)
    obtain ⟨_, isRecord, given⟩ := isUnnamed_iff.mp unnamed
    rwa [Option.some.inj (known.symm.trans isRecord)]
  cases given : record.name with
  | some name =>
    have same : ∀ category, shader.queue category (history ++ [question]) =
        shader.queue category history := fun category => others category (by simp [given])
    rw [Names.assign, given]
    simp only [same]
    exact ⟨handed.counted.taken, handed.counted.tried⟩
  | none =>
    have grown : (fun category => (shader.queue category (history ++ [question])).length) =
        Function.update (fun category => (shader.queue category history).length)
          record.category ((shader.queue record.category history).length + 1) := by
      funext category
      by_cases same : category = record.category
      · subst same
        rw [Function.update_self, queue_of_isNew isAsked isNew known given, List.length_append,
          List.length_singleton]
      · rw [Function.update_of_ne same, others category fun ⟨_, isCategory⟩ => same isCategory.symm]
    have fresh := handed.counted.fresh record.category
    rw [Names.assign, given, grown]
    exact ⟨fresh.taken, fresh.tried⟩

/-- The first question for the name of a variable hands it out. -/
theorem Handed.hand {history : List Question} {names : Names} {question : Question} {id : VarId}
    {record : Record} (handed : shader.Handed history names)
    (isAsked : shader.asked? question = some id) (isNew : id ∉ shader.asked history)
    (known : shader.var? id = some record) :
    shader.Handed (history ++ [question]) (names.assign id record).2 := by
  have grown : ∀ other, other ∈ shader.asked (history ++ [question]) ↔
      other = id ∨ other ∈ shader.asked history := by
    intro other
    rw [asked_append, List.mem_append, or_comm]
    simp [asked, isAsked]
  constructor
  · intro other
    rw [Names.lookup_assign]
    by_cases isId : other = id
    · subst isId
      rw [if_pos rfl, if_pos ((grown other).mpr (.inl rfl)), known, Option.map_some,
        handed.assign_name isAsked isNew known]
    · rw [if_neg isId, handed.lookup]
      simp only [grown, isId, false_or]
      split
      case isTrue wasAsked =>
        exact Option.map_congr fun record known => (nameIn_append wasAsked known _).symm
      case isFalse => rfl
  · exact handed.counted_assign isAsked isNew known

/-- A name that was handed out is not handed out again. -/
theorem nameOf_of_found {names : Names} {id : VarId} {name : String}
    (found : names.lookup id = some name) : (shader.nameOf id).run names = .ok (name, names) := by
  simp [nameOf, found]
  rfl

/-- A question for a name is answered by the name that is due, whether it is handed out now or was
before. -/
theorem Handed.nameOf {history : List Question} {names : Names} {question : Question} {id : VarId}
    {record : Record} (handed : shader.Handed history names)
    (isAsked : shader.asked? question = some id) (known : shader.var? id = some record) :
    ∃ after, (shader.nameOf id).run names =
        .ok (shader.nameIn (history ++ [question]) id record, after) ∧
      shader.Handed (history ++ [question]) after := by
  by_cases old : id ∈ shader.asked history
  · have found : names.lookup id = some (shader.nameIn (history ++ [question]) id record) := by
      rw [handed.lookup, if_pos old, known, Option.map_some, nameIn_append old known]
    refine ⟨names, nameOf_of_found found, handed.keep fun other isOther => ?_⟩
    obtain rfl := Option.some.inj (isAsked.symm.trans isOther)
    exact old
  · have missing : names.lookup id = none := by rw [handed.lookup, if_neg old]
    refine ⟨_, ?_, handed.hand isAsked old known⟩
    rw [← handed.assign_name isAsked old known]
    simp [Shader.nameOf, missing, known]
    rfl

/-- A question about a variable that has no name for being unknown fails; any other is answered by a
value, or else by a name. -/
theorem run_reply (question : Question) {names : Names}
    (missing : shader.var? question.id = none → names.lookup question.id = none) :
    (shader.reply question).run names =
      match shader.var? question.id, shader.valueFor? question with
      | none, _ => .error (.unregisteredVariable question.id)
      | some _, some value => .ok (.inlined value, names)
      | some _, none =>
        ((shader.nameOf question.id).run names).map fun (name, after) => (.named name, after) := by
  cases question with
  | name id =>
    simp only [Question.id] at missing ⊢
    cases known : shader.var? id with
    | none =>
      simp [reply, Shader.nameOf, missing known, known]
      rfl
    | some record => rfl
  | binding id =>
    simp only [Question.id, valueFor?]
    cases known : shader.var? id with
    | none =>
      simp [reply, binding, known]
      rfl
    | some record =>
      cases isValue : shader.inlined? id with
      | some value =>
        simp [reply, binding, known, isValue]
        rfl
      | none =>
        simp [reply, binding, known, isValue]
        rfl

/-- One question is answered as is due, and hands out what is due after it. -/
theorem Handed.step {history : List Question} {names : Names} (handed : shader.Handed history names)
    (question : Question) :
    ((shader.reply question).run names).map (·.1) = shader.due (history ++ [question]) question ∧
      shader.Handed (history ++ [question]) (shader.namesOn names question) := by
  have missing : shader.var? question.id = none → names.lookup question.id = none := by
    intro unknown
    rw [handed.lookup, unknown]
    simp
  unfold namesOn due
  rw [run_reply question missing]
  cases known : shader.var? question.id with
  | none =>
    have unasked : shader.asked? question = none := by simp [asked?, known]
    exact ⟨rfl, handed.keep (by simp [unasked])⟩
  | some record =>
    cases isValue : shader.valueFor? question with
    | some value =>
      have unasked : shader.asked? question = none := by simp [asked?, isValue]
      exact ⟨rfl, handed.keep (by simp [unasked])⟩
    | none =>
      have isAsked : shader.asked? question = some question.id := by simp [asked?, known, isValue]
      obtain ⟨after, named, handedAfter⟩ := handed.nameOf isAsked known
      simp only [named]
      exact ⟨rfl, handedAfter⟩

/-- At the start no name is handed out, and those in use are the ones that were given. -/
theorem handed_start (shader : Shader) : shader.Handed [] (.start shader) := by
  refine ⟨?_, ?_, ?_⟩
  · simp [Names.start, Names.lookup, asked]
  · simp [Names.start, Free, queue, asked]
  · simp [Names.start, Names.counter]

/-- After any questions, the names handed out are those that are due. -/
theorem handed_after (history : List Question) :
    shader.Handed history (shader.namesAfter history) := by
  induction history using List.reverseRecOn with
  | nil => exact shader.handed_start
  | append_singleton history question ih =>
    rw [namesAfter, List.foldl_append, List.foldl_cons, List.foldl_nil]
    exact (ih.step question).2

/-- What is asked later does not change the answer to a question. -/
theorem due_append (shader : Shader) {history : List Question} {question : Question}
    (mem : question ∈ history) (more : List Question) :
    shader.due (history ++ more) question = shader.due history question := by
  unfold due
  cases known : shader.var? question.id with
  | none => rfl
  | some record =>
    cases isValue : shader.valueFor? question with
    | some value => rfl
    | none =>
      have isAsked : question.id ∈ shader.asked history :=
        List.mem_filterMap.mpr ⟨question, mem, by simp [asked?, known, isValue]⟩
      simp only [nameIn_append isAsked known]

/-- An automatic name is given to no variable. -/
theorem nameIn_not_mem (shader : Shader) {record : Record} (unnamed : record.name = none)
    (history : List Question) (id : VarId) :
    shader.nameIn history id record ∉ shader.givenNames := by
  rw [nameIn, unnamed, Option.getD_none]
  exact Nat.nth_mem_of_infinite (shader.infinite_free record.category) _

/-- A variable that got an automatic name shares it with no other. -/
theorem eq_of_nameIn {history : List Question} {id other : VarId} {record otherRecord : Record}
    (isAsked : id ∈ shader.asked history) (known : shader.var? id = some record)
    (unnamed : record.name = none) (otherKnown : shader.var? other = some otherRecord)
    (same : shader.nameIn history other otherRecord = shader.nameIn history id record) :
    other = id := by
  cases given : otherRecord.name with
  | some name =>
    -- The other name was given to a variable, and an automatic one is not.
    have automatic := shader.nameIn_not_mem unnamed history id
    rw [← same, nameIn, given, Option.getD_some] at automatic
    exact absurd (mem_givenNames otherKnown given) automatic
  | none =>
    rw [nameIn, nameIn, given, unnamed, Option.getD_none, Option.getD_none] at same
    obtain ⟨sameCategory, sameNumber⟩ := Category.nameAt_eq_iff.mp same
    rw [sameCategory] at sameNumber
    have samePlace := Nat.nth_injective (shader.infinite_free record.category) sameNumber
    have queued : id ∈ shader.queue record.category history :=
      mem_queue.mpr ⟨isAsked, isUnnamed_iff.mpr ⟨record, known, unnamed, rfl⟩⟩
    exact ((List.idxOf_inj queued).mp samePlace.symm).symm

/-- Among all the questions put while a shader is written, each is answered as is due: for an
unknown variable it fails, a value that is written in place answers it, and otherwise the name of
the variable does, which is the one it was given or else the stem of its category with the `i`-th
free number, where the variable is the `i`-th unnamed one of its category to be asked for. There is
no end of free numbers, and an automatic name is neither given to a variable nor handed out to
another. -/
theorem names_due (shader : Shader) (history : List Question) :
    (∀ before question after, history = before ++ question :: after →
      ((shader.reply question).run (shader.namesAfter before)).map (·.1) =
        shader.due history question) ∧
    (∀ category, {k | shader.Free category k}.Infinite) ∧
    ∀ id ∈ shader.asked history, ∀ record, shader.var? id = some record → record.name = none →
      shader.nameIn history id record ∉ shader.givenNames ∧
      ∀ other ∈ shader.asked history, ∀ otherRecord, shader.var? other = some otherRecord →
        shader.nameIn history other otherRecord = shader.nameIn history id record →
          other = id := by
  refine ⟨?_, shader.infinite_free, ?_⟩
  · rintro before question after rfl
    rw [((handed_after before).step question).1]
    have mem : question ∈ before ++ [question] := by simp
    rw [← shader.due_append mem after, List.append_assoc, List.singleton_append]
  · intro id isAsked record known unnamed
    refine ⟨shader.nameIn_not_mem unnamed history id, ?_⟩
    intro other _ otherRecord otherKnown same
    exact eq_of_nameIn isAsked known unnamed otherKnown same

end Shader

end ShaderLoom
