import Mathlib.Logic.Relation
import ShaderLoom.Dialect.Standard
import ShaderLoom.Proofs.Traces

/-!
# Inlining is substitution

A reference to a variable whose value is written where it is used stands for the construction of
that value, and a forward of one argument stands for its argument. Putting in what stands for what
(`Shader.Replaces`), in any order and for as long as anything is left, ends in one expression,
`Shader.substituted`, unless a value leads back to itself (`Shader.Acyclic`). What is written of an
expression is what is written of that one, and both bind as tightly: a value put in place gets
parentheses exactly where it would if it had been written there.
-/
namespace ShaderLoom

namespace Expr

/-- The argument of a forward of exactly one argument, and every other expression itself. -/
def passed (expr : Expr) : Expr := expr.passThrough?.getD expr

/-- Only forwards of one argument pass it on. -/
theorem passThrough?_eq_some_iff {expr only : Expr} :
    expr.passThrough? = some only ↔ ∃ made, expr = .construct made [only] ∧
      made.status = .forward := by
  constructor
  · intro passes
    unfold passThrough? at passes
    split at passes
    case h_1 made arg =>
      rw [Option.ite_none_right_eq_some] at passes
      obtain ⟨isForward, isArg⟩ := passes
      obtain rfl := Option.some.inj isArg
      exact ⟨made, rfl, isForward⟩
    case h_2 => cases passes
  · rintro ⟨made, rfl, isForward⟩
    rw [passThrough?, if_pos isForward]

/-- An expression that passes nothing on is taken for itself. -/
theorem passed_of_none {expr : Expr} (stays : expr.passThrough? = none) : expr.passed = expr := by
  rw [passed, stays]
  rfl

/-- An expression that passes its argument on is taken for its argument. -/
theorem passed_of_some {expr only : Expr} (passes : expr.passThrough? = some only) :
    expr.passed = only := by
  rw [passed, passes]
  rfl

end Expr

namespace Shader

section Definitions

variable (shader : Shader)

/-- One reference is replaced by the value it stands for, or one forward by its argument, anywhere
in an expression. -/
inductive Replaces : Expr → Expr → Prop where
  | value {id : VarId} {value : Expr} (isInlined : shader.inlined? id = some value) :
    Replaces (.ref id) value
  | forward {expr only : Expr} (passes : expr.passThrough? = some only) : Replaces expr only
  | arg {made : Construction} {args : List Expr} {position : Nat} {old new : Expr}
    (isArg : args[position]? = some old) (inner : Replaces old new) :
    Replaces (.construct made args) (.construct made (args.set position new))
  | lhs {op : BinaryOp} {old new rhs : Expr} (inner : Replaces old new) :
    Replaces (.binary op old rhs) (.binary op new rhs)
  | rhs {op : BinaryOp} {lhs old new : Expr} (inner : Replaces old new) :
    Replaces (.binary op lhs old) (.binary op lhs new)
  | operand {op : UnaryOp} {fixity : Fixity} {old new : Expr} (inner : Replaces old new) :
    Replaces (.unary op fixity old) (.unary op fixity new)
  | condition {old new yes no : Expr} (inner : Replaces old new) :
    Replaces (.ternary old yes no) (.ternary new yes no)
  | yes {condition old new no : Expr} (inner : Replaces old new) :
    Replaces (.ternary condition old no) (.ternary condition new no)
  | no {condition yes old new : Expr} (inner : Replaces old new) :
    Replaces (.ternary condition yes old) (.ternary condition yes new)
  | object {old new index : Expr} (inner : Replaces old new) :
    Replaces (.subscript old index) (.subscript new index)
  | index {object old new : Expr} (inner : Replaces old new) :
    Replaces (.subscript object old) (.subscript object new)
  | member {old new : Expr} {name : String} (inner : Replaces old new) :
    Replaces (.member old name) (.member new name)
  | swizzle {old new : Expr} {components : List Component} (inner : Replaces old new) :
    Replaces (.swizzle old components) (.swizzle new components)
  | callArg {callee : Callee} {args : List Expr} {position : Nat} {old new : Expr}
    (isArg : args[position]? = some old) (inner : Replaces old new) :
    Replaces (.call callee args) (.call callee (args.set position new))

/-- Any number of replacements. -/
abbrev Reaches : Expr → Expr → Prop := Relation.ReflTransGen shader.Replaces

/-- Whether nothing is left to replace. -/
def Final (expr : Expr) : Prop := ∀ next, ¬shader.Replaces expr next

/-- Whether the value of one variable speaks of another. -/
def Leads (id other : VarId) : Prop :=
  ∃ value, shader.inlined? id = some value ∧ .reference other ∈ value.marks

/-- Whether no value leads back to itself. -/
def Acyclic : Prop := ∀ id, ¬Relation.TransGen shader.Leads id id

mutual

/-- An expression with everything replaced, given what the values are with everything replaced. -/
def substituteWith (deep : Expr → Expr) : Expr → Expr
  | .literal value => .literal value
  | .ref id => (shader.inlined? id).elim (.ref id) deep
  | .construct made args => (Expr.construct made (substituteArgs deep args)).passed
  | .binary op lhs rhs => .binary op (substituteWith deep lhs) (substituteWith deep rhs)
  | .unary op fixity operand => .unary op fixity (substituteWith deep operand)
  | .ternary condition yes no =>
    .ternary (substituteWith deep condition) (substituteWith deep yes) (substituteWith deep no)
  | .subscript object index =>
    .subscript (substituteWith deep object) (substituteWith deep index)
  | .member object name => .member (substituteWith deep object) name
  | .swizzle object components => .swizzle (substituteWith deep object) components
  | .call callee args => .call callee (substituteArgs deep args)

/-- Arguments with everything replaced. -/
def substituteArgs (deep : Expr → Expr) : List Expr → List Expr
  | [] => []
  | arg :: rest => substituteWith deep arg :: substituteArgs deep rest

end

/-- An expression with everything replaced, values to a depth. -/
def substituteWithin : Nat → Expr → Expr
  | 0, expr => expr
  | depth + 1, expr => shader.substituteWith (substituteWithin depth) expr

/-- An expression with everything replaced. -/
def substituted (expr : Expr) : Expr := shader.substituteWithin shader.inlineDepth expr

/-- The values that the references in an expression are replaced by. -/
def inlinedIn (expr : Expr) : List Expr :=
  expr.marks.filterMap fun
    | .reference id => shader.inlined? id
    | .value _ => none

/-- Whether a depth is enough for every chain of values that starts in an expression. -/
def Covers : Nat → Expr → Prop
  | 0, _ => False
  | depth + 1, expr => ∀ value ∈ shader.inlinedIn expr, Covers depth value

end Definitions

variable {shader : Shader}

/-- Arguments are replaced one by one. -/
theorem substituteArgs_eq (deep : Expr → Expr) (args : List Expr) :
    shader.substituteArgs deep args = args.map (shader.substituteWith deep) := by
  induction args with
  | nil => rw [substituteArgs, List.map_nil]
  | cons arg rest ih => rw [substituteArgs, ih, List.map_cons]

/-- What is put in an expression is the value of a variable that the expression speaks of. -/
theorem mem_inlinedIn {expr value : Expr} :
    value ∈ shader.inlinedIn expr ↔
      ∃ id, .reference id ∈ expr.marks ∧ shader.inlined? id = some value := by
  unfold inlinedIn
  rw [List.mem_filterMap]
  constructor
  · rintro ⟨mark, isMark, isInlined⟩
    cases mark with
    | value id => cases isInlined
    | reference id => exact ⟨id, isMark, isInlined⟩
  · rintro ⟨id, isMark, isInlined⟩
    exact ⟨.reference id, isMark, isInlined⟩

/-- What is put in a construction is what is put in its arguments. -/
theorem inlinedIn_construct (made : Construction) (args : List Expr) :
    shader.inlinedIn (.construct made args) = args.flatMap shader.inlinedIn := by
  unfold inlinedIn
  rw [Expr.marks, List.filterMap_cons, Expr.marksOf_eq, List.filterMap_flatMap]

/-- What is put in a call is what is put in its arguments. -/
theorem inlinedIn_call (callee : Callee) (args : List Expr) :
    shader.inlinedIn (.call callee args) = args.flatMap shader.inlinedIn := by
  unfold inlinedIn
  rw [Expr.marks, Expr.marksOf_eq, List.filterMap_flatMap]

section Reaches

/-- Arguments are replaced one after another, wherever they stand. -/
theorem reaches_args {context : List Expr → Expr} {change : Expr → Expr} {args : List Expr}
    (inside : ∀ {args : List Expr} {position : Nat} {old new : Expr},
      args[position]? = some old → shader.Replaces old new →
        shader.Replaces (context args) (context (args.set position new)))
    (each : ∀ arg ∈ args, shader.Reaches arg (change arg)) :
    shader.Reaches (context args) (context (args.map change)) := by
  suffices further : ∀ done rest, (∀ arg ∈ rest, shader.Reaches arg (change arg)) →
      shader.Reaches (context (done ++ rest)) (context (done ++ rest.map change)) from
    further [] args each
  intro done rest each
  induction rest generalizing done with
  | nil => exact .refl
  | cons arg rest ih =>
    rw [List.forall_mem_cons] at each
    have first : shader.Reaches (context (done ++ arg :: rest))
        (context (done ++ change arg :: rest)) := by
      refine each.1.lift (fun arg => context (done ++ arg :: rest)) ?_
      intro old new replaces
      have replaced := @inside (done ++ old :: rest) done.length old new (by simp) replaces
      rwa [List.set_append_right _ _ (Nat.le_refl _), Nat.sub_self, List.set_cons_zero]
        at replaced
    have others := ih (done ++ [change arg]) each.2
    rw [List.append_assoc, List.append_assoc] at others
    exact first.trans others

/-- An expression is replaced step by step if the values put in it are. -/
theorem reaches_substituteWith {deep : Expr → Expr}
    (each : ∀ value, shader.Reaches value (deep value)) (expr : Expr) :
    shader.Reaches expr (shader.substituteWith deep expr) := by
  induction expr using Expr.induct with
  | literal value => rw [substituteWith]
  | ref id =>
    rw [substituteWith]
    cases isInlined : shader.inlined? id with
    | none => exact .refl
    | some value => exact (each value).head (.value isInlined)
  | construct made args inner =>
    rw [substituteWith, substituteArgs_eq]
    have replaced := reaches_args (@Replaces.arg shader made) inner
    cases passes : (Expr.construct made (args.map (shader.substituteWith deep))).passThrough? with
    | none =>
      rw [Expr.passed_of_none passes]
      exact replaced
    | some only =>
      rw [Expr.passed_of_some passes]
      exact replaced.tail (.forward passes)
  | binary op lhs rhs left right =>
    rw [substituteWith]
    exact (left.lift (Expr.binary op · rhs) fun _ _ => .lhs).trans
      (right.lift (Expr.binary op _ ·) fun _ _ => .rhs)
  | unary op fixity operand inner =>
    rw [substituteWith]
    exact inner.lift (Expr.unary op fixity ·) fun _ _ => .operand
  | ternary condition yes no first second third =>
    rw [substituteWith]
    exact ((first.lift (Expr.ternary · yes no) fun _ _ => .condition).trans
      (second.lift (Expr.ternary _ · no) fun _ _ => .yes)).trans
        (third.lift (Expr.ternary _ _ ·) fun _ _ => .no)
  | subscript object index outer inner =>
    rw [substituteWith]
    exact (outer.lift (Expr.subscript · index) fun _ _ => .object).trans
      (inner.lift (Expr.subscript _ ·) fun _ _ => .index)
  | member object name inner =>
    rw [substituteWith]
    exact inner.lift (Expr.member · name) fun _ _ => .member
  | swizzle object components inner =>
    rw [substituteWith]
    exact inner.lift (Expr.swizzle · components) fun _ _ => .swizzle
  | call callee args inner =>
    rw [substituteWith, substituteArgs_eq]
    exact reaches_args (@Replaces.callArg shader callee) inner

/-- An expression is replaced step by step, values to any depth. -/
theorem reaches_substituteWithin (depth : Nat) (expr : Expr) :
    shader.Reaches expr (shader.substituteWithin depth expr) := by
  induction depth generalizing expr with
  | zero => exact .refl
  | succ depth ih => exact reaches_substituteWith ih expr

end Reaches

section Final

/-- A construction is final if its arguments are and it passes none of them on. -/
theorem final_construct {made : Construction} {args : List Expr}
    (each : ∀ arg ∈ args, shader.Final arg)
    (stays : (Expr.construct made args).passThrough? = none) :
    shader.Final (.construct made args) := by
  intro next replaces
  cases replaces with
  | forward passes =>
    rw [stays] at passes
    cases passes
  | arg isArg inner => exact each _ (List.mem_of_getElem? isArg) _ inner

/-- Nothing is left to replace once nothing is left in the values. -/
theorem final_substituteWith {deep : Expr → Expr} (expr : Expr)
    (each : ∀ value ∈ shader.inlinedIn expr, shader.Final (deep value)) :
    shader.Final (shader.substituteWith deep expr) := by
  induction expr using Expr.induct with
  | literal value =>
    rw [substituteWith]
    rintro next (⟨⟨⟩⟩ | ⟨⟨⟩⟩)
  | ref id =>
    rw [substituteWith]
    cases isInlined : shader.inlined? id with
    | none =>
      intro next replaces
      cases replaces with
      | value isValue =>
        rw [isInlined] at isValue
        cases isValue
      | forward passes => cases passes
    | some value => exact each value (mem_inlinedIn.mpr ⟨id, List.mem_singleton_self _, isInlined⟩)
  | construct made args inner =>
    rw [inlinedIn_construct] at each
    have finals : ∀ arg ∈ args.map (shader.substituteWith deep), shader.Final arg := by
      rw [List.forall_mem_map]
      intro arg isArg
      exact inner arg isArg fun value isValue =>
        each value (List.mem_flatMap_of_mem isArg isValue)
    rw [substituteWith, substituteArgs_eq]
    cases passes : (Expr.construct made (args.map (shader.substituteWith deep))).passThrough? with
    | none =>
      rw [Expr.passed_of_none passes]
      exact final_construct finals passes
    | some only =>
      rw [Expr.passed_of_some passes]
      obtain ⟨_, isConstruct, -⟩ := Expr.passThrough?_eq_some_iff.mp passes
      obtain ⟨-, isArgs⟩ := Expr.construct.inj isConstruct
      exact finals only (by rw [isArgs]; exact List.mem_singleton_self only)
  | binary op lhs rhs left right =>
    simp only [inlinedIn, Expr.marks, List.filterMap_append, List.forall_mem_append] at each
    rw [substituteWith]
    intro next replaces
    cases replaces with
    | forward passes => cases passes
    | lhs step => exact left each.1 _ step
    | rhs step => exact right each.2 _ step
  | unary op fixity operand inner =>
    rw [substituteWith]
    intro next replaces
    cases replaces with
    | forward passes => cases passes
    | operand step => exact inner each _ step
  | ternary condition yes no first second third =>
    simp only [inlinedIn, Expr.marks, List.filterMap_append, List.forall_mem_append] at each
    rw [substituteWith]
    intro next replaces
    cases replaces with
    | forward passes => cases passes
    | condition step => exact first each.1.1 _ step
    | yes step => exact second each.1.2 _ step
    | no step => exact third each.2 _ step
  | subscript object index outer inner =>
    simp only [inlinedIn, Expr.marks, List.filterMap_append, List.forall_mem_append] at each
    rw [substituteWith]
    intro next replaces
    cases replaces with
    | forward passes => cases passes
    | object step => exact outer each.1 _ step
    | index step => exact inner each.2 _ step
  | member object name inner =>
    rw [substituteWith]
    intro next replaces
    cases replaces with
    | forward passes => cases passes
    | member step => exact inner each _ step
  | swizzle object components inner =>
    rw [substituteWith]
    intro next replaces
    cases replaces with
    | forward passes => cases passes
    | swizzle step => exact inner each _ step
  | call callee args inner =>
    rw [inlinedIn_call] at each
    rw [substituteWith, substituteArgs_eq]
    intro next replaces
    cases replaces with
    | forward passes => cases passes
    | callArg isAt step =>
      obtain ⟨arg, isArg, rfl⟩ := List.mem_map.mp (List.mem_of_getElem? isAt)
      exact inner arg isArg
        (fun value isValue => each value (List.mem_flatMap_of_mem isArg isValue)) _ step

/-- Nothing is left to replace at a depth that is enough. -/
theorem final_substituteWithin {depth : Nat} {expr : Expr} (covers : shader.Covers depth expr) :
    shader.Final (shader.substituteWithin depth expr) := by
  induction depth generalizing expr with
  | zero => exact covers.elim
  | succ depth ih => exact final_substituteWith expr fun value isValue => ih (covers value isValue)

end Final

section Depth

/-- Only what is made of the values that are put in matters. -/
theorem substituteWith_congr {deep other : Expr → Expr} (expr : Expr)
    (same : ∀ value ∈ shader.inlinedIn expr, deep value = other value) :
    shader.substituteWith deep expr = shader.substituteWith other expr := by
  induction expr using Expr.induct with
  | literal value => rw [substituteWith, substituteWith]
  | ref id =>
    rw [substituteWith, substituteWith]
    cases isInlined : shader.inlined? id with
    | none => rfl
    | some value => exact same value (mem_inlinedIn.mpr ⟨id, List.mem_singleton_self _, isInlined⟩)
  | construct made args inner =>
    rw [inlinedIn_construct] at same
    rw [substituteWith, substituteWith, substituteArgs_eq, substituteArgs_eq,
      List.map_congr_left fun arg isArg => inner arg isArg fun value isValue =>
        same value (List.mem_flatMap_of_mem isArg isValue)]
  | binary op lhs rhs left right =>
    simp only [inlinedIn, Expr.marks, List.filterMap_append, List.forall_mem_append] at same
    rw [substituteWith, substituteWith, left same.1, right same.2]
  | unary op fixity operand inner => rw [substituteWith, substituteWith, inner same]
  | ternary condition yes no first second third =>
    simp only [inlinedIn, Expr.marks, List.filterMap_append, List.forall_mem_append] at same
    rw [substituteWith, substituteWith, first same.1.1, second same.1.2, third same.2]
  | subscript object index outer inner =>
    simp only [inlinedIn, Expr.marks, List.filterMap_append, List.forall_mem_append] at same
    rw [substituteWith, substituteWith, outer same.1, inner same.2]
  | member object name inner => rw [substituteWith, substituteWith, inner same]
  | swizzle object components inner => rw [substituteWith, substituteWith, inner same]
  | call callee args inner =>
    rw [inlinedIn_call] at same
    rw [substituteWith, substituteWith, substituteArgs_eq, substituteArgs_eq,
      List.map_congr_left fun arg isArg => inner arg isArg fun value isValue =>
        same value (List.mem_flatMap_of_mem isArg isValue)]

/-- More than enough depth changes nothing. -/
theorem Covers.substituteWithin_succ {depth : Nat} {expr : Expr}
    (covers : shader.Covers depth expr) :
    shader.substituteWithin (depth + 1) expr = shader.substituteWithin depth expr := by
  induction depth generalizing expr with
  | zero => exact covers.elim
  | succ depth ih => exact substituteWith_congr expr fun value isValue => ih (covers value isValue)

/-- Variables that are listed once each are no more than there are. -/
theorem length_le_of_nodup {path : List VarId} {size : Nat} (distinct : path.Nodup)
    (known : ∀ id ∈ path, id.index < size) : path.length ≤ size := by
  have indices : (path.map VarId.index).Nodup :=
    distinct.map fun _ _ same => congrArg VarId.mk same
  have inRange : path.map VarId.index ⊆ List.range size := by
    intro index isIndex
    obtain ⟨id, isId, rfl⟩ := List.mem_map.mp isIndex
    exact List.mem_range.mpr (known id isId)
  have short := (indices.subperm inRange).length_le
  rwa [List.length_map, List.length_range] at short

/-- A variable that is replaced by its value is registered. -/
theorem known_of_inlined? {id : VarId} {value : Expr}
    (isInlined : shader.inlined? id = some value) : id.index < shader.registry.size := by
  unfold inlined? at isInlined
  cases found : shader.var? id with
  | none => simp [found] at isInlined
  | some record => exact (Array.getElem?_eq_some_iff.mp found).1

/-- Where no value leads back to itself, every chain of values ends before the variables do. -/
theorem Acyclic.covers (acyclic : shader.Acyclic) (expr : Expr) :
    shader.Covers shader.inlineDepth expr := by
  -- The variables passed so far are all different, for each of them leads to every later one.
  suffices onward : ∀ (depth : Nat) (path : List VarId) (expr : Expr), path.Nodup →
      (∀ id ∈ path, id.index < shader.registry.size) → depth + path.length = shader.inlineDepth →
      (∀ id ∈ path, ∀ other, .reference other ∈ expr.marks →
        Relation.TransGen shader.Leads id other) → shader.Covers depth expr from
    onward shader.inlineDepth [] expr List.nodup_nil nofun rfl nofun
  intro depth
  induction depth with
  | zero =>
    intro path expr distinct known isDepth _
    have short := length_le_of_nodup distinct known
    unfold inlineDepth at isDepth
    omega
  | succ depth ih =>
    intro path expr distinct known isDepth leads value isValue
    obtain ⟨id, isMark, isInlined⟩ := mem_inlinedIn.mp isValue
    have isNew : id ∉ path := fun isOld => acyclic id (leads id isOld id isMark)
    refine ih (id :: path) value (List.nodup_cons.mpr ⟨isNew, distinct⟩) ?_ ?_ ?_
    · exact List.forall_mem_cons.mpr ⟨known_of_inlined? isInlined, known⟩
    · rw [List.length_cons]
      omega
    · intro earlier isEarlier other isOther
      have step : shader.Leads id other := ⟨value, isInlined, isOther⟩
      obtain rfl | isEarlier := List.mem_cons.mp isEarlier
      · exact .single step
      · exact (leads earlier isEarlier id isMark).tail step

end Depth

section Unique

/-- A replacement of one argument that changes nothing in the end changes no argument. -/
theorem map_set_eq {args : List Expr} {position : Nat} {old new : Expr} {change : Expr → Expr}
    (isArg : args[position]? = some old) (same : change new = change old) :
    (args.set position new).map change = args.map change := by
  rw [List.map_set, same]
  apply List.ext_getElem?
  intro index
  rw [List.getElem?_set]
  split_ifs with here inside
  · rw [← here, List.getElem?_map, isArg]
    rfl
  · rw [← here, List.getElem?_eq_none (Nat.le_of_not_lt inside)]
  · rfl

/-- Whatever is replaced first, the end is the same. -/
theorem Acyclic.substituted_eq (acyclic : shader.Acyclic) {expr next : Expr}
    (replaces : shader.Replaces expr next) :
    shader.substituted next = shader.substituted expr := by
  have unfolded : ∀ expr, shader.substituted expr =
      shader.substituteWith (shader.substituteWithin shader.registry.size) expr := fun _ => rfl
  induction replaces with
  | @value id value isInlined =>
    have covers : shader.Covers shader.registry.size value :=
      acyclic.covers (.ref id) value
        (mem_inlinedIn.mpr ⟨id, List.mem_singleton_self _, isInlined⟩)
    rw [unfolded (.ref id), substituteWith, isInlined]
    exact covers.substituteWithin_succ
  | @forward expr only passes =>
    obtain ⟨made, rfl, isForward⟩ := Expr.passThrough?_eq_some_iff.mp passes
    rw [unfolded (.construct made [only]), substituteWith, substituteArgs_eq, Expr.passed,
      List.map_singleton, Expr.passThrough?, if_pos isForward]
    rfl
  | @arg made args position old new isArg _ ih =>
    rw [unfolded, unfolded] at ih ⊢
    rw [substituteWith, substituteWith, substituteArgs_eq, substituteArgs_eq, map_set_eq isArg ih]
  | lhs _ ih | rhs _ ih | operand _ ih | condition _ ih | yes _ ih | no _ ih | object _ ih
  | index _ ih | member _ ih | swizzle _ ih =>
    rw [unfolded, unfolded] at ih ⊢
    rw [substituteWith, substituteWith, ih]
  | @callArg callee args position old new isArg _ ih =>
    rw [unfolded, unfolded] at ih ⊢
    rw [substituteWith, substituteWith, substituteArgs_eq, substituteArgs_eq, map_set_eq isArg ih]

end Unique

section Text

variable {dialect : Dialect} {deep outer : Expr → Naming String}
  {rank outerRank : Expr → Naming Rank} {change : Expr → Expr}

/-- Whether one expression is ranked and written as another, each given how its values are. -/
structure Twin (shader : Shader) (dialect : Dialect) (deep : Expr → Naming String)
    (rank : Expr → Naming Rank) (outer : Expr → Naming String) (outerRank : Expr → Naming Rank)
    (expr other : Expr) : Prop where
  ranks : shader.rankWith dialect rank expr = shader.rankWith dialect outerRank other
  texts : shader.writeWith dialect deep rank expr = shader.writeWith dialect outer outerRank other

/-- Arguments are written as other arguments if they are so one by one. -/
theorem writeArgs_twins {args : List Expr}
    (each : ∀ arg ∈ args, shader.Twin dialect deep rank outer outerRank arg (change arg)) :
    shader.writeArgs dialect deep rank args =
      shader.writeArgs dialect outer outerRank (args.map change) := by
  induction args with
  | nil => rw [List.map_nil, writeArgs, writeArgs]
  | cons arg rest ih =>
    rw [List.forall_mem_cons] at each
    rw [List.map_cons, writeArgs, writeArgs, each.1.ranks, each.1.texts, ih each.2]

/-- A construction is written as that of other arguments if the arguments are, also where it only
passes its argument on. -/
theorem twin_construct {made : Construction} {args : List Expr}
    (each : ∀ arg ∈ args, shader.Twin dialect deep rank outer outerRank arg (change arg)) :
    shader.Twin dialect deep rank outer outerRank (.construct made args)
      (Expr.construct made (args.map change)).passed := by
  have all := writeArgs_twins each
  rcases args with _ | ⟨only, _ | ⟨second, rest⟩⟩
  · refine ⟨rfl, ?_⟩
    rw [List.map_nil, Expr.passed_of_none rfl, writeWith, writeWith, all, List.map_nil]
    all_goals simp
  · rw [List.forall_mem_singleton] at each
    rw [List.map_singleton]
    by_cases isForward : made.status = .forward
    · have passes : (Expr.construct made [change only]).passThrough? = some (change only) :=
        if_pos isForward
      rw [Expr.passed_of_some passes]
      constructor
      · rw [rankWith, if_neg fun call => call.1 isForward, each.ranks]
      · rw [writeWith, if_pos isForward, each.texts]
    · have stays : (Expr.construct made [change only]).passThrough? = none := if_neg isForward
      rw [Expr.passed_of_none stays]
      constructor
      · rw [rankWith, rankWith, each.ranks]
      · rw [writeWith, writeWith, if_neg isForward, if_neg isForward, each.ranks, each.texts]
  · refine ⟨rfl, ?_⟩
    rw [List.map_cons, List.map_cons, Expr.passed_of_none rfl, writeWith, writeWith, all]
    · rfl
    all_goals simp

/-- An expression is written as it is with everything replaced, if the values put in it are. -/
theorem twin_substituteWith (expr : Expr)
    (each : ∀ value ∈ shader.inlinedIn expr,
      rank value = shader.rankWith dialect outerRank (change value) ∧
        deep value = shader.writeWith dialect outer outerRank (change value)) :
    shader.Twin dialect deep rank outer outerRank expr (shader.substituteWith change expr) := by
  induction expr using Expr.induct with
  | literal value =>
    rw [substituteWith]
    exact ⟨by rw [rankWith, rankWith], by rw [writeWith, writeWith]⟩
  | ref id =>
    rw [substituteWith]
    cases isInlined : shader.inlined? id with
    | none =>
      obtain ⟨name, isName⟩ := binding_of_named isInlined
      constructor
      · rw [Option.elim_none, rankWith, rankWith, isName, bind_map_left, bind_map_left]
      · rw [Option.elim_none, writeWith, writeWith, isName, bind_map_left, bind_map_left]
    | some value =>
      obtain ⟨isRank, isText⟩ :=
        each value (mem_inlinedIn.mpr ⟨id, List.mem_singleton_self _, isInlined⟩)
      constructor
      · rw [rankWith, binding_of_inlined isInlined, pure_bind, Option.elim_some, ← isRank]
      · rw [writeWith, binding_of_inlined isInlined, pure_bind, Option.elim_some, ← isText]
  | construct made args inner =>
    rw [inlinedIn_construct] at each
    rw [substituteWith, substituteArgs_eq]
    exact twin_construct fun arg isArg => inner arg isArg fun value isValue =>
      each value (List.mem_flatMap_of_mem isArg isValue)
  | binary op lhs rhs left right =>
    simp only [inlinedIn, Expr.marks, List.filterMap_append, List.forall_mem_append] at each
    have left := left each.1
    have right := right each.2
    rw [substituteWith]
    exact ⟨by rw [rankWith, rankWith],
      by rw [writeWith, writeWith, left.ranks, left.texts, right.ranks, right.texts]⟩
  | unary op fixity operand inner =>
    have inner := inner each
    rw [substituteWith]
    exact ⟨by rw [rankWith, rankWith], by rw [writeWith, writeWith, inner.ranks, inner.texts]⟩
  | ternary condition yes no first second third =>
    simp only [inlinedIn, Expr.marks, List.filterMap_append, List.forall_mem_append] at each
    have first := first each.1.1
    have second := second each.1.2
    have third := third each.2
    rw [substituteWith]
    exact ⟨by rw [rankWith, rankWith],
      by rw [writeWith, writeWith, first.ranks, first.texts, second.ranks, second.texts,
        third.ranks, third.texts]⟩
  | subscript object index first second =>
    simp only [inlinedIn, Expr.marks, List.filterMap_append, List.forall_mem_append] at each
    have first := first each.1
    have second := second each.2
    rw [substituteWith]
    exact ⟨by rw [rankWith, rankWith],
      by rw [writeWith, writeWith, first.ranks, first.texts, second.ranks, second.texts]⟩
  | member object name inner | swizzle object components inner =>
    have inner := inner each
    rw [substituteWith]
    exact ⟨by rw [rankWith, rankWith], by rw [writeWith, writeWith, inner.ranks, inner.texts]⟩
  | call callee args inner =>
    rw [inlinedIn_call] at each
    have all := writeArgs_twins fun arg isArg => inner arg isArg fun value isValue =>
      each value (List.mem_flatMap_of_mem isArg isValue)
    rw [substituteWith, substituteArgs_eq]
    exact ⟨by rw [rankWith, rankWith], by cases callee <;> rw [writeWith, writeWith, all]⟩

/-- At a depth that is enough, an expression is written as it is with everything replaced. -/
theorem Covers.twin {depth : Nat} {expr : Expr} (covers : shader.Covers depth expr) :
    shader.rankWithin dialect depth expr =
        shader.rankWith dialect outerRank (shader.substituteWithin depth expr) ∧
      shader.writeWithin dialect depth expr =
        shader.writeWith dialect outer outerRank (shader.substituteWithin depth expr) := by
  induction depth generalizing expr with
  | zero => exact covers.elim
  | succ depth ih =>
    have twin := twin_substituteWith expr fun value isValue => ih (covers value isValue)
    exact ⟨twin.ranks, twin.texts⟩

end Text

/-- What is reached by replacements ends in the same expression. -/
theorem Acyclic.substituted_eq_of_reaches (acyclic : shader.Acyclic) {expr other : Expr}
    (reaches : shader.Reaches expr other) :
    shader.substituted other = shader.substituted expr := by
  induction reaches with
  | refl => rfl
  | tail _ replaces ih => rw [acyclic.substituted_eq replaces, ih]

/-- An expression in which nothing is left to replace is the end of its replacements. -/
theorem Final.eq_of_reaches {expr other : Expr} (final : shader.Final expr)
    (reaches : shader.Reaches expr other) : other = expr := by
  cases reaches.cases_head with
  | inl same => exact same.symm
  | inr further =>
    obtain ⟨next, replaces, -⟩ := further
    exact absurd replaces (final next)

/-- What is written of an expression is what is written of it with everything replaced, whatever
values would be written as. -/
theorem Acyclic.write_eq (acyclic : shader.Acyclic) (dialect : Dialect)
    (outer : Expr → Naming String) (outerRank : Expr → Naming Rank) (expr : Expr) :
    shader.rankOf dialect expr = shader.rankWith dialect outerRank (shader.substituted expr) ∧
      shader.write dialect expr =
        shader.writeWith dialect outer outerRank (shader.substituted expr) :=
  (acyclic.covers expr).twin

/-- No replacement changes what is written. -/
theorem Acyclic.same_of_reaches (acyclic : shader.Acyclic) (dialect : Dialect) {expr other : Expr}
    (reaches : shader.Reaches expr other) :
    shader.rankOf dialect other = shader.rankOf dialect expr ∧
      shader.write dialect other = shader.write dialect expr := by
  -- Both are written as one end; how values are written does not matter to it.
  have written := acyclic.write_eq dialect (shader.write dialect) (shader.rankOf dialect)
  rw [(written other).1, (written other).2, (written expr).1, (written expr).2,
    acyclic.substituted_eq_of_reaches reaches]
  exact ⟨rfl, rfl⟩

/-- Where values speak of older variables alone, none leads back to itself. -/
theorem acyclic_of_older (older : ∀ id other, shader.Leads id other → other.index < id.index) :
    shader.Acyclic := by
  have below : ∀ {id other}, Relation.TransGen shader.Leads id other → other.index < id.index := by
    intro id other leads
    induction leads with
    | single step => exact older _ _ step
    | tail _ step ih => exact Nat.lt_trans (older _ _ step) ih
  exact fun id leads => Nat.lt_irrefl _ (below leads)

/-- Where no value leads back to itself, replacing references to inlined variables by their values
and forwards by their arguments comes to one end. An expression is ranked and written as that end
is, from the same names to the same names or to the same failure, and so is everything on the way
there: an inlined value gets parentheses in any place exactly as if it had been written there. The
end is written without asking how any value is. -/
theorem write_substituted (acyclic : shader.Acyclic) (expr : Expr) :
    (∀ final, shader.Reaches expr final ∧ shader.Final final ↔ final = shader.substituted expr) ∧
    ∀ dialect names,
      shader.rankOf dialect expr names = shader.rankOf dialect (shader.substituted expr) names ∧
      shader.write dialect expr names = shader.write dialect (shader.substituted expr) names ∧
      (∀ parent wrapTies,
        enclosed parent wrapTies (shader.rankOf dialect expr) (shader.write dialect expr) names =
          enclosed parent wrapTies (shader.rankOf dialect (shader.substituted expr))
            (shader.write dialect (shader.substituted expr)) names) ∧
      (∀ other, shader.Reaches expr other →
        shader.rankOf dialect other names = shader.rankOf dialect expr names ∧
          shader.write dialect other names = shader.write dialect expr names) ∧
      ∀ deep rank, shader.write dialect expr names =
        shader.writeWith dialect deep rank (shader.substituted expr) names := by
  have reaches : shader.Reaches expr (shader.substituted expr) := reaches_substituteWithin _ expr
  refine ⟨fun final => ⟨?_, ?_⟩, fun dialect names => ?_⟩
  · rintro ⟨reachesToo, isFinal⟩
    rw [← acyclic.substituted_eq_of_reaches reachesToo]
    exact (isFinal.eq_of_reaches (reaches_substituteWithin _ final)).symm
  · rintro rfl
    exact ⟨reaches, final_substituteWithin (acyclic.covers expr)⟩
  · obtain ⟨ranks, texts⟩ := acyclic.same_of_reaches dialect reaches
    refine ⟨by rw [ranks], by rw [texts], fun parent wrapTies => by rw [ranks, texts], ?_, ?_⟩
    · intro other reachesOther
      obtain ⟨ranks, texts⟩ := acyclic.same_of_reaches dialect reachesOther
      exact ⟨by rw [ranks], by rw [texts]⟩
    · intro deep rank
      rw [(acyclic.write_eq dialect deep rank expr).2]

/-- Two named variables, a forward of their sum, and a value out of sight that is made from it. -/
def nestedShader : Shader where
  tree := (Tree.empty.push .root (.statement (.construct
      ⟨⟨2⟩, .scalar .float, .forward, .none, none⟩ [.binary .add (.ref ⟨0⟩) (.ref ⟨1⟩)]))).push
    .root (.statement (.construct
      ⟨⟨3⟩, .scalar .float, .initialisation, .none, none⟩ [.ref ⟨2⟩]))
  registry := (((Registry.empty.create (.scalar .float) .scalar (some "a") .declaration).create
    (.scalar .float) .scalar (some "b") .declaration).create
    (.scalar .float) .scalar none .forward).create (.scalar .float) .scalar none .temporary

/-- In `nestedShader` the values of variables speak of older variables. -/
theorem acyclic_nestedShader : nestedShader.Acyclic := by
  refine acyclic_of_older fun id other leads => ?_
  obtain ⟨value, isInlined, isMark⟩ := leads
  have known : id.index < 4 := known_of_inlined? isInlined
  obtain ⟨index⟩ := id
  match index, known with
  | 0, _ | 1, _ => cases isInlined
  | 2, _ =>
    obtain rfl := Option.some.inj isInlined
    have isOther : other = ⟨0⟩ ∨ other = ⟨1⟩ := by simpa [Expr.marks, Expr.marksOf] using isMark
    obtain rfl | rfl := isOther <;> decide
  | 3, _ =>
    obtain rfl := Option.some.inj isInlined
    have isOther : other = ⟨2⟩ := by simpa [Expr.marks, Expr.marksOf] using isMark
    rw [isOther]
    decide

/-- In `nestedShader` a product with the last variable is written as one with the sum itself. -/
theorem write_substituted_nested :
    nestedShader.Acyclic ∧
    nestedShader.substituted (.binary .mul (.ref ⟨3⟩) (.int 2)) =
      .binary .mul (.construct ⟨⟨3⟩, .scalar .float, .initialisation, .none, none⟩
        [.binary .add (.ref ⟨0⟩) (.ref ⟨1⟩)]) (.int 2) ∧
    ∀ names, nestedShader.write .glsl (.binary .mul (.ref ⟨3⟩) (.int 2)) names =
      nestedShader.write .glsl (.binary .mul
        (.construct ⟨⟨3⟩, .scalar .float, .initialisation, .none, none⟩
          [.binary .add (.ref ⟨0⟩) (.ref ⟨1⟩)]) (.int 2)) names :=
  ⟨acyclic_nestedShader, rfl, fun names =>
    ((write_substituted acyclic_nestedShader _).2 .glsl names).2.1⟩

end Shader

end ShaderLoom
