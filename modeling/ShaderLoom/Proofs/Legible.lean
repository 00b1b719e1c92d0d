import ShaderLoom.Proofs.Writable
import ShaderLoom.Text.Shader

/-!
# Expressions that can be written

A computation of the writer is shown to succeed in whatever state it starts (`Gives`). In a legible
shader (`Shader.Legible`) all variables are registered, a value that is written where it is used is
made from older variables, and a variable without a value is never written as one; so every
expression that speaks of registered variables can be written (`Shader.Legible.succeeds_write`).
-/
namespace ShaderLoom

/-- Whether a computation succeeds in every state, with a result as described. -/
def Gives {σ ε α : Type} (work : StateT σ (Except ε) α) (good : α → Prop) : Prop :=
  ∀ state, ∃ value later, work state = .ok (value, later) ∧ good value

/-- Whether a computation succeeds in every state. -/
abbrev Succeeds {σ ε α : Type} (work : StateT σ (Except ε) α) : Prop := Gives work fun _ => True

namespace Gives

variable {σ ε α β : Type} {work : StateT σ (Except ε) α} {good : α → Prop}

/-- An answer succeeds. -/
theorem pure {value : α} (isGood : good value) :
    Gives (Pure.pure value : StateT σ (Except ε) α) good :=
  fun state => ⟨value, state, rfl, isGood⟩

/-- One thing after another succeeds if both do. -/
theorem bind {next : α → StateT σ (Except ε) β} {fine : β → Prop} (first : Gives work good)
    (second : ∀ value, good value → Gives (next value) fine) : Gives (work >>= next) fine := by
  intro state
  obtain ⟨value, middle, ran, isGood⟩ := first state
  obtain ⟨result, later, ranNext, isFine⟩ := second value isGood middle
  refine ⟨result, later, ?_, isFine⟩
  show (work state >>= fun found => next found.1 found.2) = _
  rw [ran]
  exact ranNext

/-- A changed answer succeeds as the answer does. -/
theorem map {change : α → β} {fine : β → Prop} (first : Gives work good)
    (changed : ∀ value, good value → fine (change value)) : Gives (change <$> work) fine := by
  intro state
  obtain ⟨value, later, ran, isGood⟩ := first state
  refine ⟨change value, later, ?_, changed value isGood⟩
  show (work state >>= fun found => Pure.pure (change found.1, found.2)) = _
  rw [ran]
  rfl

end Gives

/-- To look at the state and go on succeeds if going on does. -/
theorem Gives.get {σ ε α : Type} {next : σ → StateT σ (Except ε) α} {good : α → Prop}
    (goesOn : ∀ state, Gives (next state) good) : Gives (MonadState.get >>= next) good :=
  fun state => goesOn state state

/-- A new state can be set. -/
theorem succeeds_set {σ ε : Type} (later : σ) :
    Succeeds (set later : StateT σ (Except ε) PUnit) :=
  fun _ => ⟨⟨⟩, later, rfl, trivial⟩

/-- A change of the state succeeds. -/
theorem succeeds_modify {σ ε : Type} (change : σ → σ) :
    Succeeds (modify change : StateT σ (Except ε) PUnit) :=
  fun state => ⟨⟨⟩, change state, rfl, trivial⟩

/-- An outcome that is no failure succeeds. -/
theorem gives_lift {σ ε α : Type} {outcome : Except ε α} {value : α} (isOk : outcome = .ok value) :
    Gives (liftM outcome : StateT σ (Except ε) α) (· = value) := by
  intro state
  refine ⟨value, state, ?_, rfl⟩
  rw [isOk]
  rfl

namespace Drafting

/-- A text is worked out as it is. -/
theorem gives_wording {α : Type} {text : Naming α} {good : α → Prop} (first : Gives text good) :
    Gives (wording text) good := by
  intro draft
  obtain ⟨value, names, ran, isGood⟩ := first draft.names
  refine ⟨value, { draft with names }, ?_, isGood⟩
  unfold wording
  rw [ran]
  rfl

/-- A line can be written. -/
theorem succeeds_line (content : String) : Succeeds (line content) := succeeds_modify _

/-- A gap can be left. -/
theorem succeeds_gap : Succeeds gap := succeeds_modify _

/-- What can be written can be written one level deeper. -/
theorem succeeds_deeper {content : Drafting Unit} (inner : Succeeds content) :
    Succeeds (deeper content) :=
  (succeeds_modify _).bind fun _ _ => inner.bind fun _ _ => succeeds_modify _

end Drafting

/-- A list of things can be written if each of them can. -/
theorem succeeds_forM {σ ε α : Type} {items : List α} {write : α → StateT σ (Except ε) PUnit}
    (each : ∀ item ∈ items, Succeeds (write item)) : Succeeds (items.forM write) := by
  induction items with
  | nil => exact .pure trivial
  | cons item items ih =>
    rw [List.forall_mem_cons] at each
    exact each.1.bind fun _ _ => ih each.2

/-- A list of texts can be worked out if each of them can. -/
theorem succeeds_mapM {σ ε α β : Type} {items : List α} {write : α → StateT σ (Except ε) β}
    (each : ∀ item ∈ items, Succeeds (write item)) : Succeeds (items.mapM write) := by
  induction items with
  | nil => exact .pure trivial
  | cons item items ih =>
    rw [List.forall_mem_cons] at each
    rw [List.mapM_cons]
    exact each.1.bind fun _ _ => (ih each.2).bind fun _ _ => .pure trivial

/-- An operand can be written in its place if it can be written. -/
theorem succeeds_enclosed {parent : Rank} {wrapTies : Bool} {rank : Naming Rank}
    {text : Naming String} (ranked : Succeeds rank) (written : Succeeds text) :
    Succeeds (enclosed parent wrapTies rank text) := by
  refine ranked.bind fun child _ => written.bind fun text _ => ?_
  split
  · exact .pure trivial
  · exact .pure trivial

/-- The instructions of a block stand at addresses in it. -/
theorem Tree.exists_site {tree : Tree} {id : BlockId} {block : Block} {instr : Instruction}
    (found : tree.block? id = some block) (isInstr : instr ∈ block.instructions.toList) :
    ∃ site, site.block = id ∧ tree.instruction? site = some instr := by
  obtain ⟨index, isAt⟩ := List.mem_iff_getElem?.mp isInstr
  rw [Array.getElem?_toList] at isAt
  exact ⟨⟨id, index⟩, rfl, by simp [instruction?, found, isAt]⟩

namespace Shader

variable {shader : Shader} {dialect : Dialect}

/-- A registered variable has a name. -/
theorem succeeds_nameOf {id : VarId} (known : id.index < shader.registry.size) :
    Succeeds (shader.nameOf id) := by
  obtain ⟨record, found⟩ := Registry.exists_record known
  unfold nameOf
  apply Gives.get
  intro names
  cases names.lookup id with
  | some name => exact .pure trivial
  | none =>
    rw [var?, found]
    exact (succeeds_set _).bind fun _ _ => .pure trivial

/-- A registered variable is written as its name, or as the value it stands for. -/
theorem gives_binding {id : VarId} (known : id.index < shader.registry.size) :
    Gives (shader.binding id) fun binding =>
      ∀ value, binding = .inlined value → shader.inlined? id = some value := by
  obtain ⟨record, found⟩ := Registry.exists_record known
  have isKnown : (shader.var? id).isNone = false := by simp [var?, found]
  unfold binding
  rw [isKnown]
  cases isInlined : shader.inlined? id with
  | none => exact (succeeds_nameOf known).map fun _ _ _ isValue => nomatch isValue
  | some value => exact .pure fun _ isValue => congrArg some (Binding.inlined.inj isValue)

/-- Whether the values that variables below a bound stand for can be worked out. -/
def Follows (shader : Shader) {α : Type} (deep : Expr → Naming α) (bound : Nat) : Prop :=
  ∀ id value, id.index < bound → shader.inlined? id = some value → Succeeds (deep value)

/-- A lower bound asks for less. -/
theorem Follows.mono {α : Type} {deep : Expr → Naming α} {bound lower : Nat}
    (follows : shader.Follows deep bound) (le : lower ≤ bound) : shader.Follows deep lower :=
  fun id value known => follows id value (Nat.lt_of_lt_of_le known le)

section Exprs

variable {deep : Expr → Naming String} {rank : Expr → Naming Rank}

/-- The rank of a construction is known if the ranks of its arguments are. -/
theorem succeeds_rankWith_construct {made : Construction} {args : List Expr}
    (ranked : ∀ arg ∈ args, Succeeds (shader.rankWith dialect rank arg)) :
    Succeeds (shader.rankWith dialect rank (.construct made args)) := by
  match args with
  | [] => exact .pure trivial
  | [only] =>
    rw [rankWith]
    split
    · exact .pure trivial
    · exact ranked only List.mem_cons_self
  | _ :: _ :: _ => exact .pure trivial

/-- The rank of an expression is known if the ranks of the values in it are. -/
theorem succeeds_rankWith {bound : Nat} (le : bound ≤ shader.registry.size)
    (ranks : shader.Follows rank bound) {expr : Expr} (within : expr.Within bound) :
    Succeeds (shader.rankWith dialect rank expr) := by
  induction within with
  | ref known =>
    refine (gives_binding (Nat.lt_of_lt_of_le known le)).bind fun binding isBinding => ?_
    cases binding with
    | named name => exact .pure trivial
    | inlined value => exact ranks _ value known (isBinding value rfl)
  | construct known _ _ _ older =>
    apply succeeds_rankWith_construct
    intro arg isArg
    exact older arg isArg (by omega) (ranks.mono (Nat.le_of_lt known))
  | _ => exact .pure trivial

/-- Arguments can be written if each of them can. -/
theorem succeeds_writeArgs {args : List Expr}
    (ranked : ∀ arg ∈ args, Succeeds (shader.rankWith dialect rank arg))
    (written : ∀ arg ∈ args, Succeeds (shader.writeWith dialect deep rank arg)) :
    Succeeds (shader.writeArgs dialect deep rank args) := by
  induction args with
  | nil =>
    rw [writeArgs]
    exact .pure trivial
  | cons arg args ih =>
    rw [List.forall_mem_cons] at ranked written
    rw [writeArgs]
    refine (succeeds_enclosed ranked.1 written.1).bind fun _ _ => ?_
    exact (ih ranked.2 written.2).bind fun _ _ => .pure trivial

/-- A construction that has a value to show can be written if its arguments can. -/
theorem succeeds_writeWith_construct {made : Construction} {args : List Expr}
    (valued : made.flags.parenthesis = true ∨ args ≠ [])
    (ranked : ∀ arg ∈ args, Succeeds (shader.rankWith dialect rank arg))
    (written : ∀ arg ∈ args, Succeeds (shader.writeWith dialect deep rank arg)) :
    Succeeds (shader.writeWith dialect deep rank (.construct made args)) := by
  have all := succeeds_writeArgs ranked written
  match args with
  | [only] =>
    rw [List.forall_mem_singleton] at ranked written
    rw [writeWith]
    split
    · exact written
    · dsimp only
      split
      · exact (succeeds_enclosed ranked written).bind fun _ _ => .pure trivial
      · exact written.bind fun _ _ => .pure trivial
  | [] =>
    obtain parenthesis | isEmpty := valued
    · rw [writeWith, if_pos parenthesis]
      · exact all.bind fun _ _ => .pure trivial
      · simp
    · exact absurd rfl isEmpty
  | first :: second :: rest =>
    rw [writeWith]
    · split
      · exact all.bind fun _ _ => .pure trivial
      · exact all.bind fun _ _ => .pure trivial
    · simp

/-- An expression can be written if the values in it can. -/
theorem succeeds_writeWith {bound : Nat} (le : bound ≤ shader.registry.size)
    (ranks : shader.Follows rank bound) (texts : shader.Follows deep bound) {expr : Expr}
    (within : expr.Within bound) : Succeeds (shader.writeWith dialect deep rank expr) := by
  induction within with
  | literal value =>
    rw [writeWith]
    exact .pure trivial
  | ref known =>
    rw [writeWith]
    refine (gives_binding (Nat.lt_of_lt_of_le known le)).bind fun binding isBinding => ?_
    cases binding with
    | named name => exact .pure trivial
    | inlined value => exact texts _ value known (isBinding value rfl)
  | @construct bound made args known _ valued older written =>
    have lower : made.var.index ≤ shader.registry.size := by omega
    refine succeeds_writeWith_construct valued ?_ ?_
    · intro arg isArg
      exact succeeds_rankWith lower (ranks.mono (Nat.le_of_lt known)) (older arg isArg)
    · intro arg isArg
      exact written arg isArg lower (ranks.mono (Nat.le_of_lt known))
        (texts.mono (Nat.le_of_lt known))
  | binary left right writtenLeft writtenRight =>
    rw [writeWith]
    refine (succeeds_enclosed (succeeds_rankWith le ranks left)
      (writtenLeft le ranks texts)).bind fun _ _ => ?_
    refine (succeeds_enclosed (succeeds_rankWith le ranks right)
      (writtenRight le ranks texts)).bind fun _ _ => ?_
    exact .pure trivial
  | @unary _ op fixity operand inner written =>
    rw [writeWith]
    refine (succeeds_enclosed (succeeds_rankWith le ranks inner)
      (written le ranks texts)).bind fun _ _ => ?_
    cases fixity <;> exact .pure trivial
  | ternary first second third writtenFirst writtenSecond writtenThird =>
    rw [writeWith]
    refine (succeeds_enclosed (succeeds_rankWith le ranks first)
      (writtenFirst le ranks texts)).bind fun _ _ => ?_
    refine (succeeds_enclosed (succeeds_rankWith le ranks second)
      (writtenSecond le ranks texts)).bind fun _ _ => ?_
    refine (succeeds_enclosed (succeeds_rankWith le ranks third)
      (writtenThird le ranks texts)).bind fun _ _ => ?_
    exact .pure trivial
  | subscript outer inner writtenOuter writtenInner =>
    rw [writeWith]
    refine (succeeds_enclosed (succeeds_rankWith le ranks outer)
      (writtenOuter le ranks texts)).bind fun _ _ => ?_
    refine (succeeds_enclosed (succeeds_rankWith le ranks inner)
      (writtenInner le ranks texts)).bind fun _ _ => ?_
    exact .pure trivial
  | member inner written | swizzle inner written =>
    rw [writeWith]
    exact (succeeds_enclosed (succeeds_rankWith le ranks inner)
      (written le ranks texts)).bind fun _ _ => .pure trivial
  | @call _ callee args known inner written =>
    have args : Succeeds (shader.writeArgs dialect deep rank args) :=
      succeeds_writeArgs (fun arg isArg => succeeds_rankWith le ranks (inner arg isArg))
        fun arg isArg => written arg isArg le ranks texts
    cases callee with
    | builtin name =>
      have spelled : Succeeds (pure (dialect.builtin name) : Naming String) := .pure trivial
      rw [writeWith]
      exact spelled.bind fun _ _ => args.bind fun _ _ => .pure trivial
    | function id =>
      rw [writeWith]
      refine (succeeds_nameOf (Nat.lt_of_lt_of_le (known id rfl) le)).bind fun _ _ => ?_
      exact args.bind fun _ _ => .pure trivial

end Exprs

/-- A declared variable can be written. -/
theorem succeeds_writeDeclaration {made : Construction}
    (known : made.var.index < shader.registry.size) :
    Succeeds (shader.writeDeclaration dialect made) := by
  refine (succeeds_nameOf known).bind fun name _ => ?_
  cases made.qualifier <;> exact .pure trivial

/-- A variable with a status is registered. -/
theorem known_of_status? {registry : Registry} {id : VarId} {status : Status}
    (isStatus : registry.status? id = some status) : id.index < registry.size := by
  obtain ⟨record, found, -⟩ := Option.map_eq_some_iff.mp isStatus
  exact Registry.known_of_get? found

/-- What a variable is replaced by is a statement of the tree that constructs it. -/
theorem statement_of_constructionOf? {id : VarId} {value : Expr}
    (isValue : shader.constructionOf? id = some value) :
    .statement value ∈ shader.tree.instructions ∧
      ∃ made args, value = .construct made args ∧ made.var = id := by
  unfold constructionOf? at isValue
  have isOne := List.mem_reverse.mp (List.mem_of_find?_eq_some isValue)
  have ofVar := List.find?_some isValue
  simp only [constructions, List.mem_flatMap, List.mem_filterMap] at isOne
  obtain ⟨block, isBlock, instr, isInstr, isStatement⟩ := isOne
  split at isStatement
  case h_1 made args =>
    obtain rfl := Option.some.inj isStatement
    refine ⟨List.mem_flatMap.mpr ⟨block, isBlock, isInstr⟩, made, args, rfl, ?_⟩
    simpa [Expr.construction?] using ofVar
  case h_2 => cases isStatement

/-- What makes a shader one that can be written: everything stands where it belongs, with blocks of
the right kinds in its slots, and nothing is missing. -/
structure Legible (shader : Shader) : Prop where
  linked : shader.tree.Linked
  shaped : shader.tree.Shaped
  complete : ∀ site instr, shader.tree.instruction? site = some instr → instr.Complete
  writable : ∀ site instr kind, shader.tree.instruction? site = some instr →
    shader.tree.kind? site.block = some kind → instr.Writable shader.registry kind

namespace Legible

/-- A value that a variable stands for has something to show, made from older variables. -/
theorem inlined (legible : shader.Legible) {id : VarId} {value : Expr}
    (isInlined : shader.inlined? id = some value) :
    ∃ made args, value = .construct made args ∧
      (made.flags.parenthesis = true ∨ args ≠ []) ∧ ∀ arg ∈ args, arg.Within id.index := by
  unfold inlined? at isInlined
  split at isInlined
  case isFalse => cases isInlined
  case isTrue outOfSight =>
    obtain ⟨isStatement, made, args, rfl, rfl⟩ := statement_of_constructionOf? isInlined
    obtain ⟨site, isAt⟩ := Tree.mem_instructions.mp isStatement
    obtain ⟨kind, isKind⟩ := Tree.exists_kind (Tree.known_of_instruction? isAt)
    have notDeclared : shader.registry.status? made.var ≠ some .declaration := by
      intro declared
      obtain ⟨record, found, isDeclared⟩ := Option.map_eq_some_iff.mp declared
      simp [var?, found, Record.isInlined, isDeclared] at outOfSight
    have ofWithin : (Expr.construct made args).Within shader.registry.size →
        (made.flags.parenthesis = true ∨ args ≠ []) ∧
          ∀ arg ∈ args, arg.Within made.var.index := by
      intro within
      cases within with
      | construct _ _ valued older => exact ⟨valued, older⟩
    refine ⟨made, args, rfl, ofWithin ?_⟩
    cases legible.writable site _ kind isAt isKind with
    | parameter _ declared | declaration _ _ declared => exact absurd declared notDeclared
    | clause within | statement _ within => exact within
    | other _ plain => exact absurd rfl plain

/-- Values can be worked out to the depth that their variables ask for. -/
theorem follows (legible : shader.Legible) (dialect : Dialect) (depth : Nat)
    (le : depth ≤ shader.registry.size) :
    shader.Follows (shader.rankWithin dialect depth) depth ∧
      shader.Follows (shader.writeWithin dialect depth) depth := by
  induction depth with
  | zero => exact ⟨nofun, nofun⟩
  | succ depth ih =>
    obtain ⟨ranks, texts⟩ := ih (Nat.le_of_succ_le le)
    -- What a variable stands for speaks of variables before it, whose values take one step less.
    have lower : ∀ id : VarId, id.index < depth + 1 → id.index ≤ depth := fun _ => Nat.le_of_lt_succ
    constructor
    · intro id value known isInlined
      obtain ⟨made, args, rfl, -, older⟩ := legible.inlined isInlined
      apply succeeds_rankWith_construct
      intro arg isArg
      have := lower id known
      exact succeeds_rankWith (by omega) (ranks.mono this) (older arg isArg)
    · intro id value known isInlined
      obtain ⟨made, args, rfl, valued, older⟩ := legible.inlined isInlined
      have := lower id known
      refine succeeds_writeWith_construct valued ?_ ?_
      · intro arg isArg
        exact succeeds_rankWith (by omega) (ranks.mono this) (older arg isArg)
      · intro arg isArg
        exact succeeds_writeWith (by omega) (ranks.mono this) (texts.mono this)
          (older arg isArg)

/-- An expression that speaks of registered variables can be written. -/
theorem succeeds_write (legible : shader.Legible) {expr : Expr}
    (within : expr.Within shader.registry.size) : Succeeds (shader.write dialect expr) := by
  obtain ⟨ranks, texts⟩ := legible.follows dialect shader.registry.size (Nat.le_refl _)
  exact succeeds_writeWith (Nat.le_refl _) ranks texts within

end Legible

end Shader

end ShaderLoom
