import ShaderLoom.Proofs.Hands
import ShaderLoom.Proofs.Shapes

/-!
# What an honest build leaves

A build is honest (`Bench.Honest`) if it makes no reference or construction by hand, calls only
functions that were declared before, and puts nothing but values and expressions into the recorded
header of a loop. Then everything that an expression speaks of was there before it
(`Expr.Within`), a variable without a value stands as a statement of its own and nowhere else, and
every instruction stands in a block that takes it (`Instruction.Writable`).
-/
namespace ShaderLoom

/-- Whether all variables that an expression speaks of have numbers below a bound. The arguments of
a construction speak of variables older than its own, and it has a value to show. -/
inductive Expr.Within : Nat → Expr → Prop where
  | literal {bound : Nat} (value : Literal) : Within bound (.literal value)
  | ref {bound : Nat} {id : VarId} (known : id.index < bound) : Within bound (.ref id)
  | construct {bound : Nat} {made : Construction} {args : List Expr}
    (known : made.var.index < bound) (plain : made.flags.functionArgument = false)
    (valued : made.flags.parenthesis = true ∨ args ≠ [])
    (older : ∀ arg ∈ args, Within made.var.index arg) : Within bound (.construct made args)
  | binary {bound : Nat} {op : BinaryOp} {lhs rhs : Expr} (left : Within bound lhs)
    (right : Within bound rhs) : Within bound (.binary op lhs rhs)
  | unary {bound : Nat} {op : UnaryOp} {fixity : Fixity} {operand : Expr}
    (inner : Within bound operand) : Within bound (.unary op fixity operand)
  | ternary {bound : Nat} {condition yes no : Expr} (first : Within bound condition)
    (second : Within bound yes) (third : Within bound no) :
    Within bound (.ternary condition yes no)
  | subscript {bound : Nat} {object index : Expr} (outer : Within bound object)
    (inner : Within bound index) : Within bound (.subscript object index)
  | member {bound : Nat} {object : Expr} {name : String} (inner : Within bound object) :
    Within bound (.member object name)
  | swizzle {bound : Nat} {object : Expr} {components : List Component}
    (inner : Within bound object) : Within bound (.swizzle object components)
  | call {bound : Nat} {callee : Callee} {args : List Expr}
    (known : ∀ id, callee = .function id → id.index < bound)
    (inner : ∀ arg ∈ args, Within bound arg) : Within bound (.call callee args)

namespace Expr

variable {expr : Expr} {bound : Nat}

/-- A higher bound is a bound. -/
theorem Within.mono (within : expr.Within bound) {higher : Nat} (le : bound ≤ higher) :
    expr.Within higher := by
  induction within with
  | literal value => exact .literal value
  | ref known => exact .ref (Nat.lt_of_lt_of_le known le)
  | construct known plain valued older _ =>
    exact .construct (Nat.lt_of_lt_of_le known le) plain valued older
  | binary _ _ left right => exact .binary (left le) (right le)
  | unary _ inner => exact .unary (inner le)
  | ternary _ _ _ first second third => exact .ternary (first le) (second le) (third le)
  | subscript _ _ outer inner => exact .subscript (outer le) (inner le)
  | member _ inner => exact .member (inner le)
  | swizzle _ inner => exact .swizzle (inner le)
  | call known _ inner =>
    exact .call (fun id isId => Nat.lt_of_lt_of_le (known id isId) le)
      fun arg isArg => inner arg isArg le

/-- The variable that an expression constructs is one of those it speaks of. -/
theorem Within.construction (within : expr.Within bound) {made : Construction}
    (isMade : expr.construction? = some made) :
    made.var.index < bound ∧ made.flags.functionArgument = false := by
  cases within with
  | construct known plain => exact Option.some.inj isMade ▸ ⟨known, plain⟩
  | _ => cases isMade

/-- An expression speaks of what its references and constructions speak of, and of the functions it
calls. -/
theorem within_of_grafts (expr : Expr) (grafts : ∀ graft ∈ expr.grafts, graft.Within bound)
    (callees : ∀ id ∈ expr.callees, id.index < bound) : expr.Within bound := by
  induction expr using Expr.induct with
  | literal value => exact .literal value
  | ref id => exact grafts _ (List.mem_singleton.mpr rfl)
  | construct made args _ => exact grafts _ (List.mem_singleton.mpr rfl)
  | binary op lhs rhs left right =>
    simp only [Expr.grafts, Expr.callees, List.forall_mem_append] at grafts callees
    exact .binary (left grafts.1 callees.1) (right grafts.2 callees.2)
  | unary op fixity operand inner => exact .unary (inner grafts callees)
  | ternary condition yes no first second third =>
    simp only [Expr.grafts, Expr.callees, List.forall_mem_append] at grafts callees
    exact .ternary (first grafts.1.1 callees.1.1) (second grafts.1.2 callees.1.2)
      (third grafts.2 callees.2)
  | subscript object index outer inner =>
    simp only [Expr.grafts, Expr.callees, List.forall_mem_append] at grafts callees
    exact .subscript (outer grafts.1 callees.1) (inner grafts.2 callees.2)
  | member object name inner => exact .member (inner grafts callees)
  | swizzle object components inner => exact .swizzle (inner grafts callees)
  | call callee args inner =>
    rw [Expr.grafts, graftsOf_eq] at grafts
    have calleesOf : (∀ id, callee = .function id → id.index < bound) ∧
        ∀ id ∈ args.flatMap Expr.callees, id.index < bound := by
      cases callee with
      | builtin name =>
        rw [Expr.callees, calleesOf_eq] at callees
        exact ⟨nofun, callees⟩
      | function id =>
        rw [Expr.callees, calleesOf_eq, List.forall_mem_cons] at callees
        exact ⟨fun _ isId => Callee.function.inj isId ▸ callees.1, callees.2⟩
    refine .call calleesOf.1 fun arg isArg => inner arg isArg ?_ ?_
    · exact fun graft isGraft => grafts graft (List.mem_flatMap_of_mem isArg isGraft)
    · exact fun id isId => calleesOf.2 id (List.mem_flatMap_of_mem isArg isId)

end Expr

/-- Whether a block takes statements of any kind. -/
def BlockKind.isBody : BlockKind → Bool
  | .forArgs => false
  | .funcArgs => false
  | _ => true

/-- A block that is neither a header nor a parameter list is a body. -/
theorem BlockKind.isBody_of_ne {kind : BlockKind} (noHeader : kind ≠ .forArgs)
    (noSignature : kind ≠ .funcArgs) : kind.isBody := by
  cases kind with
  | forArgs => exact absurd rfl noHeader
  | funcArgs => exact absurd rfl noSignature
  | _ => rfl

/-- Whether an instruction can be written where it stands, in a block of the given kind. -/
inductive Instruction.Writable (registry : Registry) : BlockKind → Instruction → Prop where
  /-- A parameter in a parameter list. -/
  | parameter {made : Construction} {args : List Expr} (isParameter : made.flags.functionArgument)
    (declared : registry.status? made.var = some .declaration) :
    Writable registry .funcArgs (.statement (.construct made args))
  /-- A value or an expression in the header of a loop. -/
  | clause {expr : Expr} (within : expr.Within registry.size) :
    Writable registry .forArgs (.statement expr)
  /-- A variable without a value. -/
  | declaration {kind : BlockKind} {made : Construction} {args : List Expr} (isBody : kind.isBody)
    (plain : made.flags.functionArgument = false)
    (declared : registry.status? made.var = some .declaration) :
    Writable registry kind (.statement (.construct made args))
  /-- A value or an expression. -/
  | statement {kind : BlockKind} {expr : Expr} (isBody : kind.isBody)
    (within : expr.Within registry.size) : Writable registry kind (.statement expr)
  /-- Anything else. -/
  | other {kind : BlockKind} {instr : Instruction} (isBody : kind.isBody)
    (plain : instr.kind ≠ .statement) (exprs : ∀ expr ∈ instr.exprs, expr.Within registry.size)
    (names : ∀ id ∈ instr.names?, id.index < registry.size) : Writable registry kind instr

/-- Whether a registry knows at least what another knows, and keeps its declarations. -/
structure Registry.Keeps (before after : Registry) : Prop where
  size : before.size ≤ after.size
  declared : ∀ id, before.status? id = some .declaration → after.status? id = some .declaration

/-- What can be written can be written after more was registered. -/
theorem Instruction.Writable.keep {before after : Registry} {kind : BlockKind}
    {instr : Instruction} (writable : instr.Writable before kind) (keeps : before.Keeps after) :
    instr.Writable after kind := by
  cases writable with
  | parameter isParameter declared => exact .parameter isParameter (keeps.declared _ declared)
  | clause within => exact .clause (within.mono keeps.size)
  | declaration isBody plain declared => exact .declaration isBody plain (keeps.declared _ declared)
  | statement isBody within => exact .statement isBody (within.mono keeps.size)
  | other isBody plain exprs names =>
    exact .other isBody plain (fun expr isExpr => (exprs expr isExpr).mono keeps.size)
      fun id isName => Nat.lt_of_lt_of_le (names id isName) keeps.size

/-- In a parameter list stand parameters. -/
theorem Instruction.Writable.isBody_of_opens {registry : Registry} {kind : BlockKind}
    {instr : Instruction} (writable : instr.Writable registry kind)
    (plain : instr.kind ≠ .statement) : kind.isBody := by
  cases writable with
  | other isBody => exact isBody
  | _ => exact absurd rfl plain

/-- Whether a call may append to the recorded header of a loop. -/
def Call.suitsHeader : Call → Bool
  | .push _ => true
  | .construct _ _ => true
  | .constructNamed _ _ _ => true
  | .forward _ _ => true
  | .declareConst _ _ _ => true
  | _ => false

/-- Whether a call fits what the build has handed out and where it stands. -/
structure Bench.Honest (bench : Bench) (call : Call) : Prop where
  /-- Only values of the usual shapes are made, and the build does not start over. -/
  plain : call.isPlain
  /-- No reference or construction is made by hand. -/
  values : ∀ graft ∈ call.grafts, graft ∈ bench.hand.values
  /-- Only functions that were declared are called. -/
  functions : ∀ id ∈ call.callees, id ∈ bench.hand.functions
  /-- Only values and expressions go into the header of a loop. -/
  header : bench.session.inHeader → call.appends → call.suitsHeader

/-- What an honest build has handed out, and what stands in its tree. -/
structure Bench.Sound (bench : Bench) : Prop where
  values : ∀ expr ∈ bench.hand.values, expr.Within bench.session.registry.size
  functions : ∀ id ∈ bench.hand.functions, id.index < bench.session.registry.size
  shaped : bench.session.tree.Shaped
  writable : ∀ site instr kind, bench.session.tree.instruction? site = some instr →
    bench.session.tree.kind? site.block = some kind →
    instr.Writable bench.session.registry kind

namespace Session

variable {s after : Session} {call : Call}

/-- A call keeps what is registered. -/
theorem Effect.keeps (effect : s.Effect call after) : s.registry.Keeps after.registry where
  size := by
    rw [effect.size_eq]
    omega
  declared id declared := by
    obtain ⟨pushed, registry⟩ := effect.exists_pushed
    obtain ⟨record, found, isDeclared⟩ := Option.map_eq_some_iff.mp declared
    obtain ⟨later, foundLater, carries⟩ := carries_of_before found pushed
    rw [registry, Registry.status?, foundLater, Option.map_some, carries.declared isDeclared]

/-- The current block is a parameter list exactly if a parameter is accepted. -/
theorem kind_of_accepts (placed : s.Placed) (shaped : s.tree.Shaped)
    (isBody : ∀ site instr kind, s.tree.instruction? site = some instr →
      s.tree.kind? site.block = some kind → instr.kind ≠ .statement → kind.isBody)
    {isParameter : Bool} (accepted : s.accepts isParameter) {kind : BlockKind}
    (isKind : s.tree.kind? s.current = some kind) : kind = .funcArgs ↔ isParameter := by
  cases isParameter with
  | true =>
    obtain ⟨site, parent, var, overload, rest, isScopes, -, inArgs⟩ := placed.inSignature accepted
    have isOpen : Frame.function site parent var (some overload) ∈ s.scopes := by
      rw [isScopes]
      exact List.mem_cons_self
    obtain ⟨-, instr, isAt, fits⟩ := placed.stacking.instruction isOpen
    have isArgs := ((shaped.suits _ _ isAt).opened fits).1
    rw [← inArgs, isKind] at isArgs
    simpa using isArgs
  | false =>
    simp only [Bool.false_eq_true, iff_false]
    rintro rfl
    have stacking := placed.stacking
    cases isScopes : s.scopes with
    | nil =>
      rw [isScopes] at stacking
      have isRoot : s.current = .root := stacking
      rw [isRoot, shaped.root] at isKind
      cases isKind
    | cons frame rest =>
      rw [isScopes] at stacking
      obtain ⟨around, ⟨instr, isAt, holds⟩, -⟩ := stacking
      have opens : instr.kind ≠ .statement := by
        rw [holds.fits.kind_eq]
        cases frame <;> exact Kind.noConfusion
      obtain isParent | isSlot := holds.parent_or_slot
      · rw [isParent, ← around] at isKind
        cases isBody _ _ _ isAt isKind opens
      · obtain ⟨found, isFound, isFoundKind⟩ := (shaped.suits _ _ isAt).kind_of_slot isSlot
        rw [isKind] at isFoundKind
        obtain rfl := Option.some.inj isFoundKind
        have isFunction := Instruction.function_of_funcArgs isFound
        rw [holds.fits.kind_eq] at isFunction
        cases frame with
        | function site parent var overload =>
          cases overload with
          | none => simp [accepts, isScopes, Frame.accepts] at accepted
          | some opened =>
            -- The parameter list is complete, so the build stands in the body.
            have complete : opened.inSignature = false := by
              simpa [accepts, isScopes, Frame.accepts] using accepted
            have inBody : opened.body = s.current := by
              simpa [Frame.seat?, complete] using holds.seat
            obtain ⟨-, returns, isBody⟩ := (shaped.suits _ _ isAt).opened holds.fits
            rw [inBody, isKind] at isBody
            cases isBody
        | _ => cases isFunction

/-- What may be appended to a header is a statement. -/
theorem statement?_of_suitsHeader (s : Session) (suits : call.suitsHeader) :
    ∃ expr, s.statement? call = some expr := by
  cases call with
  | push | construct | constructNamed | forward | declareConst => exact ⟨_, rfl⟩
  | _ => cases suits

end Session

/-- A value or an expression can be written anywhere but in a parameter list. -/
theorem Instruction.writable_of_within {registry : Registry} {kind : BlockKind} {expr : Expr}
    (within : expr.Within registry.size) (elsewhere : kind ≠ .funcArgs) :
    (Instruction.statement expr).Writable registry kind := by
  cases kind with
  | forArgs => exact .clause within
  | funcArgs => exact absurd rfl elsewhere
  | main | plain | body => exact .statement rfl within

namespace Bench

variable {bench : Bench} {call : Call} {reply : Reply} {after : Session}

/-- What an honest call is given speaks of what is there. -/
theorem Sound.exprs (sound : bench.Sound) (honest : bench.Honest call) :
    ∀ expr ∈ call.exprs, expr.Within bench.session.registry.size := by
  intro expr isExpr
  apply Expr.within_of_grafts
  · intro graft isGraft
    exact sound.values graft (honest.values graft (List.mem_flatMap_of_mem isExpr isGraft))
  · intro id isCallee
    exact sound.functions id (honest.functions id (List.mem_flatMap_of_mem isExpr isCallee))

/-- What an honest call hands out speaks of what is there afterwards. -/
theorem Sound.answer (sound : bench.Sound) (honest : bench.Honest call)
    (ran : call.run bench.session = .ok reply after) (effect : bench.session.Effect call after)
    {expr : Expr} (isAnswer : bench.session.answer? call = some expr) :
    expr.Within after.registry.size := by
  have exprs := sound.exprs honest
  cases call with
  | use id =>
    cases isAnswer
    have known := Session.known_of_run ran (.inl rfl)
    exact .ref (Nat.lt_of_lt_of_le known effect.keeps.size)
  | consume id =>
    cases isAnswer
    have known := Session.known_of_run ran (.inr rfl)
    exact .ref (Nat.lt_of_lt_of_le known effect.keeps.size)
  | inline ty args =>
    cases isAnswer
    exact .construct (effect.next_lt rfl) rfl (.inl rfl) exprs
  | forInit ty name value =>
    cases isAnswer
    exact .construct (effect.next_lt rfl) rfl (.inr (List.cons_ne_nil _ _)) exprs
  | _ => cases isAnswer

/-- The value that an honest call makes can be written where it is pushed. -/
theorem Sound.value (sound : bench.Sound) (honest : bench.Honest call)
    (effect : bench.session.Effect call after) {spec : ValueSpec} (isSpec : call.spec? = some spec)
    {kind : BlockKind} (isKind : bench.session.tree.kind? bench.session.current = some kind)
    (signature : kind = .funcArgs ↔ spec.flags.functionArgument) :
    (Instruction.statement (spec.value bench.session.registry.next)).Writable after.registry
      kind := by
  have exprs := sound.exprs honest
  have known := effect.next_lt (Call.creates?_of_spec? isSpec)
  have status := effect.status_new (Call.creates?_of_spec? isSpec)
  have header : kind = .forArgs → call.suitsHeader := by
    rintro rfl
    exact honest.header (Session.inHeader_iff.mpr isKind) (Call.appends_of_spec? isSpec)
  cases call with
  | emit => cases honest.plain
  | construct | constructNamed =>
    cases isSpec
    exact Instruction.writable_of_within (.construct known rfl (.inl rfl) exprs)
      (by simpa [Flags.call] using signature)
  | forward | declareConst =>
    cases isSpec
    exact Instruction.writable_of_within
      (.construct known rfl (.inr (List.cons_ne_nil _ _)) exprs)
      (by simpa [Flags.none] using signature)
  | declare | declareGlobal =>
    cases isSpec
    refine .declaration (BlockKind.isBody_of_ne ?_ ?_) rfl status
    · intro inHeader
      cases header inHeader
    · simpa [Flags.none] using signature
  | declareParam =>
    cases isSpec
    obtain rfl := signature.mpr rfl
    exact .parameter rfl status
  | _ => cases isSpec

/-- A statement that an honest call pushes can be written where it is pushed. -/
theorem Sound.statement (sound : bench.Sound) (honest : bench.Honest call)
    (effect : bench.session.Effect call after) {expr : Expr}
    (given : bench.session.statement? call = some expr) {kind : BlockKind}
    (isKind : bench.session.tree.kind? bench.session.current = some kind)
    (signature : kind = .funcArgs ↔ (Instruction.statement expr).isParameter) :
    (Instruction.statement expr).Writable after.registry kind := by
  cases isSpec : call.spec? with
  | some spec =>
    rw [Session.statement?_of_spec? bench.session isSpec] at given
    obtain rfl := Option.some.inj given
    exact sound.value honest effect isSpec isKind signature
  | none =>
    cases call with
    | push pushed =>
      obtain rfl := Option.some.inj given
      have within := sound.exprs honest pushed (List.mem_singleton.mpr rfl)
      refine Instruction.writable_of_within (within.mono effect.keeps.size) ?_
      rw [Ne, signature, Instruction.isParameter, Instruction.construction?]
      cases isMade : pushed.construction? with
      | none => exact Bool.false_ne_true
      | some made =>
        rw [Option.any_some, (within.construction isMade).2]
        exact Bool.false_ne_true
    | _ => simp [Session.statement?, isSpec] at given

/-- What else an honest call pushes can be written where it is pushed. -/
theorem Sound.other (sound : bench.Sound) (honest : bench.Honest call)
    (effect : bench.session.Effect call after) {instr : Instruction} (appends : call.appends)
    (given : bench.session.statement? call = none) (plain : instr.kind ≠ .statement)
    (exprs : instr.exprs = call.exprs)
    (names : instr.names? = none ∨
      call.creates?.isSome ∧ instr.names? = some bench.session.registry.next)
    {kind : BlockKind} (isKind : bench.session.tree.kind? bench.session.current = some kind)
    (noSignature : kind ≠ .funcArgs) : instr.Writable after.registry kind := by
  have noHeader : kind ≠ .forArgs := by
    rintro rfl
    have suits := honest.header (Session.inHeader_iff.mpr isKind) appends
    obtain ⟨expr, isStatement⟩ := Session.statement?_of_suitsHeader bench.session suits
    rw [given] at isStatement
    cases isStatement
  refine .other ?_ plain ?_ ?_
  · exact BlockKind.isBody_of_ne noHeader noSignature
  · rw [exprs]
    exact fun expr isExpr => (sound.exprs honest expr isExpr).mono effect.keeps.size
  · intro id isName
    obtain isNone | ⟨creates, isNext⟩ := names
    · rw [isNone] at isName
      cases isName
    · rw [isNext] at isName
      obtain rfl := Option.some.inj isName
      obtain ⟨new, creates⟩ := Option.isSome_iff_exists.mp creates
      exact effect.next_lt creates

/-- What an honest call pushes can be written where it is pushed. -/
theorem Sound.pushed (sound : bench.Sound) (placed : bench.session.Placed)
    (honest : bench.Honest call) (effect : bench.session.Effect call after) {instr : Instruction}
    (appends : call.appends) (adds : bench.session.Appends call instr)
    (accepted : bench.session.settle.accepts instr.isParameter) {kind : BlockKind}
    (isKind : bench.session.tree.kind? bench.session.current = some kind) :
    instr.Writable after.registry kind := by
  have settled : bench.session.settle.Placed :=
    (Build.moves_settle bench.session).keeps (fun _ _ placed => Session.Placed.move placed) placed
  have signature : kind = .funcArgs ↔ instr.isParameter :=
    Session.kind_of_accepts settled sound.shaped
      (fun site instr kind isAt isKind plain =>
        (sound.writable site instr kind isAt isKind).isBody_of_opens plain) accepted isKind
  cases adds with
  | statement given => exact sound.statement honest effect given isKind signature
  | other given plain exprs names =>
    refine sound.other honest effect appends given plain exprs names isKind ?_
    rw [Ne, signature]
    cases instr with
    | statement => exact absurd rfl plain
    | _ => exact Bool.false_ne_true

/-- An amended instruction can be written where it stands. -/
theorem Sound.amended (sound : bench.Sound) (honest : bench.Honest call)
    (effect : bench.session.Effect call after) {instr amended : Instruction} {site : Address}
    {kind : BlockKind} (found : bench.session.tree.instruction? site = some instr)
    (isKind : bench.session.tree.kind? site.block = some kind) (opens : instr.kind.opens)
    (same : amended.kind = instr.kind)
    (exprs : amended.exprs.Subperm (instr.exprs ++ call.exprs))
    (names : amended.names? = instr.names?) : amended.Writable after.registry kind := by
  have plain : instr.kind ≠ .statement := by
    intro isStatement
    rw [isStatement] at opens
    cases opens
  have writable := sound.writable site instr kind found isKind
  cases writable with
  | other isBody _ oldExprs oldNames =>
    refine .other isBody (same ▸ plain) ?_ ?_
    · intro expr isExpr
      obtain isOld | isNew := List.mem_append.mp (exprs.subset isExpr)
      · exact (oldExprs expr isOld).mono effect.keeps.size
      · exact (sound.exprs honest expr isNew).mono effect.keeps.size
    · rw [names]
      exact fun id isName => Nat.lt_of_lt_of_le (oldNames id isName) effect.keeps.size
  | _ => exact absurd rfl plain

/-- A call leaves everything where it can be written. -/
theorem Sound.writable_after (sound : bench.Sound) (placed : bench.session.Placed)
    (honest : bench.Honest call) (effect : bench.session.Effect call after) :
    ∀ site instr kind, after.tree.instruction? site = some instr →
      after.tree.kind? site.block = some kind → instr.Writable after.registry kind := by
  intro site instr kind isAt isKind
  have keeps := effect.tree_keeps
  cases effect.origin placed isAt with
  | old isAt =>
    rw [keeps.kind?_eq (Tree.known_of_instruction? isAt)] at isKind
    exact (sound.writable site instr kind isAt isKind).keep effect.keeps
  | pushed here appends adds accepted =>
    rw [here, keeps.kind?_eq placed.current_known] at isKind
    exact sound.pushed placed honest effect appends adds accepted isKind
  | amended old isAt opens same exprs names =>
    rw [keeps.kind?_eq (Tree.known_of_instruction? isAt)] at isKind
    exact sound.amended honest effect isAt isKind opens same exprs names

/-- An honest call leaves a sound build sound. -/
theorem Sound.step (sound : bench.Sound) (placed : bench.session.Placed)
    (honest : bench.Honest call) (ran : call.run bench.session = .ok reply after)
    (effect : bench.session.Effect call after) : Sound ⟨after, bench.hand.take call reply⟩ := by
  constructor
  case values =>
    intro expr isValue
    obtain isOld | isNew := List.mem_append.mp isValue
    · exact (sound.values expr isOld).mono effect.keeps.size
    · rw [Call.expr?_of_run ran, Option.mem_toList] at isNew
      exact sound.answer honest ran effect isNew
  case functions =>
    intro id isFunction
    obtain isOld | isNew := List.mem_append.mp isFunction
    · exact Nat.lt_of_lt_of_le (sound.functions id isOld) effect.keeps.size
    · split at isNew
      case h_1 =>
        rw [List.mem_singleton.mp isNew, Call.var_of_beginFunc ran]
        exact effect.next_lt rfl
      case h_2 => cases isNew
  case shaped => exact effect.shaped placed sound.shaped
  case writable => exact sound.writable_after placed honest effect

/-- A build is sound at its start. -/
theorem sound_start (options : BuildOptions) : (start options).Sound := by
  constructor
  case values => exact fun _ isValue => nomatch isValue
  case functions => exact fun _ isFunction => nomatch isFunction
  case shaped => exact Session.shaped_start options
  case writable =>
    intro site instr kind isAt
    rw [start, Session.start, Tree.instruction?_empty] at isAt
    cases isAt

/-- A build is sound wherever honest calls lead without failing. -/
theorem sound_after {options : BuildOptions} {calls : List Call}
    (honest : (start options).Follows Honest calls)
    (sane : (Session.reached options calls).failure = none) :
    (Bench.after options calls).Sound := by
  refine @after_of_effects options Honest (fun _ bench => bench.Sound) ?_ (sound_start options) ?_
    calls honest sane
  · exact fun _ _ honest => honest.plain
  · intro _ bench call reply session placed sound honest ran effect
    exact sound.step placed honest ran effect

end Bench

end ShaderLoom
