import Mathlib.Data.List.Flatten
import ShaderLoom.Proofs.Shapes
import ShaderLoom.Proofs.Traces

/-!
# What is spent of what was handed out

A build is frugal (`Bench.Frugal`) if every reference and construction that its calls are given was
handed out before and is given to no second call. Then the tree holds no more references to a
variable than were handed out, and the value of a variable once at most (`Bench.Ledger.balanced`).
The ledger also tells how often a variable was read (`Session.Tallied`), and how a pinned variable
that is written in place came about, for such a variable may be read more than once.
-/
namespace ShaderLoom

open Registry (Event)

/-- What an expression holds of variables is what its references and constructions hold. -/
theorem Expr.marks_eq (expr : Expr) : expr.marks = expr.grafts.flatMap Expr.marks := by
  induction expr using Expr.induct with
  | literal value => rfl
  | ref id => rfl
  | construct made args _ => rw [grafts, List.flatMap_singleton]
  | binary op lhs rhs left right => rw [marks, grafts, List.flatMap_append, left, right]
  | unary op fixity operand inner => rw [marks, grafts, inner]
  | ternary condition yes no first second third =>
    rw [marks, grafts, List.flatMap_append, List.flatMap_append, first, second, third]
  | subscript object index outer inner => rw [marks, grafts, List.flatMap_append, outer, inner]
  | member object name inner => rw [marks, grafts, inner]
  | swizzle object components inner => rw [marks, grafts, inner]
  | call callee args inner =>
    rw [marks, grafts, marksOf_eq, graftsOf_eq, List.flatMap_assoc]
    exact List.flatMap_congr inner

/-- What parts of a list hold, the list holds. -/
theorem subperm_flatMap {α β : Type} {part whole : List α} (isPart : part.Subperm whole)
    (holds : α → List β) : (part.flatMap holds).Subperm (whole.flatMap holds) := by
  obtain ⟨list, isPerm, isSublist⟩ := isPart
  exact (isPerm.flatMap_right holds).symm.subperm.trans (isSublist.flatMap holds).subperm

/-- What an instruction holds of variables. -/
def Instruction.marks (instr : Instruction) : List Mark := instr.exprs.flatMap Expr.marks

/-- What a tree holds of variables. -/
def Tree.marks (tree : Tree) : List Mark := tree.instructions.flatMap Instruction.marks

/-- What the expressions that a call is given hold of variables. -/
def Call.marks (call : Call) : List Mark := call.exprs.flatMap Expr.marks

/-- It is what the references and constructions among them hold. -/
theorem Call.marks_eq (call : Call) : call.marks = call.grafts.flatMap Expr.marks := by
  rw [marks, grafts, List.flatMap_assoc]
  exact List.flatMap_congr fun expr _ => expr.marks_eq

/-- The variable that a reference refers to. -/
def Expr.ref? : Expr → Option VarId
  | .ref id => some id
  | _ => none

/-- The variables that the references a call is given refer to, as often as they do. -/
def Call.mentions (call : Call) : List VarId := call.grafts.filterMap Expr.ref?

/-- A reference is held of the variable it refers to. -/
theorem count_ref?_le (exprs : List Expr) (id : VarId) :
    (exprs.filterMap Expr.ref?).count id ≤ (exprs.flatMap Expr.marks).count (.reference id) := by
  induction exprs with
  | nil => exact Nat.le_refl _
  | cons expr exprs ih =>
    rw [List.flatMap_cons, List.count_append]
    cases expr with
    | ref other =>
      rw [List.filterMap_cons_some (show Expr.ref? (.ref other) = some other from rfl),
        List.count_cons, Expr.marks, List.count_singleton]
      simp only [beq_iff_eq, Mark.reference.injEq]
      omega
    | _ =>
      rw [List.filterMap_cons_none rfl]
      omega

/-- How often something may be held of a variable: its value once it exists, and a reference to it
for every read. -/
def Registry.issued (registry : Registry) (reads : List Event) : Mark → Nat
  | .value id => if id.index < registry.size then 1 else 0
  | .reference id => reads.count (.use id) + reads.count (.consume id)

/-- What a read allows to be held of a variable. -/
def Registry.Event.mark? : Event → Option Mark
  | .use id => some (.reference id)
  | .consume id => some (.reference id)
  | _ => none

/-- Reads allow references. -/
theorem Registry.count_marks (events : List Event) (id : VarId) :
    (events.filterMap Event.mark?).count (.reference id) =
      events.count (.use id) + events.count (.consume id) := by
  induction events with
  | nil => rfl
  | cons event events ih =>
    cases event with
    | use other | consume other =>
      show (Mark.reference other :: events.filterMap Event.mark?).count (.reference id) = _
      simp only [List.count_cons, ih, beq_iff_eq, Mark.reference.injEq, Event.use.injEq,
        Event.consume.injEq, reduceCtorEq, if_false]
      omega
    | _ =>
      rw [List.filterMap_cons_none rfl, List.count_cons, List.count_cons, ih]
      simp

namespace Session

variable {s after : Session} {call : Call} {reply : Reply}

/-- What a call allows to be held of variables: the value of a variable that it makes, and a
reference for a read. -/
def issues (s : Session) (call : Call) : List Mark :=
  call.creates?.toList.map (fun _ => .value s.registry.next) ++ call.reads.filterMap Event.mark?

/-- What a call allows is allowed from then on. -/
theorem Effect.issued_le (effect : s.Effect call after) (reads : List Event) (mark : Mark) :
    s.registry.issued reads mark + (s.issues call).count mark ≤
      after.registry.issued (reads ++ call.reads) mark := by
  rw [issues, List.count_append]
  cases mark with
  | value id =>
    have noRead : (call.reads.filterMap Event.mark?).count (.value id) = 0 := by
      rw [List.count_eq_zero]
      cases call <;> simp [Call.reads, Event.mark?]
    rw [noRead, Registry.issued, Registry.issued, effect.size_eq]
    cases call.creates? with
    | none => exact Nat.le_refl _
    | some new =>
      rw [Option.toList_some, List.map_singleton, List.count_singleton, List.length_singleton]
      by_cases isNew : s.registry.next = id
      · have := congrArg VarId.index isNew
        simp only [Registry.next] at this
        simp [isNew, this]
      · simp only [beq_iff_eq, Mark.value.injEq, isNew, if_false]
        split_ifs <;> omega
  | reference id =>
    have noValue : (call.creates?.toList.map fun _ => Mark.value s.registry.next).count
        (.reference id) = 0 := by
      rw [List.count_eq_zero]
      simp
    rw [noValue, Registry.count_marks, Registry.issued, Registry.issued, List.count_append,
      List.count_append]
    omega

/-- A read hands out one reference. -/
theorem count_answer? (s : Session) (call : Call) (id : VarId) :
    ((s.answer? call).toList.filterMap Expr.ref?).count id =
      call.reads.count (.use id) + call.reads.count (.consume id) := by
  cases call with
  | use other | consume other =>
    simp [answer?, Expr.ref?, Call.reads, List.count_singleton]
  | _ => rfl

/-- What a call hands out is what it was given and what it allows. -/
theorem answer_subperm (s : Session) (call : Call) :
    ((s.answer? call).toList.flatMap Expr.marks).Subperm (call.marks ++ s.issues call) := by
  cases call with
  | use id | consume id => exact .refl _
  | inline ty args =>
    have answered : ((s.answer? (.inline ty args)).toList.flatMap Expr.marks) =
        .value s.registry.next :: args.flatMap Expr.marks := by
      rw [answer?, Option.toList_some, List.flatMap_singleton, Expr.marks, Expr.marksOf_eq]
    rw [answered]
    exact (List.perm_append_singleton _ _).symm.subperm
  | forInit ty name value =>
    have answered : ((s.answer? (.forInit ty name value)).toList.flatMap Expr.marks) =
        .value s.registry.next :: [value].flatMap Expr.marks := by
      rw [answer?, Option.toList_some, List.flatMap_singleton, Expr.marks, Expr.marksOf_eq]
    rw [answered]
    exact (List.perm_append_singleton _ _).symm.subperm
  | _ => exact List.nil_subperm

/-- What a call pushes is what it was given and what it allows. -/
theorem Appends.subperm {instr : Instruction} (adds : s.Appends call instr) :
    instr.marks.Subperm (call.marks ++ s.issues call) := by
  cases adds with
  | other _ _ exprs =>
    rw [Instruction.marks, exprs]
    exact (List.sublist_append_left _ _).subperm
  | @statement expr given =>
    rw [Instruction.marks, Instruction.exprs, List.flatMap_singleton]
    cases isSpec : call.spec? with
    | some spec =>
      rw [statement?_of_spec? s isSpec] at given
      obtain rfl := Option.some.inj given
      rw [ValueSpec.value, Expr.marks, Expr.marksOf_eq, issues, Call.creates?_of_spec? isSpec,
        Call.reads_of_spec? isSpec, Call.marks, Call.exprs_of_spec? isSpec]
      exact (List.perm_append_singleton _ _).symm.subperm
    | none =>
      cases call with
      | push pushed =>
        obtain rfl := Option.some.inj given
        rw [Call.marks, Call.exprs, List.flatMap_singleton]
        exact (List.sublist_append_left _ _).subperm
      | _ => simp [statement?, isSpec] at given

/-- A call that appends hands out nothing. -/
theorem answer?_of_appends (s : Session) (appends : call.appends) : s.answer? call = none := by
  cases call with
  | use | consume | inline | forInit => cases appends
  | _ => rfl

/-- A call that the registry does not notice hands out nothing. -/
theorem answer?_of_quiet (quiet : s.notes call = []) : s.answer? call = none := by
  cases call with
  | use | consume | inline | forInit =>
    simp [notes, Call.creates?, Call.reads, Newcomer.events] at quiet
  | _ => rfl

/-- What a tree holds after a call and what the call hands out was there before, was given or is
allowed by the call. -/
theorem Effect.marks_le (effect : s.Effect call after) (placed : s.Placed) (mark : Mark) :
    after.tree.marks.count mark + ((s.answer? call).toList.flatMap Expr.marks).count mark ≤
      s.tree.marks.count mark + (call.marks ++ s.issues call).count mark := by
  cases effect with
  | kept _ tree _ =>
    rw [tree]
    exact Nat.add_le_add_left ((s.answer_subperm call).count_le mark) _
  | pushed instr appends adds _ _ tree _ =>
    have isPerm := (Tree.instructions_pushed placed.current_known instr.kinds instr).flatMap_right
      Instruction.marks
    have isGiven := adds.subperm.count_le mark
    rw [answer?_of_appends s appends, tree, Tree.marks, isPerm.count_eq, List.flatMap_cons,
      List.count_append, Tree.marks]
    simp only [Option.toList_none, List.flatMap_nil, List.count_nil]
    omega
  | amended frame kinds change instr _ _ found _ _ _ _ exprs _ tree _ quiet =>
    obtain ⟨rest, before, amended⟩ :=
      Tree.instructions_amended found frame.site.block kinds change
    have isGiven := (subperm_flatMap exprs Expr.marks).count_le mark
    rw [List.flatMap_append, List.count_append] at isGiven
    rw [answer?_of_quiet quiet, tree, Tree.marks, Tree.marks,
      (amended.flatMap_right Instruction.marks).count_eq,
      (before.flatMap_right Instruction.marks).count_eq, List.flatMap_cons, List.flatMap_cons,
      List.count_append, List.count_append, List.count_append]
    simp only [Option.toList_none, List.flatMap_nil, List.count_nil, Instruction.marks, Call.marks]
    omega

/-- Whether a variable was made by a call of a certain kind. -/
def Made (options : BuildOptions) (calls : List Call) (maker : Session → Call → Prop)
    (id : VarId) : Prop :=
  ∃ before call rest, calls = before ++ call :: rest ∧ maker (reached options before) call ∧
    id = (reached options before).registry.next

/-- Whether a construction was pushed as a statement as it was given, into the header of a loop or
elsewhere. -/
def Pushed (options : BuildOptions) (calls : List Call) (inHeader : Bool) (made : Construction)
    (args : List Expr) : Prop :=
  ∃ before rest, calls = before ++ .push (.construct made args) :: rest ∧
    (reached options before).inHeader = inHeader

/-- A construction stays pushed. -/
theorem Pushed.concat {options : BuildOptions} {calls : List Call} {inHeader : Bool}
    {made : Construction} {args : List Expr} (pushed : Pushed options calls inHeader made args)
    (call : Call) : Pushed options (calls ++ [call]) inHeader made args := by
  obtain ⟨before, rest, rfl, isPlace⟩ := pushed
  exact ⟨before, rest ++ [call], by simp, isPlace⟩

/-- A variable stays made. -/
theorem Made.concat {options : BuildOptions} {calls : List Call} {maker : Session → Call → Prop}
    {id : VarId} (made : Made options calls maker id) (call : Call) :
    Made options (calls ++ [call]) maker id := by
  obtain ⟨before, first, rest, rfl, isMaker, isNext⟩ := made
  exact ⟨before, first, rest ++ [call], by simp, isMaker, isNext⟩

end Session

/-- Whether a variable is there and pinned. -/
def Registry.Pinned (registry : Registry) (id : VarId) : Prop :=
  ∃ record, registry.get? id = some record ∧ record.pinned = true

/-- Whether a call makes a forward. -/
def Call.isForward : Call → Bool
  | .forward _ _ => true
  | _ => false

/-- Whether a call makes a value that is never declared. -/
def Call.isInline : Call → Bool
  | .inline _ _ => true
  | _ => false

/-- The value that a plain call makes and pushes is not one that is never declared, and if it is a
forward it is not pinned from the start. -/
theorem Call.status_of_spec? {call : Call} {spec : ValueSpec} (isSpec : call.spec? = some spec)
    (plain : call.isPlain) :
    spec.status ≠ .temporary ∧
      (spec.status = .forward → call.isForward ∧ spec.newcomer.pinned = false) := by
  cases call with
  | emit => cases plain
  | construct | constructNamed | declare | forward | declareGlobal | declareConst | declareParam =>
    cases isSpec
    simp [isForward, ValueSpec.newcomer, Flags.none]
  | _ => cases isSpec

/-- A variable that a plain call makes out of sight is a forward or one that is never declared. -/
theorem Call.status_of_creates? {call : Call} {new : Newcomer} (creates : call.creates? = some new)
    (plain : call.isPlain) :
    (new.status = .temporary → call.isInline) ∧
      (new.status = .forward → call.isForward ∧ new.pinned = false) := by
  cases isSpec : call.spec? with
  | some spec =>
    rw [creates?_of_spec? isSpec] at creates
    obtain rfl := Option.some.inj creates
    obtain ⟨notTemporary, ofForward⟩ := status_of_spec? isSpec plain
    exact ⟨fun temporary => absurd temporary notTemporary, ofForward⟩
  | none =>
    cases call with
    | inline | forInit | declareInterface | beginFunc =>
      cases creates
      simp [isInline]
    | _ => simp [creates?, isSpec] at creates

namespace Session

variable {s after : Session} {call : Call}

/-- A pinned variable stays pinned. -/
theorem Effect.pinned (effect : s.Effect call after) {id : VarId}
    (pinned : s.registry.Pinned id) : after.registry.Pinned id := by
  obtain ⟨record, found, isPinned⟩ := pinned
  obtain ⟨pushed, registry⟩ := effect.exists_pushed
  obtain ⟨later, foundLater, carries⟩ := carries_of_before found pushed
  rw [registry]
  exact ⟨later, foundLater, carries.pinned.mpr (.inl isPinned)⟩

/-- A variable that a call pins is pinned. -/
theorem Effect.pinned_of_pin (effect : s.Effect call after) {id : VarId}
    (known : id.index < after.registry.size) (isPin : .pin id ∈ s.laterNotes call) :
    after.registry.Pinned id := by
  obtain ⟨pushed, registry⟩ := effect.exists_pushed
  rw [registry, size_registryAfter] at known
  obtain ⟨record, found⟩ := Registry.exists_record known
  obtain ⟨later, foundLater, carries⟩ := exists_carries found pushed
  rw [registry]
  exact ⟨later, foundLater, carries.pinned.mpr (.inr isPin)⟩

/-- A call whose statement constructs a variable makes the variable, or was given the
construction. -/
theorem statement?_construct {made : Construction} {args : List Expr}
    (given : s.statement? call = some (.construct made args)) :
    (∃ spec, call.spec? = some spec ∧ made.var = s.registry.next) ∨
      call = .push (.construct made args) := by
  cases isSpec : call.spec? with
  | some spec =>
    rw [statement?_of_spec? s isSpec] at given
    have isValue := Option.some.inj given
    rw [ValueSpec.value, Expr.construct.injEq] at isValue
    exact .inl ⟨spec, rfl, congrArg Construction.var isValue.1.symm⟩
  | none =>
    cases call with
    | push pushed => exact .inr (congrArg Call.push (Option.some.inj given))
    | _ => simp [statement?, isSpec] at given

end Session

namespace Bench

/-- Whether a call is given only what was handed out, and nothing of it a second time. -/
structure Frugal (bench : Bench) (call : Call) : Prop where
  /-- Only values of the usual shapes are made, and the build does not start over. -/
  plain : call.isPlain
  /-- No reference or construction is made by hand, and none is given twice. -/
  spent : (bench.hand.spent ++ call.grafts).Subperm bench.hand.values

/-- What is known of a frugal build. -/
structure Ledger (options : BuildOptions) (calls : List Call) (bench : Bench) : Prop where
  here : bench.session = .reached options calls
  /-- What was given was handed out. -/
  spent : bench.hand.spent.Subperm bench.hand.values
  /-- What the tree holds and what can still be given were handed out. -/
  balanced : ∀ mark, bench.session.tree.marks.count mark +
      (bench.hand.values.flatMap Expr.marks).count mark ≤
    (bench.hand.spent.flatMap Expr.marks).count mark +
      bench.session.registry.issued (Session.readsOf calls) mark
  /-- Calls were given what was spent. -/
  given : bench.hand.spent = calls.flatMap Call.grafts
  /-- Each read handed out one reference. -/
  answered : ∀ id, (bench.hand.values.filterMap Expr.ref?).count id =
    (Session.readsOf calls).count (.use id) + (Session.readsOf calls).count (.consume id)
  /-- Records tell of the reads. -/
  tallied : Session.Tallied bench.session.registry (Session.readsOf calls)
  /-- A construction that was handed out is of a pinned variable. -/
  bound : ∀ made args, .construct made args ∈ bench.hand.values →
    bench.session.registry.Pinned made.var
  /-- A pinned forward was made in the header of a loop. -/
  forwards : ∀ id record, bench.session.registry.get? id = some record → record.pinned = true →
    record.status = .forward →
    Session.Made options calls (fun s call => s.inHeader ∧ call.isForward) id
  /-- A pinned temporary is a value that is never declared. -/
  inlines : ∀ id record, bench.session.registry.get? id = some record → record.pinned = true →
    record.status = .temporary → Session.Made options calls (fun _ call => call.isInline) id
  /-- A construction stands as a statement because it was pushed there, or because its variable is
  no such value. -/
  pushed : ∀ site made args,
    bench.session.tree.instruction? site = some (.statement (.construct made args)) →
    Session.Pushed options calls (bench.session.tree.kind? site.block = some .forArgs) made args ∨
      ∃ record, bench.session.registry.get? made.var = some record ∧
        (record.pinned = true → record.status ≠ .temporary)
  /-- What is constructed in the header of a loop is pinned. -/
  headers : ∀ site made args,
    bench.session.tree.instruction? site = some (.statement (.construct made args)) →
    bench.session.tree.kind? site.block = some .forArgs →
    bench.session.registry.Pinned made.var

namespace Ledger

variable {options : BuildOptions} {calls : List Call} {bench : Bench} {call : Call} {reply : Reply}
  {after : Session}

/-- A construction that a call pushes as it was given is of a pinned variable. -/
theorem pinned_of_push (ledger : bench.Ledger options calls) {made : Construction}
    {args : List Expr} (frugal : bench.Frugal (.push (.construct made args))) :
    bench.session.registry.Pinned made.var := by
  have isGraft : Expr.construct made args ∈ (Call.push (.construct made args)).grafts :=
    List.mem_singleton.mpr rfl
  exact ledger.bound made args (frugal.spent.subset (List.mem_append_right _ isGraft))

/-- A variable that is there is pinned from its creation on or never. -/
theorem pinned_of_pin (ledger : bench.Ledger options calls) (frugal : bench.Frugal call)
    {id : VarId} {record : Record} (found : bench.session.registry.get? id = some record)
    (isPin : .pin id ∈ bench.session.laterNotes call) : record.pinned = true := by
  have isOld : id ≠ bench.session.registry.next := by
    rintro rfl
    exact Nat.lt_irrefl _ (Registry.known_of_get? found)
  obtain isRead | ⟨new, -, -, isNew⟩ | ⟨-, expr, given, made, isMade, isVar⟩ :=
    Session.mem_laterNotes.mp isPin
  · exact absurd isRead (Session.pin_not_mem_reads call id)
  · exact absurd (Event.pin.inj isNew) isOld
  · obtain rfl := Event.pin.inj isVar
    cases expr with
    | construct made' args =>
      obtain rfl := Option.some.inj isMade
      obtain ⟨spec, -, isNext⟩ | isPush := Session.statement?_construct given
      · exact absurd isNext isOld
      · rw [isPush] at frugal
        obtain ⟨record', found', pinned⟩ := ledger.pinned_of_push frugal
        rw [found] at found'
        exact Option.some.inj found' ▸ pinned
    | _ => cases isMade

/-- A frugal call keeps the balance. -/
theorem balanced_after (ledger : bench.Ledger options calls) (placed : bench.session.Placed)
    (ran : call.run bench.session = .ok reply after) (effect : bench.session.Effect call after)
    (mark : Mark) :
    after.tree.marks.count mark +
        ((bench.hand.take call reply).values.flatMap Expr.marks).count mark ≤
      ((bench.hand.take call reply).spent.flatMap Expr.marks).count mark +
        after.registry.issued (Session.readsOf calls ++ call.reads) mark := by
  have before := ledger.balanced mark
  have moved := effect.marks_le placed mark
  have allowed := effect.issued_le (Session.readsOf calls) mark
  rw [List.count_append, Call.marks_eq] at moved
  simp only [Hand.take, List.flatMap_append, List.count_append, Call.expr?_of_run ran]
  omega

/-- A construction that a call hands out is of a pinned variable. -/
theorem bound_after (ledger : bench.Ledger options calls)
    (ran : call.run bench.session = .ok reply after) (effect : bench.session.Effect call after)
    {made : Construction} {args : List Expr}
    (isValue : .construct made args ∈ (bench.hand.take call reply).values) :
    after.registry.Pinned made.var := by
  obtain isOld | isNew := List.mem_append.mp isValue
  · exact effect.pinned (ledger.bound made args isOld)
  · rw [Call.expr?_of_run ran, Option.mem_toList] at isNew
    have ofNew : ∀ new, call.creates? = some new → new.pinned = true →
        made.var = bench.session.registry.next → after.registry.Pinned made.var := by
      intro new creates isPinned isNext
      rw [isNext]
      refine effect.pinned_of_pin (effect.next_lt creates) ?_
      exact Session.mem_laterNotes.mpr (.inr (.inl ⟨new, creates, isPinned, rfl⟩))
    cases call with
    | inline | forInit =>
      cases isNew
      exact ofNew _ rfl rfl rfl
    | _ => cases isNew

/-- A pinned variable after a call was pinned before with the same status, or the call made and
pinned it. -/
theorem pinned_after (ledger : bench.Ledger options calls) (frugal : bench.Frugal call)
    (effect : bench.session.Effect call after) {id : VarId} {later : Record}
    (found : after.registry.get? id = some later) (isPinned : later.pinned = true) :
    (∃ record, bench.session.registry.get? id = some record ∧ record.pinned = true ∧
      later.status = record.status) ∨
      ∃ new, call.creates? = some new ∧ id = bench.session.registry.next ∧
        later.status = new.status ∧ .pin id ∈ bench.session.laterNotes call := by
  obtain ⟨pushed, registry⟩ := effect.exists_pushed
  rw [registry] at found
  obtain ⟨record, isRecord, carries⟩ | ⟨new, creates, isNext, carries⟩ :=
    Session.carries_of_get? found
  · have wasPinned : record.pinned = true := by
      obtain was | isPin := carries.pinned.mp isPinned
      · exact was
      · exact ledger.pinned_of_pin frugal isRecord isPin
    exact .inl ⟨record, isRecord, wasPinned, carries.fixed wasPinned⟩
  · have status := carries.status (Session.reads_of_creates creates)
    obtain atOnce | isPin := carries.pinned.mp isPinned
    · cases atOnce
    · exact .inr ⟨new, creates, isNext, status, isPin⟩

/-- A variable that a call makes is made by it. -/
theorem made_next (ledger : bench.Ledger options calls) {maker : Session → Call → Prop}
    (isMaker : maker bench.session call) {id : VarId} (isNext : id = bench.session.registry.next) :
    Session.Made options (calls ++ [call]) maker id := by
  rw [ledger.here] at isMaker isNext
  exact ⟨calls, call, [], rfl, isMaker, isNext⟩

/-- A pinned forward was made in the header of a loop. -/
theorem forwards_after (ledger : bench.Ledger options calls) (frugal : bench.Frugal call)
    (effect : bench.session.Effect call after) {id : VarId} {later : Record}
    (found : after.registry.get? id = some later) (isPinned : later.pinned = true)
    (isForward : later.status = .forward) :
    Session.Made options (calls ++ [call]) (fun s call => s.inHeader ∧ call.isForward) id := by
  obtain ⟨record, isRecord, wasPinned, same⟩ | ⟨new, creates, isNext, status, isPin⟩ :=
    ledger.pinned_after frugal effect found isPinned
  · exact (ledger.forwards id record isRecord wasPinned (same ▸ isForward)).concat call
  · obtain ⟨isForwardCall, free⟩ :=
      (Call.status_of_creates? creates frugal.plain).2 (status ▸ isForward)
    obtain isRead | ⟨other, isOther, pinned, -⟩ | ⟨inHeader, -⟩ := Session.mem_laterNotes.mp isPin
    · exact absurd isRead (Session.pin_not_mem_reads call id)
    · rw [creates] at isOther
      obtain rfl := Option.some.inj isOther
      rw [free] at pinned
      cases pinned
    · exact ledger.made_next ⟨inHeader, isForwardCall⟩ isNext

/-- A pinned temporary is a value that is never declared. -/
theorem inlines_after (ledger : bench.Ledger options calls) (frugal : bench.Frugal call)
    (effect : bench.session.Effect call after) {id : VarId} {later : Record}
    (found : after.registry.get? id = some later) (isPinned : later.pinned = true)
    (isTemporary : later.status = .temporary) :
    Session.Made options (calls ++ [call]) (fun _ call => call.isInline) id := by
  obtain ⟨record, isRecord, wasPinned, same⟩ | ⟨new, creates, isNext, status, -⟩ :=
    ledger.pinned_after frugal effect found isPinned
  · exact (ledger.inlines id record isRecord wasPinned (same ▸ isTemporary)).concat call
  · have isInline := (Call.status_of_creates? creates frugal.plain).1 (status ▸ isTemporary)
    exact @made_next options calls bench call ledger (fun _ call => call.isInline) isInline id
      isNext

/-- A construction stands as a statement because it was pushed there, or because its variable is not
one that is never declared. -/
theorem pushed_after (ledger : bench.Ledger options calls) (placed : bench.session.Placed)
    (frugal : bench.Frugal call) (effect : bench.session.Effect call after) {site : Address}
    {made : Construction} {args : List Expr}
    (isAt : after.tree.instruction? site = some (.statement (.construct made args))) :
    Session.Pushed options (calls ++ [call]) (after.tree.kind? site.block = some .forArgs) made
        args ∨
      ∃ record, after.registry.get? made.var = some record ∧
        (record.pinned = true → record.status ≠ .temporary) := by
  have keeps := effect.tree_keeps
  cases effect.origin placed isAt with
  | old isAt =>
    obtain isPush | ⟨record, found, free⟩ := ledger.pushed site made args isAt
    · rw [keeps.kind?_eq (Tree.known_of_instruction? isAt)]
      exact .inl (isPush.concat call)
    · obtain ⟨pushed, registry⟩ := effect.exists_pushed
      obtain ⟨later, foundLater, carries⟩ := Session.carries_of_before found pushed
      rw [← registry] at foundLater
      refine .inr ⟨later, foundLater, ?_⟩
      intro isPinned
      obtain was | isPin := carries.pinned.mp isPinned
      · rw [carries.fixed was]
        exact free was
      · have was := ledger.pinned_of_pin frugal found isPin
        rw [carries.fixed was]
        exact free was
  | pushed here _ adds _ =>
    cases adds with
    | other _ plain => exact absurd rfl plain
    | statement given =>
      obtain ⟨spec, isSpec, isNext⟩ | isPush := Session.statement?_construct given
      · have creates := Call.creates?_of_spec? isSpec
        have isStatus := effect.status_new creates
        obtain ⟨record, found, status⟩ := Option.map_eq_some_iff.mp isStatus
        refine .inr ⟨record, isNext ▸ found, ?_⟩
        rw [status]
        exact fun _ => (Call.status_of_spec? isSpec frugal.plain).1
      · rw [here, keeps.kind?_eq placed.current_known]
        refine .inl ⟨calls, [], by rw [isPush], ?_⟩
        rw [← ledger.here, Bool.eq_iff_iff, decide_eq_true_iff]
        exact Session.inHeader_iff
  | amended old _ opens same =>
    rw [← same] at opens
    cases opens

/-- What is constructed in the header of a loop is pinned. -/
theorem headers_after (ledger : bench.Ledger options calls) (placed : bench.session.Placed)
    (frugal : bench.Frugal call) (effect : bench.session.Effect call after) {site : Address}
    {made : Construction} {args : List Expr}
    (isAt : after.tree.instruction? site = some (.statement (.construct made args)))
    (isKind : after.tree.kind? site.block = some .forArgs) : after.registry.Pinned made.var := by
  have keeps := effect.tree_keeps
  cases effect.origin placed isAt with
  | old isAt =>
    rw [keeps.kind?_eq (Tree.known_of_instruction? isAt)] at isKind
    exact effect.pinned (ledger.headers site made args isAt isKind)
  | pushed here _ adds _ =>
    rw [here, keeps.kind?_eq placed.current_known] at isKind
    cases adds with
    | other _ plain => exact absurd rfl plain
    | statement given =>
      obtain ⟨spec, isSpec, isNext⟩ | isPush := Session.statement?_construct given
      · refine effect.pinned_of_pin ?_ (Session.mem_laterNotes.mpr (.inr (.inr ?_)))
        · rw [isNext]
          exact effect.next_lt (Call.creates?_of_spec? isSpec)
        · exact ⟨Session.inHeader_iff.mpr isKind, _, given, made, rfl, rfl⟩
      · rw [isPush] at frugal
        exact effect.pinned (ledger.pinned_of_push frugal)
  | amended old _ opens same =>
    rw [← same] at opens
    cases opens

/-- A frugal call keeps the ledger. -/
theorem step (ledger : bench.Ledger options calls) (placed : bench.session.Placed)
    (frugal : bench.Frugal call) (ran : call.run bench.session = .ok reply after)
    (effect : bench.session.Effect call after) :
    Ledger options (calls ++ [call]) ⟨after, bench.hand.take call reply⟩ := by
  constructor
  case here =>
    rw [ledger.here] at ran
    exact (Session.reached_of_run ran).symm
  case spent => exact frugal.spent.trans (List.sublist_append_left _ _).subperm
  case balanced =>
    rw [Session.readsOf_concat]
    exact ledger.balanced_after placed ran effect
  case given =>
    show bench.hand.spent ++ call.grafts = _
    rw [ledger.given, List.flatMap_append, List.flatMap_singleton]
  case answered =>
    intro id
    show ((bench.hand.values ++ reply.expr?.toList).filterMap Expr.ref?).count id = _
    rw [Call.expr?_of_run ran, List.filterMap_append, List.count_append,
      ledger.answered, Session.count_answer?, Session.readsOf_concat, List.count_append,
      List.count_append]
    omega
  case tallied =>
    obtain ⟨pushed, registry⟩ := effect.exists_pushed
    rw [Session.readsOf_concat]
    exact ledger.tallied.step ran registry
  case bound => exact fun made args isValue => ledger.bound_after ran effect isValue
  case forwards =>
    exact fun id later found isPinned => ledger.forwards_after frugal effect found isPinned
  case inlines =>
    exact fun id later found isPinned => ledger.inlines_after frugal effect found isPinned
  case pushed =>
    exact fun site made args isAt => ledger.pushed_after placed frugal effect isAt
  case headers =>
    exact fun site made args isAt isKind => ledger.headers_after placed frugal effect isAt isKind

end Ledger

/-- Nothing is written down at the start. -/
theorem ledger_start (options : BuildOptions) : (start options).Ledger options [] := by
  have noRecord : ∀ id, (start options).session.registry.get? id = none := fun _ => rfl
  constructor
  case here => rfl
  case spent => exact .refl _
  case balanced => exact fun _ => Nat.zero_le _
  case given => rfl
  case answered => exact fun _ => rfl
  case tallied => exact Session.tallied_empty
  case bound => exact fun _ _ isValue => nomatch isValue
  case forwards =>
    intro id record found
    rw [noRecord] at found
    cases found
  case inlines =>
    intro id record found
    rw [noRecord] at found
    cases found
  case pushed =>
    intro site made args isAt
    rw [start, Session.start, Tree.instruction?_empty] at isAt
    cases isAt
  case headers =>
    intro site made args isAt
    rw [start, Session.start, Tree.instruction?_empty] at isAt
    cases isAt

/-- The ledger is kept wherever frugal calls lead without failing. -/
theorem ledger_after {options : BuildOptions} {calls : List Call}
    (frugal : (start options).Follows Frugal calls)
    (sane : (Session.reached options calls).failure = none) :
    (Bench.after options calls).Ledger options calls := by
  refine @after_of_effects options Frugal (fun calls bench => bench.Ledger options calls) ?_
    (ledger_start options) ?_ calls frugal sane
  · exact fun _ _ frugal => frugal.plain
  · intro calls bench call reply session placed ledger frugal ran effect
    exact ledger.step placed frugal ran effect

end Bench

end ShaderLoom
