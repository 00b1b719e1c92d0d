import ShaderLoom.Proofs.Records

/-!
# What a build hands out

Calls answer with expressions and function numbers that later calls may be given. A reference or a
construction is not made by hand if it is one of those that were handed out; what stands around it
in an expression may be anything. A build is followed together with what it has handed out and with
what of that was spent in later calls (`Bench`), so that a condition on how a build is driven can be
put to every call in turn (`Bench.Follows`).
-/
namespace ShaderLoom

namespace Expr

/-- Expressions are made from their parts; the arguments of constructions and calls are parts. -/
@[elab_as_elim]
theorem induct {motive : Expr → Prop} (literal : ∀ value, motive (.literal value))
    (ref : ∀ id, motive (.ref id))
    (construct : ∀ made args, (∀ arg ∈ args, motive arg) → motive (.construct made args))
    (binary : ∀ op lhs rhs, motive lhs → motive rhs → motive (.binary op lhs rhs))
    (unary : ∀ op fixity operand, motive operand → motive (.unary op fixity operand))
    (ternary : ∀ condition yes no, motive condition → motive yes → motive no →
      motive (.ternary condition yes no))
    (subscript : ∀ object index, motive object → motive index → motive (.subscript object index))
    (member : ∀ object name, motive object → motive (.member object name))
    (swizzle : ∀ object components, motive object → motive (.swizzle object components))
    (call : ∀ callee args, (∀ arg ∈ args, motive arg) → motive (.call callee args))
    (expr : Expr) : motive expr :=
  @Expr.rec motive (fun args => ∀ arg ∈ args, motive arg) literal ref construct binary unary
    ternary subscript member swizzle call (fun _ isArg => nomatch isArg)
    (fun _ _ first rest => List.forall_mem_cons.mpr ⟨first, rest⟩) expr

mutual

/-- The references and constructions in an expression, each as a whole. -/
def grafts : Expr → List Expr
  | .literal _ => []
  | .ref id => [.ref id]
  | .construct made args => [.construct made args]
  | .binary _ lhs rhs => grafts lhs ++ grafts rhs
  | .unary _ _ operand => grafts operand
  | .ternary condition yes no => grafts condition ++ grafts yes ++ grafts no
  | .subscript object index => grafts object ++ grafts index
  | .member object _ => grafts object
  | .swizzle object _ => grafts object
  | .call _ args => graftsOf args

/-- The references and constructions in a list of expressions. -/
def graftsOf : List Expr → List Expr
  | [] => []
  | expr :: rest => grafts expr ++ graftsOf rest

end

/-- Those of a list are those of its expressions. -/
theorem graftsOf_eq (exprs : List Expr) : graftsOf exprs = exprs.flatMap grafts := by
  induction exprs with
  | nil => rfl
  | cons expr rest ih => rw [graftsOf, ih, List.flatMap_cons]

mutual

/-- The functions of this build that an expression calls outside its references and
constructions. -/
def callees : Expr → List VarId
  | .literal _ => []
  | .ref _ => []
  | .construct _ _ => []
  | .binary _ lhs rhs => callees lhs ++ callees rhs
  | .unary _ _ operand => callees operand
  | .ternary condition yes no => callees condition ++ callees yes ++ callees no
  | .subscript object index => callees object ++ callees index
  | .member object _ => callees object
  | .swizzle object _ => callees object
  | .call (.builtin _) args => calleesOf args
  | .call (.function id) args => id :: calleesOf args

/-- The functions that a list of expressions calls. -/
def calleesOf : List Expr → List VarId
  | [] => []
  | expr :: rest => callees expr ++ calleesOf rest

end

/-- Those of a list are those of its expressions. -/
theorem calleesOf_eq (exprs : List Expr) : calleesOf exprs = exprs.flatMap callees := by
  induction exprs with
  | nil => rfl
  | cons expr rest ih => rw [calleesOf, ih, List.flatMap_cons]

end Expr

namespace Call

/-- The references and constructions that a call is given. -/
def grafts (call : Call) : List Expr := call.exprs.flatMap Expr.grafts

/-- The functions that a call is given calls of. -/
def callees (call : Call) : List VarId := call.exprs.flatMap Expr.callees

/-- Whether a call neither starts over nor makes a value of any shape. -/
def isPlain : Call → Bool
  | .emit _ => false
  | .reset => false
  | _ => true

/-- A plain call does not start over. -/
theorem ne_reset {call : Call} (plain : call.isPlain) : call ≠ .reset := by
  rintro rfl
  cases plain

end Call

namespace Session

/-- The expression that a call hands out, if it hands out one. -/
def answer? (s : Session) : Call → Option Expr
  | .use id => some (.ref id)
  | .consume id => some (.ref id)
  | .inline ty args => some (.construct
    { var := s.registry.next, ty, status := .temporary, flags := .call, qualifier := none } args)
  | .forInit ty _ value => some (.construct
    { var := s.registry.next, ty, status := .initialisation, flags := .none, qualifier := none }
    [value])
  | _ => none

end Session

/-- The expression that an answer hands out, if it hands out one. -/
def Reply.expr? : Reply → Option Expr
  | .value expr => some expr
  | .bound _ expr => some expr
  | _ => none

/-- A successful call hands out what it should. -/
theorem Call.expr?_of_run {call : Call} {s after : Session} {reply : Reply}
    (ran : call.run s = .ok reply after) : reply.expr? = s.answer? call := by
  cases call with
  | use id =>
    obtain ⟨_, answered, rfl⟩ := Build.map_ok_iff.mp ran
    rw [(Build.use_ok_iff.mp answered).2.1]
    rfl
  | consume id =>
    obtain ⟨_, answered, rfl⟩ := Build.map_ok_iff.mp ran
    rw [(Build.consume_ok_iff.mp answered).2.1]
    rfl
  | inline ty args =>
    obtain ⟨_, answered, rfl⟩ := Build.map_ok_iff.mp ran
    obtain ⟨-, -, -, -, rfl⟩ := Build.inline_ok_iff.mp answered
    rfl
  | forInit ty name value =>
    obtain ⟨_, answered, rfl⟩ := Build.map_ok_iff.mp ran
    obtain ⟨-, -, -, -, rfl⟩ := Build.forInit_ok_iff.mp answered
    rfl
  | _ =>
    obtain ⟨_, -, rfl⟩ := Build.map_ok_iff.mp ran
    rfl

/-- A declared function is the next variable. -/
theorem Call.var_of_beginFunc {name : String} {returns : Ty} {s after : Session} {id : VarId}
    (ran : (Call.beginFunc name returns).run s = .ok (.var id) after) : id = s.registry.next := by
  obtain ⟨_, ran, isVar⟩ := Build.map_ok_iff.mp ran
  obtain ⟨-, -, -, -, -, -, rfl⟩ := Build.beginFunc_ok_iff.mp ran
  exact Reply.var.inj isVar

/-- What the calls of a build have handed out, and what of it was spent. -/
structure Hand where
  /-- The references and constructions that were handed out. -/
  values : List Expr
  /-- The functions that were declared. -/
  functions : List VarId
  /-- The references and constructions that later calls were given. -/
  spent : List Expr

namespace Hand

/-- Nothing handed out yet. -/
def empty : Hand := ⟨[], [], []⟩

/-- What is in hand after a call and its answer. -/
def take (hand : Hand) (call : Call) (reply : Reply) : Hand where
  values := hand.values ++ reply.expr?.toList
  functions := hand.functions ++
    match call, reply with
    | .beginFunc _ _, .var id => [id]
    | _, _ => []
  spent := hand.spent ++ call.grafts

end Hand

/-- A build and what it has handed out. -/
structure Bench where
  session : Session
  hand : Hand

namespace Bench

/-- Every build starts empty-handed. -/
def start (options : BuildOptions) : Bench := ⟨.start options, .empty⟩

/-- The build after a call; a call that fails hands out nothing. -/
def step (bench : Bench) (call : Call) : Bench :=
  match call.run bench.session with
  | .ok reply after => ⟨after, bench.hand.take call reply⟩
  | .error _ after => ⟨after, bench.hand⟩

/-- The build after a sequence of calls. -/
def after (options : BuildOptions) (calls : List Call) : Bench := calls.foldl step (start options)

/-- Whether a condition holds of every call of a sequence when it is made. -/
def Follows (permits : Bench → Call → Prop) : Bench → List Call → Prop
  | _, [] => True
  | bench, call :: rest => permits bench call ∧ (bench.step call).Follows permits rest

/-- One more call has to be permitted after the ones before. -/
theorem follows_concat {permits : Bench → Call → Prop} (bench : Bench) (calls : List Call)
    (call : Call) :
    bench.Follows permits (calls ++ [call]) ↔
      bench.Follows permits calls ∧ permits (calls.foldl step bench) call := by
  induction calls generalizing bench with
  | nil => simp [Follows]
  | cons first calls ih =>
    rw [List.cons_append, Follows, Follows, ih, List.foldl_cons, and_assoc]

/-- One more call is one more step. -/
theorem after_concat (options : BuildOptions) (calls : List Call) (call : Call) :
    after options (calls ++ [call]) = (after options calls).step call := by
  simp [after]

/-- What is in hand plays no part in where a build gets. -/
@[simp]
theorem after_session (options : BuildOptions) (calls : List Call) :
    (after options calls).session = .reached options calls := by
  induction calls using List.reverseRecOn with
  | nil => rfl
  | append_singleton calls call ih =>
    rw [after_concat, Session.reached_concat, step, Session.step, ih]
    cases call.run (.reached options calls) <;> rfl

/-- What holds at the start and after every permitted call that succeeds holds wherever permitted
calls lead without failing. -/
theorem after_of_effects {options : BuildOptions} {permits : Bench → Call → Prop}
    {holds : List Call → Bench → Prop} (plain : ∀ bench call, permits bench call → call.isPlain)
    (atStart : holds [] (start options))
    (through : ∀ calls bench call reply session, bench.session.Placed → holds calls bench →
      permits bench call → call.run bench.session = .ok reply session →
      bench.session.Effect call session →
      holds (calls ++ [call]) ⟨session, bench.hand.take call reply⟩)
    {calls : List Call} (follows : (start options).Follows permits calls)
    (sane : (Session.reached options calls).failure = none) :
    holds calls (after options calls) := by
  induction calls using List.reverseRecOn with
  | nil => exact atStart
  | append_singleton calls call ih =>
    obtain ⟨before, permitted⟩ := (follows_concat _ _ _).mp follows
    have goesOn := Call.ne_reset (plain _ _ permitted)
    obtain ⟨saneBefore, reply, ran⟩ := Session.run_of_sane sane goesOn
    have placed := Session.placed_reached options calls saneBefore
    have effect := Call.effect placed ran goesOn
    rw [after_concat, step, after_session, ran]
    apply through calls (after options calls) call reply
    · rw [after_session]
      exact placed
    · exact ih before saneBefore
    · exact permitted
    · rw [after_session]
      exact ran
    · rw [after_session]
      exact effect

end Bench

end ShaderLoom
