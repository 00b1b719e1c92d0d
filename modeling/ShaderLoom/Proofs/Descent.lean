import Mathlib
import ShaderLoom.Proofs.Addresses
import ShaderLoom.Proofs.Legible
import ShaderLoom.Proofs.Lookahead
import ShaderLoom.Proofs.Spending

/-!
# Values are made from older variables

A variable gets its number when its value is made, and no reference to it can be handed out before.
So as long as calls are given no references and constructions but those that were handed out since
the build started (`Bench.Genuine`), every construction speaks of variables older than its own,
wherever it stands (`Expr.Descends`). The writer goes from references into the values of variables,
which therefore is a way down that ends (`Shader.Bounded`).
-/
namespace ShaderLoom

/-- The variable that a mark is about. -/
def Mark.var : Mark → VarId
  | .value id => id
  | .reference id => id

namespace Expr

/-- The expressions that an expression is made from directly. -/
def parts : Expr → List Expr
  | .literal _ => []
  | .ref _ => []
  | .construct _ args => args
  | .binary _ lhs rhs => [lhs, rhs]
  | .unary _ _ operand => [operand]
  | .ternary condition yes no => [condition, yes, no]
  | .subscript object index => [object, index]
  | .member object _ => [object]
  | .swizzle object _ => [object]
  | .call _ args => args

/-- Whether one expression stands in another, at any depth or as all of it. -/
inductive Inside (inner : Expr) : Expr → Prop where
  | whole : Inside inner inner
  | part {next expr : Expr} (isPart : next ∈ expr.parts) (deeper : Inside inner next) :
    Inside inner expr

/-- Whether every construction in an expression speaks, in its arguments, of variables older than
its own alone. -/
def Descends (expr : Expr) : Prop :=
  ∀ made args, (Expr.construct made args).Inside expr →
    ∀ mark ∈ marksOf args, mark.var.index < made.var.index

/-- Whether an expression descends, from variables below a bound. -/
structure DescendsFrom (bound : Nat) (expr : Expr) : Prop where
  known : ∀ mark ∈ expr.marks, mark.var.index < bound
  descends : expr.Descends

variable {expr part : Expr} {bound : Nat}

/-- What holds of an expression if it holds of its parts holds of every expression. -/
@[elab_as_elim]
theorem induct_parts {motive : Expr → Prop}
    (step : ∀ expr, (∀ part ∈ expr.parts, motive part) → motive expr) (expr : Expr) :
    motive expr := by
  induction expr using Expr.induct with
  | literal | ref => exact step _ nofun
  | construct _ _ inner | call _ _ inner => exact step _ inner
  | binary _ _ _ left right => exact step _ (by simpa [parts] using ⟨left, right⟩)
  | unary _ _ _ inner | member _ _ inner | swizzle _ _ inner =>
    exact step _ (by simpa [parts] using inner)
  | ternary _ _ _ first second third =>
    exact step _ (by simpa [parts] using ⟨first, second, third⟩)
  | subscript _ _ outer inner => exact step _ (by simpa [parts] using ⟨outer, inner⟩)

/-- What a part holds of variables, the expression holds. -/
theorem marks_of_part (isPart : part ∈ expr.parts) : part.marks ⊆ expr.marks := by
  cases expr with
  | literal | ref => cases isPart
  | construct made args =>
    rw [marks, marksOf_eq]
    exact fun mark isMark => List.mem_cons_of_mem _ (List.mem_flatMap_of_mem isPart isMark)
  | call callee args =>
    rw [marks, marksOf_eq]
    exact fun mark isMark => List.mem_flatMap_of_mem isPart isMark
  | binary | unary | ternary | subscript | member | swizzle =>
    simp only [parts, List.mem_cons, List.not_mem_nil, or_false] at isPart
    rcases isPart with rfl | rfl | rfl <;> simp [marks]

/-- What a part takes from elsewhere, the expression takes, if it is not taken as a whole. -/
theorem grafts_of_part (isPart : part ∈ expr.parts) :
    expr.grafts = [expr] ∨ part.grafts ⊆ expr.grafts := by
  cases expr with
  | literal | ref => cases isPart
  | construct => exact .inl rfl
  | call callee args =>
    rw [grafts, graftsOf_eq]
    exact .inr fun graft isGraft => List.mem_flatMap_of_mem isPart isGraft
  | binary | unary | ternary | subscript | member | swizzle =>
    simp only [parts, List.mem_cons, List.not_mem_nil, or_false] at isPart
    rcases isPart with rfl | rfl | rfl <;> simp [grafts]

/-- A construction in an expression stands in something that was taken from elsewhere. -/
theorem Inside.graft {made : Construction} {args : List Expr}
    (inside : (Expr.construct made args).Inside expr) :
    ∃ graft ∈ expr.grafts, (Expr.construct made args).Inside graft := by
  induction inside with
  | whole => exact ⟨_, List.mem_singleton_self _, .whole⟩
  | @part next expr isPart deeper ih =>
    obtain isGraft | fewer := grafts_of_part isPart
    · rw [isGraft]
      exact ⟨expr, List.mem_singleton_self _, .part isPart deeper⟩
    · obtain ⟨graft, isGraft, inside⟩ := ih
      exact ⟨graft, fewer isGraft, inside⟩

/-- What descends from variables below a bound does so from those below a higher one. -/
theorem DescendsFrom.mono (descends : expr.DescendsFrom bound) {higher : Nat}
    (le : bound ≤ higher) : expr.DescendsFrom higher :=
  ⟨fun mark isMark => Nat.lt_of_lt_of_le (descends.known mark isMark) le, descends.descends⟩

/-- An expression descends if what it takes from elsewhere does. -/
theorem descendsFrom_of_grafts (grafts : ∀ graft ∈ expr.grafts, graft.DescendsFrom bound) :
    expr.DescendsFrom bound where
  known := by
    intro mark isMark
    rw [marks_eq] at isMark
    obtain ⟨graft, isGraft, isMark⟩ := List.mem_flatMap.mp isMark
    exact (grafts graft isGraft).known mark isMark
  descends := by
    intro made args inside
    obtain ⟨graft, isGraft, inside⟩ := inside.graft
    exact (grafts graft isGraft).descends made args inside

/-- A reference descends from its variable. -/
theorem descendsFrom_ref {id : VarId} (known : id.index < bound) :
    (Expr.ref id).DescendsFrom bound where
  known := by
    rw [marks, List.forall_mem_singleton]
    exact known
  descends := by
    rintro made args (_ | ⟨⟨⟩, -⟩)

/-- A construction descends if its arguments do so from variables older than its own. -/
theorem descendsFrom_construct {made : Construction} {args : List Expr}
    (older : ∀ arg ∈ args, arg.DescendsFrom made.var.index) (known : made.var.index < bound) :
    (Expr.construct made args).DescendsFrom bound := by
  have below : ∀ mark ∈ marksOf args, mark.var.index < made.var.index := by
    intro mark isMark
    rw [marksOf_eq] at isMark
    obtain ⟨arg, isArg, isMark⟩ := List.mem_flatMap.mp isMark
    exact (older arg isArg).known mark isMark
  constructor
  case known =>
    rw [marks, List.forall_mem_cons]
    exact ⟨known, fun mark isMark => (below mark isMark).trans known⟩
  case descends =>
    intro deeper others inside
    cases inside with
    | whole => exact below
    | part isArg inside => exact (older _ isArg).descends deeper others inside

end Expr

/-- Whether every construction anywhere in a tree speaks, in its arguments, of variables older than
its own alone. -/
def Tree.Descends (tree : Tree) : Prop :=
  ∀ instr ∈ tree.instructions, ∀ expr ∈ instr.exprs, expr.Descends

namespace Bench

/-- The build after a call. A fresh start takes back what was handed out. -/
def renew (bench : Bench) : Call → Bench
  | .reset => .start bench.session.options
  | call => bench.step call

/-- Whether a build is one that calls lead to, whether they succeed or fail, of which each is given
no reference and no construction but those handed out since the last fresh start. -/
inductive Genuine (options : BuildOptions) : Bench → Prop where
  | start : Genuine options (.start options)
  | call {bench : Bench} (call : Call) (genuine : Genuine options bench)
    (given : call.grafts ⊆ bench.hand.values) : Genuine options (bench.renew call)

variable {options : BuildOptions} {bench : Bench} {call : Call}

/-- A call that goes on is a step. -/
theorem renew_of_ne (bench : Bench) (goesOn : call ≠ .reset) :
    bench.renew call = bench.step call := by
  unfold renew
  split
  · exact absurd rfl goesOn
  · rfl

/-- What is in hand plays no part in where a build gets. -/
theorem renew_session (bench : Bench) (call : Call) :
    (bench.renew call).session = bench.session.step call := by
  by_cases fresh : call = .reset
  · rw [fresh]
    rfl
  · rw [renew_of_ne bench fresh, step, Session.step]
    cases call.run bench.session <;> rfl

/-- A genuine build is one that calls lead to. -/
theorem Genuine.exists_calls (genuine : bench.Genuine options) :
    ∃ calls, bench.session = .reached options calls := by
  induction genuine with
  | start => exact ⟨[], rfl⟩
  | call call _ _ ih =>
    obtain ⟨calls, isReached⟩ := ih
    exact ⟨calls ++ [call], by rw [renew_session, isReached, Session.reached_concat]⟩

/-- Everything in the tree descends, and so does what is in hand for as long as it can be given to
a call. -/
structure Sinking (bench : Bench) : Prop where
  tree : bench.session.tree.Descends
  values : bench.session.failure = none →
    ∀ expr ∈ bench.hand.values, expr.DescendsFrom bench.session.registry.size

/-- At its start a build has nothing and has handed out nothing. -/
theorem sinking_start (options : BuildOptions) : (start options).Sinking where
  tree := nofun
  values _ := nofun

/-- What a call is given descends. -/
theorem Sinking.exprs (sinking : bench.Sinking) (sane : bench.session.failure = none)
    (given : call.grafts ⊆ bench.hand.values) :
    ∀ expr ∈ call.exprs, expr.DescendsFrom bench.session.registry.size := by
  intro expr isExpr
  apply Expr.descendsFrom_of_grafts
  intro graft isGraft
  exact sinking.values sane graft (given (List.mem_flatMap_of_mem isExpr isGraft))

section Succeeds

variable {reply : Reply} {after : Session}
  (sinking : bench.Sinking) (sane : bench.session.failure = none)
  (given : call.grafts ⊆ bench.hand.values) (effect : bench.session.Effect call after)

include sinking sane given effect

/-- The value that a call makes descends. -/
theorem Sinking.value {spec : ValueSpec} (isSpec : call.spec? = some spec) :
    (spec.value bench.session.registry.next).DescendsFrom after.registry.size := by
  have exprs := sinking.exprs sane given
  rw [Call.exprs_of_spec? isSpec] at exprs
  exact Expr.descendsFrom_construct exprs (effect.next_lt (Call.creates?_of_spec? isSpec))

/-- What a call hands out descends. -/
theorem Sinking.answer (ran : call.run bench.session = .ok reply after) {expr : Expr}
    (isAnswer : bench.session.answer? call = some expr) :
    expr.DescendsFrom after.registry.size := by
  have exprs := sinking.exprs sane given
  cases call with
  | use id =>
    cases isAnswer
    have known := Session.known_of_run ran (.inl rfl)
    exact Expr.descendsFrom_ref (Nat.lt_of_lt_of_le known effect.keeps.size)
  | consume id =>
    cases isAnswer
    have known := Session.known_of_run ran (.inr rfl)
    exact Expr.descendsFrom_ref (Nat.lt_of_lt_of_le known effect.keeps.size)
  | inline | forInit =>
    cases isAnswer
    exact Expr.descendsFrom_construct exprs (effect.next_lt rfl)
  | _ => cases isAnswer

/-- What a call appends descends. -/
theorem Sinking.appended {instr : Instruction} (adds : bench.session.Appends call instr) :
    ∀ expr ∈ instr.exprs, expr.Descends := by
  have exprs := sinking.exprs sane given
  cases adds with
  | @statement expr isStatement =>
    rw [Instruction.exprs, List.forall_mem_singleton]
    cases isSpec : call.spec? with
    | some spec =>
      rw [Session.statement?_of_spec? bench.session isSpec] at isStatement
      obtain rfl := Option.some.inj isStatement
      exact (sinking.value sane given effect isSpec).descends
    | none =>
      cases call with
      | push pushed =>
        obtain rfl := Option.some.inj isStatement
        exact (exprs pushed (List.mem_singleton_self _)).descends
      | _ => simp [Session.statement?, isSpec] at isStatement
  | other _ _ same _ =>
    rw [same]
    exact fun expr isExpr => (exprs expr isExpr).descends

/-- After a call that succeeds the tree descends. -/
theorem Sinking.tree_after (placed : bench.session.Placed) : after.tree.Descends := by
  intro instr isInstr expr isExpr
  obtain ⟨site, isAt⟩ := Tree.mem_instructions.mp isInstr
  have stood : ∀ {old}, bench.session.tree.instruction? site = some old →
      ∀ expr ∈ old.exprs, expr.Descends :=
    fun isAt => sinking.tree _ (Tree.mem_instructions.mpr ⟨site, isAt⟩)
  cases effect.origin placed isAt with
  | old isAt => exact stood isAt expr isExpr
  | pushed _ _ adds _ => exact sinking.appended sane given effect adds expr isExpr
  | amended old isAt _ _ exprs _ =>
    obtain isOld | isNew := List.mem_append.mp (exprs.subset isExpr)
    · exact stood isAt expr isOld
    · exact (sinking.exprs sane given expr isNew).descends

/-- A call that succeeds leaves everything descending. -/
theorem Sinking.of_ok (placed : bench.session.Placed)
    (ran : call.run bench.session = .ok reply after) :
    Sinking ⟨after, bench.hand.take call reply⟩ where
  tree := sinking.tree_after sane given effect placed
  values _ expr isValue := by
    obtain isOld | isNew := List.mem_append.mp isValue
    · exact (sinking.values sane expr isOld).mono effect.keeps.size
    · rw [Call.expr?_of_run ran, Option.mem_toList] at isNew
      exact sinking.answer sane given effect ran isNew

end Succeeds

/-- A call that fails leaves everything in the tree as it is. -/
theorem Sinking.of_error (sinking : bench.Sinking) {error : BuildError} {after : Session}
    (failed : call.run bench.session = .error error after) : Sinking ⟨after, bench.hand⟩ where
  tree instr isInstr := by
    obtain ⟨site, isAt⟩ := Tree.mem_instructions.mp isInstr
    rw [(call.careful _ error after failed).instructions] at isAt
    exact sinking.tree instr (Tree.mem_instructions.mpr ⟨site, isAt⟩)
  values sane := absurd sane (Call.failure_of_error failed)

/-- Everything descends in a genuine build. -/
theorem Genuine.sinking (genuine : bench.Genuine options) : bench.Sinking := by
  induction genuine with
  | start => exact sinking_start options
  | @call bench call genuine given sinking =>
    by_cases fresh : call = .reset
    · rw [fresh]
      exact sinking_start _
    · rw [renew_of_ne bench fresh, step]
      cases ran : call.run bench.session with
      | error error after => exact sinking.of_error ran
      | ok reply after =>
        have sane := Call.sane_of_ok ran fresh
        have placed : bench.session.Placed := by
          obtain ⟨calls, isReached⟩ := genuine.exists_calls
          rw [isReached] at sane ⊢
          exact Session.placed_reached options calls sane
        exact sinking.of_ok sane given (Call.effect placed ran fresh) placed ran

end Bench

namespace Shader

/-- Where the writer goes from an expression: to the expressions that it is made from, and from a
reference into the value that it is replaced by. -/
inductive Enters (shader : Shader) : Expr → Expr → Prop where
  | part {next expr : Expr} (isPart : next ∈ expr.parts) : Enters shader next expr
  | value {id : VarId} {value : Expr} (isInlined : shader.inlined? id = some value) :
    Enters shader value (.ref id)

/-- Whether expressions are ranked and written by the rules however deep values lie in values. -/
structure Solves (shader : Shader) (dialect : Dialect) (rank : Expr → Naming Rank)
    (text : Expr → Naming String) : Prop where
  ranks : ∀ expr, rank expr = shader.rankWith dialect rank expr
  texts : ∀ expr, text expr = shader.writeWith dialect text rank expr

/-- Whether ranking and writing comes to an end on every expression. -/
structure Bounded (shader : Shader) : Prop where
  /-- No way through expressions and values goes on without an end. -/
  ways : WellFounded shader.Enters
  /-- The rules give every expression its rank and its text, and no other. -/
  solves : ∀ dialect rank text, shader.Solves dialect rank text ↔
    rank = shader.rankOf dialect ∧ text = shader.write dialect
  /-- To go deeper changes nothing. -/
  deeper : ∀ dialect depth, shader.inlineDepth ≤ depth →
    shader.rankWithin dialect depth = shader.rankOf dialect ∧
      shader.writeWithin dialect depth = shader.write dialect
  /-- Nothing fails for a value without an end. -/
  ends : ∀ dialect expr names, shader.rankOf dialect expr names ≠ .error .endlessValue ∧
    shader.write dialect expr names ≠ .error .endlessValue

variable {shader : Shader} {dialect : Dialect}

/-- What is put in a part is put in the expression. -/
theorem inlinedIn_of_part {part expr : Expr} (isPart : part ∈ expr.parts) :
    shader.inlinedIn part ⊆ shader.inlinedIn expr := by
  intro value isValue
  obtain ⟨id, isMark, isInlined⟩ := mem_inlinedIn.mp isValue
  exact mem_inlinedIn.mpr ⟨id, Expr.marks_of_part isPart isMark, isInlined⟩

/-- All ways from an expression end if they do so from the values in it. -/
theorem acc_of_inlined (expr : Expr)
    (each : ∀ value ∈ shader.inlinedIn expr, Acc shader.Enters value) : Acc shader.Enters expr := by
  induction expr using Expr.induct_parts with
  | step expr inner =>
    refine Acc.intro expr fun next enters => ?_
    cases enters with
    | part isPart =>
      exact inner next isPart fun value isValue => each value (inlinedIn_of_part isPart isValue)
    | @value id _ isInlined =>
      exact each next (mem_inlinedIn.mpr ⟨id, List.mem_singleton_self _, isInlined⟩)

namespace Covers

variable {depth : Nat} {expr : Expr}

/-- Where a depth is enough, all ways end. -/
theorem acc (covers : shader.Covers depth expr) : Acc shader.Enters expr := by
  induction depth generalizing expr with
  | zero => exact covers.elim
  | succ depth ih => exact acc_of_inlined expr fun value isValue => ih (covers value isValue)

/-- Where a depth is enough, more is. -/
theorem mono (covers : shader.Covers depth expr) {deeper : Nat} (le : depth ≤ deeper) :
    shader.Covers deeper expr := by
  induction depth generalizing expr deeper with
  | zero => exact covers.elim
  | succ depth ih =>
    obtain ⟨deeper, rfl⟩ := Nat.exists_eq_succ_of_ne_zero (Nat.ne_zero_of_lt le)
    exact fun value isValue => ih (covers value isValue) (Nat.le_of_succ_le_succ le)

/-- Where a depth is enough, more of it makes no difference to what is put in. -/
theorem substituteWithin_eq (covers : shader.Covers depth expr) {deeper : Nat}
    (le : depth ≤ deeper) :
    shader.substituteWithin deeper expr = shader.substituteWithin depth expr := by
  induction le with
  | refl => rfl
  | step le ih => exact (covers.mono le).substituteWithin_succ.trans ih

/-- What is ranked and written by the rules is so as with everything put in. -/
theorem solved {rank outerRank : Expr → Naming Rank} {text outer : Expr → Naming String}
    (covers : shader.Covers depth expr) (solves : shader.Solves dialect rank text) :
    rank expr = shader.rankWith dialect outerRank (shader.substituteWithin depth expr) ∧
      text expr = shader.writeWith dialect outer outerRank
        (shader.substituteWithin depth expr) := by
  induction depth generalizing expr with
  | zero => exact covers.elim
  | succ depth ih =>
    have twin := twin_substituteWith expr fun value isValue => ih (covers value isValue)
    exact ⟨(solves.ranks expr).trans twin.ranks, (solves.texts expr).trans twin.texts⟩

end Covers

/-- To write what is made of pieces never fails for a value without an end. -/
theorem speak_ends {pieces : List Piece} (ends : .failure .endlessValue ∉ pieces) (names : Names) :
    shader.speak pieces names ≠ .error .endlessValue := by
  induction pieces generalizing names with
  | nil => rintro ⟨⟩
  | cons piece rest ih =>
    rw [List.mem_cons, not_or] at ends
    have first : shader.say piece names ≠ .error .endlessValue := by
      cases piece with
      | letters text => rintro ⟨⟩
      | mention id =>
        rw [say, run_nameOf]
        split <;> rintro ⟨⟩
      | failure error =>
        intro failed
        exact ends.1 (congrArg Piece.failure (Except.error.inj failed)).symm
    show (shader.say piece names >>= fun found => shader.speak rest found.2 >>= fun more =>
      pure (found.1 ++ more.1, more.2)) ≠ _
    cases said : shader.say piece names with
    | error error =>
      rw [said] at first
      exact first
    | ok found =>
      show (shader.speak rest found.2 >>= _) ≠ _
      have second := ih ends.2 found.2
      cases spoken : shader.speak rest found.2 with
      | error error =>
        rw [spoken] at second
        exact second
      | ok more => rintro ⟨⟩

/-- Where no value leads back to itself, nothing fails for a value without an end. -/
theorem Acyclic.ends (acyclic : shader.Acyclic) (dialect : Dialect) (expr : Expr) (names : Names) :
    shader.rankOf dialect expr names ≠ .error .endlessValue ∧
      shader.write dialect expr names ≠ .error .endlessValue := by
  have ranked := acyclic.ranked dialect expr
  obtain ⟨pieces, isText, ends⟩ := ranked.1
  have written : shader.write dialect expr names ≠ .error .endlessValue := by
    rw [isText]
    exact speak_ends ends names
  refine ⟨fun failed => ?_, written⟩
  have run := ranked.run names
  rw [failed] at run
  exact written run

/-- Where no value leads back to itself, to go deeper changes nothing. -/
theorem Acyclic.deeper (acyclic : shader.Acyclic) (dialect : Dialect) {depth : Nat}
    (le : shader.inlineDepth ≤ depth) :
    shader.rankWithin dialect depth = shader.rankOf dialect ∧
      shader.writeWithin dialect depth = shader.write dialect := by
  have each : ∀ expr, shader.rankWithin dialect depth expr = shader.rankOf dialect expr ∧
      shader.writeWithin dialect depth expr = shader.write dialect expr := by
    intro expr
    have covers := acyclic.covers expr
    obtain ⟨isRank, isText⟩ :=
      acyclic.write_eq dialect (fun _ => pure "") (fun _ => pure .primary) expr
    rw [isRank, isText, substituted, ← covers.substituteWithin_eq le]
    exact (covers.mono le).twin
  exact ⟨funext fun expr => (each expr).1, funext fun expr => (each expr).2⟩

/-- Where no value leads back to itself, ranking and writing comes to an end. -/
theorem Acyclic.bounded (acyclic : shader.Acyclic) : shader.Bounded where
  ways := ⟨fun expr => (acyclic.covers expr).acc⟩
  solves dialect rank text := by
    constructor
    · intro solves
      have each : ∀ expr, rank expr = shader.rankOf dialect expr ∧
          text expr = shader.write dialect expr := by
        intro expr
        obtain ⟨isRank, isText⟩ :=
          acyclic.write_eq dialect (fun _ => pure "") (fun _ => pure .primary) expr
        rw [isRank, isText]
        exact (acyclic.covers expr).solved solves
      exact ⟨funext fun expr => (each expr).1, funext fun expr => (each expr).2⟩
    · rintro ⟨rfl, rfl⟩
      -- One step by the rules is one step deeper.
      obtain ⟨isRank, isText⟩ := acyclic.deeper dialect (Nat.le_succ shader.inlineDepth)
      exact ⟨fun expr => (congrFun isRank expr).symm, fun expr => (congrFun isText expr).symm⟩
  deeper dialect _ := acyclic.deeper dialect
  ends := acyclic.ends

/-- A value that is written where it is used is made from older variables, if everything in the tree
descends. -/
theorem older_of_leads (descends : shader.tree.Descends) {id other : VarId}
    (leads : shader.Leads id other) : other.index < id.index := by
  obtain ⟨value, isInlined, isMark⟩ := leads
  unfold inlined? at isInlined
  split at isInlined
  case isFalse => cases isInlined
  case isTrue =>
    obtain ⟨isStatement, made, args, rfl, rfl⟩ := statement_of_constructionOf? isInlined
    have inArgs : .reference other ∈ Expr.marksOf args := by
      simpa [Expr.marks] using isMark
    exact descends _ isStatement _ (List.mem_singleton_self _) made args .whole _ inArgs

end Shader

namespace Bench

/-- Wherever calls lead, with or without a failure, every construction anywhere in the tree speaks,
in its arguments, of variables older than its own alone, as long as no call is given a reference or
a construction that was not handed out since the last fresh start. So in the shader that such a
build ends in, ranking and writing comes to an end on every expression. -/
theorem descends_genuine {options : BuildOptions} {bench : Bench}
    (genuine : bench.Genuine options) :
    bench.session.tree.Descends ∧
      ∀ shader after, Build.finish bench.session = .ok shader after → shader.Bounded := by
  have descends := genuine.sinking.tree
  refine ⟨descends, fun shader after finished => ?_⟩
  obtain ⟨-, -, -, rfl⟩ := Build.finish_ok_iff.mp finished
  exact (Shader.acyclic_of_older fun _ _ leads => Shader.older_of_leads descends leads).bounded

/-- A build that failed and was started over; then a sum is consumed in a value that is never
declared, which stands in one that is read. -/
def restarted : Bench :=
  start .standard
    |>.renew (.forward (.scalar .float) (.int 1))
    |>.renew (.consume ⟨7⟩)
    |>.renew .reset
    |>.renew (.declare (.scalar .float) (some "a"))
    |>.renew (.use ⟨0⟩)
    |>.renew (.forward (.scalar .float) (.binary .add (.ref ⟨0⟩) (.int 1)))
    |>.renew (.consume ⟨1⟩)
    |>.renew (.inline (.scalar .float) [.ref ⟨1⟩])
    |>.renew (.construct (.scalar .float)
      [.construct ⟨⟨2⟩, .scalar .float, .temporary, .call, none⟩ [.ref ⟨1⟩]])
    |>.renew (.consume ⟨3⟩)
    |>.renew (.push (.assign (.ref ⟨0⟩) (.ref ⟨3⟩)))

/-- The calls of `restarted` are given what was handed out. -/
theorem genuine_restarted : restarted.Genuine .standard := by
  have began : Genuine .standard _ := Genuine.start
    |>.call (.forward (.scalar .float) (.int 1)) nofun
    |>.call (.consume ⟨7⟩) nofun
    |>.call .reset nofun
    |>.call (.declare (.scalar .float) (some "a")) nofun
    |>.call (.use ⟨0⟩) nofun
  -- In hand are from here on, in this order, `a`, the sum, the value made of it, and what reads it.
  exact began
    |>.call (.forward (.scalar .float) (.binary .add (.ref ⟨0⟩) (.int 1))) (.refl _)
    |>.call (.consume ⟨1⟩) nofun
    |>.call (.inline (.scalar .float) [.ref ⟨1⟩]) (fun _ => .tail _)
    |>.call (.construct (.scalar .float)
      [.construct ⟨⟨2⟩, .scalar .float, .temporary, .call, none⟩ [.ref ⟨1⟩]])
      (fun _ isValue => .tail _ (.tail _ isValue))
    |>.call (.consume ⟨3⟩) nofun
    |>.call (.push (.assign (.ref ⟨0⟩) (.ref ⟨3⟩)))
      (List.cons_subset.mpr ⟨.head _, fun _ isValue => .tail _ (.tail _ (.tail _ isValue))⟩)

/-- In the shader that `restarted` ends in, each value lies in the next, and nothing is endless. -/
theorem descends_genuine_restarted :
    restarted.Genuine .standard ∧ restarted.session.tree.Descends ∧
      ∃ shader after, Build.finish restarted.session = .ok shader after ∧ shader.Bounded ∧
        shader.inlined? ⟨3⟩ = some (.construct
          ⟨⟨3⟩, .scalar .float, .initialisation, .call, none⟩
          [.construct ⟨⟨2⟩, .scalar .float, .temporary, .call, none⟩ [.ref ⟨1⟩]]) ∧
        (shader.write .glsl (.ref ⟨3⟩)).run (.start shader) =
          .ok ("float(float(a + 1))", { Names.start shader with handed := [(⟨0⟩, "a")] }) :=
  ⟨genuine_restarted, (descends_genuine genuine_restarted).1, _, _, rfl,
    (descends_genuine genuine_restarted).2 _ _ rfl, by cbv, by cbv⟩

end Bench

end ShaderLoom
