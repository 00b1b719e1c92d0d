import ShaderLoom.Proofs.Placement

/-!
# Closing a chain later

A chain of conditions whose last case was closed stays open for an `else`, and is closed by the
first call that reaches the block around it. Nothing tells such a call from one that comes after the
chain was closed by hand (`Session.deferral_reached`): most calls close waiting chains before they
look at anything else, and what the others do before that does not depend on the chains
(`Build.Indifferent`).
-/
namespace ShaderLoom

/-- Whether a call closes waiting chains: all do but those that go on with a chain of conditions or
with the header of a loop, those that are about variables and values alone, and a fresh start. -/
def Call.settles : Call → Bool
  | .beginElseIf _ | .beginElse | .endIf => false
  | .beginForArgs | .stackForCondition _ | .beginForBody => false
  | .inline _ _ | .use _ | .consume _ | .forInit _ _ _ => false
  | .reset => false
  | _ => true

namespace Build

variable {α β : Type}

/-- Whether two ways to an answer agree: they succeed with the same answer in the same state, or
they fail alike in states that are the same once waiting chains are closed. -/
inductive Agree :
    EStateM.Result BuildError Session α → EStateM.Result BuildError Session α → Prop where
  | ok (value : α) (after : Session) : Agree (.ok value after) (.ok value after)
  | error (error : BuildError) {one other : Session} (same : one.settle = other.settle) :
    Agree (.error error one) (.error error other)

/-- Whether two ways to an answer agree and, if they fail, both leave the failure behind. -/
inductive Concur :
    EStateM.Result BuildError Session α → EStateM.Result BuildError Session α → Prop where
  | ok (value : α) (after : Session) : Concur (.ok value after) (.ok value after)
  | error (error : BuildError) {one other : Session} (same : one.settle = other.settle)
    (kept : one.failure = some error) (keptToo : other.failure = some error) :
    Concur (.error error one) (.error error other)

/-- Whether a computation comes to the same end when waiting chains are closed before it. -/
def Indifferent (call : Build α) : Prop := ∀ s, Agree (call s) (call s.settle)

/-- An outcome, with the waiting chains closed. -/
def settled : EStateM.Result BuildError Session α → EStateM.Result BuildError Session α
  | .ok value after => .ok value after.settle
  | .error error after => .error error after.settle

/-- Whether a computation does not notice it when waiting chains are closed before it. -/
def Unaware (call : Build α) : Prop := ∀ s, call s.settle = settled (call s)

/-- Every way to an answer agrees with itself. -/
theorem Agree.refl (result : EStateM.Result BuildError Session α) : Agree result result := by
  cases result with
  | ok value after => exact .ok value after
  | error error after => exact .error error rfl

/-- What fails is unaware of waiting chains. -/
theorem unaware_throw (error : BuildError) : Unaware (throw error : Build α) := fun _ => rfl

/-- A new variable is unaware of waiting chains. -/
theorem unaware_create (ty : Ty) (category : Category) (name : Option String) (status : Status) :
    Unaware (create ty category name status) := fun _ => rfl

/-- A change of the registry is unaware of waiting chains. -/
theorem unaware_register (edit : Registry → Except BuildError Registry) :
    Unaware (register edit) := by
  intro s
  cases edited : edit s.registry with
  | ok registry =>
    have before : register edit s = .ok () { s with registry } :=
      register_ok_iff.mpr ⟨registry, edited, rfl⟩
    have behind : register edit s.settle = .ok () { s.settle with registry } :=
      register_ok_iff.mpr ⟨registry, edited, rfl⟩
    rw [before, behind]
    rfl
  | error error =>
    have before : register edit s = .error error s := register_error_iff.mpr ⟨edited, rfl⟩
    have behind : register edit s.settle = .error error s.settle :=
      register_error_iff.mpr ⟨edited, rfl⟩
    rw [before, behind]
    rfl

/-- Waiting chains that are closed are not closed again. -/
theorem modify_settle_eq (next : PUnit → Build α) (s : Session) :
    (modify Session.settle >>= next) s = (modify Session.settle >>= next) s.settle := by
  change next ⟨⟩ s.settle = next ⟨⟩ s.settle.settle
  rw [Session.settle_settle]

namespace Indifferent

/-- What leads on in the same way is indifferent. -/
theorem of_eq {call : Build α} (same : ∀ s, call s = call s.settle) : Indifferent call := by
  intro s
  rw [same s]
  exact .refl _

/-- What closes the waiting chains first is indifferent. -/
theorem settling (next : PUnit → Build α) : Indifferent (modify Session.settle >>= next) :=
  of_eq (modify_settle_eq next)

/-- What looks for the block of an instruction first is indifferent. -/
theorem preparing (kind : Kind) (isParameter : Bool) (next : BlockId → Build α) :
    Indifferent (prepare kind isParameter >>= next) := by
  refine of_eq fun s => ?_
  have same : prepare kind isParameter s = prepare kind isParameter s.settle :=
    modify_settle_eq _ s
  change EStateM.bind _ _ s = EStateM.bind _ _ s.settle
  unfold EStateM.bind
  rw [same]

/-- What follows something unaware of waiting chains is indifferent if it is so by itself. -/
theorem after {first : Build α} {next : α → Build β} (unaware : Unaware first)
    (indifferent : ∀ value, Indifferent (next value)) : Indifferent (first >>= next) := by
  intro s
  change Agree (EStateM.bind first next s) (EStateM.bind first next s.settle)
  unfold EStateM.bind
  rw [unaware s]
  cases first s with
  | ok value middle => exact indifferent value middle
  | error error middle => exact .error error (middle.settle_settle).symm

/-- A failure is indifferent. -/
theorem throw (error : BuildError) : Indifferent (MonadExcept.throw error : Build α) :=
  fun s => .error error s.settle_settle.symm

/-- What is done first in one of two cases may be done or not. -/
theorem maybe {choice : Prop} [Decidable choice] {first : Build PUnit} {rest : PUnit → Build α}
    (unaware : Unaware first) (indifferent : ∀ answer, Indifferent (rest answer)) :
    Indifferent (if choice then first >>= rest else rest ⟨⟩) := by
  split
  · exact after unaware indifferent
  · exact indifferent _

/-- What is answered in the end does not matter. -/
theorem answered {call : Build α} (indifferent : Indifferent call) (answer : β) :
    Indifferent (call >>= fun _ => pure answer) := by
  intro s
  change Agree (EStateM.bind _ _ s) (EStateM.bind _ _ s.settle)
  unfold EStateM.bind
  have agree := indifferent s
  revert agree
  cases call s <;> cases call s.settle <;> intro agree <;> cases agree
  · exact .ok _ _
  · exact .error _ ‹_›

/-- Behind the guard an indifferent computation comes to the same end, with the same failure. -/
theorem guarded {call : Build α} (indifferent : Indifferent call) {s : Session}
    (sane : s.failure = none) : Concur (Build.guarded call s) (Build.guarded call s.settle) := by
  have agree := indifferent s
  unfold Build.guarded
  rw [Session.settle_failure, sane]
  revert agree
  cases call s <;> cases call s.settle <;> intro agree <;> cases agree
  case ok value after => exact .ok value after
  case error error one other same =>
    exact .error error (congrArg (fun s => { s with failure := some error }) same) rfl rfl

end Indifferent

/-- What always succeeds goes on to the same end after the same end. -/
theorem Concur.followed {first : Build α} {next : α → Build β} {one other : Session}
    (concur : Concur (first one) (first other))
    (total : ∀ value s, ∃ result after, next value s = .ok result after) :
    Concur ((first >>= next) one) ((first >>= next) other) := by
  change Concur (EStateM.bind first next one) (EStateM.bind first next other)
  unfold EStateM.bind
  revert concur
  cases first one <;> cases first other <;> intro concur <;> cases concur
  case ok value middle =>
    obtain ⟨result, after, isRun⟩ := total value middle
    change Concur (next value middle) (next value middle)
    rw [isRun]
    exact .ok result after
  case error error one other kept keptToo same => exact .error error same kept keptToo

/-- A call comes to the same end as the operation it stands for. -/
theorem Indifferent.run {call : Build α} (indifferent : Indifferent call) {s : Session}
    (sane : s.failure = none) (form : α → Reply) :
    Concur ((form <$> Build.guarded call) s) ((form <$> Build.guarded call) s.settle) := by
  rw [map_eq_pure_bind]
  exact (indifferent.guarded sane).followed fun _ _ => ⟨_, _, rfl⟩

/-- To append an instruction is indifferent. -/
theorem indifferent_append (instr : Instruction) : Indifferent (append instr) := .preparing _ _ _

/-- To make a value is indifferent. -/
theorem indifferent_emitValue (spec : ValueSpec) : Indifferent (emitValue spec) := by
  refine .maybe (unaware_throw _) fun _ => .after (unaware_create _ _ _ _) fun var => ?_
  exact .maybe (unaware_register _) fun _ => (indifferent_append _).answered var

/-- To push a keyword statement is indifferent. -/
theorem indifferent_addStatement (stmt : Special) :
    Indifferent (do
      match misplaced? (← get).scopes stmt with
      | some error => throw error
      | none => append (.special stmt)) := by
  intro s
  change Agree ((match misplaced? s.scopes stmt with
    | some error => throw error
    | none => append (.special stmt) : Build Unit) s) ((match misplaced? s.settle.scopes stmt with
    | some error => throw error
    | none => append (.special stmt) : Build Unit) s.settle)
  rw [misplaced?_settle]
  cases misplaced? s.scopes stmt with
  | some error => exact Indifferent.throw error s
  | none => exact indifferent_append _ s

end Build

open Build in
/-- A call that closes waiting chains comes to the same end when they are closed before it. -/
theorem Call.concur {call : Call} (settles : call.settles) {s : Session}
    (sane : s.failure = none) : Concur (call.run s) (call.run s.settle) := by
  cases call with
  | emit | construct | constructNamed | declare | forward | declareGlobal | declareConst
  | declareParam => exact (indifferent_emitValue _).run sane _
  | push => exact (indifferent_append _).run sane _
  | declareStruct => exact ((indifferent_append _).answered _).run sane _
  | declareInterface =>
    refine Indifferent.run (.after (unaware_create _ _ _ _) fun var => ?_) sane _
    exact .after (unaware_register _) fun _ => (indifferent_append _).answered var
  | addStatement stmt => exact (indifferent_addStatement stmt).run sane _
  | beginIf | beginSwitch | beginFor | beginForClauses | beginWhile | beginDoWhile | returnValue
  | returnVoid => exact (Indifferent.preparing _ _ _).run sane _
  | endIfSubBlock | addCase | endSwitch | endFor | endWhile | endDoWhile | beginFunc
  | nextOverload | endFunc => exact (Indifferent.settling _).run sane _
  | _ => cases settles

namespace Session

/-- Closing a waiting chain by hand closes all that wait, for only the innermost scope can. -/
theorem Placed.endIf_eq {s : Session} (placed : s.Placed) (sane : s.failure = none)
    {site : Address} {parent : BlockId} {rest : List Frame}
    (waits : s.scopes = .branch site parent true :: rest) : Build.endIf s = .ok () s.settle := by
  refine Build.endIf_ok_iff.mpr ⟨sane, site, parent, true, rest, waits, ?_⟩
  have calm := placed.calm
  rw [waits] at calm
  have isRest : rest.dropWhile Frame.isWaiting = rest := by
    cases rest with
    | nil => rfl
    | cons frame below =>
      have stays := calm frame List.mem_cons_self
      exact List.dropWhile_cons_of_neg (by simp [stays])
  rw [Session.settle, closed, waits, List.dropWhile_cons_of_pos rfl, isRest]
  rfl

/-- Wherever calls have led without failing and a chain of conditions waits for an `else`, closing
it by hand makes no difference to the calls that close it by themselves: they give the same answer
and lead to the same state, or fail alike and leave the same failure. The same holds of the end of
the build. -/
theorem deferral_reached (options : BuildOptions) (calls : List Call)
    {site : Address} {parent : BlockId} {rest : List Frame}
    (sane : (reached options calls).failure = none)
    (waits : (reached options calls).scopes = .branch site parent true :: rest) :
    (∀ call, Call.settles call → Build.Concur (call.run (reached options calls))
      ((Build.endIf *> call.run) (reached options calls))) ∧
    Build.Concur (Build.finish (reached options calls))
      ((Build.endIf *> Build.finish) (reached options calls)) := by
  have closed := (placed_reached options calls sane).endIf_eq sane waits
  have byHand : ∀ {α : Type} (next : Build α),
      (Build.endIf *> next) (reached options calls) = next (reached options calls).settle := by
    intro α next
    change EStateM.seqRight _ _ _ = _
    unfold EStateM.seqRight
    rw [closed]
  constructor
  · intro call settles
    rw [byHand]
    exact Call.concur settles sane
  · rw [byHand]
    exact ((Build.Indifferent.settling _).guarded sane).followed fun _ _ => ⟨_, _, rfl⟩

/-- A chain of conditions waits in the body of a loop in a function. -/
def pendingCalls : List Call :=
  [.beginFunc "f" .void, .nextOverload [], .beginWhile (.literal (.bool true)),
   .beginIf (.literal (.bool true)), .endIfSubBlock]

/-- After `pendingCalls` the end of the loop succeeds and the end of the function fails, and both
come to the same end once the chain is closed by hand, as does the end of the build. -/
theorem deferral_reached_pending :
    (∃ reply after, Call.endWhile.run (reached .standard pendingCalls) = .ok reply after) ∧
    Build.Concur (Call.endWhile.run (reached .standard pendingCalls))
      ((Build.endIf *> Call.endWhile.run) (reached .standard pendingCalls)) ∧
    (∃ error after, Call.endFunc.run (reached .standard pendingCalls) = .error error after) ∧
    Build.Concur (Call.endFunc.run (reached .standard pendingCalls))
      ((Build.endIf *> Call.endFunc.run) (reached .standard pendingCalls)) ∧
    Build.Concur (Build.finish (reached .standard pendingCalls))
      ((Build.endIf *> Build.finish) (reached .standard pendingCalls)) :=
  ⟨⟨_, _, rfl⟩, (deferral_reached .standard pendingCalls rfl rfl).1 .endWhile rfl, ⟨_, _, rfl⟩,
    (deferral_reached .standard pendingCalls rfl rfl).1 .endFunc rfl,
    (deferral_reached .standard pendingCalls rfl rfl).2⟩

end Session

end ShaderLoom
