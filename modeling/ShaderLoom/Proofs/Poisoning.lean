import ShaderLoom.Proofs.Scripts

/-!
# After the first failure

Every call but a fresh start runs behind one guard, and what runs behind it never fails as the guard
does (`Build.Steady`). So the first failure is kept as it is, every call after it is refused with it
and changes nothing, and a helper, which is but a sequence of calls, ends with the failure of the
call inside it that failed. A fresh start leads back to the very beginning.
-/
namespace ShaderLoom

/-- Whether a failure says no more than that the build had failed before. -/
def BuildError.isPoisoned : BuildError → Bool
  | .poisoned _ => true
  | _ => false

namespace Build

variable {α β : Type}

/-- Whether a computation leaves the options of the build, and never fails as a build does that had
failed before. -/
structure Steady (call : Build α) : Prop where
  ok : ∀ s value after, call s = .ok value after → after.options = s.options
  error : ∀ s error after, call s = .error error after →
    after.options = s.options ∧ error.isPoisoned = false

namespace Steady

/-- What always succeeds is steady if it leaves the options. -/
theorem of_ok {call : Build α} (total : ∀ s, ∃ value after, call s = .ok value after ∧
    after.options = s.options) : Steady call where
  ok s value after ran := by
    obtain ⟨_, _, isRun, same⟩ := total s
    rw [isRun] at ran
    cases ran
    exact same
  error s error after failed := by
    obtain ⟨_, _, isRun, -⟩ := total s
    rw [isRun] at failed
    cases failed

/-- An answer is steady. -/
theorem pure (value : α) : Steady (Pure.pure value) := of_ok fun s => ⟨value, s, rfl, rfl⟩

/-- To look at the build is steady. -/
theorem get : Steady (MonadState.get : Build Session) := of_ok fun s => ⟨s, s, rfl, rfl⟩

/-- A change that leaves the options is steady. -/
theorem change {edit : Session → Session} (keeps : ∀ s, (edit s).options = s.options) :
    Steady (modify edit : Build PUnit) := of_ok fun s => ⟨_, _, rfl, keeps s⟩

/-- A failure of its own is steady. -/
theorem throw {error : BuildError} (own : error.isPoisoned = false) :
    Steady (MonadExcept.throw error : Build α) where
  ok _ _ _ ran := nomatch ran
  error s other after failed := by
    cases failed
    exact ⟨rfl, own⟩

/-- One steady thing after another is steady. -/
theorem bind {first : Build α} {next : α → Build β} (steady : Steady first)
    (steadyNext : ∀ value, Steady (next value)) : Steady (first >>= next) where
  ok s value after ran := by
    obtain ⟨found, middle, began, ran⟩ := bind_ok_iff.mp ran
    rw [(steadyNext found).ok middle value after ran, steady.ok s found middle began]
  error s error after failed := by
    obtain failed | ⟨found, middle, began, failed⟩ := bind_error_iff.mp failed
    · exact steady.error s error after failed
    · have later := (steadyNext found).error middle error after failed
      rw [steady.ok s found middle began] at later
      exact later

/-- What looks at the build first is steady if it is so whatever it sees. -/
theorem look {next : Session → Build α} (steady : ∀ s, Steady (next s)) :
    Steady (MonadState.get >>= next) := get.bind steady

/-- What closes the waiting chains first is steady if what follows is. -/
theorem settling {next : PUnit → Build α} (steady : ∀ answer, Steady (next answer)) :
    Steady (modify Session.settle >>= next) := (change Session.settle_options).bind steady

/-- What is done first in one of two cases may be done or not. -/
theorem maybe {choice : Prop} [Decidable choice] {first : Build PUnit} {rest : PUnit → Build α}
    (steady : Steady first) (steadyRest : ∀ answer, Steady (rest answer)) :
    Steady (if choice then first >>= rest else rest ⟨⟩) := by
  split
  · exact steady.bind steadyRest
  · exact steadyRest _

end Steady

/-- No instruction is refused as a call is after a failure. -/
theorem isPoisoned_of_refusal? {s : Session} {kind : Kind} {isParameter : Bool}
    {error : BuildError} (refused : s.refusal? kind isParameter = some error) :
    error.isPoisoned = false := by
  unfold Session.refusal? at refused
  cases isParameter <;> simp only [if_true, Bool.false_eq_true, if_false] at refused <;>
    split at refused <;> try split at refused
  all_goals
    cases refused
    try rfl

/-- To find the block for an instruction is steady. -/
theorem steady_prepare (kind : Kind) (isParameter : Bool) : Steady (prepare kind isParameter) := by
  refine .settling fun _ => .look fun s => ?_
  split
  case h_1 error refused => exact .throw (isPoisoned_of_refusal? refused)
  case h_2 => exact .pure _

/-- A new block is steady. -/
theorem steady_newBlock (parent : BlockId) (kind : BlockKind) : Steady (newBlock parent kind) :=
  .of_ok fun _ => ⟨_, _, rfl, rfl⟩

/-- A push is steady. -/
theorem steady_commit (block : BlockId) (instr : Instruction) : Steady (commit block instr) := by
  refine .of_ok fun s => ⟨_, _, rfl, ?_⟩
  unfold Session.commit Session.countParameter
  split
  · split <;> rfl
  · rfl

/-- An amendment is steady. -/
theorem steady_amend (site : Address) (edit : Instruction → Instruction) :
    Steady (amend site edit) := .change fun _ => rfl

/-- To open a scope is steady. -/
theorem steady_openScope (frame : Frame) (block : BlockId) : Steady (openScope frame block) :=
  .change fun _ => rfl

/-- To go on in a scope is steady. -/
theorem steady_replaceScope (frame : Frame) (block : BlockId) :
    Steady (replaceScope frame block) := .change fun _ => rfl

/-- To close a scope is steady. -/
theorem steady_closeScope (block : BlockId) : Steady (closeScope block) := .change fun _ => rfl

/-- A new variable is steady. -/
theorem steady_create (ty : Ty) (category : Category) (name : Option String) (status : Status) :
    Steady (create ty category name status) := .of_ok fun _ => ⟨_, _, rfl, rfl⟩

/-- A change of the registry is steady if it fails in a way of its own. -/
theorem steady_register {edit : Registry → Except BuildError Registry}
    (own : ∀ registry error, edit registry = .error error → error.isPoisoned = false) :
    Steady (register edit) where
  ok s value after ran := by
    obtain ⟨registry, -, rfl⟩ := register_ok_iff.mp ran
    rfl
  error s error after failed := by
    obtain ⟨edited, rfl⟩ := register_error_iff.mp failed
    exact ⟨rfl, own _ error edited⟩

/-- A change of one variable fails only for want of the variable. -/
theorem isPoisoned_of_update {registry : Registry} {id : VarId} {edit : Record → Record}
    {error : BuildError} (failed : registry.update id edit = .error error) :
    error.isPoisoned = false := by
  unfold Registry.update at failed
  split at failed <;> cases failed
  rfl

/-- To pin a variable is steady. -/
theorem steady_pin (id : VarId) : Steady (register (·.pin id)) :=
  steady_register fun _ _ => isPoisoned_of_update

/-- To append an instruction is steady. -/
theorem steady_append (instr : Instruction) : Steady (append instr) := by
  have pushed : ∀ block, Steady (commit block instr >>= fun _ => (pure () : Build Unit)) :=
    fun block => (steady_commit block instr).bind fun _ => .pure ()
  refine (steady_prepare _ _).bind fun block => .look fun s => ?_
  split
  · exact .maybe (steady_pin _) fun _ => pushed block
  · exact pushed block

/-- To make a value is steady. -/
theorem steady_emitValue (spec : ValueSpec) : Steady (emitValue spec) := by
  refine .maybe (.throw rfl) fun _ => (steady_create _ _ _ _).bind fun var => ?_
  exact .maybe (steady_pin var) fun _ => (steady_append _).bind fun _ => .pure var

/-- To find the cases of a chain of conditions is steady. -/
theorem steady_ifCases (site : Address) (found : Step) : Steady (ifCases site found) := by
  refine .look fun s => ?_
  split
  · exact .pure _
  · exact .throw rfl

/-- To add a case to a chain of conditions is steady. -/
theorem steady_addIfCase (condition : Option Expr) (found : Step) :
    Steady (addIfCase condition found) := by
  refine .look fun s => ?_
  split
  · refine (steady_ifCases _ _).bind fun cases => .maybe (.throw rfl) fun _ => ?_
    refine .maybe (.throw rfl) fun _ => (steady_newBlock _ _).bind fun body => ?_
    exact (steady_amend _ _).bind fun _ => steady_replaceScope _ _
  · exact .throw rfl

/-- To demand a complete parameter list is steady. -/
theorem steady_requireComplete (var : VarId) (overload : Option OpenOverload) (found : Step) :
    Steady (requireComplete var overload found) := by
  unfold requireComplete
  split
  · split
    · exact .look fun _ => .throw rfl
    · exact .pure _
  · exact .pure _

/-- To push a return is steady. -/
theorem steady_pushReturn (value : Option Expr) (found : Ty) :
    Steady (pushReturn value found) := by
  refine (steady_prepare _ _).bind fun block => .look fun s => ?_
  split
  · exact .throw rfl
  · exact (steady_commit _ _).bind fun _ => .pure _

/-- A keyword statement is misplaced in a way of its own. -/
theorem isPoisoned_of_misplaced? {scopes : List Frame} {stmt : Special} {error : BuildError}
    (misplaced : misplaced? scopes stmt = some error) : error.isPoisoned = false := by
  unfold misplaced? at misplaced
  split at misplaced
  · split at misplaced <;> cases misplaced
    rfl
  · split at misplaced <;> cases misplaced
    rfl
  · split at misplaced <;> cases misplaced
    rfl
  · cases misplaced

/-- Whether a call is a steady computation behind the guard, with its answer put in a form. -/
def Guards (call : Build Reply) : Prop :=
  ∃ (α : Type) (form : α → Reply) (inner : Build α), Steady inner ∧ call = form <$> guarded inner

/-- A steady computation behind the guard guards a call. -/
theorem guards {inner : Build α} (steady : Steady inner) (form : α → Reply) :
    Guards (form <$> guarded inner) := ⟨α, form, inner, steady, rfl⟩

namespace Guards

variable {call : Build Reply} {s after : Session} {reply : Reply} {error first : BuildError}

/-- On a build that has failed the guard refuses the call and changes nothing. -/
theorem refused (guards : Guards call) (failed : s.failure = some first) :
    call s = .error (.poisoned first) s := by
  obtain ⟨α, form, inner, -, rfl⟩ := guards
  change EStateM.map form (guarded inner) s = _
  unfold EStateM.map guarded
  rw [failed]

/-- The guard keeps the first failure, which is one of the call itself. -/
theorem kept (guards : Guards call) (sane : s.failure = none)
    (failed : call s = .error error after) :
    after.failure = some error ∧ error.isPoisoned = false ∧ after.options = s.options := by
  obtain ⟨α, form, inner, steady, rfl⟩ := guards
  change EStateM.map form (guarded inner) s = _ at failed
  unfold EStateM.map guarded at failed
  rw [sane] at failed
  cases ran : inner s with
  | ok value middle =>
    rw [ran] at failed
    cases failed
  | error cause middle =>
    rw [ran] at failed
    cases failed
    have isSteady := steady.error s error middle ran
    exact ⟨rfl, isSteady.2, isSteady.1⟩

/-- A call that the guard lets through leaves the options. -/
theorem options (guards : Guards call) (ran : call s = .ok reply after) :
    after.options = s.options := by
  obtain ⟨α, form, inner, steady, rfl⟩ := guards
  obtain ⟨value, ran, -⟩ := map_ok_iff.mp ran
  exact steady.ok s value after (guarded_ok_iff.mp ran).2

end Guards

end Build

open Build in
/-- Every call but a fresh start is a steady computation behind the guard. -/
theorem Call.guards {call : Call} (goesOn : call ≠ .reset) : Build.Guards call.run := by
  cases call with
  | emit | construct | constructNamed | declare | forward | declareGlobal | declareConst
  | declareParam => exact Build.guards (steady_emitValue _) _
  | inline ty args =>
    exact Build.guards ((steady_create _ _ _ _).bind fun var =>
      (steady_pin var).bind fun _ => .pure _) _
  | use id =>
    exact Build.guards ((steady_register fun _ _ => isPoisoned_of_update).bind fun _ => .pure _) _
  | consume id =>
    exact Build.guards ((steady_register fun _ _ => isPoisoned_of_update).bind fun _ => .pure _) _
  | push expr => exact Build.guards (steady_append _) _
  | declareStruct name fields =>
    exact Build.guards ((steady_append _).bind fun _ => .pure _) _
  | declareInterface qualifier name fields inst =>
    exact Build.guards ((steady_create _ _ _ _).bind fun var =>
      (steady_pin var).bind fun _ => (steady_append _).bind fun _ => .pure _) _
  | beginIf condition =>
    exact Build.guards ((steady_prepare _ _).bind fun _ => (steady_newBlock _ _).bind fun _ =>
      (steady_commit _ _).bind fun _ => steady_openScope _ _) _
  | beginElseIf | beginElse => exact Build.guards (steady_addIfCase _ _) _
  | endIfSubBlock =>
    refine Build.guards (.settling fun _ => .look fun s => ?_) _
    split
    · refine (steady_ifCases _ _).bind fun cases => ?_
      split
      · exact steady_closeScope _
      · exact steady_replaceScope _ _
    · exact .throw rfl
  | endIf =>
    refine Build.guards (.look fun s => ?_) _
    split
    · exact steady_closeScope _
    · exact steady_closeScope _
    · exact .throw rfl
  | beginSwitch selector =>
    exact Build.guards ((steady_prepare _ _).bind fun _ => (steady_commit _ _).bind fun _ =>
      steady_openScope _ _) _
  | addCase label =>
    refine Build.guards (.settling fun _ => .look fun s => ?_) _
    split
    · refine (steady_newBlock _ _).bind fun body => .look fun s => .maybe (.throw rfl) fun _ => ?_
      exact (steady_amend _ _).bind fun _ => steady_replaceScope _ _
    · exact .throw rfl
  | endSwitch | endWhile =>
    refine Build.guards (.settling fun _ => .look fun s => ?_) _
    split
    · exact steady_closeScope _
    · exact .throw rfl
  | beginFor =>
    exact Build.guards ((steady_prepare _ _).bind fun _ => (steady_newBlock _ _).bind fun _ =>
      (steady_newBlock _ _).bind fun _ => .look fun _ => (steady_commit _ _).bind fun _ =>
      steady_openScope _ _) _
  | beginForClauses clauses =>
    exact Build.guards ((steady_prepare _ _).bind fun _ => (steady_newBlock _ _).bind fun _ =>
      (steady_commit _ _).bind fun _ => steady_openScope _ _) _
  | forInit ty name value =>
    exact Build.guards ((steady_create _ _ _ _).bind fun var =>
      (steady_pin var).bind fun _ => .pure _) _
  | beginForArgs =>
    refine Build.guards (.look fun s => ?_) _
    split
    · exact steady_replaceScope _ _
    · exact .throw rfl
    · exact .throw rfl
  | stackForCondition condition =>
    refine Build.guards (.look fun s => ?_) _
    split
    · exact .throw rfl
    · exact steady_amend _ _
    · exact .throw rfl
  | beginForBody =>
    refine Build.guards (.look fun s => ?_) _
    split
    · exact .throw rfl
    · exact steady_replaceScope _ _
    · exact .throw rfl
  | endFor =>
    refine Build.guards (.settling fun _ => .look fun s => ?_) _
    split
    · exact steady_closeScope _
    · exact .throw rfl
    · exact .throw rfl
  | beginWhile condition =>
    exact Build.guards ((steady_prepare _ _).bind fun _ => (steady_newBlock _ _).bind fun _ =>
      (steady_commit _ _).bind fun _ => steady_openScope _ _) _
  | beginDoWhile =>
    exact Build.guards ((steady_prepare _ _).bind fun _ => (steady_newBlock _ _).bind fun _ =>
      (steady_commit _ _).bind fun _ => steady_openScope _ _) _
  | endDoWhile condition =>
    refine Build.guards (.settling fun _ => .look fun s => ?_) _
    split
    · exact (steady_amend _ _).bind fun _ => steady_closeScope _
    · exact .throw rfl
  | addStatement stmt =>
    refine Build.guards (.look fun s => ?_) _
    split
    case h_1 error misplaced => exact .throw (isPoisoned_of_misplaced? misplaced)
    case h_2 => exact steady_append _
  | beginFunc name returns =>
    refine Build.guards (.settling fun _ => .look fun s => .maybe (.throw rfl) fun _ => ?_) _
    refine (steady_prepare _ _).bind fun parent => (steady_create _ _ _ _).bind fun var => ?_
    exact (steady_pin var).bind fun _ => (steady_commit _ _).bind fun _ =>
      (steady_openScope _ _).bind fun _ => .pure _
  | nextOverload params =>
    refine Build.guards (.settling fun _ => .look fun s => ?_) _
    split
    · refine (steady_requireComplete _ _ _).bind fun _ => .look fun s => ?_
      split
      · refine (steady_newBlock _ _).bind fun args => (steady_newBlock _ _).bind fun body => ?_
        exact (steady_amend _ _).bind fun _ => steady_replaceScope _ _
      · exact .throw rfl
    · exact .throw rfl
  | endFunc =>
    refine Build.guards (.settling fun _ => .look fun s => ?_) _
    split
    · have closed : ∀ var overload parent, Steady (do
          requireComplete var overload .endFunc
          closeScope parent) := fun _ _ _ =>
        (steady_requireComplete _ _ _).bind fun _ => steady_closeScope _
      split
      · exact .look fun _ => (Steady.throw rfl).bind fun _ => closed _ _ _
      · exact closed _ _ _
    · exact .throw rfl
  | returnValue | returnVoid => exact Build.guards (steady_pushReturn _ _) _
  | reset => exact absurd rfl goesOn

namespace Build

variable {call : Call} {calls : List Call} {s after : Session} {reply : Reply}

/-- A call that succeeds leaves the options, and a build that has not failed. -/
theorem unharmed_of_ok (ran : call.run s = .ok reply after) :
    after.options = s.options ∧ after.failure = none := by
  by_cases fresh : call = .reset
  · subst fresh
    obtain ⟨_, ran, -⟩ := map_ok_iff.mp ran
    rw [reset_ok_iff.mp ran]
    exact ⟨rfl, rfl⟩
  · have sane := Call.sane_of_ok ran fresh
    have moves := Call.moves ran fresh
    exact ⟨(Call.guards fresh).options ran, by rw [moves.failure_eq, sane]⟩

/-- Calls that all succeed leave the options, and no failure where there was none. -/
theorem unharmed_of_play (played : play calls s = .ok () after) (sane : s.failure = none) :
    after.options = s.options ∧ after.failure = none := by
  induction calls generalizing s with
  | nil =>
    obtain ⟨-, rfl⟩ := pure_ok_iff.mp played
    exact ⟨rfl, sane⟩
  | cons call rest ih =>
    obtain ⟨reply, middle, ran, played⟩ := bind_ok_iff.mp played
    have first := unharmed_of_ok ran
    have later := ih played first.2
    exact ⟨by rw [later.1, first.1], later.2⟩

end Build

/-- What can be asked of a build: a single call, a function with its first overload, or a helper
with what runs inside it. -/
inductive Deed where
  | single (call : Call)
  | beginFuncWith (name : String) (returns : Ty) (params : List Ty)
  | within (helper : Helper)

namespace Deed

/-- Do it. -/
def run : Deed → Build Reply
  | .single call => call.run
  | .beginFuncWith name returns params => .var <$> Build.beginFuncWith name returns params
  | .within helper => helper.run

/-- The calls it is made of. -/
def script : Deed → Script Reply
  | .single call => .make call
  | .beginFuncWith name returns params => do
    let var ← .make (.beginFunc name returns)
    let _ ← .make (.nextOverload params)
    pure var
  | .within helper => helper.script

/-- A deed runs as its script. -/
theorem run_eq_script (deed : Deed) : deed.run = deed.script.run := by
  cases deed with
  | single call => exact (Script.run_make call).symm
  | beginFuncWith name returns params => simp [run, script, Build.beginFuncWith, Call.run]
  | within helper => exact helper.run_eq_script

/-- Every deed but a fresh start begins with a call that is none. -/
theorem exists_first {deed : Deed} (goesOn : deed ≠ .single .reset) :
    ∃ call next, deed.script = .act call next ∧ call ≠ .reset := by
  cases deed with
  | single call => exact ⟨call, .done, rfl, fun isReset => goesOn (congrArg single isReset)⟩
  | beginFuncWith name returns params =>
    refine ⟨_, _, rfl, ?_⟩
    exact nofun
  | within helper =>
    cases helper <;>
    · refine ⟨_, _, rfl, ?_⟩
      exact nofun

variable {deed : Deed} {s after : Session} {reply : Reply} {error : BuildError}

/-- On a build that has failed every deed but a fresh start is refused and changes nothing. -/
theorem refused {first : BuildError} (failed : s.failure = some first)
    (goesOn : deed ≠ .single .reset) : deed.run s = .error (.poisoned first) s := by
  obtain ⟨call, next, isScript, callGoesOn⟩ := exists_first goesOn
  have isRefused := (Call.guards callGoesOn).refused failed
  rw [run_eq_script, isScript]
  exact Build.bind_error_iff.mpr (.inl isRefused)

/-- A deed that succeeds leaves the options, and no failure where there was none. -/
theorem unharmed (ran : deed.run s = .ok reply after) (sane : s.failure = none) :
    after.options = s.options ∧ after.failure = none := by
  rw [run_eq_script] at ran
  exact Build.unharmed_of_play (Script.play_made ran) sane

/-- The first deed that fails does so with the failure of one of its calls, and does nothing
after it. -/
theorem failing (failed : deed.run s = .error error after) (sane : s.failure = none) :
    (∃ earlier call middle, deed.script.made s = earlier ++ [call] ∧
      Build.play earlier s = .ok () middle ∧ call.run middle = .error error after) ∧
    after.failure = some error ∧ error.isPoisoned = false ∧ after.options = s.options := by
  rw [run_eq_script] at failed
  obtain ⟨earlier, call, middle, isMade, played, callFailed⟩ := Script.made_of_error failed
  have unharmed := Build.unharmed_of_play played sane
  have goesOn : call ≠ .reset := by
    rintro rfl
    cases callFailed
  have kept := (Call.guards goesOn).kept unharmed.2 callFailed
  rw [unharmed.1] at kept
  exact ⟨⟨earlier, call, middle, isMade, played, callFailed⟩, kept⟩

end Deed

namespace Session

/-- The state a deed leaves, whether it succeeds or fails. -/
def perform (s : Session) (deed : Deed) : Session :=
  match deed.run s with
  | .ok _ after => after
  | .error _ after => after

/-- The state that deeds leave, from the start of a build. -/
def performed (options : BuildOptions) (deeds : List Deed) : Session :=
  deeds.foldl perform (.start options)

/-- A fresh start is just that. -/
theorem perform_reset (s : Session) : s.perform (.single .reset) = .start s.options := rfl

/-- One more deed is one more step. -/
theorem performed_concat (options : BuildOptions) (deeds : List Deed) (deed : Deed) :
    performed options (deeds ++ [deed]) = (performed options deeds).perform deed := by
  simp [performed]

/-- No deed changes the options. -/
theorem performed_options (options : BuildOptions) (deeds : List Deed) :
    (performed options deeds).options = options := by
  induction deeds using List.reverseRecOn with
  | nil => rfl
  | append_singleton deeds deed ih =>
    rw [performed_concat]
    by_cases fresh : deed = .single .reset
    · rw [fresh, perform_reset, start]
      exact ih
    · unfold perform
      cases isFailure : (performed options deeds).failure with
      | some first =>
        rw [Deed.refused isFailure fresh]
        exact ih
      | none =>
        cases ran : deed.run (performed options deeds) with
        | ok reply after => rw [(Deed.unharmed ran isFailure).1, ih]
        | error error after => rw [(Deed.failing ran isFailure).2.2.2, ih]

/-- After a fresh start everything is as on a new build. -/
theorem performed_reset (options : BuildOptions) (before later : List Deed) :
    performed options (before ++ .single .reset :: later) = performed options later := by
  have restarted : performed options (before ++ [.single .reset]) = .start options := by
    rw [performed_concat, perform_reset, performed_options]
  rw [List.append_cons]
  unfold performed at restarted ⊢
  rw [List.foldl_append, restarted]

/-- Whether every deed of a build succeeded. -/
def Answered (options : BuildOptions) (deeds : List Deed) : Prop :=
  ∀ before deed, before ++ [deed] <+: deeds →
    ∃ reply after, deed.run (performed options before) = .ok reply after

/-- As long as every deed succeeds there is no failure. -/
theorem Answered.sane {options : BuildOptions} {deeds : List Deed}
    (answered : Answered options deeds) : (performed options deeds).failure = none := by
  induction deeds using List.reverseRecOn with
  | nil => rfl
  | append_singleton deeds deed ih =>
    obtain ⟨reply, after, ran⟩ := answered deeds deed (List.prefix_refl _)
    have sane := ih fun before next isPrefix =>
      answered before next (isPrefix.trans (List.prefix_append _ _))
    rw [performed_concat, perform, ran]
    exact (Deed.unharmed ran sane).2

/-- One more deed may succeed. -/
theorem Answered.concat {options : BuildOptions} {deeds : List Deed} {deed : Deed} {reply : Reply}
    {after : Session} (answered : Answered options deeds)
    (ran : deed.run (performed options deeds) = .ok reply after) :
    Answered options (deeds ++ [deed]) := by
  intro before next isPrefix
  obtain isWhole | isPrefix := List.prefix_concat_iff.mp isPrefix
  · obtain ⟨rfl, isLast⟩ := List.append_inj' isWhole rfl
    rw [List.singleton_inj.mp isLast]
    exact ⟨reply, after, ran⟩
  · exact answered before next isPrefix

/-- Whether a build keeps a failure, and refuses with it everything but a fresh start. -/
structure Poisoned (s : Session) (error : BuildError) : Prop where
  failure : s.failure = some error
  /-- The failure is that of a call, not that of a call after a failure. -/
  first : error.isPoisoned = false
  refused : ∀ deed : Deed, deed ≠ .single .reset → deed.run s = .error (.poisoned error) s
  finish : Build.finish s = .error (.poisoned error) s
  /-- Deeds without a fresh start among them leave the build exactly as it is. -/
  frozen : ∀ later : List Deed, .single .reset ∉ later → later.foldl perform s = s

/-- A failure that is kept poisons the build. -/
theorem poisoned_of_failure {s : Session} {error : BuildError} (failed : s.failure = some error)
    (first : error.isPoisoned = false) : s.Poisoned error where
  failure := failed
  first
  refused _ := Deed.refused failed
  finish := by
    refine Build.bind_error_iff.mpr (.inl ?_)
    unfold Build.guarded
    rw [failed]
  frozen later noReset := by
    induction later with
    | nil => rfl
    | cons deed rest ih =>
      have goesOn : deed ≠ .single .reset := fun isReset => noReset (by simp [isReset])
      have isRefused := Deed.refused failed goesOn
      rw [List.foldl_cons, perform, isRefused]
      exact ih fun isReset => noReset (List.mem_cons_of_mem _ isReset)

/-- The first deed that fails, whatever came before it and whatever it is made of, fails with the
failure of one of its calls and does nothing after that call; the build is poisoned with this
failure from then on, until a fresh start makes it a new build. -/
theorem poisoned_performed {options : BuildOptions} {earlier : List Deed} {deed : Deed}
    {error : BuildError} {after : Session} (answered : Answered options earlier)
    (failed : deed.run (performed options earlier) = .error error after) :
    (∃ calls call middle, deed.script.made (performed options earlier) = calls ++ [call] ∧
      Build.play calls (performed options earlier) = .ok () middle ∧
      call.run middle = .error error after) ∧
    performed options (earlier ++ [deed]) = after ∧ after.Poisoned error ∧
    ∀ later continued,
      performed options (earlier ++ deed :: later ++ .single .reset :: continued) =
        performed options continued := by
  have failing := Deed.failing failed answered.sane
  refine ⟨failing.1, ?_, poisoned_of_failure failing.2.1 failing.2.2.1, ?_⟩
  · rw [performed_concat, perform, failed]
  · exact fun later continued => performed_reset options _ continued

/-- A loop inside a condition is closed as a loop of another kind. -/
def strayEnd : Deed :=
  .within (.ifThen (.literal (.bool true)) (do
    let _ ← .make (.beginWhile (.literal (.bool true)))
    let _ ← .make .endFor))

/-- After a declaration the stray end of a loop, deep inside a helper, poisons the build. -/
theorem poisoned_performed_stray :
    ∃ after, strayEnd.run (performed .standard [.single (.declare (.scalar .int) none)]) =
        .error (.unbalanced .beginFor .endFor) after ∧
      after.Poisoned (.unbalanced .beginFor .endFor) := by
  have nothing : Answered .standard [] := fun _ _ isPrefix => by simp at isPrefix
  have declared : Answered .standard [.single (.declare (.scalar .int) none)] :=
    @Answered.concat _ _ (.single (.declare (.scalar .int) none)) _ _ nothing rfl
  have fails : ∃ after,
      strayEnd.run (performed .standard [.single (.declare (.scalar .int) none)]) =
        .error (.unbalanced .beginFor .endFor) after := ⟨_, rfl⟩
  obtain ⟨after, failed⟩ := fails
  exact ⟨after, failed, (poisoned_performed declared failed).2.2.1⟩

end Session

end ShaderLoom
