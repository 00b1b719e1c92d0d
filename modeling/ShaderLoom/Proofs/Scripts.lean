import ShaderLoom.Build.Scoped
import ShaderLoom.Proofs.Playing

/-!
# What runs inside a helper

What a helper is given to run inside its scope makes calls one after another, may look at the build
and at the answers to decide what to do next, and stops at the first failure (`Script`). A helper
with scripts inside it is itself a script (`Helper.script`), so helpers may stand in each other to
any depth, and every run of one is a plain sequence of calls (`Script.made`) of which all succeed,
or all but the last.
-/
namespace ShaderLoom

/-- Calls one after another, each chosen by the answers so far and by what the build looks like. -/
inductive Script (α : Type) where
  | done (answer : α)
  | look (next : Session → Script α)
  | act (call : Call) (next : Reply → Script α)

namespace Script

variable {α β : Type}

/-- One script after another. -/
def bind : Script α → (α → Script β) → Script β
  | .done answer, next => next answer
  | .look first, next => .look fun s => (first s).bind next
  | .act call first, next => .act call fun reply => (first reply).bind next

instance : Monad Script where
  pure := .done
  bind := bind

/-- To answer what a script answers is that script. -/
theorem bind_done (script : Script α) : script.bind .done = script := by
  induction script with
  | done answer => rfl
  | look next ih => exact congrArg look (funext ih)
  | act call next ih => exact congrArg (act call) (funext ih)

/-- Three scripts in a row can be put together either way. -/
theorem bind_bind {γ : Type} (script : Script α) (next : α → Script β) (last : β → Script γ) :
    (script.bind next).bind last = script.bind fun answer => (next answer).bind last := by
  induction script with
  | done answer => rfl
  | look first ih => exact congrArg look (funext ih)
  | act call first ih => exact congrArg (act call) (funext ih)

instance : LawfulMonad Script :=
  .mk' Script bind_done (fun _ _ => rfl) bind_bind

/-- A script of one call. -/
def make (call : Call) : Script Reply := .act call .done

/-- Run a script; the first failure ends it. -/
def run : Script α → Build α
  | .done answer => pure answer
  | .look next => do
    let s ← get
    (next s).run
  | .act call next => do
    let reply ← call.run
    (next reply).run

/-- The calls that a script makes from a state, up to the first that fails. -/
def made : Script α → Session → List Call
  | .done _, _ => []
  | .look next, s => (next s).made s
  | .act call next, s =>
    call :: match call.run s with
      | .ok reply after => (next reply).made after
      | .error _ _ => []

/-- An answer is given at once. -/
@[simp]
theorem run_pure (answer : α) : (pure answer : Script α).run = pure answer := rfl

/-- One script after another runs so. -/
@[simp]
theorem run_bind (script : Script α) (next : α → Script β) :
    (script >>= next).run = script.run >>= fun answer => (next answer).run := by
  show (script.bind next).run = _
  induction script with
  | done answer => rfl
  | look first ih =>
    simp only [bind, run, bind_assoc]
    congr 1
    funext s
    exact ih s
  | act call first ih =>
    simp only [bind, run, bind_assoc]
    congr 1
    funext reply
    exact ih reply

/-- A changed answer comes from the same run. -/
@[simp]
theorem run_map (change : α → β) (script : Script α) :
    (change <$> script).run = change <$> script.run := by
  have isBind : (change <$> script) = script >>= fun answer => pure (change answer) := rfl
  rw [isBind, run_bind, map_eq_pure_bind]
  rfl

/-- A script of one call runs as the call does. -/
@[simp]
theorem run_make (call : Call) : (make call).run = call.run := bind_pure call.run

/-- Scripts for a list run one after another. -/
theorem run_forM {γ : Type} (items : List γ) (each : γ → Script PUnit) :
    (forM items each).run = forM items fun item => (each item).run := by
  induction items with
  | nil => rfl
  | cons item items ih =>
    rw [List.forM_cons, List.forM_cons, run_bind, ih]

/-- Scripts for a list give the answers of their runs. -/
theorem run_mapM {γ : Type} (items : List γ) (each : γ → Script α) :
    (items.mapM each).run = items.mapM fun item => (each item).run := by
  induction items with
  | nil => rfl
  | cons item items ih =>
    rw [List.mapM_cons, List.mapM_cons]
    simp only [run_bind, run_pure, ih]

/-- Calls that are played lead where they step. -/
theorem foldl_of_play {calls : List Call} {s after : Session}
    (played : Build.play calls s = .ok () after) : calls.foldl Session.step s = after := by
  induction calls generalizing s with
  | nil =>
    obtain ⟨-, rfl⟩ := Build.pure_ok_iff.mp played
    rfl
  | cons call rest ih =>
    obtain ⟨reply, middle, ran, played⟩ := Build.bind_ok_iff.mp played
    rw [List.foldl_cons, Session.step, ran]
    exact ih played

section Made

variable {script : Script α} {s after : Session} {answer : α} {error : BuildError}

/-- A script that succeeds makes calls that succeed, and leads where they lead. -/
theorem play_made (ran : script.run s = .ok answer after) :
    Build.play (script.made s) s = .ok () after := by
  induction script generalizing s with
  | done value =>
    obtain ⟨-, rfl⟩ := Build.pure_ok_iff.mp ran
    rfl
  | look next ih => exact ih s ran
  | act call next ih =>
    obtain ⟨reply, middle, called, ran⟩ := Build.bind_ok_iff.mp ran
    rw [made, called]
    exact Build.play_cons called (ih reply ran)

/-- A script that fails makes calls that succeed and then one that fails just so. -/
theorem made_of_error (failed : script.run s = .error error after) :
    ∃ earlier call middle, script.made s = earlier ++ [call] ∧
      Build.play earlier s = .ok () middle ∧ call.run middle = .error error after := by
  induction script generalizing s with
  | done value => cases failed
  | look next ih => exact ih s failed
  | act call next ih =>
    change EStateM.bind call.run (fun reply => (next reply).run) s = _ at failed
    unfold EStateM.bind at failed
    rw [made]
    cases called : call.run s with
    | error first middle =>
      rw [called] at failed
      cases failed
      exact ⟨[], call, s, rfl, rfl, called⟩
    | ok reply middle =>
      rw [called] at failed
      obtain ⟨earlier, last, before, isMade, played, lastFailed⟩ := ih reply failed
      refine ⟨call :: earlier, last, before, ?_, Build.play_cons called played, lastFailed⟩
      show call :: (next reply).made middle = _
      rw [isMade]
      rfl

end Made

end Script

/-- The variable in an answer; every call that is asked for one answers with it. -/
def Reply.varD : Reply → VarId
  | .var id => id
  | .bound id _ => id
  | _ => ⟨0⟩

/-- A call of a helper, with what is run inside its scope. -/
inductive Helper where
  | ifThen (condition : Expr) (yes : Script Unit)
  | ifElse (condition : Expr) (yes no : Script Unit)
  | whileDo (condition : Expr) (body : Script Unit)
  | forDo (clauses : ForClauses) (body : Script Unit)
  | switchOn (selector : Expr) (cases : List (Option Literal × Script Unit))
  | function (name : String) (returns : Ty) (params : List Build.Param)
    (body : List VarId → Script Unit)

namespace Helper

/-- Call a helper. -/
def run : Helper → Build Reply
  | .ifThen condition yes => (fun _ => .done) <$> Build.ifThen condition yes.run
  | .ifElse condition yes no => (fun _ => .done) <$> Build.ifElse condition yes.run no.run
  | .whileDo condition body => (fun _ => .done) <$> Build.whileDo condition body.run
  | .forDo clauses body => (fun _ => .done) <$> Build.forDo clauses body.run
  | .switchOn selector cases =>
    (fun _ => .done) <$> Build.switchOn selector (cases.map fun (label, body) => (label, body.run))
  | .function name returns params body =>
    .var <$> Build.function name returns params fun vars => (body vars).run

/-- The calls that a helper makes and those inside it. -/
def script : Helper → Script Reply
  | .ifThen condition yes => do
    let _ ← .make (.beginIf condition)
    yes
    .make .endIf
  | .ifElse condition yes no => do
    let _ ← .make (.beginIf condition)
    yes
    let _ ← .make .endIfSubBlock
    let _ ← .make .beginElse
    no
    .make .endIfSubBlock
  | .whileDo condition body => do
    let _ ← .make (.beginWhile condition)
    body
    .make .endWhile
  | .forDo clauses body => do
    let _ ← .make (.beginForClauses clauses)
    body
    .make .endFor
  | .switchOn selector cases => do
    let _ ← .make (.beginSwitch selector)
    cases.forM fun (label, body) => do
      let _ ← .make (.addCase label)
      body
    .make .endSwitch
  | .function name returns params body => do
    let var ← .make (.beginFunc name returns)
    let _ ← .make (.nextOverload (params.map (·.ty)))
    let vars ← params.mapM fun param =>
      Reply.varD <$> .make (.declareParam param.ty (some param.name) param.qualifier)
    body vars
    let _ ← .make .endFunc
    pure var

/-- A helper runs as its script. -/
theorem run_eq_script (helper : Helper) : helper.run = helper.script.run := by
  cases helper with
  | ifThen | ifElse | whileDo | forDo =>
    simp [run, script, Build.ifThen, Build.ifElse, Build.whileDo, Build.forDo, Call.run,
      monadLift_self]
  | switchOn selector cases =>
    simp [run, script, Build.switchOn, Call.run, Script.run_forM, monadLift_self]
  | function name returns params body =>
    simp [run, script, Build.function, Build.beginFuncWith, Call.run, Script.run_mapM,
      Reply.varD, monadLift_self]

end Helper

end ShaderLoom
