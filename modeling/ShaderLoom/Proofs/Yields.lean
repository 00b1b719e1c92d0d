import ShaderLoom.Text.Header

/-!
# What computations answer

A computation that may fail is described by what it answers if it does not (`Yields`), from states
of which something is known that it keeps. Nothing is said about whether it fails.
-/
namespace ShaderLoom

section Runs

variable {σ ε α β : Type} {work : StateT σ (Except ε) α} {state : σ}

/-- One thing after another succeeds only if both do. -/
theorem ok_of_bind {next : α → StateT σ (Except ε) β} {result : β × σ}
    (ran : (work >>= next) state = .ok result) :
    ∃ value middle, work state = .ok (value, middle) ∧ next value middle = .ok result := by
  change (work state >>= fun found => next found.1 found.2) = _ at ran
  cases begun : work state with
  | error error =>
    rw [begun] at ran
    cases ran
  | ok found =>
    rw [begun] at ran
    exact ⟨found.1, found.2, rfl, ran⟩

/-- What is done next starts from where the first thing ends. -/
theorem bind_ok {next : α → StateT σ (Except ε) β} {value : α} {middle : σ}
    (begun : work state = .ok (value, middle)) : (work >>= next) state = next value middle := by
  change (work state >>= fun found => next found.1 found.2) = _
  rw [begun]
  rfl

/-- A changed outcome is a success only if it was one. -/
theorem outcome_of_map {outcome : Except ε α} {change : α → β} {result : β}
    (changed : change <$> outcome = .ok result) :
    ∃ value, outcome = .ok value ∧ change value = result := by
  cases outcome with
  | error error => cases changed
  | ok value => exact ⟨value, rfl, Except.ok.inj changed⟩

/-- A changed answer comes from an answer. -/
theorem ok_of_map {change : α → β} {result : β} {later : σ}
    (ran : (change <$> work) state = .ok (result, later)) :
    ∃ value, work state = .ok (value, later) ∧ change value = result := by
  rw [map_eq_pure_bind] at ran
  obtain ⟨value, middle, begun, ran⟩ := ok_of_bind ran
  obtain ⟨rfl, rfl⟩ := Prod.mk.inj (Except.ok.inj ran)
  exact ⟨value, begun, rfl⟩

end Runs

/-- Whether a computation that starts in a fit state and succeeds gives an answer as described and
ends in a fit state. -/
def Yields {σ ε α : Type} (fit : σ → Prop) (work : StateT σ (Except ε) α) (good : α → Prop) :
    Prop :=
  ∀ state value later, fit state → work state = .ok (value, later) → good value ∧ fit later

namespace Yields

variable {σ ε α β : Type} {fit : σ → Prop} {work : StateT σ (Except ε) α} {good : α → Prop}

/-- An answer is given as it is. -/
theorem pure {value : α} (isGood : good value) :
    Yields fit (Pure.pure value : StateT σ (Except ε) α) good := by
  intro state found later isFit ran
  obtain ⟨rfl, rfl⟩ := Prod.mk.inj (Except.ok.inj ran)
  exact ⟨isGood, isFit⟩

/-- Of any computation nothing can be said. -/
theorem anything (work : StateT σ (Except ε) α) : Yields (fun _ => True) work fun _ => True :=
  fun _ _ _ _ _ => ⟨trivial, trivial⟩

/-- A failure gives no answer. -/
theorem throw (error : ε) :
    Yields fit (MonadExcept.throw error : StateT σ (Except ε) α) good :=
  fun _ _ _ _ ran => nomatch ran

/-- What is done next starts from an answer as described. -/
theorem bind {next : α → StateT σ (Except ε) β} {fine : β → Prop} (first : Yields fit work good)
    (second : ∀ value, good value → Yields fit (next value) fine) :
    Yields fit (work >>= next) fine := by
  intro state result last isFit ran
  obtain ⟨value, middle, begun, ran⟩ := ok_of_bind ran
  obtain ⟨isGood, isFit⟩ := first state value middle isFit begun
  exact second value isGood middle result last isFit ran

/-- A changed answer is as the change makes it. -/
theorem map {change : α → β} {fine : β → Prop} (first : Yields fit work good)
    (changed : ∀ value, good value → fine (change value)) : Yields fit (change <$> work) fine := by
  rw [map_eq_pure_bind]
  exact first.bind fun value isGood => .pure (changed value isGood)

/-- What is done next may use that the state it looks at is fit. -/
theorem get {next : σ → StateT σ (Except ε) α}
    (second : ∀ state, fit state → Yields fit (next state) good) :
    Yields fit (MonadState.get >>= next) good :=
  fun state value later isFit ran => second state isFit state value later isFit ran

/-- A fit state can be set. -/
theorem set {later : σ} (isFit : fit later) :
    Yields fit (MonadStateOf.set later : StateT σ (Except ε) PUnit) fun _ => True := by
  intro state value last _ ran
  obtain ⟨-, rfl⟩ := Prod.mk.inj (Except.ok.inj ran)
  exact ⟨trivial, isFit⟩

/-- The answers to a list of questions are each as described. -/
theorem mapM {items : List β} {write : β → StateT σ (Except ε) α}
    (each : ∀ item ∈ items, Yields fit (write item) good) :
    Yields fit (items.mapM write) fun answers => ∀ answer ∈ answers, good answer := by
  induction items with
  | nil => exact .pure nofun
  | cons item items ih =>
    rw [List.forall_mem_cons] at each
    rw [List.mapM_cons]
    refine each.1.bind fun answer isGood => (ih each.2).bind fun answers areGood => .pure ?_
    exact List.forall_mem_cons.mpr ⟨isGood, areGood⟩

end Yields

/-- An operand is its text, in parentheses or not. -/
theorem yields_enclosed {fit : Names → Prop} {good fine : String → Prop} {parent : Rank}
    {wrapTies : Bool} {rank : Naming Rank} {text : Naming String}
    (ranked : Yields fit rank fun _ => True) (written : Yields fit text good)
    (bare : ∀ text, good text → fine text) (wrapped : ∀ text, good text → fine ("(" ++ text ++ ")")) :
    Yields fit (enclosed parent wrapTies rank text) fine := by
  refine ranked.bind fun child _ => written.bind fun text isGood => ?_
  split
  · exact .pure (wrapped text isGood)
  · exact .pure (bare text isGood)

end ShaderLoom
