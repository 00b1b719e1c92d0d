import ShaderLoom.Proofs.Statements

/-!
# Programs come back as they were written

Playing the calls of a program that fits the top level never fails, and the finished shader, read
from its main block, is the program and no other (`Program.rebuilt`). The proof follows the program;
what is left to say here is how functions are played, whose parameter lists move the build on by
themselves.
-/
namespace ShaderLoom

/-- The value that declares a parameter. -/
def Parameter.spec (param : Parameter) : ValueSpec :=
  { ty := param.ty, status := .declaration, flags := .parameter, qualifier := param.qualifier,
    name := param.name, args := [] }

/-- The variable of a parameter can be admitted, and has the parameter's name. -/
theorem Registry.exists_admitted (registry : Registry) (param : Parameter) :
    ∃ admitted, registry.admitted param.spec = .ok admitted ∧ registry.Knows admitted ∧
      admitted.name? registry.next = some param.name := by
  obtain ⟨pinned, isPinned⟩ :=
    registry.exists_pin_create param.ty param.ty.category param.name .declaration
  refine ⟨pinned, ?_, ?_, ?_⟩
  · rw [admitted, if_pos]
    · exact isPinned
    · simp [Parameter.spec, Flags.parameter]
  · exact (registry.knows_create _ _ _ _).trans (knows_pin isPinned)
  · exact knows_pin isPinned _ _ (registry.name?_create _ _ _ _)

/-- Parameters were declared in a parameter list, which is all that changed in the tree. -/
structure Session.Declares (s after : Session) (args : BlockId) (params : List Parameter)
    (declared : List Instruction) : Prop where
  moves : Moves s after
  outer : after.scopes.tail = s.scopes.tail
  size : after.tree.size = s.tree.size
  alters : Tree.Alters s.tree.size s.tree after.tree args (· ++ declared.toArray)
  names : s.registry.Knows after.registry
  shows : ∀ registry, after.registry.Knows registry →
    List.Forall₂ (Parameter.Shows registry) params declared

section Signatures

open Build

variable {s middle after : Session} {setting : Setting} {site : Address} {parent args : BlockId}
  {var : VarId} {opened : OpenOverload}

/-- No parameters are declared by doing nothing. -/
theorem Session.declares_nil (s : Session) (args : BlockId) : s.Declares s args [] [] where
  moves := .refl
  outer := rfl
  size := rfl
  alters := by simpa using Tree.Alters.refl s.tree.size s.tree args
  names := .refl s.registry
  shows _ _ := .nil

/-- Parameters are declared one after another. -/
theorem Session.Declares.trans {first second : List Parameter}
    {declared declaredToo : List Instruction} (declares : s.Declares middle args first declared)
    (declaresToo : middle.Declares after args second declaredToo) :
    s.Declares after args (first ++ second) (declared ++ declaredToo) where
  moves := declares.moves.trans declaresToo.moves
  outer := by rw [declaresToo.outer, declares.outer]
  size := by rw [declaresToo.size, declares.size]
  alters := by
    have alters := declaresToo.alters
    rw [declares.size] at alters
    simpa [Array.append_assoc] using declares.alters.trans alters
  names := declares.names.trans declaresToo.names
  shows registry knows :=
    List.rel_append (declares.shows registry (declaresToo.names.trans knows))
      (declaresToo.shows registry knows)

/-- A parameter is a parameter. -/
theorem Parameter.isParameter_statement (param : Parameter) (var : VarId) :
    (param.spec.statement var).isParameter := rfl

/-- Nothing is noted outside the headers of loops. -/
theorem Session.noted_eq_self {block : Block} (found : s.tree.block? s.current = some block)
    (outside : block.kind ≠ .forArgs) (instr : Instruction) : s.noted instr = .ok s := by
  unfold noted
  split
  · rw [if_neg]
    simpa [found] using outside
  · rfl

/-- The next parameter of an open parameter list is declared. -/
theorem Session.Around.declares
    (around : s.Around (.function site parent var (some opened)) setting)
    (stands : s.current = opened.args) (incomplete : opened.inSignature) {block : Block}
    (found : s.tree.block? opened.args = some block) (isArgs : block.kind = .funcArgs)
    (param : Parameter) :
    ∃ after instr reply, param.call.run s = .ok reply after ∧
      after.Around (.function site parent var
        (some { opened with received := opened.received + 1 })) setting ∧
      (after.current = if OpenOverload.inSignature { opened with received := opened.received + 1 }
        then opened.args else opened.body) ∧
      s.Declares after opened.args [param] [instr] := by
  obtain ⟨registry, isAdmitted, knows, isName⟩ := s.registry.exists_admitted param
  have moves : Moves s { s with registry } := .single (.register registry)
  have admitted := around.stays _ moves around.top rfl
  have foundHere : { s with registry }.tree.block? s.current = some block := by
    rw [stands, found]
  have ran : emit param.spec s = .ok s.registry.next
      ({ s with registry }.commit s.current (param.spec.statement s.registry.next)) := by
    refine emit_ok_iff.mpr ⟨around.sane, emitValue_ok_iff.mpr ⟨nofun, registry, isAdmitted,
      append_ok_iff.mpr ⟨?_, { s with registry }, ?_, rfl⟩, rfl⟩⟩
    · rw [admitted.settled rfl, Session.accepts, around.top, param.isParameter_statement]
      simp [Frame.accepts, incomplete]
    · rw [admitted.settled rfl]
      refine noted_eq_self foundHere ?_ _
      rw [isArgs]
      exact BlockKind.noConfusion
  have movesAfter := moves_emit ran
  have isCommitted := commit_counted (s := { s with registry }) around.top stands
    (param.spec.statement s.registry.next)
  rw [isCommitted] at ran movesAfter
  have known : s.current.index < s.tree.size := around.grounded.placed.current_known
  refine ⟨_, param.spec.statement s.registry.next, _, map_ok_iff.mpr ⟨_, ran, rfl⟩,
    around.stays _ movesAfter rfl rfl, rfl, ?_⟩
  refine {
    moves := movesAfter
    outer := rfl
    size := Tree.size_push _ _ _
    alters := ?_
    names := knows.trans (Registry.knows_recordPush _ _)
    shows := ?_ }
  · rw [← stands]
    simpa using Tree.alters_push known (Nat.le_refl _) [] (param.spec.statement s.registry.next)
  · intro later knowsLater
    refine .cons ⟨s.registry.next, ?_, rfl⟩ .nil
    exact knowsLater _ _ (Registry.knows_recordPush _ _ _ _ isName)

/-- The parameters of an overload are declared, and the build moves on to its body. -/
theorem Session.Around.plays_params {params : List Parameter}
    (around : s.Around (.function site parent var (some opened)) setting)
    (stands : s.current = if opened.inSignature then opened.args else opened.body)
    {block : Block} (found : s.tree.block? opened.args = some block)
    (isArgs : block.kind = .funcArgs)
    (isCount : opened.expected = opened.received + params.length) :
    ∃ after declared, play (params.map Parameter.call) s = .ok () after ∧
      after.Around (.function site parent var
        (some { opened with received := opened.expected })) setting ∧
      after.current = opened.body ∧ s.Declares after opened.args params declared := by
  -- The overload counts the parameters that came, so it changes with every one of them.
  induction params generalizing s opened block with
  | nil =>
    have complete : opened = { opened with received := opened.expected } :=
      congrArg (OpenOverload.mk opened.args opened.body opened.expected) isCount.symm
    have closed : opened.inSignature = false := by
      simp [OpenOverload.inSignature, isCount]
    rw [closed] at stands
    rw [← complete]
    exact ⟨s, [], play_nil, around, stands, s.declares_nil _⟩
  | cons param params ih =>
    have incomplete : opened.inSignature := by
      simp [OpenOverload.inSignature, isCount]
    rw [if_pos incomplete] at stands
    obtain ⟨middle, instr, reply, ran, aroundMiddle, standsMiddle, declares⟩ :=
      around.declares stands incomplete found isArgs param
    have foundMiddle := declares.alters.here
    rw [found] at foundMiddle
    have isCountMiddle : opened.expected = opened.received + 1 + params.length := by
      rw [isCount, List.length_cons]
      omega
    obtain ⟨after, declared, played, aroundAfter, standsAfter, declaresRest⟩ :=
      ih aroundMiddle standsMiddle foundMiddle isArgs isCountMiddle
    exact ⟨after, instr :: declared, play_cons ran played, aroundAfter, standsAfter,
      declares.trans declaresRest⟩

end Signatures

/-- The next overload of a function, with new blocks. -/
def Tree.nextOverload (tree : Tree) (params : List Parameter) : Overload :=
  ⟨params.map Parameter.ty, tree.next, ⟨tree.size + 1⟩⟩

/-- The next overload of a function while its first parameter is awaited. -/
def Tree.nextOpened (tree : Tree) (params : List Parameter) : OpenOverload :=
  ⟨tree.next, ⟨tree.size + 1⟩, (params.map Parameter.ty).length, 0⟩

/-- Whether the overloads of a function can be played after those it has, to the end of the
function. -/
def Overloads.Plays (overloads : Overloads) : Prop :=
  ∀ (s : Session) (setting : Setting) (site : Address) (parent : BlockId) (var : VarId)
    (previous : Option OpenOverload) (decl : FunctionDecl),
    s.Around (.function site parent var previous) setting →
    s.tree.instruction? site = some (.function decl) →
    (∀ opened ∈ previous, opened.inSignature = false) →
    overloads.fits (.inFunction decl.returns) →
    ∃ after new, Build.play (overloads.calls ++ [.endFunc]) s = .ok () after ∧
      Session.Ends s.tree.size s after (.function site parent var previous)
        (Instruction.addAll Instruction.addOverload new)
        fun tree registry => overloads.Shows tree registry (some decl.returns) new

section Functions

open Build

variable {s middle after : Session} {setting : Setting} {site : Address} {parent : BlockId}
  {var : VarId} {opened : OpenOverload} {body : Program} {params : List Parameter}

/-- The body of an overload takes statements once its parameter list is complete. -/
theorem Session.Around.ready_body
    (around : s.Around (.function site parent var (some opened)) setting)
    (complete : opened.inSignature = false) {block : Block} {returns : Ty}
    (found : s.tree.block? s.current = some block) (isBody : block.kind = .body returns) :
    s.Ready (.inFunction returns) := by
  exact {
    sane := around.sane
    grounded := around.grounded
    settled := around.settled rfl
    accepts := by
      rw [Session.accepts, around.top]
      simp [Frame.accepts, complete]
    breaks := by
      rw [around.top]
      rfl
    continues := by
      rw [around.top]
      rfl
    inFunction := by
      rw [around.top]
      rfl
    returns := Tree.returnType?_body found isBody }

/-- The parameters and the body of an overload that has just been opened are played. -/
theorem Session.Around.plays_listed {returns : Ty}
    (around : s.Around (.function site parent var (some opened)) setting)
    (stands : s.current = if opened.inSignature then opened.args else opened.body)
    (foundArgs : s.tree.block? opened.args = some ⟨opened.args, some parent, .funcArgs, #[]⟩)
    (foundBody : s.tree.block? opened.body =
      some ⟨opened.body, some parent, .body returns, #[]⟩)
    (outside : parent.index < opened.args.index)
    (isNext : opened.body.index = opened.args.index + 1)
    (isSize : s.tree.size = opened.body.index + 1)
    (isCount : opened.expected = opened.received + params.length) (plays : body.Plays)
    (fits : body.fits (.inFunction returns)) :
    ∃ middle declared instrs,
      play (params.map Parameter.call ++ body.calls) s = .ok () middle ∧
      middle.Around (.function site parent var
        (some { opened with received := opened.expected })) setting ∧
      middle.tree.instruction? site = s.tree.instruction? site ∧
      ∀ after change shows,
        Session.Ends middle.tree.size middle after (.function site parent var
          (some { opened with received := opened.expected })) change shows →
        Session.Ends opened.args.index s after (.function site parent var (some opened)) change
          fun tree registry => tree.instructions? opened.args = some declared ∧
            List.Forall₂ (Parameter.Shows registry) params declared ∧
            tree.instructions? opened.body = some instrs ∧
            body.Shows tree registry (some returns) instrs ∧ shows tree registry := by
  obtain ⟨listed, declared, playedParams, aroundListed, standsListed, declares⟩ :=
    around.plays_params stands foundArgs rfl isCount
  have isOther : opened.body ≠ opened.args := by
    rintro same
    rw [same] at isNext
    omega
  have foundListed : listed.tree.block? listed.current =
      some ⟨opened.body, some parent, .body returns, #[]⟩ := by
    rw [standsListed, declares.alters.others opened.body (by omega) isOther, foundBody]
  have complete : OpenOverload.inSignature { opened with received := opened.expected } = false := by
    simp [OpenOverload.inSignature]
  obtain ⟨middle, instrs, playedBody, adds⟩ :=
    plays _ _ (aroundListed.ready_body complete foundListed rfl) fits
  have larger := adds.moves.tree_keeps.size_le
  have sameSize := declares.size
  have inParent : site.block = parent := around.inParent
  refine ⟨middle, declared, instrs, play_append playedParams playedBody,
    aroundListed.adds adds, ?_, ?_⟩
  · have sameBefore := aroundListed.instruction?_adds adds
      (by rw [standsListed, Frame.parent]; rintro rfl; omega)
    rw [Frame.site] at sameBefore
    rw [sameBefore, declares.alters.instruction?_eq]
    · rw [inParent]
      omega
    · rw [inParent]
      rintro rfl
      omega
  · -- The body has the higher number: it is accounted for before the parameter list.
    intro after change shows ends
    rw [← standsListed] at isNext isSize
    have outsideBody : parent.index < opened.args.index + 1 := Nat.lt_succ_of_lt outside
    have built : Session.Ends (opened.args.index + 1) listed after _ change _ :=
      ends.after_adds adds foundListed rfl (by omega) (by omega) (by omega) outsideBody
        (fun _ _ below => below)
    have ended : Session.Ends opened.args.index s after
        (.function site parent var (some opened)) change _ :=
      built.after_alters rfl rfl declares.moves declares.outer declares.alters declares.names
        foundArgs rfl (by omega) (by omega) (by omega) outside (by omega)
    refine ended.imp ?_
    rintro tree registry ⟨isArgs, seen, isBody, shows, shown⟩
    rw [standsListed] at isBody
    exact ⟨isArgs, declares.shows registry seen.names, isBody, shows, shown⟩

/-- An overload is opened, and its parameters and its body are played. -/
theorem Session.Around.plays_overload {previous : Option OpenOverload} {decl : FunctionDecl}
    (around : s.Around (.function site parent var previous) setting)
    (isAt : s.tree.instruction? site = some (.function decl))
    (complete : ∀ opened ∈ previous, opened.inSignature = false) (params : List Parameter)
    (plays : body.Plays) (fits : body.fits (.inFunction decl.returns)) :
    ∃ middle opened declared instrs,
      play (.nextOverload (params.map Parameter.ty) ::
        (params.map Parameter.call ++ body.calls)) s = .ok () middle ∧
      middle.Around (.function site parent var (some opened)) setting ∧
      opened.inSignature = false ∧
      middle.tree.instruction? site =
        some (Instruction.addOverload (s.tree.nextOverload params) (.function decl)) ∧
      ∀ after change shows,
        Session.Ends middle.tree.size middle after (.function site parent var (some opened))
          change shows →
        Session.Ends s.tree.size s after (.function site parent var previous)
          (fun instr => change (instr.addOverload (s.tree.nextOverload params)))
          fun tree registry => tree.instructions? s.tree.next = some declared ∧
            List.Forall₂ (Parameter.Shows registry) params declared ∧
            tree.instructions? ⟨s.tree.size + 1⟩ = some instrs ∧
            body.Shows tree registry (some decl.returns) instrs ∧ shows tree registry := by
  obtain ⟨inner, isInner⟩ : ∃ inner : BlockId,
      (if (params.map Parameter.ty).isEmpty then ⟨s.tree.size + 1⟩ else s.tree.next) = inner :=
    ⟨_, rfl⟩
  have ran : nextOverload (params.map Parameter.ty) s = .ok () (s.grown
      [.funcArgs, .body decl.returns] (Instruction.addOverload (s.tree.nextOverload params))
      (.function site parent var (some (s.tree.nextOpened params))) inner) :=
    nextOverload_ok_iff.mpr ⟨around.sane, site, parent, var, previous, _, decl,
      around.settle_top rfl, complete, isAt, by rw [around.settled rfl, isInner]; rfl⟩
  have moves := moves_nextOverload ran
  have listed := around.stays (.function site parent var (some (s.tree.nextOpened params)))
    moves rfl rfl
  have stands : inner = if (s.tree.nextOpened params).inSignature
      then s.tree.next else ⟨s.tree.size + 1⟩ := by
    rw [← isInner]
    cases params <;> rfl
  have isCount : (params.map Parameter.ty).length = 0 + params.length := by
    rw [List.length_map, Nat.zero_add]
  have isChanged := s.instruction?_grown [.funcArgs, .body decl.returns]
    (Instruction.addOverload (s.tree.nextOverload params))
    (.function site parent var (some (s.tree.nextOpened params))) inner
  rw [Frame.site, isAt] at isChanged
  obtain ⟨middle, declared, instrs, played, aroundMiddle, isStill, resumes⟩ :=
    listed.plays_listed stands (around.block?_grown _ inner rfl 0 rfl)
      (around.block?_grown _ inner rfl 1 rfl) around.parent_known rfl (by simp [Session.grown]; rfl)
      isCount plays fits
  refine ⟨middle, _, declared, instrs, play_cons (run_done ran) played, aroundMiddle, ?_, ?_, ?_⟩
  · simp [OpenOverload.inSignature]
  · rw [isStill, isChanged]
    rfl
  · intro after change shows ends
    exact (resumes _ _ _ ends).after_grown around moves rfl rfl (Nat.le_refl _)

/-- The last overload of a function is played, to the end of the function. -/
theorem plays_lastOverload (params : List Parameter) (plays : body.Plays) :
    (Overloads.last params body).Plays := by
  intro s setting site parent var previous decl around isAt complete fits
  obtain ⟨middle, opened, declared, instrs, played, aroundMiddle, isComplete, -, resumes⟩ :=
    around.plays_overload isAt complete params plays fits
  have ended : endFunc middle = .ok () (middle.closed parent) :=
    endFunc_ok_iff.mpr ⟨aroundMiddle.sane, site, parent, var, opened, _,
      aroundMiddle.settle_top rfl, isComplete, by rw [aroundMiddle.settled rfl]⟩
  have ends := Session.ends_closed (.function site parent var (some opened))
    middle.tree.size (moves_endFunc ended)
  refine ⟨_, [s.tree.nextOverload params],
    play_append played (play_cons (run_done ended) play_nil), ?_⟩
  refine (resumes _ _ _ ends).imp ?_
  rintro tree registry ⟨isArgs, showsParams, isBody, shows, _⟩
  exact ⟨s.tree.next, declared, ⟨s.tree.size + 1⟩, instrs, rfl, isArgs, showsParams, isBody, shows⟩

/-- An overload of a function is played, and the overloads after it. -/
theorem plays_nextOverload (params : List Parameter) {rest : Overloads} (plays : body.Plays)
    (playsRest : rest.Plays) : (Overloads.cons params body rest).Plays := by
  intro s setting site parent var previous decl around isAt complete fits
  rw [Overloads.fits, Bool.and_eq_true] at fits
  obtain ⟨middle, opened, declared, instrs, played, aroundMiddle, isComplete, isStill, resumes⟩ :=
    around.plays_overload isAt complete params plays fits.1
  obtain ⟨after, new, playedRest, ends⟩ := playsRest middle setting site parent var (some opened) _
    aroundMiddle isStill (by simpa using isComplete) fits.2
  refine ⟨after, s.tree.nextOverload params :: new, ?_, ?_⟩
  · have playedAll := play_append played playedRest
    rw [Overloads.calls]
    simpa [List.append_assoc] using playedAll
  · refine (resumes _ _ _ ends).imp ?_
    rintro tree registry ⟨isArgs, showsParams, isBody, shows, showsRest⟩
    exact ⟨s.tree.next, declared, ⟨s.tree.size + 1⟩, instrs, new, rfl, isArgs, showsParams, isBody,
      shows, showsRest⟩

/-- The overloads of a function that has just been opened are played, to its end. -/
theorem Session.Ready.plays_overloads (ready : s.Ready setting) (single : setting.returns.isNone)
    (var : VarId) (name : String) (returns : Ty) {overloads : Overloads}
    (plays : overloads.Plays) (fits : overloads.fits (.inFunction returns)) :
    ∃ after new, play (overloads.calls ++ [.endFunc]) (s.opened []
        (.function ⟨var, name, returns, []⟩) (.function s.site s.current var none) s.current) =
        .ok () after ∧
      s.Adds after [.function ⟨var, name, returns, new⟩]
        fun tree registry => overloads.Shows tree registry (some returns) new := by
  have outside : s.scopes.any Frame.isFunction = false := by
    rw [ready.inFunction, Option.isSome_eq_false_iff]
    exact single
  have opens := opens_beginFunc ready.settled ready.accepts outside var name returns
  have extended := ready.grounded.placed.extends_begin opens
  obtain ⟨after, new, played, ends⟩ := plays _ setting s.site s.current var none _
    (ready.around opens) extended.instruction_self nofun fits
  rw [extended.size] at ends
  have adds := ends.adds_opened ready opens
  rw [Instruction.addAll_function] at adds
  exact ⟨after, new, played, adds⟩

/-- A function is played. -/
theorem plays_function (name : String) (returns : Ty) {overloads : Overloads}
    (plays : overloads.Plays) : (Stmt.function name returns overloads).Plays := by
  intro s setting ready fits
  rw [Stmt.fits, Bool.and_eq_true] at fits
  obtain ⟨registry, isPinned⟩ :=
    s.registry.exists_pin_create returns .function (some name) .declaration
  have isName : registry.name? s.registry.next = some (some name) :=
    Registry.knows_pin isPinned _ _ (s.registry.name?_create _ _ _ _)
  have knows : s.registry.Knows registry :=
    (s.registry.knows_create _ _ _ _).trans (Registry.knows_pin isPinned)
  have registered : { s with registry }.Ready setting :=
    ready.stays (.single (.register registry)) rfl rfl
  obtain ⟨after, new, played, adds⟩ :=
    registered.plays_overloads fits.1 s.registry.next name returns plays fits.2
  have began : beginFunc name returns s = .ok s.registry.next ({ s with registry }.opened []
      (.function ⟨s.registry.next, name, returns, []⟩)
      (.function s.site s.current s.registry.next none) s.current) := by
    refine beginFunc_ok_iff.mpr ⟨ready.sane, ?_, ready.settle_accepts, registry, isPinned, ?_, rfl⟩
    · rw [ready.settled, ready.inFunction, Option.isSome_eq_false_iff]
      exact fits.1
    · rw [ready.settled]
  refine ⟨after, .function ⟨s.registry.next, name, returns, new⟩,
    play_cons (map_ok_iff.mpr ⟨_, began, rfl⟩) played, ?_⟩
  refine (adds.and_knows.after_register knows).imp ?_
  rintro tree later ⟨knowsLater, shows⟩
  exact ⟨s.registry.next, new, rfl, knowsLater _ _ isName, shows⟩

end Functions

/-- No statements are played by doing nothing. -/
theorem plays_nothing : Program.nil.Plays := by
  intro s setting ready fits
  exact ⟨s, [], Build.play_nil, s.adds_nil.imp fun _ _ _ => rfl⟩

/-- Statements are played one after another. -/
theorem plays_sequence {stmt : Stmt} {rest : Program} (plays : stmt.Plays)
    (playsRest : rest.Plays) : (Program.cons stmt rest).Plays := by
  intro s setting ready fits
  rw [Program.fits, Bool.and_eq_true] at fits
  obtain ⟨middle, instr, played, adds⟩ := plays s setting ready fits.1
  have readyStill := ready.stays adds.moves adds.scopes adds.current
  obtain ⟨after, instrs, playedRest, addsRest⟩ := playsRest middle setting readyStill fits.2
  refine ⟨after, instr :: instrs, Build.play_append played playedRest, ?_⟩
  refine (adds.trans ready.grounded.placed.current_known addsRest).imp ?_
  rintro tree registry ⟨shows, showsRest⟩
  exact ⟨instr, instrs, rfl, shows, showsRest⟩

mutual

/-- Every statement is played wherever it fits. -/
theorem Stmt.plays (stmt : Stmt) : stmt.Plays := by
  cases stmt with
  | expr expr => exact plays_expr expr
  | special stmt => exact plays_special stmt
  | ret value => exact plays_ret value
  | branch style condition body others =>
    exact plays_branch style condition body.plays others.plays
  | forLoop header stacked body => exact plays_forLoop header stacked body.plays
  | forClauses clauses body => exact plays_forClauses clauses body.plays
  | whileLoop condition body => exact plays_whileLoop condition body.plays
  | doWhile body condition => exact plays_doWhile condition body.plays
  | switch selector cases => exact plays_switch selector cases.plays
  | function name returns overloads => exact plays_function name returns overloads.plays
termination_by structural stmt

/-- Every program is played wherever it fits. -/
theorem Program.plays (program : Program) : program.Plays := by
  cases program with
  | nil => exact plays_nothing
  | cons stmt rest => exact plays_sequence stmt.plays rest.plays
termination_by structural program

/-- The other cases of every chain of conditions are played wherever they fit. -/
theorem Chain.plays (chain : Chain) : chain.Plays := by
  cases chain with
  | done => exact plays_done
  | elseIf condition body others => exact plays_elseIf condition body.plays others.plays
  | otherwise body => exact plays_otherwise body.plays
termination_by structural chain

/-- The cases of every switch are played wherever they fit. -/
theorem Cases.plays (cases : Cases) : cases.Plays := by
  cases cases with
  | nil => exact plays_noCases
  | cons label body rest => exact plays_case label body.plays rest.plays
termination_by structural cases

/-- The overloads of every function are played wherever they fit. -/
theorem Overloads.plays (overloads : Overloads) : overloads.Plays := by
  cases overloads with
  | last params body => exact plays_lastOverload params body.plays
  | cons params body rest => exact plays_nextOverload params body.plays rest.plays
termination_by structural overloads

end

/-- A new build is ready for the statements of the top level. -/
theorem Session.ready_start (options : BuildOptions) : (start options).Ready .top where
  sane := rfl
  grounded := grounded_start options
  settled := rfl
  accepts := rfl
  breaks := rfl
  continues := rfl
  inFunction := rfl
  returns := rfl

/-- Every program that fits the top level can be built call by call, in any style of its chains of
conditions and under any options: no call fails, the build ends with no open scope in the main
block, and the finished shader, which has no block to spare, is the program and no other but for the
style of chains. -/
theorem Program.rebuilt (options : BuildOptions) (program : Program) (fits : program.fits .top) :
    ∃ shader after,
      (Build.play program.calls *> Build.finish) (.start options) = .ok shader after ∧
      after.scopes = [] ∧ after.current = .root ∧ shader.tree.WellFormed ∧
      program.ShownBy shader ∧
      ∀ other : Program, other.ShownBy shader → other.plain = program.plain := by
  have ready := Session.ready_start options
  obtain ⟨built, instrs, played, adds⟩ := program.plays _ _ ready fits
  have isScopes : built.scopes = [] := adds.scopes
  have readyStill := ready.stays adds.moves adds.scopes adds.current
  have settled := readyStill.settled
  have finished := Build.finish_ok_iff.mpr
    ⟨adds.moves.failure_eq, by rw [settled, isScopes], settled.symm, rfl⟩
  have isMain : built.tree.instructions? .root = some instrs := by
    have isBlock : built.tree.block? .root = some ⟨.root, none, .main, #[] ++ instrs.toArray⟩ :=
      adds.alters.here
    simp [Tree.instructions?, isBlock]
  -- Leaving out what nobody reads changes no name, so what was built is still seen.
  have knows : built.registry.Knows
      (if built.options.elideDead then built.registry.elideDead.1 else built.registry) := by
    split
    · exact built.registry.knows_elideDead
    · exact .refl _
  have shows := adds.shows built.tree _ ⟨fun _ _ _ => rfl, knows⟩
  refine ⟨_, built, Build.bind_ok_iff.mpr ⟨(), built, played, finished⟩, isScopes, adds.current,
    readyStill.grounded.wellFormed, ⟨instrs, isMain, shows⟩, ?_⟩
  rintro other ⟨found, isFound, showsOther⟩
  rw [isMain] at isFound
  obtain rfl := Option.some.inj isFound
  exact Program.plain_unique other program showsOther shows

/-- A function with two overloads, one of them a loop around a chain of conditions in the closing
style and a switch, and a chain in the flowing style. -/
def nestedProgram : Program :=
  .cons (.function "f" .void
    (.cons [⟨.scalar .int, some "n", none⟩]
      (.cons (.forLoop [.ref ⟨1⟩, .literal (.bool true)] (some (.literal (.bool false)))
        (.cons (.branch .closing (.literal (.bool true)) (.cons (.special .continueLoop) .nil)
          (.elseIf (.literal (.bool false)) .nil (.otherwise (.cons (.special .discard) .nil))))
        (.cons (.switch (.ref ⟨1⟩)
          (.cons (some (.int 1)) (.cons (.special .breakLoop) .nil) (.cons none .nil .nil)))
        .nil))) .nil)
    (.last [] (.cons (.ret none) .nil))))
  (.cons (.branch .flowing (.literal (.bool true)) (.cons (.doWhile .nil (.ref ⟨0⟩)) .nil) .done)
  .nil)

/-- The program `nestedProgram` comes back as it was written. -/
theorem Program.rebuilt_nested :
    ∃ shader after,
      (Build.play nestedProgram.calls *> Build.finish) (.start .standard) = .ok shader after ∧
      after.scopes = [] ∧ after.current = .root ∧ shader.tree.WellFormed ∧
      nestedProgram.ShownBy shader ∧
      ∀ other : Program, other.ShownBy shader → other.plain = nestedProgram.plain :=
  nestedProgram.rebuilt .standard rfl

end ShaderLoom
