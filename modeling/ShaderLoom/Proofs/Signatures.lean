import ShaderLoom.Proofs.ParameterLists

/-!
# Signatures

A parameter goes into the parameter list that is open and nowhere else, nothing else goes there,
and a function neither gets a further overload nor is closed while parameters are missing. So at
every moment each overload has all its parameters, but for the last one of the innermost function,
which has as many as were counted (`Session.Signed`), and in a finished shader none is missing.
-/
namespace ShaderLoom

namespace Session

variable {s after : Session}

/-- Whether an overload is the one that an open function has come to. -/
def Opening (s : Session) (place : Address) (overload : Overload) : Prop :=
  ∃ frame ∈ s.scopes, frame.site = place ∧ ∃ opened ∈ frame.overload?,
    opened.args = overload.args ∧ opened.expected = overload.params.length

/-- All parameters stand where they should, and all of them have come that should have. -/
structure Signed (s : Session) : Prop where
  grounded : s.Grounded
  parted : s.tree.Parted
  received : ∀ frame ∈ s.scopes, ∀ opened ∈ frame.overload?,
    (s.tree.listing opened.args).length = opened.received ∧ opened.received ≤ opened.expected
  /-- Parameters can be missing in the innermost scope only. -/
  deep : ∀ frame ∈ s.scopes.tail, ∀ opened ∈ frame.overload?, opened.inSignature = false
  counts : ∀ place, ∀ overload ∈ s.tree.overloadsAt place,
    (s.tree.listing overload.args).length = overload.params.length ∨ s.Opening place overload

/-- The overload that an open function has come to is its last. -/
theorem Placed.last_of_opened (placed : s.Placed) {frame : Frame} (isFrame : frame ∈ s.scopes)
    {opened : OpenOverload} (isOpened : opened ∈ frame.overload?) :
    ∃ last, (s.tree.overloadsAt frame.site).getLast? = some last ∧ last.args = opened.args ∧
      last.body = opened.body ∧ last.params.length = opened.expected := by
  obtain ⟨-, instr, isAt, fits⟩ := placed.stacking.instruction isFrame
  rw [Tree.overloadsAt, isAt]
  cases frame with
  | function site parent var overload =>
    obtain rfl : overload = some opened := isOpened
    obtain ⟨decl, rfl, -, isLast, -⟩ := Frame.fits_function_iff.mp fits
    obtain ⟨last, isLast, blocks⟩ := Option.map_eq_some_iff.mp isLast.symm
    simp only [Prod.mk.injEq] at blocks
    exact ⟨last, isLast, blocks⟩
  | _ => cases isOpened

/-- The overload that an open function has come to is one of its overloads. -/
theorem Placed.overload_of_opened (placed : s.Placed) {frame : Frame}
    (isFrame : frame ∈ s.scopes) {opened : OpenOverload} (isOpened : opened ∈ frame.overload?) :
    ∃ last ∈ s.tree.overloadsAt frame.site, last.args = opened.args ∧ last.body = opened.body ∧
      last.params.length = opened.expected := by
  obtain ⟨last, isLast, blocks⟩ := placed.last_of_opened isFrame isOpened
  exact ⟨last, List.mem_of_getLast? isLast, blocks⟩

/-- Scopes further out have other parameter lists than the innermost. -/
theorem Grounded.args_ne_of_tail (grounded : s.Grounded) {top frame : Frame} {rest : List Frame}
    (isScopes : s.scopes = top :: rest) (isRest : frame ∈ rest) {one two : OpenOverload}
    (isOne : one ∈ top.overload?) (isTwo : two ∈ frame.overload?) : two.args ≠ one.args := by
  have isTop : top ∈ s.scopes := by simp [isScopes]
  have isFrame : frame ∈ s.scopes := by simp [isScopes, isRest]
  obtain ⟨first, isFirst, args, -⟩ := grounded.placed.overload_of_opened isTop isOne
  obtain ⟨second, isSecond, argsToo, -⟩ := grounded.placed.overload_of_opened isFrame isTwo
  intro shared
  rw [← args, ← argsToo] at shared
  have same := (grounded.linked.overload_eq isSecond isFirst shared).1
  have distinct := grounded.placed.distinct
  rw [isScopes, List.map_cons, List.nodup_cons] at distinct
  exact distinct.1 (List.mem_map.mpr ⟨frame, isRest, same⟩)

/-- Whether scopes changed so that none was closed that missed parameters, and none was opened that
has any. -/
structure Passes (s after : Session) : Prop where
  fresh : ∀ frame ∈ after.scopes, frame ∈ s.scopes ∨ ∀ opened ∈ frame.overload?,
    opened.received = 0 ∧ s.tree.listing opened.args = []
  deep : ∀ frame ∈ after.scopes.tail, frame ∈ s.scopes.tail ∨
    ∀ opened ∈ frame.overload?, opened.inSignature = false
  complete : ∀ frame ∈ s.scopes, frame ∈ after.scopes ∨
    ∀ opened ∈ frame.overload?, opened.inSignature = false

section Passes

variable {old new : Frame} {rest : List Frame}

/-- The scopes may stay as they are. -/
theorem passes_of_same (same : after.scopes = s.scopes) : s.Passes after where
  fresh _ isFrame := .inl (same ▸ isFrame)
  deep _ isFrame := .inl (same ▸ isFrame)
  complete _ isFrame := .inl (same ▸ isFrame)

/-- A scope may be opened without an overload where no parameter is missing. -/
theorem passes_of_push (isPushed : after.scopes = new :: s.scopes)
    (unopened : new.overload? = none)
    (complete : ∀ frame ∈ s.scopes, ∀ opened ∈ frame.overload?, opened.inSignature = false) :
    s.Passes after where
  fresh frame isFrame := by
    rw [isPushed] at isFrame
    obtain rfl | isOld := List.mem_cons.mp isFrame
    · right
      rw [unopened]
      nofun
    · exact .inl isOld
  deep frame isFrame := by
    rw [isPushed] at isFrame
    exact .inr (complete frame isFrame)
  complete frame isFrame := by
    rw [isPushed]
    exact .inl (List.mem_cons_of_mem _ isFrame)

/-- A scope may be closed in which no parameter is missing. -/
theorem passes_of_pop (isTop : s.scopes = old :: rest) (isPopped : after.scopes = rest)
    (complete : ∀ opened ∈ old.overload?, opened.inSignature = false) : s.Passes after where
  fresh frame isFrame := by
    rw [isPopped] at isFrame
    rw [isTop]
    exact .inl (List.mem_cons_of_mem _ isFrame)
  deep frame isFrame := by
    rw [isPopped] at isFrame
    rw [isTop]
    exact .inl (List.mem_of_mem_tail isFrame)
  complete frame isFrame := by
    rw [isTop] at isFrame
    rw [isPopped]
    obtain rfl | isRest := List.mem_cons.mp isFrame
    · exact .inr complete
    · exact .inl isRest

/-- A scope in which no parameter is missing may go on to a further overload. -/
theorem passes_of_replace (isTop : s.scopes = old :: rest)
    (isReplaced : after.scopes = new :: rest)
    (complete : ∀ opened ∈ old.overload?, opened.inSignature = false)
    (fresh : ∀ opened ∈ new.overload?, opened.received = 0 ∧ s.tree.listing opened.args = []) :
    s.Passes after where
  fresh frame isFrame := by
    rw [isReplaced] at isFrame
    rw [isTop]
    obtain rfl | isRest := List.mem_cons.mp isFrame
    · exact .inr fresh
    · exact .inl (List.mem_cons_of_mem _ isRest)
  deep frame isFrame := by
    rw [isReplaced] at isFrame
    rw [isTop]
    exact .inl isFrame
  complete frame isFrame := by
    rw [isTop] at isFrame
    rw [isReplaced]
    obtain rfl | isRest := List.mem_cons.mp isFrame
    · exact .inr complete
    · exact .inl (List.mem_cons_of_mem _ isRest)

end Passes

section Signed

variable {place : Address} {overload : Overload}

/-- Where the build stands in a parameter list, that list is the one of the innermost scope, and
parameters of it are missing. -/
theorem Signed.top_of_current (signed : s.Signed) (isOverload : overload ∈ s.tree.overloadsAt place)
    (here : s.current = overload.args) :
    ∃ parent var opened rest, s.scopes = .function place parent var (some opened) :: rest ∧
      opened.inSignature ∧ opened.args = overload.args ∧
      opened.expected = overload.params.length := by
  have linked := signed.grounded.linked
  have isSlot := (Tree.mem_slotsAt_of_overload isOverload).1
  have stacking := signed.grounded.placed.stacking
  cases isScopes : s.scopes with
  | nil =>
    rw [isScopes] at stacking
    have isRoot : s.current = .root := stacking
    rw [← here, isRoot] at isSlot
    exact absurd (linked.slots place _ isSlot).1 (Nat.lt_irrefl 0)
  | cons frame rest =>
    rw [isScopes] at stacking
    obtain ⟨around, ⟨instr, isAt, holds⟩, -⟩ := stacking
    obtain isParent | isInner := holds.parent_or_slot
    · -- No instruction that opens a scope stands in a parameter list.
      have plain := Instruction.isParameter_of_ne holds.fits.kind_ne
      refine absurd ?_ (signed.parted.block_ne isAt plain place overload isOverload)
      rw [around, ← isParent, here]
    · rw [← here] at isSlot
      have isOwned : s.current ∈ s.tree.slotsAt frame.site := by
        rw [Tree.slotsAt, isAt]
        exact isInner
      obtain rfl := linked.apart _ _ _ isOwned isSlot
      have isDeclared : overload ∈ instr.overloads := by
        rw [Tree.overloadsAt, isAt] at isOverload
        exact isOverload
      obtain ⟨site, parent, var, opened, rfl⟩ := holds.fits.exists_opened isDeclared
      have isTop : Frame.function site parent var (some opened) ∈ s.scopes := by simp [isScopes]
      obtain ⟨last, isLast, args, body, count⟩ :=
        signed.grounded.placed.overload_of_opened isTop rfl
      have seat := holds.seat
      simp only [Frame.seat?, Option.some.injEq] at seat
      cases inside : opened.inSignature with
      | true =>
        rw [inside, if_pos rfl] at seat
        have shared : last.args = overload.args := by rw [args, seat, here]
        obtain ⟨-, rfl⟩ := linked.overload_eq isLast isOverload shared
        exact ⟨parent, var, opened, rest, rfl, inside, args.symm, count.symm⟩
      | false =>
        -- All parameters have come, so the build stands in a body.
        rw [inside, if_neg Bool.false_ne_true] at seat
        have shared : overload.args = last.body := by rw [body, seat, here]
        exact absurd shared (linked.disjoint_overloads isOverload isLast).1

/-- Where anything but a parameter is accepted, the build stands outside all parameter lists. -/
theorem Signed.outside (signed : s.Signed) (accepted : s.accepts false) (place : Address)
    (overload : Overload) (isOverload : overload ∈ s.tree.overloadsAt place) :
    s.current ≠ overload.args := by
  intro here
  obtain ⟨parent, var, opened, rest, isScopes, inside, -⟩ := signed.top_of_current isOverload here
  simp [accepts, isScopes, Frame.accepts, inside] at accepted

/-- An overload of which no parameter is missing has them all. -/
theorem Signed.count_of_complete (signed : s.Signed) {frame : Frame} (isFrame : frame ∈ s.scopes)
    {opened : OpenOverload} (isOpened : opened ∈ frame.overload?)
    (complete : opened.inSignature = false) :
    (s.tree.listing opened.args).length = opened.expected := by
  obtain ⟨count, atMost⟩ := signed.received frame isFrame opened isOpened
  have atLeast : opened.expected ≤ opened.received := by
    simpa [OpenOverload.inSignature] using complete
  omega

/-- What leaves the parameter lists as they are, and closes no function that misses parameters,
leaves the build as it should be. -/
theorem Signed.of_scopes (signed : s.Signed) (grounded : after.Grounded)
    (parted : after.tree.Parted)
    (listing : ∀ place, ∀ overload ∈ after.tree.overloadsAt place,
      after.tree.listing overload.args = s.tree.listing overload.args)
    (declared : ∀ place, ∀ overload ∈ after.tree.overloadsAt place,
      overload ∈ s.tree.overloadsAt place ∨ after.Opening place overload)
    (passes : s.Passes after) : after.Signed where
  grounded
  parted
  received frame isFrame opened isOpened := by
    obtain ⟨last, isLast, args, -⟩ := grounded.placed.overload_of_opened isFrame isOpened
    have same := listing frame.site last isLast
    rw [args] at same
    rw [same]
    obtain isOld | isNew := passes.fresh frame isFrame
    · exact signed.received frame isOld opened isOpened
    · obtain ⟨isZero, isEmpty⟩ := isNew opened isOpened
      rw [isZero, isEmpty]
      exact ⟨rfl, Nat.zero_le _⟩
  deep frame isFrame := (passes.deep frame isFrame).elim (signed.deep frame) id
  counts place overload isOverload := by
    rw [listing place overload isOverload]
    obtain isOld | opening := declared place overload isOverload
    · obtain count | ⟨frame, isFrame, isSite, opened, isOpened, args, expected⟩ :=
        signed.counts place overload isOld
      · exact .inl count
      · obtain isKept | complete := passes.complete frame isFrame
        · exact .inr ⟨frame, isKept, isSite, opened, isOpened, args, expected⟩
        · have count := signed.count_of_complete isFrame isOpened (complete opened isOpened)
          rw [args, expected] at count
          exact .inl count
    · exact .inr opening

/-- A tree that grew outside its parameter lists leaves the build as it should be, if the overloads
that came are those that open functions have come to. -/
theorem Signed.of_extends (signed : s.Signed) (grounded : after.Grounded) {site : Address}
    {instr : Instruction} {count : Nat} {extra : List Overload}
    (extended : s.tree.Extends after.tree site instr count) (plain : instr.isParameter = false)
    (grown : instr.overloads = s.tree.overloadsAt site ++ extra)
    (fresh : ∀ overload ∈ extra, s.tree.size ≤ overload.args.index)
    (outside : ∀ place, ∀ overload ∈ s.tree.overloadsAt place, site.block ≠ overload.args)
    (opening : ∀ overload ∈ extra, after.Opening site overload)
    (passes : s.Passes after) : after.Signed := by
  refine signed.of_scopes grounded (signed.parted.extend extended plain grown fresh outside)
    (fun _ _ => extended.listing_args grown fresh outside) ?_ passes
  intro place overload isOverload
  rw [extended.overloadsAt_eq grown, List.mem_append] at isOverload
  obtain isOld | isNew := isOverload
  · exact .inl isOld
  · split_ifs at isNew with here
    · exact .inr (here ▸ opening overload isNew)
    · cases isNew

/-- Nothing is declared where the next instruction will stand. -/
theorem overloadsAt_site (s : Session) : s.tree.overloadsAt s.site = [] := by
  rw [Tree.overloadsAt, site, Tree.instruction?_length]
  rfl

/-- What opens no scope brings no overloads. -/
theorem Placed.overloadsAt_commit (placed : s.Placed) {instr : Instruction}
    (plain : instr.kind.opens = false) (place : Address) :
    (s.commit s.current instr).tree.overloadsAt place = s.tree.overloadsAt place := by
  have noOverloads : instr.overloads = s.tree.overloadsAt s.site ++ [] := by
    rw [overloadsAt_site]
    exact Instruction.overloads_of_plain plain
  rw [(placed.extends_append plain).overloadsAt_eq noOverloads]
  simp

/-- What is no parameter is appended outside the parameter lists. -/
theorem Signed.plain (signed : s.Signed) {instr : Instruction} (plain : instr.kind.opens = false)
    (accepted : s.accepts false) (isOther : instr.isParameter = false) :
    (s.commit s.current instr).Signed := by
  have placed := signed.grounded.placed
  have extended := placed.extends_append plain
  have grounded := signed.grounded.append plain (isOther ▸ accepted)
  have noOverloads : instr.overloads = s.tree.overloadsAt s.site ++ [] := by
    rw [overloadsAt_site]
    exact Instruction.overloads_of_plain plain
  refine signed.of_extends grounded extended isOther noOverloads nofun (signed.outside accepted)
    nofun (passes_of_same ?_)
  rw [commit_eq (placed.outsideSignature accepted)]

/-- A parameter goes to the end of the list that is open, and is counted. -/
theorem Signed.parameter (signed : s.Signed) {instr : Instruction}
    (plain : instr.kind.opens = false) (accepted : s.accepts true)
    (isParameter : instr.isParameter) : (s.commit s.current instr).Signed := by
  have placed := signed.grounded.placed
  obtain ⟨site, parent, var, opened, rest, isScopes, inside, inArgs⟩ := placed.inSignature accepted
  have isTop : Frame.function site parent var (some opened) ∈ s.scopes := by simp [isScopes]
  obtain ⟨last, isLast, args, -, expected⟩ := placed.overload_of_opened isTop rfl
  have here : s.current = last.args := inArgs.trans args.symm
  have overloads := placed.overloadsAt_commit plain
  have scopes : (s.commit s.current instr).scopes =
      .function site parent var (some { opened with received := opened.received + 1 }) ::
        rest := by
    rw [commit_counted isScopes inArgs]
  have listing : ∀ id, (s.commit s.current instr).tree.listing id =
      s.tree.listing id ++ if id = last.args then [instr] else [] := by
    intro id
    rw [commit_tree, Tree.listing_push placed.current_known, here]
  refine {
    grounded := signed.grounded.append plain (isParameter ▸ accepted)
    parted := ?_
    received := ?_
    deep := ?_
    counts := ?_ }
  · rw [commit_tree, here] at overloads ⊢
    have known := signed.grounded.linked.args_lt isLast
    exact signed.parted.push isLast known isParameter overloads
  · rw [scopes]
    intro frame isFrame other isOther
    obtain rfl | isRest := List.mem_cons.mp isFrame
    · obtain rfl := Option.some.inj isOther
      obtain ⟨count, -⟩ := signed.received _ isTop opened rfl
      have fewer : opened.received < opened.expected := by
        simpa [OpenOverload.inSignature] using inside
      rw [listing, args, if_pos rfl, List.length_append, count]
      exact ⟨rfl, fewer⟩
    · -- The lists of the scopes further out are other blocks.
      have isOpen : frame ∈ s.scopes := by simp [isScopes, isRest]
      have elsewhere := signed.grounded.args_ne_of_tail isScopes isRest rfl isOther
      rw [listing, args, if_neg elsewhere, List.append_nil]
      exact signed.received frame isOpen other isOther
  · rw [scopes]
    have deep := signed.deep
    rw [isScopes] at deep
    exact deep
  · intro place overload isOverload
    rw [overloads] at isOverload
    rw [listing]
    by_cases shared : overload.args = last.args
    · obtain ⟨rfl, rfl⟩ := signed.grounded.linked.overload_eq isOverload isLast shared
      exact .inr ⟨_, scopes ▸ List.mem_cons_self, rfl,
        { opened with received := opened.received + 1 }, rfl, args.symm, expected.symm⟩
    · rw [if_neg shared, List.append_nil]
      refine (signed.counts place overload isOverload).imp_right ?_
      rintro ⟨frame, isFrame, isSite, found, isFound, argsToo, count⟩
      rw [isScopes] at isFrame
      obtain rfl | isRest := List.mem_cons.mp isFrame
      · obtain rfl := Option.some.inj isFound
        exact absurd (argsToo.symm.trans args.symm) shared
      · exact ⟨frame, scopes ▸ List.mem_cons_of_mem _ isRest, isSite, found, isFound, argsToo,
          count⟩

/-- Where anything but a parameter is accepted, no parameter of any open function is missing. -/
theorem Signed.complete_of_accepts (signed : s.Signed) (accepted : s.accepts false) :
    ∀ frame ∈ s.scopes, ∀ opened ∈ frame.overload?, opened.inSignature = false := by
  intro frame isFrame opened isOpened
  cases isScopes : s.scopes with
  | nil =>
    rw [isScopes] at isFrame
    cases isFrame
  | cons top rest =>
    rw [isScopes] at isFrame
    obtain rfl | isRest := List.mem_cons.mp isFrame
    · cases frame with
      | function site parent var overload =>
        obtain rfl : overload = some opened := isOpened
        simpa [accepts, isScopes, Frame.accepts] using accepted
      | _ => cases isOpened
    · refine signed.deep frame ?_ opened isOpened
      rw [isScopes]
      exact isRest

/-- A scope is opened outside the parameter lists, and has no overload yet. -/
theorem Signed.begin (signed : s.Signed) {kinds : List BlockKind} {instr : Instruction}
    {frame : Frame} {inner : BlockId} (opens : s.Opens kinds instr frame inner) :
    (s.opened kinds instr frame inner).Signed := by
  have placed := signed.grounded.placed
  have noOverloads : instr.overloads = s.tree.overloadsAt s.site ++ [] := by
    rw [overloadsAt_site]
    exact opens.holds.fits.overloads_eq_nil opens.unopened
  refine signed.of_extends (signed.grounded.begin opens) (placed.extends_begin opens)
    (Instruction.isParameter_of_ne opens.holds.fits.kind_ne) noOverloads nofun
    (signed.outside opens.accepted) nofun
    (passes_of_push ?_ opens.unopened (signed.complete_of_accepts opens.accepted))
  rw [opened_eq (placed.outsideSignature opens.accepted)]

/-- A function grows by an overload none of whose parameters has come, once no parameter of the one
before is missing, and other scopes by none. -/
theorem Grows.exists_extra {kinds : List BlockKind} {change : Instruction → Instruction}
    {old new : Frame} {inner : BlockId} {instr : Instruction}
    (grows : s.Grows kinds change old new inner) (isAt : s.tree.instruction? old.site = some instr)
    (holds : old.Holds instr s.current) :
    ∃ extra, (change instr).overloads = instr.overloads ++ extra ∧
      (∀ overload ∈ extra, s.tree.size ≤ overload.args.index) ∧
      (∀ overload ∈ extra, ∃ opened ∈ new.overload?,
        opened.args = overload.args ∧ opened.expected = overload.params.length) ∧
      (∀ opened ∈ new.overload?, opened.received = 0 ∧ s.tree.size ≤ opened.args.index) ∧
      ∀ opened ∈ old.overload?, opened.inSignature = false := by
  by_cases isFunction : old.kind = .function
  · obtain ⟨complete, params, rfl, isNew⟩ := grows.overloads isFunction
    refine ⟨[⟨params, s.tree.next, ⟨s.tree.size + 1⟩⟩], ?_, ?_, ?_, ?_, complete⟩
    · rw [← holds.fits.kind_eq] at isFunction
      cases instr with
      | function decl => rfl
      | _ => cases isFunction
    · intro overload isOverload
      rw [List.mem_singleton.mp isOverload]
      exact Nat.le_refl _
    · intro overload isOverload
      rw [List.mem_singleton.mp isOverload]
      exact ⟨_, isNew, rfl, rfl⟩
    · intro opened isOpened
      rw [isNew] at isOpened
      obtain rfl := Option.some.inj isOpened
      exact ⟨rfl, Nat.le_refl _⟩
  · have unopened := Frame.overload?_of_ne isFunction
    have unopenedToo := Frame.overload?_of_ne (grows.kind ▸ isFunction)
    refine ⟨[], ?_, nofun, nofun, ?_, ?_⟩
    · rw [holds.fits.overloads_eq_nil unopened,
        (grows.holds instr isAt holds).fits.overloads_eq_nil unopenedToo]
      rfl
    · rw [unopenedToo]
      nofun
    · rw [unopened]
      nofun

/-- A scope grows outside the parameter lists. -/
theorem Signed.grow (signed : s.Signed) {kinds : List BlockKind}
    {change : Instruction → Instruction} {old new : Frame} {rest : List Frame} {inner : BlockId}
    (top : s.scopes = old :: rest) (grows : s.Grows kinds change old new inner) :
    (s.grown kinds change new inner).Signed := by
  obtain ⟨instr, isAt, holds, extended⟩ := signed.grounded.placed.extends_grow top grows
  have outside := signed.parted.block_ne isAt (Instruction.isParameter_of_ne holds.fits.kind_ne)
  have scopes : (s.grown kinds change new inner).scopes = new :: rest := by
    rw [grown, top]
    rfl
  have isOverloads : s.tree.overloadsAt old.site = instr.overloads := by
    rw [Tree.overloadsAt, isAt]
    rfl
  obtain ⟨extra, grownBy, fresh, opening, received, complete⟩ := grows.exists_extra isAt holds
  refine signed.of_extends (signed.grounded.grow top grows) extended
    (Instruction.isParameter_of_ne (grows.holds instr isAt holds).fits.kind_ne)
    (isOverloads ▸ grownBy) fresh outside ?_ (passes_of_replace top scopes complete ?_)
  · intro overload isOverload
    exact ⟨new, scopes ▸ List.mem_cons_self, grows.site, opening overload isOverload⟩
  · intro opened isOpened
    obtain ⟨isZero, isFresh⟩ := received opened isOpened
    exact ⟨isZero, Tree.listing_of_le isFresh⟩

/-- A change of the scopes alone leaves the build as it should be. -/
theorem Signed.of_tree (signed : s.Signed) (grounded : after.Grounded) (tree : after.tree = s.tree)
    (passes : s.Passes after) : after.Signed := by
  refine signed.of_scopes grounded (tree ▸ signed.parted) ?_ ?_ passes
  · rw [tree]
    exact fun _ _ _ => rfl
  · rw [tree]
    exact fun _ _ => .inl

/-- Every move leaves a build signed. -/
theorem Signed.move (signed : s.Signed) (move : Move s after) : after.Signed := by
  have grounded := signed.grounded.move move
  cases move with
  | register registry => exact signed.of_tree grounded rfl (passes_of_same rfl)
  | @settle frame rest top waiting =>
    refine signed.of_tree grounded rfl (passes_of_pop top rfl ?_)
    intro opened isOpened
    cases frame with
    | branch => cases isOpened
    | _ => cases waiting
  | @append instr _ plain accepted =>
    cases isParameter : instr.isParameter with
    | false => exact signed.plain plain (isParameter ▸ accepted) isParameter
    | true => exact signed.parameter plain (isParameter ▸ accepted) isParameter
  | begin opens => exact signed.begin opens
  | grow top grows => exact signed.grow top grows
  | @enter old new rest inner top enters =>
    have scopes : (s.entered new inner).scopes = new :: rest := by
      rw [entered, top]
      rfl
    refine signed.of_tree grounded rfl (passes_of_replace top scopes ?_ ?_)
    · rw [Frame.overload?_of_ne enters.apart]
      simp
    · rw [Frame.overload?_of_ne (enters.kind ▸ enters.apart)]
      simp
  | @leave frame rest top _ complete =>
    refine signed.of_tree grounded rfl (passes_of_pop top ?_ complete)
    rw [closed, top]
    rfl

/-- There are no overloads at the start. -/
theorem overloadsAt_start (options : BuildOptions) (place : Address) :
    (start options).tree.overloadsAt place = [] := by
  rw [start, Tree.overloadsAt, Tree.instruction?_empty]
  rfl

/-- A build is signed at its start. -/
theorem signed_start (options : BuildOptions) : (start options).Signed where
  grounded := grounded_start options
  parted := {
    only := by simp [overloadsAt_start]
    nowhere := by simp [listing_start] }
  received := nofun
  deep := nofun
  counts := by simp [overloadsAt_start]

/-- A build is signed wherever calls lead without failing. -/
theorem signed_reached (options : BuildOptions) (calls : List Call)
    (sane : (reached options calls).failure = none) : (reached options calls).Signed :=
  reached_of_moves signed_start (fun _ _ signed => signed.move) options calls sane

/-- An overload of which parameters are missing is the one that the innermost scope has come to. -/
theorem Signed.top_of_missing (signed : s.Signed) (isOverload : overload ∈ s.tree.overloadsAt place)
    (missing : (s.tree.listing overload.args).length ≠ overload.params.length) :
    ∃ parent var opened rest, s.scopes = .function place parent var (some opened) :: rest ∧
      opened.args = overload.args ∧ opened.expected = overload.params.length := by
  obtain count | ⟨frame, isFrame, isSite, opened, isOpened, args, expected⟩ :=
    signed.counts place overload isOverload
  · exact absurd count missing
  · rw [← args, ← expected] at missing
    cases isScopes : s.scopes with
    | nil =>
      rw [isScopes] at isFrame
      cases isFrame
    | cons top rest =>
      have isEither := isFrame
      rw [isScopes] at isEither
      obtain rfl | isRest := List.mem_cons.mp isEither
      · cases frame with
        | function site parent var found =>
          obtain rfl : found = some opened := isOpened
          obtain rfl : site = place := isSite
          exact ⟨parent, var, opened, rest, rfl, args, expected⟩
        | _ => cases isOpened
      · have complete := signed.deep frame (by rw [isScopes]; exact isRest) opened isOpened
        exact absurd (signed.count_of_complete isFrame isOpened complete) missing

/-- The build stands in a parameter list exactly while parameters of it are missing. -/
theorem Signed.current_iff (signed : s.Signed) (isOverload : overload ∈ s.tree.overloadsAt place) :
    s.current = overload.args ↔
      (s.tree.listing overload.args).length < overload.params.length := by
  constructor
  · intro here
    obtain ⟨parent, var, opened, rest, isScopes, inside, args, expected⟩ :=
      signed.top_of_current isOverload here
    have isTop : Frame.function place parent var (some opened) ∈ s.scopes := by simp [isScopes]
    obtain ⟨count, -⟩ := signed.received _ isTop opened rfl
    rw [← args, ← expected, count]
    simpa [OpenOverload.inSignature] using inside
  · intro fewer
    obtain ⟨parent, var, opened, rest, isScopes, args, expected⟩ :=
      signed.top_of_missing isOverload (Nat.ne_of_lt fewer)
    have isTop : Frame.function place parent var (some opened) ∈ s.scopes := by simp [isScopes]
    obtain ⟨count, -⟩ := signed.received _ isTop opened rfl
    have inside : opened.inSignature := by
      rw [← args, ← expected, count] at fewer
      simpa [OpenOverload.inSignature] using fewer
    have stacking := signed.grounded.placed.stacking
    rw [isScopes] at stacking
    obtain ⟨-, ⟨instr, -, holds⟩, -⟩ := stacking
    have seat := holds.seat
    simp only [Frame.seat?, inside, if_true, Option.some.injEq] at seat
    rw [← seat, args]

end Signed

/-- What can be said of the parameter lists of every build that has not failed, after the
declarations of parameters so far. -/
structure Signatures (s : Session) (declared : List (BlockId × Instruction)) : Prop where
  /-- A parameter list holds parameters and nothing else. -/
  only : ∀ site, ∀ overload ∈ s.tree.overloadsAt site, ∀ instr ∈ s.tree.listing overload.args,
    instr.isParameter
  /-- It holds those that were declared while the build stood in it, in the order of their
  declarations. -/
  ordered : ∀ site, ∀ overload ∈ s.tree.overloadsAt site,
    s.tree.listing overload.args = (declared.filter (·.1 = overload.args)).map (·.2)
  /-- It holds as many as the overload has, unless this is the last of a function that is the
  innermost scope. -/
  complete : ∀ site, ∀ overload ∈ s.tree.overloadsAt site,
    (s.tree.listing overload.args).length = overload.params.length ∨
      (s.tree.overloadsAt site).getLast? = some overload ∧
        ∃ parent var opened rest, s.scopes = .function site parent var (some opened) :: rest
  /-- The last overload of such a function has as many as were counted, and not too many. -/
  counted : ∀ site parent var opened rest,
    s.scopes = .function site parent var (some opened) :: rest →
      ∃ last, (s.tree.overloadsAt site).getLast? = some last ∧
        (s.tree.listing last.args).length = opened.received ∧
        opened.received ≤ last.params.length
  /-- The build stands in a parameter list exactly while parameters of it are missing. -/
  current : ∀ site, ∀ overload ∈ s.tree.overloadsAt site,
    (s.current = overload.args ↔
      (s.tree.listing overload.args).length < overload.params.length)
  /-- No parameter stands outside the parameter lists. -/
  nowhere : ∀ id, ∀ instr ∈ s.tree.listing id, instr.isParameter →
    ∃ site, ∃ overload ∈ s.tree.overloadsAt site, id = overload.args

/-- The parameter lists of a signed build are as they should be, if parameters stand in the order
of their declarations. -/
theorem Signed.signatures (signed : s.Signed) {declared : List (BlockId × Instruction)}
    (ordered : ∀ id, (s.tree.listing id).filter Instruction.isParameter =
      (declared.filter (·.1 = id)).map (·.2)) : s.Signatures declared where
  only := signed.parted.only
  ordered site overload isOverload := by
    rw [← ordered]
    exact (List.filter_eq_self.mpr (signed.parted.only site overload isOverload)).symm
  complete site overload isOverload := by
    by_cases count : (s.tree.listing overload.args).length = overload.params.length
    · exact .inl count
    · obtain ⟨parent, var, opened, rest, isScopes, args, -⟩ :=
        signed.top_of_missing isOverload count
      have isTop : Frame.function site parent var (some opened) ∈ s.scopes := by simp [isScopes]
      obtain ⟨last, isLast, argsToo, -⟩ := signed.grounded.placed.last_of_opened isTop rfl
      obtain ⟨-, rfl⟩ := signed.grounded.linked.overload_eq isOverload
        (List.mem_of_getLast? isLast) (args.symm.trans argsToo.symm)
      exact .inr ⟨isLast, parent, var, opened, rest, isScopes⟩
  counted site parent var opened rest isScopes := by
    have isTop : Frame.function site parent var (some opened) ∈ s.scopes := by simp [isScopes]
    obtain ⟨last, isLast, args, -, expected⟩ := signed.grounded.placed.last_of_opened isTop rfl
    obtain ⟨count, atMost⟩ := signed.received _ isTop opened rfl
    rw [← args] at count
    rw [← expected] at atMost
    exact ⟨last, isLast, count, atMost⟩
  current _ _ := signed.current_iff
  nowhere := signed.parted.nowhere

/-- The parameter lists are as they should be wherever calls lead without failing, and in a finished
shader every overload has all its parameters. -/
theorem signatures_reached (options : BuildOptions) (calls : List Call)
    (sane : (reached options calls).failure = none) :
    (reached options calls).Signatures (declared options calls) ∧
      ∀ shader after, Build.finish (reached options calls) = .ok shader after →
        ∀ site, ∀ overload ∈ shader.tree.overloadsAt site,
          (shader.tree.listing overload.args).length = overload.params.length ∧
            ∀ instr ∈ shader.tree.listing overload.args, instr.isParameter := by
  have signed := signed_reached options calls sane
  refine ⟨signed.signatures (filter_listing_reached options calls sane), ?_⟩
  intro shader after finished site overload isOverload
  obtain ⟨-, closed, -, rfl⟩ := Build.finish_ok_iff.mp finished
  refine ⟨?_, signed.parted.only site overload isOverload⟩
  by_contra missing
  obtain ⟨parent, var, opened, rest, isScopes, -⟩ := signed.top_of_missing isOverload missing
  change (reached options calls).scopes.dropWhile Frame.isWaiting = [] at closed
  rw [isScopes] at closed
  cases closed

/-- A function whose first overload is complete, and whose second still misses a parameter. -/
def halfSignedCalls : List Call :=
  [.beginFunc "f" .void, .nextOverload [.scalar .int], .declareParam (.scalar .int) none none,
   .nextOverload [.scalar .int, .scalar .float], .declareParam (.scalar .int) none none]

/-- The build of `halfSignedCalls` stands in the parameter list of the second overload. -/
theorem signatures_reached_half :
    (reached .standard halfSignedCalls).failure = none ∧
      (reached .standard halfSignedCalls).Signatures (declared .standard halfSignedCalls) ∧
      (reached .standard halfSignedCalls).current = ⟨3⟩ :=
  ⟨rfl, (signatures_reached .standard halfSignedCalls rfl).1, rfl⟩

end Session

end ShaderLoom
