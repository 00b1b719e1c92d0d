import Mathlib
import ShaderLoom.Dialect.Standard
import ShaderLoom.Proofs.Weights

/-!
# Nothing is written twice

A value that is written where it is read must not be read twice. The registry sees to that as long
as a variable is not pinned and its reads can be counted; a pinned variable keeps its status however
often it is read. So in a frugal build that spares such variables (`Session.Sparing`) every value is
written once at most, and what nobody reads is not referred to (`Bench.written_once`).
-/
namespace ShaderLoom

/-- A value is written where it is used as long as that is undecided, and if it is out of sight. -/
theorem Record.isInlined_iff {record : Record} :
    record.isInlined = true ↔ record.status = .forward ∨ record.status = .temporary := by
  unfold isInlined
  cases record.status <;> simp

/-- A variable that may be referred to was read. -/
theorem Registry.read_of_issued {registry : Registry} {reads : List Event} {id : VarId}
    (isIssued : registry.issued reads (.reference id) ≠ 0) :
    .use id ∈ reads ∨ .consume id ∈ reads := by
  rw [issued] at isIssued
  simp only [← List.count_pos_iff]
  omega

/-- A variable that was read counts as read. -/
theorem Session.Tallied.counted {registry : Registry} {reads : List Registry.Event} {id : VarId}
    {record : Record} (tallied : Tallied registry reads) (fit : CountsFit id reads)
    (found : registry.get? id = some record) (isRead : .use id ∈ reads ∨ .consume id ∈ reads) :
    ¬(record.uses = 0 ∧ record.consumptions = 0) := by
  rintro ⟨uses, consumptions⟩
  obtain ⟨unused, unconsumed⟩ := (tallied.records id record found).unread fit uses consumptions
  rw [List.count_eq_zero] at unused unconsumed
  exact isRead.elim unused unconsumed

namespace Build

variable {s after : Session} {shader : Shader} {id : VarId} {record : Record}

/-- Finishing leaves the tree as it is. -/
theorem tree_of_finish (finished : finish s = .ok shader after) : shader.tree = s.tree := by
  obtain ⟨-, -, -, rfl⟩ := finish_ok_iff.mp finished
  rfl

/-- Finishing leaves a variable that counts as read as it is. -/
theorem get?_of_finish (finished : finish s = .ok shader after)
    (found : s.registry.get? id = some record)
    (isRead : ¬(record.uses = 0 ∧ record.consumptions = 0)) :
    shader.registry.get? id = some record := by
  obtain ⟨-, -, -, rfl⟩ := finish_ok_iff.mp finished
  have alive : record.isDead = false := by
    rw [← Bool.not_eq_true, Record.isDead]
    simp only [Bool.and_eq_true, beq_iff_eq]
    exact fun dead => isRead ⟨dead.1.2, dead.2⟩
  simp only
  split
  · rw [Registry.get?_elideDead, found, Option.map_some, Record.elide, alive]
    rfl
  · exact found

/-- Finishing registers no variable. -/
theorem get?_none_of_finish (finished : finish s = .ok shader after)
    (unknown : s.registry.get? id = none) : shader.registry.get? id = none := by
  obtain ⟨-, -, -, rfl⟩ := finish_ok_iff.mp finished
  simp only
  split
  · rw [Registry.get?_elideDead, unknown]
    rfl
  · exact unknown

/-- A variable whose status changes when the build is finished was never read, if its reads can be
counted. -/
theorem issued_of_elided {reads : List Registry.Event} (tallied : Session.Tallied s.registry reads)
    (fit : CountsFit id reads) (finished : finish s = .ok shader after)
    (elided : shader.registry.status? id ≠ s.registry.status? id) :
    s.registry.issued reads (.reference id) = 0 := by
  cases found : s.registry.get? id with
  | none =>
    apply absurd _ elided
    rw [Registry.status?, Registry.status?, found, get?_none_of_finish finished found]
  | some record =>
    by_contra isIssued
    apply elided
    have counted := tallied.counted fit found (Registry.read_of_issued isIssued)
    rw [Registry.status?, Registry.status?, found, get?_of_finish finished found counted]

end Build

namespace Session

variable {options : BuildOptions} {calls : List Call}

/-- A variable is made by the call at some position. -/
theorem Made.exists_position {maker : Session → Call → Prop} {id : VarId}
    (made : Made options calls maker id) :
    ∃ position < calls.length, ∃ call, maker (reached options (calls.take position)) call ∧
      id = (reached options (calls.take position)).registry.next := by
  obtain ⟨before, call, rest, rfl, isMaker, isNext⟩ := made
  refine ⟨before.length, by simp, call, ?_⟩
  rw [List.take_left]
  exact ⟨isMaker, isNext⟩

/-- A construction is pushed by the call at some position. -/
theorem Pushed.exists_position {inHeader : Bool} {made : Construction} {args : List Expr}
    (pushed : Pushed options calls inHeader made args) :
    .push (.construct made args) ∈ calls ∧ ∃ position < calls.length,
      (reached options (calls.take position)).inHeader = inHeader := by
  obtain ⟨before, rest, rfl, isPlace⟩ := pushed
  refine ⟨by simp, before.length, by simp, ?_⟩
  rwa [List.take_left]

/-- Whether a value is never declared and yet pushed as a statement, into the header of a loop or
elsewhere. It is written wherever it is read, however often that is, and in a header also where it
stands. -/
def Bare (options : BuildOptions) (calls : List Call) (inHeader : Bool) (id : VarId) : Prop :=
  Made options calls (fun _ call => call.isInline) id ∧
    ∃ made args, made.var = id ∧ Pushed options calls inHeader made args

/-- Whether a build does not read again what is written wherever it is read. -/
structure Sparing (options : BuildOptions) (calls : List Call) : Prop where
  /-- The reads of a variable can be counted in 32 bits. -/
  few : ∀ id, CountsFit id (readsOf calls)
  /-- A forward in the header of a loop is not read. -/
  forwards : ∀ id, Made options calls (fun s call => s.inHeader ∧ call.isForward) id →
    .use id ∉ calls ∧ .consume id ∉ calls
  /-- Of a value that is never declared and yet pushed, one reference is given to a call at most,
  and none if it stands in the header of a loop. -/
  bare : ∀ inHeader id, Bare options calls inHeader id →
    (calls.flatMap Call.mentions).count id ≤ if inHeader then 0 else 1

end Session

namespace Bench.Ledger

variable {options : BuildOptions} {calls : List Call} {bench : Bench} {shader : Shader}
  {after : Session}

/-- The tree holds what was handed out. -/
theorem marks_le_issued (ledger : bench.Ledger options calls) (mark : Mark) :
    bench.session.tree.marks.count mark ≤
      bench.session.registry.issued (Session.readsOf calls) mark := by
  have balanced := ledger.balanced mark
  have spent := (subperm_flatMap ledger.spent Expr.marks).count_le mark
  omega

/-- The tree holds no more references to a variable than calls were given. -/
theorem marks_le_mentions (ledger : bench.Ledger options calls) (id : VarId) :
    bench.session.tree.marks.count (.reference id) ≤ (calls.flatMap Call.mentions).count id := by
  obtain ⟨part, isPart, within⟩ := ledger.spent
  obtain ⟨rest, isRest⟩ := within.exists_perm_append
  have isPerm : bench.hand.values.Perm (bench.hand.spent ++ rest) :=
    isRest.trans (isPart.append_right rest)
  have balanced := ledger.balanced (.reference id)
  have answered := ledger.answered id
  have unspent := count_ref?_le rest id
  have mentions : calls.flatMap Call.mentions = bench.hand.spent.filterMap Expr.ref? := by
    rw [ledger.given, List.filterMap_flatMap]
    rfl
  rw [(isPerm.flatMap_right Expr.marks).count_eq, List.flatMap_append, List.count_append,
    Registry.issued] at balanced
  rw [(isPerm.filterMap Expr.ref?).count_eq, List.filterMap_append, List.count_append] at answered
  rw [mentions]
  omega

/-- A variable that is referred to was read. -/
theorem exists_read (ledger : bench.Ledger options calls) {id : VarId}
    (isHeld : .reference id ∈ bench.session.tree.marks) :
    (.use id ∈ Session.readsOf calls ∨ .consume id ∈ Session.readsOf calls) ∧
      ∃ record, bench.session.registry.get? id = some record := by
  have isSome := List.count_pos_iff.mpr isHeld
  have bounded := ledger.marks_le_issued (.reference id)
  have isRead := Registry.read_of_issued (Nat.ne_of_gt (Nat.lt_of_lt_of_le isSome bounded))
  exact ⟨isRead, Registry.exists_record (ledger.tallied.known id isRead)⟩

/-- A pinned value that is out of sight and stands as a statement is one that was pushed. -/
theorem bare_of_pinned (ledger : bench.Ledger options calls) {record : Record}
    {made : Construction} {args : List Expr} {site : Address}
    (found : bench.session.registry.get? made.var = some record) (pinned : record.pinned = true)
    (isTemporary : record.status = .temporary)
    (isAt : bench.session.tree.instruction? site = some (.statement (.construct made args))) :
    Session.Bare options calls (bench.session.tree.kind? site.block = some .forArgs) made.var := by
  refine ⟨ledger.inlines made.var record found pinned isTemporary, made, args, rfl, ?_⟩
  obtain isPush | ⟨other, isOther, free⟩ := ledger.pushed site made args isAt
  · exact isPush
  · rw [found] at isOther
    obtain rfl := Option.some.inj isOther
    exact absurd isTemporary (free pinned)

variable (ledger : bench.Ledger options calls) (sparing : Session.Sparing options calls)

include ledger sparing

/-- A variable that is referred to and out of sight is a temporary and referred to once, if it
stands as a statement at all, and then not in the header of a loop. -/
theorem once_of_inlined {id : VarId} {record : Record}
    (found : bench.session.registry.get? id = some record) (isInlined : record.isInlined = true)
    (isHeld : .reference id ∈ bench.session.tree.marks) {made : Construction} {args : List Expr}
    {site : Address} (isVar : made.var = id)
    (isAt : bench.session.tree.instruction? site = some (.statement (.construct made args))) :
    record.status = .temporary ∧ bench.session.tree.kind? site.block ≠ some .forArgs ∧
      bench.session.tree.marks.count (.reference id) ≤ 1 := by
  subst isVar
  have isSome := List.count_pos_iff.mpr isHeld
  cases pinned : record.pinned with
  | false =>
    have bounded := ledger.marks_le_issued (.reference made.var)
    rw [Registry.issued] at bounded
    obtain ⟨ofTemporary, ofForward⟩ :=
      (ledger.tallied.records made.var record found).spared pinned (sparing.few made.var)
    obtain isForward | isTemporary := Record.isInlined_iff.mp isInlined
    · have unread := ofForward isForward
      omega
    · refine ⟨isTemporary, fun isHeader => ?_, bounded.trans (ofTemporary isTemporary)⟩
      obtain ⟨other, isOther, isPinned⟩ := ledger.headers site made args isAt isHeader
      rw [found] at isOther
      obtain rfl := Option.some.inj isOther
      rw [pinned] at isPinned
      cases isPinned
  | true =>
    obtain isForward | isTemporary := Record.isInlined_iff.mp isInlined
    · have isMade := ledger.forwards made.var record found pinned isForward
      obtain ⟨unused, unconsumed⟩ := sparing.forwards made.var isMade
      obtain ⟨isUse, isConsume⟩ := Session.mem_readsOf calls made.var
      obtain used | consumed := (ledger.exists_read isHeld).1
      · exact absurd (isUse.mp used) unused
      · exact absurd (isConsume.mp consumed) unconsumed
    · have bounded := (ledger.marks_le_mentions made.var).trans
        (sparing.bare _ made.var (ledger.bare_of_pinned found pinned isTemporary isAt))
      by_cases isHeader : bench.session.tree.kind? site.block = some .forArgs
      · rw [decide_eq_true isHeader, if_pos rfl] at bounded
        omega
      · rw [decide_eq_false isHeader] at bounded
        exact ⟨isTemporary, isHeader, bounded⟩

variable (finished : Build.finish bench.session = .ok shader after)

include finished

/-- A variable that is referred to and replaced by its value is referred to once. Its constructions
vanish, for they do not stand in headers of loops. -/
theorem once_of_replaced {id : VarId}
    (isRef : id ∈ shader.tree.marks.filterMap shader.replaced?) :
    shader.registry.status? id = some .temporary ∧
      shader.tree.marks.count (.reference id) ≤ 1 ∧
      ∀ site made args, shader.tree.instruction? site = some (.statement (.construct made args)) →
        made.var = id → shader.tree.kind? site.block ≠ some .forArgs := by
  have isTree := Build.tree_of_finish finished
  obtain ⟨mark, isHeld, isReplaced⟩ := List.mem_filterMap.mp isRef
  obtain ⟨rfl, isSome⟩ := Shader.replaced?_eq_some_iff.mp isReplaced
  rw [isTree] at isHeld ⊢
  obtain ⟨isRead, record, found⟩ := ledger.exists_read isHeld
  have counted := ledger.tallied.counted (sparing.few id) found isRead
  have foundAfter := Build.get?_of_finish finished found counted
  obtain ⟨value, isInlined⟩ := Option.isSome_iff_exists.mp isSome
  obtain ⟨isStatement, made, args, rfl, isVar⟩ := Shader.statement_of_inlined? isInlined
  have inPlace : record.isInlined = true := by
    unfold Shader.inlined? Shader.var? at isInlined
    rw [foundAfter] at isInlined
    split at isInlined
    case isTrue inPlace => exact inPlace
    case isFalse => cases isInlined
  rw [isTree] at isStatement
  obtain ⟨place, isAt⟩ := Tree.mem_instructions.mp isStatement
  obtain ⟨isTemporary, -, once⟩ :=
    ledger.once_of_inlined sparing found inPlace isHeld isVar isAt
  refine ⟨by rw [Registry.status?, foundAfter, Option.map_some, isTemporary], once, ?_⟩
  intro site other others isThere isSame
  exact (ledger.once_of_inlined sparing found inPlace isHeld isSame isThere).2.1

/-- Variables that are referred to once are replaced once. -/
theorem nodup_replaced : (shader.tree.marks.filterMap shader.replaced?).Nodup := by
  rw [List.nodup_iff_count_le_one]
  intro id
  by_cases isRef : id ∈ shader.tree.marks.filterMap shader.replaced?
  · refine le_trans ?_ (ledger.once_of_replaced sparing finished isRef).2.1
    rw [List.count_filterMap]
    refine List.countP_mono_left ?_
    intro mark _ isReplaced
    rw [beq_iff_eq, Shader.replaced?_eq_some_iff] at isReplaced
    exact beq_iff_eq.mpr isReplaced.1
  · rw [List.count_eq_zero.mpr isRef]
    exact Nat.zero_le _

/-- What a frugal build leaves writes every value where it stands or where it is referred to. -/
theorem discreet (shaped : bench.session.tree.Shaped) :
    shader.Discreet (shader.tree.marks.filterMap shader.replaced?) := by
  constructor
  case shaped => rwa [Build.tree_of_finish finished]
  case temporary => exact fun id isRef => (ledger.once_of_replaced sparing finished isRef).1
  case apart =>
    intro site instr isAt isHeader
    rw [← Bool.not_eq_true, Instruction.builds_iff]
    rintro ⟨made, args, rfl, isRef⟩
    exact (ledger.once_of_replaced sparing finished isRef).2.2 site made args isAt rfl isHeader

end Bench.Ledger

namespace Bench

/-- In the shader of a frugal and sparing build every value is written once at most, and no variable
is referred to whose declaration was left out because nobody reads it. -/
theorem written_once (options : BuildOptions) (calls : List Call)
    (frugal : (start options).Follows Frugal calls) (sparing : Session.Sparing options calls)
    (shader : Shader) (after : Session)
    (finished : Build.finish (Session.reached options calls) = .ok shader after)
    (dialect : Dialect) (layout : Layout) :
    ∃ marks, shader.renderMarked dialect layout =
        (fun text => (text, marks)) <$> shader.render dialect layout ∧
      (∀ id, marks.count (.value id) ≤ 1) ∧
      ∀ id, shader.registry.status? id ≠ (Session.reached options calls).registry.status? id →
        .reference id ∉ marks := by
  have sane := (Build.finish_ok_iff.mp finished).1
  have ledger := ledger_after frugal sane
  have shaped := Session.shaped_reached options calls sane
  have isPerm := Session.slots_perm_reached options calls sane
  have isTree := Build.tree_of_finish finished
  rw [← isTree] at isPerm
  rw [← after_session] at finished shaped isTree
  have bounded : ∀ mark, shader.traceAll.count mark ≤
      (Bench.after options calls).session.registry.issued (Session.readsOf calls) mark := by
    intro mark
    have isWritten := (ledger.discreet sparing finished shaped).count_traceAll_le_marks isPerm rfl
      (ledger.nodup_replaced sparing finished) mark
    rw [isTree] at isWritten
    exact isWritten.trans (ledger.marks_le_issued mark)
  refine ⟨shader.traceAll, shader.renderMarked_eq dialect layout, ?_, ?_⟩
  · intro id
    refine (bounded (.value id)).trans ?_
    rw [Registry.issued]
    split <;> omega
  · intro id elided isWritten
    rw [← after_session] at elided
    have isSome := List.count_pos_iff.mpr isWritten
    have unissued := Build.issued_of_elided ledger.tallied (sparing.few id) finished elided
    have := bounded (.reference id)
    omega

/-- A value that is consumed in a forward, which is consumed in turn; a value that is pushed, never
declared and read once; and a value that nobody reads. -/
def chainedCalls : List Call :=
  [.construct (.scalar .float) [.builtin "time" []], .consume ⟨0⟩,
   .forward (.scalar .float) (.unary .neg .before (.ref ⟨0⟩)), .consume ⟨1⟩,
   .push (.binary .add (.ref ⟨1⟩) (.int 1)), .inline (.scalar .float) [.int 2],
   .push (.construct ⟨⟨2⟩, .scalar .float, .temporary, .call, none⟩ [.int 2]), .use ⟨2⟩,
   .push (.ref ⟨2⟩), .construct (.scalar .float) [.int 3]]

/-- The calls of `chainedCalls` are frugal. -/
theorem frugal_chainedCalls : (start .standard).Follows Frugal chainedCalls :=
  ⟨⟨rfl, .refl _⟩, ⟨rfl, .refl _⟩, ⟨rfl, .refl _⟩, ⟨rfl, .refl _⟩, ⟨rfl, .refl _⟩, ⟨rfl, .refl _⟩,
   ⟨rfl, .refl _⟩, ⟨rfl, .refl _⟩, ⟨rfl, .refl _⟩, ⟨rfl, .refl _⟩, trivial⟩

/-- The calls of `chainedCalls` are sparing. -/
theorem sparing_chainedCalls : Session.Sparing .standard chainedCalls := by
  have outside : ∀ position < 10,
      (Session.reached .standard (chainedCalls.take position)).inHeader = false := by decide
  constructor
  case few =>
    intro id
    have short : (Session.readsOf chainedCalls).length < UInt32.size := by decide
    exact ⟨Nat.lt_of_le_of_lt List.count_le_length short,
      Nat.lt_of_le_of_lt List.count_le_length short⟩
  case forwards =>
    intro id isForward
    obtain ⟨position, isPosition, call, ⟨inHeader, -⟩, -⟩ := isForward.exists_position
    rw [outside position isPosition] at inHeader
    cases inHeader
  case bare =>
    rintro inHeader id ⟨-, made, args, rfl, pushed⟩
    obtain ⟨isPush, position, isPosition, rfl⟩ := pushed.exists_position
    obtain ⟨rfl, -⟩ : made = ⟨⟨2⟩, .scalar .float, .temporary, .call, none⟩ ∧ args = [.int 2] := by
      simpa [chainedCalls] using isPush
    rw [outside position isPosition]
    decide

/-- Every value of `chainedCalls` is written once at most. -/
theorem written_once_chained :
    (start .standard).Follows Frugal chainedCalls ∧ Session.Sparing .standard chainedCalls ∧
      ∃ shader after, Build.finish (Session.reached .standard chainedCalls) = .ok shader after ∧
        ∀ dialect layout, ∃ marks, shader.renderMarked dialect layout =
            (fun text => (text, marks)) <$> shader.render dialect layout ∧
          (∀ id, marks.count (.value id) ≤ 1) ∧
          ∀ id, shader.registry.status? id ≠
              (Session.reached .standard chainedCalls).registry.status? id →
            .reference id ∉ marks :=
  ⟨frugal_chainedCalls, sparing_chainedCalls, _, _, rfl,
    written_once .standard chainedCalls frugal_chainedCalls sparing_chainedCalls _ _ rfl⟩

/-- A value that is consumed in one that is never declared, which is pushed and then read twice. -/
def doubledCalls : List Call :=
  [.construct (.scalar .float) [.builtin "time" []], .consume ⟨0⟩,
   .inline (.scalar .float) [.ref ⟨0⟩],
   .push (.construct ⟨⟨1⟩, .scalar .float, .temporary, .call, none⟩ [.ref ⟨0⟩]), .use ⟨1⟩, .use ⟨1⟩,
   .push (.binary .add (.ref ⟨1⟩) (.ref ⟨1⟩))]

/-- A frugal build without forwards in headers of loops can write a value twice, if it reads one
that is never declared and yet pushed as a statement. -/
theorem written_twice_doubled :
    (start .standard).Follows Frugal doubledCalls ∧
      (∀ id, ¬Session.Made .standard doubledCalls (fun s call => s.inHeader ∧ call.isForward) id) ∧
      Session.Made .standard doubledCalls (fun _ call => ∃ ty args, call = .construct ty args) ⟨0⟩ ∧
      ∃ shader after marks,
        Build.finish (Session.reached .standard doubledCalls) = .ok shader after ∧
          shader.renderMarked .glsl ⟨4, false, true⟩ =
            .ok ("float(float(time())) + float(float(time()));\n", marks) ∧
          marks.count (.value ⟨0⟩) = 2 := by
  refine ⟨?_, ?_, ?_, ?_⟩
  · refine ⟨⟨rfl, .refl _⟩, ⟨rfl, .refl _⟩, ⟨rfl, .refl _⟩, ⟨rfl, .refl _⟩, ⟨rfl, .refl _⟩,
      ⟨rfl, ?_⟩, ⟨rfl, .refl _⟩, trivial⟩
    exact (List.sublist_append_left _ [Expr.ref ⟨1⟩]).subperm
  · rintro id ⟨before, call, rest, isCalls, ⟨-, isForward⟩, -⟩
    have isCall : call ∈ doubledCalls := by
      rw [isCalls]
      exact List.mem_append_right _ List.mem_cons_self
    have others : doubledCalls.all fun call => !call.isForward := rfl
    have isOther := List.all_eq_true.mp others call isCall
    rw [isForward] at isOther
    cases isOther
  · exact ⟨[], _, _, rfl, ⟨_, _, rfl⟩, rfl⟩
  · let marks : List Mark := [.reference ⟨1⟩, .value ⟨1⟩, .reference ⟨0⟩, .value ⟨0⟩,
      .reference ⟨1⟩, .value ⟨1⟩, .reference ⟨0⟩, .value ⟨0⟩]
    exact ⟨_, _, marks, rfl, by cbv, by decide⟩

/-- A value that is used some number of times. -/
def usedCalls (count : Nat) : List Call :=
  .construct (.scalar .int) [.int 1] :: List.replicate count (.use ⟨0⟩)

/-- Where `usedCalls` lead to. -/
def usedOften (count : Nat) : Bench where
  session := { Session.reached .standard (usedCalls 0) with
    registry :=
      ⟨#[⟨⟨0⟩, none, .scalar, .scalar .int, .ofNat count, 0, .initialisation, false, 1⟩], 1⟩ }
  hand := ⟨List.replicate count (.ref ⟨0⟩), [], []⟩

/-- One more use comes last. -/
theorem usedCalls_succ (count : Nat) : usedCalls (count + 1) = usedCalls count ++ [.use ⟨0⟩] := by
  rw [usedCalls, List.replicate_succ', usedCalls, List.cons_append]

/-- The uses of `usedCalls` hand out a reference each, and are counted in 32 bits. -/
theorem after_usedCalls (count : Nat) : after .standard (usedCalls count) = usedOften count := by
  induction count with
  | zero => rfl
  | succ count ih =>
    rw [usedCalls_succ, after_concat, ih, usedOften, usedOften, List.replicate_succ',
      UInt32.ofNat_add]
    rfl

/-- The calls of `usedCalls` are frugal. -/
theorem frugal_usedCalls (count : Nat) : (start .standard).Follows Frugal (usedCalls count) := by
  induction count with
  | zero => exact ⟨⟨rfl, List.nil_subperm⟩, trivial⟩
  | succ count ih =>
    rw [usedCalls_succ, follows_concat]
    refine ⟨ih, rfl, ?_⟩
    rw [← after, after_usedCalls]
    exact List.nil_subperm

/-- The reads must be few enough to be counted: a value whose uses bring the count back to zero is
left out though it is referred to. -/
theorem referred_after_rounds {count : Nat} (isUsed : 0 < count) (full : UInt32.size ∣ count) :
    (start .standard).Follows Frugal (usedCalls count ++ [.push (.ref ⟨0⟩)]) ∧
      ∃ shader after, Build.finish
          (Session.reached .standard (usedCalls count ++ [.push (.ref ⟨0⟩)])) = .ok shader after ∧
        shader.registry.status? ⟨0⟩ ≠
          (Session.reached .standard
            (usedCalls count ++ [.push (.ref ⟨0⟩)])).registry.status? ⟨0⟩ ∧
        ∀ dialect layout, ∃ marks, shader.renderMarked dialect layout =
            (fun text => (text, marks)) <$> shader.render dialect layout ∧
          .reference ⟨0⟩ ∈ marks := by
  have session : Session.reached .standard (usedCalls count ++ [.push (.ref ⟨0⟩)]) =
      (usedOften 0).session.step (.push (.ref ⟨0⟩)) := by
    rw [Session.reached_concat, ← after_session, after_usedCalls, usedOften,
      ofNat_eq_zero_iff.mpr full]
    rfl
  constructor
  · rw [follows_concat]
    refine ⟨frugal_usedCalls count, rfl, ?_⟩
    rw [← after, after_usedCalls]
    exact List.singleton_subperm_iff.mpr (List.mem_replicate.mpr ⟨Nat.ne_of_gt isUsed, rfl⟩)
  · have finished : ∃ shader after,
        Build.finish ((usedOften 0).session.step (.push (.ref ⟨0⟩))) = .ok shader after ∧
        shader.registry.status? ⟨0⟩ = some .temporary ∧
        shader.traceAll = [.reference ⟨0⟩, .value ⟨0⟩] := ⟨_, _, rfl, by cbv, by cbv⟩
    obtain ⟨shader, after, isFinished, isElided, isTrace⟩ := finished
    rw [session]
    refine ⟨shader, after, isFinished, ?_, fun dialect layout => ?_⟩
    · rw [isElided]
      decide
    · exact ⟨_, shader.renderMarked_eq dialect layout, by simp [isTrace]⟩

end Bench

end ShaderLoom
