import ShaderLoom.Proofs.Census

/-!
# What calls do to records

A call changes the record of a variable only by reading it or by pinning it (`Record.Follows`), and
a variable that a call makes starts out as the call says. So the record of a variable tells how
often it was read since the build started, in 32 bits, and where its reads can be counted it tells
whether it was read at all (`Registry.Tallied`).
-/
namespace ShaderLoom

open Registry (Event)

/-- What the record of a variable tells of the reads of it. Where they can be counted, a value that
is out of sight was read once at most, and not at all as long as it is undecided where it is
written. A pinned variable may be read at will. -/
structure Record.Tallied (record : Record) (id : VarId) (reads : List Event) : Prop where
  uses : record.uses = .ofNat (reads.count (.use id))
  consumptions : record.consumptions = .ofNat (reads.count (.consume id))
  spared : record.pinned = false → CountsFit id reads →
    (record.status = .temporary → reads.count (.use id) + reads.count (.consume id) ≤ 1) ∧
      (record.status = .forward → reads.count (.use id) + reads.count (.consume id) = 0)

/-- What a history leaves of the record of a variable. -/
structure Record.Follows (record later : Record) (id : VarId) (events : List Event) : Prop where
  name : later.name = record.name
  tallied : ∀ reads, record.Tallied id reads → later.Tallied id (reads ++ events)
  pinned : later.pinned = true ↔ record.pinned = true ∨ .pin id ∈ events
  status : .use id ∉ events → .consume id ∉ events → later.status = record.status
  declared : record.status = .declaration → later.status = .declaration
  fixed : record.pinned = true → later.status = record.status
  built : (∀ built, .push built ∉ events) → later.builtAt = record.builtAt

/-- A declaration stays one. -/
theorem Record.meet_declaration {record : Record} (declared : record.status = .declaration)
    (id : VarId) (pushes : Nat) (event : Event) :
    (record.meet id pushes event).status = .declaration := by
  cases event <;> grind [meet, use, consume, statusOnUse, statusOnConsume]

/-- A pinned variable keeps its status. -/
theorem Record.meet_fixed {record : Record} (pinned : record.pinned = true) (id : VarId)
    (pushes : Nat) (event : Event) : (record.meet id pushes event).status = record.status := by
  cases event <;> grind [meet, use, consume, statusOnUse, statusOnConsume]

/-- Reads are told by how many there are. -/
theorem Record.Tallied.congr {record : Record} {id : VarId} {reads others : List Event}
    (tallied : record.Tallied id reads) (uses : reads.count (.use id) = others.count (.use id))
    (consumptions : reads.count (.consume id) = others.count (.consume id)) :
    record.Tallied id others := by
  obtain ⟨toldUses, toldConsumptions, spared⟩ := tallied
  unfold CountsFit at spared
  rw [uses] at toldUses
  rw [consumptions] at toldConsumptions
  rw [uses, consumptions] at spared
  exact ⟨toldUses, toldConsumptions, spared⟩

/-- A variable whose counts did not run full and are zero was not read. -/
theorem Record.Tallied.unread {record : Record} {id : VarId} {reads : List Event}
    (tallied : record.Tallied id reads) (fit : CountsFit id reads) (uses : record.uses = 0)
    (consumptions : record.consumptions = 0) :
    reads.count (.use id) = 0 ∧ reads.count (.consume id) = 0 := by
  rw [tallied.uses, ofNat_eq_zero_iff] at uses
  rw [tallied.consumptions, ofNat_eq_zero_iff] at consumptions
  exact ⟨Nat.eq_zero_of_dvd_of_lt uses fit.1, Nat.eq_zero_of_dvd_of_lt consumptions fit.2⟩

/-- Being read brings a value to light unless it is the first time. -/
theorem Record.Tallied.meet {record : Record} {id : VarId} {reads : List Event}
    (tallied : record.Tallied id reads) (pushes : Nat) (event : Event) :
    (record.meet id pushes event).Tallied id (reads ++ [event]) := by
  constructor
  case uses =>
    rw [meet_uses, tallied.uses, List.count_append, UInt32.ofNat_add]
    by_cases used : event = .use id <;> simp [used]
  case consumptions =>
    rw [meet_consumptions, tallied.consumptions, List.count_append, UInt32.ofNat_add]
    by_cases consumed : event = .consume id <;> simp [consumed]
  case spared =>
    intro loose fit
    have fitBefore : CountsFit id reads := fit.mono (List.sublist_append_left _ _)
    have free : record.pinned = false := by
      by_contra pinned
      have still := (meet_pinned record id pushes event).mpr
        (.inl (by simpa using pinned))
      rw [loose] at still
      cases still
    obtain ⟨ofTemporary, ofForward⟩ := tallied.spared free fitBefore
    rw [List.count_append, List.count_append, List.count_singleton, List.count_singleton]
    by_cases used : event = .use id
    · -- A use by name leaves nothing out of sight.
      have visible : (record.meet id pushes event).status ≠ .temporary ∧
          (record.meet id pushes event).status ≠ .forward := by
        rw [used]
        grind [Record.meet, use, statusOnUse]
      exact ⟨fun hidden => absurd hidden visible.1, fun hidden => absurd hidden visible.2⟩
    by_cases consumed : event = .consume id
    · rw [consumed, Record.meet, if_pos rfl]
      constructor
      · intro hidden
        have fresh : record.isFresh pushes = true := by
          grind [consume, statusOnConsume]
        simp only [isFresh, Bool.and_eq_true, beq_iff_eq] at fresh
        obtain ⟨unused, unconsumed⟩ := tallied.unread fitBefore fresh.1.1.2 fresh.1.2
        simp [unused, unconsumed]
      · intro hidden
        grind [consume, statusOnConsume]
    · rw [meet_status _ _ _ _ used consumed]
      simpa [used, consumed] using And.intro ofTemporary ofForward

namespace Registry

variable {registry : Registry} {id : VarId} {record : Record}

/-- A record follows any history. -/
theorem exists_follows (found : registry.get? id = some record) (events : List Event) :
    ∃ later, (registry.follow events).get? id = some later ∧ record.Follows later id events := by
  induction events generalizing registry record with
  | nil => exact ⟨record, found, by constructor <;> simp⟩
  | cons event events ih =>
    obtain ⟨later, foundLater, follows⟩ := ih (get?_step found event)
    refine ⟨later, foundLater, ?_⟩
    constructor
    case name => rw [follows.name, Record.meet_name]
    case tallied =>
      intro reads tallied
      have carried := follows.tallied _ (tallied.meet registry.pushes event)
      rwa [List.append_assoc, List.singleton_append] at carried
    case pinned =>
      rw [follows.pinned, Record.meet_pinned, List.mem_cons, or_assoc, eq_comm (a := event)]
    case status =>
      intro unused unconsumed
      rw [List.mem_cons, not_or] at unused unconsumed
      rw [follows.status unused.2 unconsumed.2,
        Record.meet_status _ _ _ _ (Ne.symm unused.1) (Ne.symm unconsumed.1)]
    case declared =>
      exact fun declared => follows.declared (Record.meet_declaration declared _ _ _)
    case fixed =>
      intro pinned
      have still : (record.meet id registry.pushes event).pinned = true := by
        rw [Record.meet_pinned]
        exact .inl pinned
      rw [follows.fixed still, Record.meet_fixed pinned]
    case built =>
      intro quiet
      have quietLater : ∀ built, .push built ∉ events :=
        fun built isPush => quiet built (List.mem_cons_of_mem event isPush)
      rw [follows.built quietLater, Record.meet_builtAt, if_neg]
      rintro rfl
      exact quiet (some id) List.mem_cons_self

/-- A history without pushes leaves their number. -/
theorem pushes_follow {events : List Event} (quiet : ∀ built, .push built ∉ events) :
    (registry.follow events).pushes = registry.pushes := by
  induction events generalizing registry with
  | nil => rfl
  | cons event events ih =>
    have quietLater : ∀ built, .push built ∉ events :=
      fun built isPush => quiet built (List.mem_cons_of_mem event isPush)
    rw [follow_cons, ih quietLater, pushes_step]
    cases event with
    | push built => exact absurd List.mem_cons_self (quiet built)
    | _ => rfl

/-- A history without creations makes no variable. -/
theorem size_follow {events : List Event}
    (barren : ∀ ty category name status, .create ty category name status ∉ events) :
    (registry.follow events).size = registry.size := by
  induction events generalizing registry with
  | nil => rfl
  | cons event events ih =>
    have barrenLater : ∀ ty category name status, .create ty category name status ∉ events :=
      fun _ _ _ _ isCreate => barren _ _ _ _ (List.mem_cons_of_mem event isCreate)
    rw [follow_cons, ih barrenLater, size_step]
    cases event with
    | create ty category name status => exact absurd List.mem_cons_self (barren _ _ _ _)
    | _ => rfl

/-- A variable is known by its number. -/
theorem exists_record (known : id.index < registry.size) :
    ∃ record, registry.get? id = some record :=
  ⟨registry.records[id.index], Array.getElem?_eq_getElem known⟩

/-- A variable with a record is one of those numbered so far. -/
theorem known_of_get? (found : registry.get? id = some record) : id.index < registry.size := by
  by_contra unknown
  have absent : registry.get? id = none :=
    Array.getElem?_eq_none_iff.mpr (Nat.le_of_not_lt unknown)
  rw [absent] at found
  cases found

end Registry

/-- The record of a new variable. -/
def Newcomer.record (new : Newcomer) (registry : Registry) : Record :=
  { id := registry.next, name := new.name, category := new.category, ty := new.ty, uses := 0,
    consumptions := 0, status := new.status, pinned := false, builtAt := registry.pushes }

namespace Session

variable {s after : Session} {call : Call}

/-- What the registry sees of a call after the creation it may start with. -/
def laterNotes (s : Session) (call : Call) : List Event :=
  (if call.creates?.any (·.pinned) then [.pin s.registry.next] else []) ++ call.reads ++
    s.pins ((s.statement? call).bind fun expr => expr.construction?.map Construction.var)

/-- A creation comes first, if there is one. -/
theorem notes_eq (s : Session) (call : Call) :
    s.notes call = (call.creates?.toList.map fun new =>
      .create new.ty new.category new.name new.status) ++ s.laterNotes call := by
  unfold notes laterNotes
  cases call.creates? with
  | none => simp
  | some new => simp [Newcomer.events]

/-- A call reads a variable, or it pins one. -/
theorem mem_laterNotes {event : Event} : event ∈ s.laterNotes call ↔
    event ∈ call.reads ∨
      (∃ new ∈ call.creates?, new.pinned ∧ event = .pin s.registry.next) ∨
      (s.inHeader ∧ ∃ expr ∈ s.statement? call, ∃ made ∈ expr.construction?,
        event = .pin made.var) := by
  unfold laterNotes pins
  cases call.creates? <;> cases s.statement? call <;> cases s.inHeader <;> simp <;> grind

/-- What reads a variable is no push. -/
theorem push_not_mem_reads (call : Call) (built : Option VarId) : .push built ∉ call.reads := by
  cases call <;> simp [Call.reads]

/-- What reads a variable pins none. -/
theorem pin_not_mem_reads (call : Call) (id : VarId) : .pin id ∉ call.reads := by
  cases call <;> simp [Call.reads]

/-- What reads a variable creates none. -/
theorem create_not_mem_reads (call : Call) (ty : Ty) (category : Category) (name : Option String)
    (status : Status) : .create ty category name status ∉ call.reads := by
  cases call <;> simp [Call.reads]

/-- A call that creates a variable reads none. -/
theorem reads_of_creates {new : Newcomer} (creates : call.creates? = some new) :
    call.reads = [] := by
  cases call with
  | use | consume => cases creates
  | _ => rfl

/-- Pins count as no reads. -/
theorem count_laterNotes {event : Event} (noPin : ∀ id, event ≠ .pin id) :
    (s.laterNotes call).count event = call.reads.count event := by
  have pinned : ∀ built, (s.pins built).count event = 0 := by
    intro built
    rw [List.count_eq_zero]
    unfold pins
    cases built <;> cases s.inHeader <;> simp [noPin]
  unfold laterNotes
  rw [List.count_append, List.count_append, pinned]
  split <;> simp [(noPin _).symm]

/-- The registry after a call that pushed the given instruction, if it pushed one. -/
def registryAfter (s : Session) (call : Call) (pushed : Option Instruction) : Registry :=
  match pushed with
  | none => s.registry.follow (s.notes call)
  | some instr => (s.registry.follow (s.notes call)).recordPush instr.built?

/-- What a call that pushed the given instruction, if any, leaves of the record of a variable. -/
structure Carries (s : Session) (call : Call) (pushed : Option Instruction) (id : VarId)
    (record later : Record) : Prop where
  name : later.name = record.name
  tallied : ∀ reads, record.Tallied id reads → later.Tallied id (reads ++ call.reads)
  pinned : later.pinned = true ↔ record.pinned = true ∨ .pin id ∈ s.laterNotes call
  status : call.reads = [] → later.status = record.status
  declared : record.status = .declaration → later.status = .declaration
  fixed : record.pinned = true → later.status = record.status
  built : later.builtAt =
    if pushed.bind Instruction.built? = some id then s.registry.pushes + 1 else record.builtAt

/-- What the registry sees of a call before its push is no push. -/
theorem quiet_laterNotes (built : Option VarId) : .push built ∉ s.laterNotes call := by
  simp [mem_laterNotes, push_not_mem_reads]

/-- A call creates one variable at most. -/
theorem barren_laterNotes (ty : Ty) (category : Category) (name : Option String)
    (status : Status) : .create ty category name status ∉ s.laterNotes call := by
  simp [mem_laterNotes, create_not_mem_reads]

/-- The registry right after the creation that a call may start with. -/
def created (s : Session) (call : Call) : Registry :=
  match call.creates? with
  | none => s.registry
  | some new => s.registry.create new.ty new.category new.name new.status

/-- What the registry sees of a call comes after the creation. -/
theorem follow_notes (s : Session) (call : Call) :
    s.registry.follow (s.notes call) = (s.created call).follow (s.laterNotes call) := by
  rw [notes_eq, created]
  cases call.creates? <;> rfl

/-- A creation is no push. -/
theorem created_pushes (s : Session) (call : Call) :
    (s.created call).pushes = s.registry.pushes := by
  unfold created
  cases call.creates? <;> rfl

/-- A variable is there after a creation if it was there before or is the new one. -/
theorem get?_created {id : VarId} {record : Record}
    (found : (s.created call).get? id = some record) :
    s.registry.get? id = some record ∨
      ∃ new, call.creates? = some new ∧ id = s.registry.next ∧ record = new.record s.registry := by
  unfold created at found
  cases creates : call.creates? with
  | none =>
    rw [creates] at found
    exact .inl found
  | some new =>
    rw [creates] at found
    simp only [Registry.get?_create] at found
    by_cases isNew : id = s.registry.next
    · rw [if_pos isNew] at found
      exact .inr ⟨new, rfl, isNew, (Option.some.inj found).symm⟩
    · rw [if_neg isNew] at found
      exact .inl found

/-- The size of a registry is none of a push's business. -/
theorem size_registryAfter (s : Session) (call : Call) (pushed : Option Instruction) :
    (s.registryAfter call pushed).size = (s.created call).size := by
  have size : ((s.created call).follow (s.laterNotes call)).size = (s.created call).size :=
    Registry.size_follow barren_laterNotes
  unfold registryAfter
  rw [follow_notes]
  cases pushed with
  | none => exact size
  | some instr =>
    rw [← size]
    exact Registry.size_step _ (.push instr.built?)

/-- A call carries every record on, the new one included. -/
theorem exists_carries {id : VarId} {record : Record}
    (found : (s.created call).get? id = some record) (pushed : Option Instruction) :
    ∃ later, (s.registryAfter call pushed).get? id = some later ∧
      s.Carries call pushed id record later := by
  obtain ⟨middle, foundMiddle, follows⟩ := Registry.exists_follows found (s.laterNotes call)
  have pushes : ((s.created call).follow (s.laterNotes call)).pushes = s.registry.pushes := by
    rw [Registry.pushes_follow quiet_laterNotes, created_pushes]
  rw [← follow_notes] at foundMiddle pushes
  have noUse : ∀ other, Event.use id ≠ .pin other := fun _ => Event.noConfusion
  have noConsume : ∀ other, Event.consume id ≠ .pin other := fun _ => Event.noConfusion
  have status : call.reads = [] → middle.status = record.status := by
    intro unread
    apply follows.status
    · rw [← List.count_eq_zero, count_laterNotes noUse, unread]
      rfl
    · rw [← List.count_eq_zero, count_laterNotes noConsume, unread]
      rfl
  have tallied : ∀ reads, record.Tallied id reads → middle.Tallied id (reads ++ call.reads) := by
    intro reads tallied
    apply (follows.tallied reads tallied).congr
    · rw [List.count_append, List.count_append, count_laterNotes noUse]
    · rw [List.count_append, List.count_append, count_laterNotes noConsume]
  cases pushed with
  | none =>
    refine ⟨middle, foundMiddle, ?_⟩
    exact {
      name := follows.name
      tallied
      pinned := follows.pinned
      status
      declared := follows.declared
      fixed := follows.fixed
      built := follows.built quiet_laterNotes }
  | some instr =>
    have foundLater := Registry.get?_step foundMiddle (.push instr.built?)
    refine ⟨_, foundLater, ?_⟩
    exact {
      name := by rw [Record.meet_name, follows.name]
      tallied := fun reads told => by
        refine ((tallied reads told).meet _ _).congr ?_ ?_
        · simp [List.count_append]
        · simp [List.count_append]
      pinned := by
        rw [Record.meet_pinned, follows.pinned]
        simp
      status := fun unread => by
        rw [Record.meet_status _ _ _ _ Event.noConfusion Event.noConfusion, status unread]
      declared := fun declared => Record.meet_declaration (follows.declared declared) _ _ _
      fixed := fun pinned => by
        rw [Record.meet_fixed (follows.pinned.mpr (.inl pinned)), follows.fixed pinned]
      built := by
        rw [Record.meet_builtAt, follows.built quiet_laterNotes, pushes]
        simp }

/-- Every record after a call was carried on, from before the call or from its creation. -/
theorem carries_of_get? {pushed : Option Instruction} {id : VarId} {later : Record}
    (found : (s.registryAfter call pushed).get? id = some later) :
    (∃ record, s.registry.get? id = some record ∧ s.Carries call pushed id record later) ∨
      ∃ new, call.creates? = some new ∧ id = s.registry.next ∧
        s.Carries call pushed id (new.record s.registry) later := by
  have known := Registry.known_of_get? found
  rw [size_registryAfter] at known
  obtain ⟨record, foundCreated⟩ := Registry.exists_record known
  obtain ⟨later', foundLater, carries⟩ := exists_carries foundCreated pushed
  rw [found] at foundLater
  obtain rfl := Option.some.inj foundLater
  obtain isOld | ⟨new, creates, isNew, rfl⟩ := get?_created foundCreated
  · exact .inl ⟨record, isOld, carries⟩
  · exact .inr ⟨new, creates, isNew, carries⟩

/-- Every record before a call is carried on. -/
theorem carries_of_before {id : VarId} {record : Record}
    (found : s.registry.get? id = some record) (pushed : Option Instruction) :
    ∃ later, (s.registryAfter call pushed).get? id = some later ∧
      s.Carries call pushed id record later := by
  apply exists_carries
  unfold created
  cases call.creates? with
  | none => exact found
  | some new =>
    have isOld : id ≠ s.registry.next := by
      rintro rfl
      exact Nat.lt_irrefl _ (Registry.known_of_get? found)
    simp only [Registry.get?_create, if_neg isOld, found]

/-- A call that pushes is seen by the registry as one push. -/
theorem pushes_registryAfter (s : Session) (call : Call) (pushed : Option Instruction) :
    (s.registryAfter call pushed).pushes = s.registry.pushes + pushed.toList.length := by
  have pushes : (s.registry.follow (s.notes call)).pushes = s.registry.pushes := by
    rw [follow_notes, Registry.pushes_follow quiet_laterNotes, created_pushes]
  unfold registryAfter
  cases pushed with
  | none => exact pushes
  | some instr =>
    rw [← pushes]
    exact Registry.pushes_step _ (.push instr.built?)

/-- The registry after a call is what its events make of it. -/
theorem Effect.exists_pushed (effect : s.Effect call after) :
    ∃ pushed, after.registry = s.registryAfter call pushed := by
  cases effect with
  | kept _ _ registry => exact ⟨none, registry⟩
  | pushed instr _ _ _ _ _ registry => exact ⟨some instr, registry⟩
  | amended _ _ _ _ _ _ _ _ _ _ _ _ _ _ registry => exact ⟨none, registry⟩

/-- A call makes at most one variable. -/
theorem Effect.size_eq (effect : s.Effect call after) :
    after.registry.size = s.registry.size + call.creates?.toList.length := by
  obtain ⟨pushed, registry⟩ := effect.exists_pushed
  rw [registry, size_registryAfter, created]
  cases call.creates? with
  | none => rfl
  | some new => exact Registry.size_create _ _ _ _ _

/-- The variable of a new value is known once it is made. -/
theorem Effect.next_lt (effect : s.Effect call after) {new : Newcomer}
    (creates : call.creates? = some new) : s.registry.next.index < after.registry.size := by
  rw [effect.size_eq, creates]
  exact Nat.lt_succ_self _

/-- A call that reads a variable is one of two. -/
theorem mem_reads_iff (call : Call) (id : VarId) :
    (.use id ∈ call.reads ↔ call = .use id) ∧ (.consume id ∈ call.reads ↔ call = .consume id) := by
  cases call <;> simp [Call.reads, eq_comm]

/-- A variable that a successful call reads is there. -/
theorem known_of_run {reply : Reply} (ran : call.run s = .ok reply after) {id : VarId}
    (isRead : call = .use id ∨ call = .consume id) : id.index < s.registry.size := by
  obtain rfl | rfl := isRead
  · obtain ⟨_, ran, -⟩ := Build.map_ok_iff.mp ran
    obtain ⟨-, -, registry, used, -⟩ := Build.use_ok_iff.mp ran
    exact (Registry.update_eq_ok_iff.mp used).1
  · obtain ⟨_, ran, -⟩ := Build.map_ok_iff.mp ran
    obtain ⟨-, -, registry, consumed, -⟩ := Build.consume_ok_iff.mp ran
    exact (Registry.update_eq_ok_iff.mp consumed).1

/-- The reads among some calls. -/
def readsOf (calls : List Call) : List Event := calls.flatMap Call.reads

/-- Calls made one after another read one after another. -/
@[simp]
theorem readsOf_concat (calls : List Call) (call : Call) :
    readsOf (calls ++ [call]) = readsOf calls ++ call.reads := by
  simp [readsOf]

/-- A variable is read by the calls that read it. -/
theorem mem_readsOf (calls : List Call) (id : VarId) :
    (.use id ∈ readsOf calls ↔ .use id ∈ calls) ∧
      (.consume id ∈ readsOf calls ↔ .consume id ∈ calls) := by
  simp [readsOf, mem_reads_iff]

/-- Every record tells of the reads of its variable, and only variables that are there were read. -/
structure Tallied (registry : Registry) (reads : List Event) : Prop where
  records : ∀ id record, registry.get? id = some record → record.Tallied id reads
  known : ∀ id, .use id ∈ reads ∨ .consume id ∈ reads → id.index < registry.size

/-- There is nothing to tell of in the beginning. -/
theorem tallied_empty : Tallied .empty [] where
  records id record found := by cases found
  known id isRead := by simp at isRead

/-- The reads of a call are told of after it. -/
theorem Tallied.step {reads : List Event} (tallied : Tallied s.registry reads)
    {pushed : Option Instruction} {reply : Reply} (ran : call.run s = .ok reply after)
    (registry : after.registry = s.registryAfter call pushed) :
    Tallied after.registry (reads ++ call.reads) := by
  constructor
  case records =>
    intro id later found
    rw [registry] at found
    obtain ⟨record, foundBefore, carries⟩ | ⟨new, -, rfl, carries⟩ := carries_of_get? found
    · exact carries.tallied reads (tallied.records id record foundBefore)
    · have unused : .use s.registry.next ∉ reads :=
        fun isUse => Nat.lt_irrefl _ (tallied.known _ (.inl isUse))
      have unconsumed : .consume s.registry.next ∉ reads :=
        fun isConsume => Nat.lt_irrefl _ (tallied.known _ (.inr isConsume))
      apply carries.tallied
      rw [← List.count_eq_zero] at unused unconsumed
      exact ⟨by rw [unused]; rfl, by rw [unconsumed]; rfl, fun _ _ => by simp [unused, unconsumed]⟩
  case known =>
    intro id isRead
    have grows : s.registry.size ≤ after.registry.size := by
      rw [registry, size_registryAfter, created]
      cases call.creates? with
      | none => exact Nat.le_refl _
      | some new => simp
    simp only [List.mem_append, (mem_reads_iff call id).1, (mem_reads_iff call id).2] at isRead
    have known : id.index < s.registry.size := by
      obtain (isOld | isNew) | (isOld | isNew) := isRead
      · exact tallied.known id (.inl isOld)
      · exact known_of_run ran (.inl isNew)
      · exact tallied.known id (.inr isOld)
      · exact known_of_run ran (.inr isNew)
    omega

/-- A variable that a call makes has the status it was made with. -/
theorem Effect.status_new (effect : s.Effect call after) {new : Newcomer}
    (creates : call.creates? = some new) :
    after.registry.status? s.registry.next = some new.status := by
  obtain ⟨pushed, registry⟩ := effect.exists_pushed
  have found : (s.created call).get? s.registry.next = some (new.record s.registry) := by
    rw [created, creates]
    exact (Registry.get?_create _ _ _ _ _ _).trans (if_pos rfl)
  obtain ⟨later, foundLater, carries⟩ := exists_carries found pushed
  rw [registry, Registry.status?, foundLater, Option.map_some,
    carries.status (reads_of_creates creates)]
  rfl

end Session

end ShaderLoom
