import Mathlib.Data.List.Induction
import Mathlib.Data.List.TakeWhile
import Mathlib.Tactic.Common
import ShaderLoom.Registry

/-!
# The life of a variable

A registry changes by five kinds of events (`Registry.Event`). The status of a variable is kept up
to date event by event, but what it comes to can be told at once from the history of the variable
(`Life`). As long as its reads can be counted, it is told by how often the variable was used and
consumed before it was pinned, and whether its only consumption was fresh (`Life.status`). In which
order the events came does not matter beyond that.

Reads are counted in 32 bits. Where they were so many that a count came back to zero, a variable is
treated as one that was not read before: what its status comes to is told by its last read and by
the counts at that time (`Life.outcome`).
-/
namespace ShaderLoom

namespace Registry

/-- One event in the life of a registry. -/
inductive Event where
  | create (ty : Ty) (category : Category) (name : Option String) (status : Status)
  | use (id : VarId)
  | consume (id : VarId)
  /-- An instruction is pushed, which constructs the value of `built` if it constructs any. -/
  | push (built : Option VarId)
  | pin (id : VarId)
deriving DecidableEq, Repr

/-- Whether an event reads a variable. -/
def Event.isRead (id : VarId) (event : Event) : Bool := event = .use id || event = .consume id

/-- What an event makes of a registry; it is refused if its variable does not exist. -/
def apply (registry : Registry) : Event → Except BuildError Registry
  | .create ty category name status => .ok (registry.create ty category name status)
  | .use id => registry.use id
  | .consume id => registry.consume id
  | .push built => .ok (registry.recordPush built)
  | .pin id => registry.pin id

/-- The registry after an event; a refused event changes nothing. -/
def step (registry : Registry) (event : Event) : Registry :=
  match registry.apply event with
  | .ok changed => changed
  | .error _ => registry

/-- The registry after a history of events. -/
def follow (registry : Registry) (events : List Event) : Registry := events.foldl step registry

/-- Nothing happens in an empty history. -/
@[simp]
theorem follow_nil (registry : Registry) : registry.follow [] = registry := rfl

/-- Events happen one after another. -/
@[simp]
theorem follow_cons (registry : Registry) (event : Event) (events : List Event) :
    registry.follow (event :: events) = (registry.step event).follow events := rfl

/-- Histories happen one after another. -/
theorem follow_append (registry : Registry) (first second : List Event) :
    registry.follow (first ++ second) = (registry.follow first).follow second :=
  List.foldl_append

end Registry

open Registry (Event)

/-- What an event does to the record of a variable that exists, after `pushes` pushes. -/
def Record.meet (record : Record) (id : VarId) (pushes : Nat) : Event → Record
  | .create _ _ _ _ => record
  | .use other => if other = id then record.use else record
  | .consume other => if other = id then record.consume pushes else record
  | .push built => if built = some id then { record with builtAt := pushes + 1 } else record
  | .pin other => if other = id then { record with pinned := true } else record

namespace Registry

/-- A change of a variable's record is a change of what is found there. -/
theorem get?_modify (registry : Registry) (id other : VarId) (change : Record → Record)
    (pushes : Nat) :
    ({ records := registry.records.modify id.index change, pushes } : Registry).get? other =
      (registry.get? other).map fun record => if id = other then change record else record := by
  obtain ⟨index⟩ := id
  obtain ⟨index'⟩ := other
  by_cases same : index = index'
  · simp [get?, Array.getElem?_modify, same]
  · simp [get?, Array.getElem?_modify, same]

/-- An update of a variable changes its own record, or nothing if there is none. -/
theorem get?_update (registry : Registry) (id other : VarId) (change : Record → Record) :
    (match registry.update id change with
      | .ok changed => changed
      | .error _ => registry).get? other =
      (registry.get? other).map fun record => if id = other then change record else record := by
  by_cases known : id.index < registry.size
  · have updated : registry.update id change = .ok _ := update_eq_ok_iff.mpr ⟨known, rfl⟩
    rw [updated]
    exact get?_modify registry id other change registry.pushes
  · have refused : registry.update id change = .error (.unknownVariable id) := if_neg known
    rw [refused]
    by_cases same : id = other
    · have absent : registry.get? other = none := by
        rw [get?, Array.getElem?_eq_none_iff, ← same]
        exact Nat.le_of_not_lt known
      simp [absent]
    · simp [same]

/-- Every event acts on the record of each variable that exists by itself. -/
theorem get?_step {registry : Registry} {id : VarId} {record : Record}
    (found : registry.get? id = some record) (event : Event) :
    (registry.step event).get? id = some (record.meet id registry.pushes event) := by
  cases event with
  | create ty category name status =>
    have isOld : id ≠ registry.next := by
      rintro rfl
      simp [get?, next, size] at found
    show (registry.create ty category name status).get? id = some record
    rw [get?_create, if_neg isOld, found]
  | use other => simp [step, apply, use, get?_update, found, Record.meet]
  | consume other => simp [step, apply, consume, get?_update, found, Record.meet]
  | push built =>
    show (registry.recordPush built).get? id = _
    cases built with
    | none => exact found
    | some other =>
      have changed := get?_modify registry other id ({ · with builtAt := registry.pushes + 1 })
        (registry.pushes + 1)
      rw [found] at changed
      simpa [Record.meet, recordPush] using changed
  | pin other => simp [step, apply, pin, get?_update, found, Record.meet]

/-- Only pushes are counted. -/
theorem pushes_step (registry : Registry) (event : Event) :
    (registry.step event).pushes =
      match event with
      | .push _ => registry.pushes + 1
      | _ => registry.pushes := by
  have updated : ∀ id change, (match registry.update id change with
      | .ok changed => changed
      | .error _ => registry).pushes = registry.pushes := by
    intro id change
    unfold update
    split <;> rename_i isResult <;> split at isResult <;> cases isResult <;> rfl
  cases event with
  | create ty category name status => rfl
  | use id => exact updated id _
  | consume id => exact updated id _
  | push built => cases built <;> rfl
  | pin id => exact updated id _

/-- Only a creation makes a variable. -/
theorem size_step (registry : Registry) (event : Event) :
    (registry.step event).size =
      match event with
      | .create _ _ _ _ => registry.size + 1
      | _ => registry.size := by
  have updated : ∀ id change, (match registry.update id change with
      | .ok changed => changed
      | .error _ => registry).size = registry.size := by
    intro id change
    unfold update
    split <;> rename_i isResult <;> split at isResult <;> cases isResult <;> simp [size]
  cases event with
  | create ty category name status => exact size_create registry ty category name status
  | use id => exact updated id _
  | consume id => exact updated id _
  | push built => cases built <;> simp [step, apply, recordPush, size]
  | pin id => exact updated id _

end Registry

/-- What was pushed last, if anything was. -/
def lastPush? (events : List Event) : Option (Option VarId) :=
  (events.filterMap fun
    | .push built => some built
    | _ => none).getLast?

/-- Whether a consumption after these events is fresh: nothing was pushed, or the value itself was
pushed last. -/
def FreshAfter (id : VarId) (events : List Event) : Prop :=
  ∀ built ∈ lastPush? events, built = some id

instance (id : VarId) (events : List Event) : Decidable (FreshAfter id events) :=
  inferInstanceAs (Decidable (∀ built ∈ lastPush? events, built = some id))

/-- The last read of a variable, behind what came before it. -/
def lastRead? (id : VarId) (events : List Event) : Option (List Event × Event) :=
  match events.reverse.dropWhile (!·.isRead id) with
  | [] => none
  | read :: before => some (before.reverse, read)

/-- Whether a variable counts as unread after some events: as often as it was used and as often as
it was consumed, the counts came back to zero. -/
def CountedOut (id : VarId) (events : List Event) : Prop :=
  UInt32.size ∣ events.count (.use id) ∧ UInt32.size ∣ events.count (.consume id)

instance (id : VarId) (events : List Event) : Decidable (CountedOut id events) :=
  inferInstanceAs
    (Decidable (UInt32.size ∣ events.count (.use id) ∧ UInt32.size ∣ events.count (.consume id)))

/-- Whether the reads of a variable are few enough to be counted in 32 bits. -/
def CountsFit (id : VarId) (events : List Event) : Prop :=
  events.count (.use id) < UInt32.size ∧ events.count (.consume id) < UInt32.size

instance (id : VarId) (events : List Event) : Decidable (CountsFit id events) :=
  inferInstanceAs
    (Decidable (events.count (.use id) < UInt32.size ∧ events.count (.consume id) < UInt32.size))

/-- All that happened to a variable: how it was created, and the events since. -/
structure Life where
  /-- The name it was given, if any. -/
  name : Option String
  /-- The status it was created with. -/
  created : Status
  since : List Event

namespace Life

variable (id : VarId) (life : Life)

/-- The events before the variable was pinned, or all of them. -/
def unpinned : List Event := life.since.takeWhile (· ≠ .pin id)

/-- How often the variable was used by name before it was pinned. -/
def uses : Nat := (life.unpinned id).count (.use id)

/-- How often the variable was consumed before it was pinned. -/
def consumptions : Nat := (life.unpinned id).count (.consume id)

/-- Whether the first consumption of the variable was fresh. -/
def Fresh : Prop := FreshAfter id ((life.unpinned id).takeWhile (· ≠ .consume id))

instance : Decidable (life.Fresh id) :=
  inferInstanceAs (Decidable (FreshAfter id ((life.unpinned id).takeWhile (· ≠ .consume id))))

/-- The status that the whole life of a variable comes to. -/
def status : Status :=
  match life.created with
  | .declaration => .declaration
  | .temporary => if life.uses id + life.consumptions id = 0 then .temporary else .initialisation
  | .forward | .initialisation =>
    if life.name = none ∧ life.uses id = 0 ∧ life.consumptions id = 1 ∧ life.Fresh id then
      .temporary
    else if life.uses id + life.consumptions id = 0 then life.created
    else .initialisation

/-- Whether nobody ever read the variable, though it would be declared without a name of its
own. -/
def Unread : Prop :=
  .pin id ∉ life.since ∧ life.name = none ∧ life.status id = .initialisation ∧
    .use id ∉ life.since ∧ .consume id ∉ life.since

instance : Decidable (life.Unread id) := by
  unfold Unread
  infer_instance

/-- Whether the last read of a variable put its value out of sight: a fresh consumption of an
unnamed value that counted as unread. The first read of a variable that was created out of sight
brings it to light instead. -/
def Hides (before : List Event) (read : Event) : Prop :=
  read = .consume id ∧ life.name = none ∧ CountedOut id before ∧ FreshAfter id before ∧
    (life.created = .temporary → ∃ earlier ∈ before, earlier.isRead id)

instance (before : List Event) (read : Event) : Decidable (life.Hides id before read) := by
  unfold Hides
  infer_instance

/-- The status that the whole life of a variable comes to, however often it was read. -/
def outcome : Status :=
  if life.created = .declaration then .declaration
  else match lastRead? id (life.unpinned id) with
    | none => life.created
    | some (before, read) => if life.Hides id before read then .temporary else .initialisation

/-- Whether the variable counts as never read, though it would be declared without a name of its
own. -/
def Forgotten : Prop :=
  .pin id ∉ life.since ∧ life.name = none ∧ life.outcome id = .initialisation ∧
    CountedOut id life.since

instance : Decidable (life.Forgotten id) := by
  unfold Forgotten
  infer_instance

/-- One more event. -/
def extend (event : Event) : Life := { life with since := life.since ++ [event] }

end Life

/-- The life of the variable that the creation with this number makes. -/
def life? : List Event → Nat → Option Life
  | [], _ => none
  | .create _ _ name status :: since, 0 => some ⟨name, status, since⟩
  | .create _ _ _ _ :: rest, index + 1 => life? rest index
  | _ :: rest, index => life? rest index

/-- What a record has to show for the life of its variable. -/
structure Record.Tells (record : Record) (id : VarId) (life : Life) (pushes : Nat) : Prop where
  name : record.name = life.name
  uses : record.uses = .ofNat (life.since.count (.use id))
  consumptions : record.consumptions = .ofNat (life.since.count (.consume id))
  pinned : record.pinned = true ↔ .pin id ∈ life.since
  built : record.builtAt ≤ pushes
  fresh : record.builtAt = pushes ↔ FreshAfter id life.since
  status : record.status = life.outcome id

/-- Only a push changes what was pushed last. -/
theorem lastPush?_concat (events : List Event) (event : Event) :
    lastPush? (events ++ [event]) =
      match event with
      | .push built => some built
      | _ => lastPush? events := by
  cases event <;> simp [lastPush?, List.filterMap_append]

/-- An event that reads the variable is its last read. -/
theorem lastRead?_concat (id : VarId) (events : List Event) (event : Event) :
    lastRead? id (events ++ [event]) =
      if event.isRead id then some (events, event) else lastRead? id events := by
  unfold lastRead?
  rw [List.reverse_append, List.reverse_singleton, List.singleton_append, List.dropWhile_cons]
  cases event.isRead id <;> simp

/-- The last read is one, and none comes after it; where there is no last read there is none. -/
theorem lastRead?_spec (id : VarId) (events : List Event) :
    match lastRead? id events with
    | none => ∀ event ∈ events, event.isRead id = false
    | some (before, read) => read.isRead id ∧
        ∃ after, events = before ++ read :: after ∧ ∀ event ∈ after, event.isRead id = false := by
  induction events using List.reverseRecOn with
  | nil => simp [lastRead?]
  | append_singleton events event ih =>
    rw [lastRead?_concat]
    by_cases isRead : event.isRead id
    · rw [if_pos isRead]
      exact ⟨isRead, [], rfl, by simp⟩
    · rw [if_neg isRead]
      rw [Bool.not_eq_true] at isRead
      revert ih
      cases lastRead? id events with
      | none =>
        intro noRead other mem
        rcases List.mem_append.mp mem with earlier | last
        · exact noRead other earlier
        · rwa [List.mem_singleton.mp last]
      | some last =>
        rintro ⟨reads, after, rfl, noRead⟩
        refine ⟨reads, after ++ [event], by simp, ?_⟩
        intro other mem
        rcases List.mem_append.mp mem with earlier | last
        · exact noRead other earlier
        · rwa [List.mem_singleton.mp last]

/-- Events that do not read a variable count nothing for it. -/
theorem count_of_noRead {id : VarId} {events : List Event}
    (noRead : ∀ event ∈ events, event.isRead id = false) :
    events.count (.use id) = 0 ∧ events.count (.consume id) = 0 := by
  rw [List.count_eq_zero, List.count_eq_zero]
  constructor
  · intro mem
    simpa [Event.isRead] using noRead _ mem
  · intro mem
    simpa [Event.isRead] using noRead _ mem

/-- A count is back at zero after every round. -/
theorem ofNat_eq_zero_iff {count : Nat} : UInt32.ofNat count = 0 ↔ UInt32.size ∣ count := by
  rw [← UInt32.toNat_inj, UInt32.toNat_ofNat', Nat.dvd_iff_mod_eq_zero]
  rfl

/-- Where reads can be counted, a variable counts as unread only if it was not read. -/
theorem countedOut_iff {id : VarId} {events : List Event} (fit : CountsFit id events) :
    CountedOut id events ↔ .use id ∉ events ∧ .consume id ∉ events := by
  rw [← List.count_eq_zero, ← List.count_eq_zero]
  constructor
  · rintro ⟨uses, consumptions⟩
    exact ⟨Nat.eq_zero_of_dvd_of_lt uses fit.1,
      Nat.eq_zero_of_dvd_of_lt consumptions fit.2⟩
  · rintro ⟨uses, consumptions⟩
    exact ⟨by simp [uses], by simp [consumptions]⟩

/-- Some of the events can be counted where all can. -/
theorem CountsFit.mono {id : VarId} {fewer more : List Event} (fit : CountsFit id more)
    (within : fewer.Sublist more) : CountsFit id fewer :=
  ⟨Nat.lt_of_le_of_lt (within.count_le _) fit.1,
    Nat.lt_of_le_of_lt (within.count_le _) fit.2⟩

/-- What is taken up to an event is the same after that event has come. -/
theorem takeWhile_ne_concat_of_mem {stop : Event} {events : List Event} (reached : stop ∈ events)
    (event : Event) :
    (events ++ [event]).takeWhile (· ≠ stop) = events.takeWhile (· ≠ stop) := by
  obtain ⟨before, after, isSplit⟩ := List.append_of_mem reached
  simp [isSplit, List.takeWhile_append]

/-- Everything is taken up to an event that has not come. -/
theorem takeWhile_ne_of_not_mem {stop : Event} {events : List Event} (ahead : stop ∉ events) :
    events.takeWhile (· ≠ stop) = events := by
  rw [List.takeWhile_eq_self_iff]
  intro event isEvent
  rw [decide_eq_true_iff]
  rintro rfl
  exact ahead isEvent

namespace Life

variable {id : VarId} {life : Life}

/-- An event changes no name. -/
@[simp]
theorem extend_name (event : Event) : (life.extend event).name = life.name := rfl

/-- An event changes nothing of how the variable was created. -/
@[simp]
theorem extend_created (event : Event) : (life.extend event).created = life.created := rfl

/-- An event is the last of those since the creation. -/
@[simp]
theorem extend_since (event : Event) : (life.extend event).since = life.since ++ [event] := rfl

/-- As long as the variable is not pinned, one more event counts unless it pins the variable. -/
theorem unpinned_extend (free : .pin id ∉ life.since) {event : Event} (other : event ≠ .pin id) :
    (life.extend event).unpinned id = life.since ++ [event] := by
  apply takeWhile_ne_of_not_mem
  intro pinned
  obtain isEarlier | isEvent := List.mem_append.mp pinned
  · exact free isEarlier
  · exact other (List.mem_singleton.mp isEvent).symm

/-- Events that leave the last read leave what it comes to. -/
theorem outcome_congr {event : Event}
    (same : lastRead? id ((life.extend event).unpinned id) = lastRead? id (life.unpinned id)) :
    (life.extend event).outcome id = life.outcome id := by
  unfold outcome
  rw [same]
  rfl

/-- After the variable was pinned its status stays. -/
theorem outcome_extend_of_pinned (pinned : .pin id ∈ life.since) (event : Event) :
    (life.extend event).outcome id = life.outcome id := by
  have same : (life.extend event).unpinned id = life.unpinned id :=
    takeWhile_ne_concat_of_mem pinned event
  exact outcome_congr (by rw [same])

/-- An event that is about other things, or that pins the variable, leaves its status. -/
theorem outcome_extend_of_other {event : Event} (other : event.isRead id = false) :
    (life.extend event).outcome id = life.outcome id := by
  by_cases pinned : .pin id ∈ life.since
  · exact outcome_extend_of_pinned pinned event
  have before : life.unpinned id = life.since := takeWhile_ne_of_not_mem pinned
  by_cases pins : event = .pin id
  · have same : (life.extend event).unpinned id = life.unpinned id := by
      rw [before, unpinned, extend, pins, List.takeWhile_append, takeWhile_ne_of_not_mem pinned]
      simp
    exact outcome_congr (by rw [same])
  · apply outcome_congr
    rw [unpinned_extend pinned pins, before, lastRead?_concat, other, if_neg Bool.false_ne_true]

/-- A read decides the status anew, unless the variable is pinned or declared for good. -/
theorem outcome_extend_of_read (free : .pin id ∉ life.since) {event : Event}
    (isRead : event.isRead id) :
    (life.extend event).outcome id =
      if life.created = .declaration then .declaration
      else if life.Hides id life.since event then .temporary else .initialisation := by
  have unpins : event ≠ .pin id := by
    rintro rfl
    simp [Event.isRead] at isRead
  rw [outcome, unpinned_extend free unpins, lastRead?_concat, if_pos isRead]
  rfl

/-- A use by name binds the variable to its name, unless it is pinned. -/
theorem outcome_extend_use (free : .pin id ∉ life.since) :
    (life.extend (.use id)).outcome id =
      match life.outcome id with
      | .declaration => .declaration
      | _ => .initialisation := by
  have visible : ¬ life.Hides id life.since (.use id) := fun hides => by cases hides.1
  rw [outcome_extend_of_read free (by simp [Event.isRead]), if_neg visible, outcome]
  by_cases declared : life.created = .declaration
  · rw [if_pos declared, if_pos declared]
  · rw [if_neg declared, if_neg declared]
    cases lastRead? id (life.unpinned id) with
    | none => cases isCreated : life.created <;> simp_all
    | some last => by_cases hides : life.Hides id last.1 last.2 <;> simp [hides]

/-- Where the last read put a value out of sight, the next one does not: its consumption is
counted. -/
theorem not_hides_of_hides {before after : List Event} {read : Event}
    (since : life.since = before ++ read :: after)
    (noRead : ∀ event ∈ after, event.isRead id = false)
    (hides : life.Hides id before read) : ¬ life.Hides id life.since (.consume id) := by
  rintro ⟨-, -, ⟨-, countedOut⟩, -⟩
  obtain ⟨rfl, -, ⟨-, countedBefore⟩, -⟩ := hides
  rw [since, List.count_append, List.count_cons_self, (count_of_noRead noRead).2] at countedOut
  have one : UInt32.size ∣ 1 := (Nat.dvd_add_right countedBefore).mp countedOut
  exact absurd (Nat.le_of_dvd Nat.one_pos one) (by decide)

/-- A consumption hides the variable if it counts as unread and the consumption is fresh, and binds
it to its name otherwise, unless it is pinned. What is hidden already is brought to light. -/
theorem outcome_extend_consume (free : .pin id ∉ life.since) :
    (life.extend (.consume id)).outcome id =
      match life.outcome id with
      | .declaration => .declaration
      | .temporary => .initialisation
      | .forward | .initialisation =>
        if life.name = none ∧ CountedOut id life.since ∧ FreshAfter id life.since then .temporary
        else .initialisation := by
  have before : life.unpinned id = life.since := takeWhile_ne_of_not_mem free
  rw [outcome_extend_of_read free (by simp [Event.isRead]), outcome, before]
  by_cases declared : life.created = .declaration
  · rw [if_pos declared, if_pos declared]
  rw [if_neg declared, if_neg declared]
  have spec := lastRead?_spec id life.since
  cases isLast : lastRead? id life.since with
  | none =>
    rw [isLast] at spec
    have unread : ¬ ∃ earlier ∈ life.since, earlier.isRead id := by
      rintro ⟨earlier, mem, isRead⟩
      exact absurd isRead (by simp [spec earlier mem])
    have hides : life.Hides id life.since (.consume id) ↔ life.created ≠ .temporary ∧
        life.name = none ∧ CountedOut id life.since ∧ FreshAfter id life.since := by
      simp only [Hides, true_and, unread, imp_false]
      tauto
    cases isCreated : life.created <;> simp_all
  | some last =>
    obtain ⟨earlier, read⟩ := last
    rw [isLast] at spec
    obtain ⟨isRead, after, since, noRead⟩ := spec
    by_cases hidden : life.Hides id earlier read
    · have brought := not_hides_of_hides since noRead hidden
      simp [hidden, brought]
    · have hides : life.Hides id life.since (.consume id) ↔
          life.name = none ∧ CountedOut id life.since ∧ FreshAfter id life.since := by
        have wasRead : ∃ earlier ∈ life.since, earlier.isRead id :=
          ⟨read, by simp [since], isRead⟩
        simp only [Hides, true_and, wasRead, implies_true, and_true]
      simp [hidden, hides]

/-- Where reads can be counted, the last read hides the variable if it is a fresh consumption and
the only read of an unnamed variable that was not created out of sight. -/
theorem hides_iff {before after : List Event} {read : Event}
    (fit : CountsFit id (life.unpinned id)) (isRead : read.isRead id)
    (unpinned : life.unpinned id = before ++ read :: after)
    (noRead : ∀ event ∈ after, event.isRead id = false) :
    life.Hides id before read ↔ life.created ≠ .temporary ∧
      life.name = none ∧ life.uses id = 0 ∧ life.consumptions id = 1 ∧ life.Fresh id := by
  have few : CountsFit id before := fit.mono (by simp [unpinned])
  obtain ⟨noUse, noConsume⟩ := count_of_noRead noRead
  rw [Hides, countedOut_iff few, uses, consumptions, Fresh, unpinned, List.count_append,
    List.count_append]
  obtain rfl | rfl : read = .use id ∨ read = .consume id := by simpa [Event.isRead] using isRead
  · simp
  · have first : .consume id ∉ before →
        (before ++ .consume id :: after).takeWhile (· ≠ .consume id) = before := by
      intro unconsumed
      rw [List.takeWhile_append, takeWhile_ne_of_not_mem unconsumed]
      simp
    have unread : .use id ∉ before → .consume id ∉ before →
        ¬ ∃ earlier ∈ before, earlier.isRead id := by
      rintro unused unconsumed ⟨earlier, mem, isRead⟩
      obtain rfl | rfl : earlier = .use id ∨ earlier = .consume id := by
        simpa [Event.isRead] using isRead
      · exact unused mem
      · exact unconsumed mem
    rw [List.count_cons_self, noConsume, List.count_cons_of_ne (by simp), noUse, Nat.add_zero,
      Nat.zero_add, Nat.add_eq_right, List.count_eq_zero, List.count_eq_zero]
    constructor
    · rintro ⟨-, unnamed, ⟨unused, unconsumed⟩, fresh, created⟩
      refine ⟨mt created (unread unused unconsumed), unnamed, unused, unconsumed, ?_⟩
      rwa [first unconsumed]
    · rintro ⟨visible, unnamed, unused, unconsumed, fresh⟩
      rw [first unconsumed] at fresh
      exact ⟨rfl, unnamed, ⟨unused, unconsumed⟩, fresh, fun isCreated => absurd isCreated visible⟩

/-- As long as reads can be counted, a life comes to the status that is told by how often the
variable was used and consumed and by whether its only consumption was fresh. -/
theorem outcome_eq_status (fit : CountsFit id (life.unpinned id)) :
    life.outcome id = life.status id := by
  unfold outcome
  by_cases declared : life.created = .declaration
  · rw [if_pos declared, status, declared]
  rw [if_neg declared]
  have spec := lastRead?_spec id (life.unpinned id)
  cases isLast : lastRead? id (life.unpinned id) with
  | none =>
    rw [isLast] at spec
    obtain ⟨noUse, noConsume⟩ := count_of_noRead spec
    have unused : life.uses id = 0 := noUse
    have unconsumed : life.consumptions id = 0 := noConsume
    cases isCreated : life.created <;> simp_all [status]
  | some last =>
    obtain ⟨before, read⟩ := last
    rw [isLast] at spec
    obtain ⟨isRead, after, unpinned, noRead⟩ := spec
    have hides := hides_iff fit isRead unpinned noRead
    have wasRead : ¬ life.uses id + life.consumptions id = 0 := by
      rw [uses, consumptions, unpinned]
      obtain rfl | rfl : read = .use id ∨ read = .consume id := by
        simpa [Event.isRead] using isRead
      · simp
      · simp
    simp only [hides, status, if_neg wasRead]
    cases isCreated : life.created with
    | declaration => exact absurd isCreated declared
    | temporary => simp
    | forward | initialisation => simp

/-- As long as its reads can be counted, a variable counts as never read if it was not. -/
theorem forgotten_iff_unread (fit : CountsFit id life.since) :
    life.Forgotten id ↔ life.Unread id := by
  have unpinned : CountsFit id (life.unpinned id) := fit.mono (List.takeWhile_sublist _)
  rw [Forgotten, Unread, outcome_eq_status unpinned, countedOut_iff fit]

end Life

namespace Record

variable (record : Record) (id : VarId) (pushes : Nat) (event : Event)

/-- No event changes a name. -/
theorem meet_name : (record.meet id pushes event).name = record.name := by
  cases event <;> grind [meet, use, consume]

/-- Uses are counted. -/
theorem meet_uses :
    (record.meet id pushes event).uses = record.uses + if event = .use id then 1 else 0 := by
  cases event <;> grind [meet, use, consume]

/-- Consumptions are counted. -/
theorem meet_consumptions :
    (record.meet id pushes event).consumptions =
      record.consumptions + if event = .consume id then 1 else 0 := by
  cases event <;> grind [meet, use, consume]

/-- A variable stays pinned. -/
theorem meet_pinned :
    (record.meet id pushes event).pinned = true ↔ record.pinned = true ∨ event = .pin id := by
  cases event <;> grind [meet, use, consume]

/-- A push of the variable's value is noted. -/
theorem meet_builtAt :
    (record.meet id pushes event).builtAt =
      if event = .push (some id) then pushes + 1 else record.builtAt := by
  cases event <;> grind [meet, use, consume]

/-- Only uses and consumptions of a variable change its status. -/
theorem meet_status (unused : event ≠ .use id) (unconsumed : event ≠ .consume id) :
    (record.meet id pushes event).status = record.status := by
  cases event <;> grind [meet, use, consume]

section Tells

variable {record : Record} {id : VarId} {life : Life} {pushes : Nat}

/-- A use brings the record to the status that the life comes to. -/
theorem Tells.status_use (tells : record.Tells id life pushes) :
    (record.meet id pushes (.use id)).status = (life.extend (.use id)).outcome id := by
  rw [meet, if_pos rfl]
  show record.statusOnUse = _
  unfold statusOnUse
  by_cases pinned : record.pinned
  · rw [if_pos pinned, Life.outcome_extend_of_pinned (tells.pinned.mp pinned), tells.status]
  · rw [if_neg pinned, Life.outcome_extend_use (mt tells.pinned.mpr pinned), ← tells.status]
    cases record.status <;> rfl

/-- A record is fresh when its first consumption would be. -/
theorem Tells.isFresh_iff (tells : record.Tells id life pushes) :
    record.isFresh pushes = true ↔
      life.name = none ∧ CountedOut id life.since ∧ FreshAfter id life.since := by
  rw [CountedOut, ← ofNat_eq_zero_iff, ← ofNat_eq_zero_iff, ← tells.name, ← tells.uses,
    ← tells.consumptions, ← tells.fresh]
  simp only [isFresh, Bool.and_eq_true, beq_iff_eq, Option.isNone_iff_eq_none]
  tauto

/-- A consumption brings the record to the status that the life comes to. -/
theorem Tells.status_consume (tells : record.Tells id life pushes) :
    (record.meet id pushes (.consume id)).status = (life.extend (.consume id)).outcome id := by
  rw [meet, if_pos rfl]
  show record.statusOnConsume pushes = _
  unfold statusOnConsume
  by_cases pinned : record.pinned
  · rw [if_pos pinned, Life.outcome_extend_of_pinned (tells.pinned.mp pinned), tells.status]
  · rw [if_neg pinned, Life.outcome_extend_consume (mt tells.pinned.mpr pinned), ← tells.status]
    simp only [tells.isFresh_iff]
    cases record.status <;> rfl

end Tells

/-- A record that tells its variable's life so far tells it after one more event. -/
theorem Tells.step {record : Record} {id : VarId} {life : Life} {registry : Registry}
    (tells : record.Tells id life registry.pushes) (event : Event) :
    (record.meet id registry.pushes event).Tells id (life.extend event)
      (registry.step event).pushes := by
  constructor
  case name => rw [meet_name, tells.name, Life.extend_name]
  case uses =>
    rw [meet_uses, tells.uses, Life.extend_since, List.count_append, UInt32.ofNat_add]
    by_cases used : event = .use id <;> simp [used]
  case consumptions =>
    rw [meet_consumptions, tells.consumptions, Life.extend_since, List.count_append,
      UInt32.ofNat_add]
    by_cases consumed : event = .consume id <;> simp [consumed]
  case pinned =>
    rw [meet_pinned, tells.pinned, Life.extend_since, List.mem_append, List.mem_singleton,
      eq_comm (a := event)]
  case built =>
    have built := tells.built
    rw [meet_builtAt, registry.pushes_step]
    split_ifs with isBuilt
    · simp [isBuilt]
    · cases event <;> simp only <;> omega
  case fresh =>
    have built := tells.built
    rw [meet_builtAt, registry.pushes_step, FreshAfter, Life.extend_since, lastPush?_concat]
    cases event with
    | push pushed =>
      simp only [Event.push.injEq, Option.mem_some_iff, forall_eq']
      split_ifs with isBuilt
      · simp [isBuilt]
      · simp only [isBuilt, iff_false]
        omega
    | _ => exact tells.fresh
  case status =>
    by_cases used : event = .use id
    · rw [used]
      exact tells.status_use
    by_cases consumed : event = .consume id
    · rw [consumed]
      exact tells.status_consume
    rw [meet_status _ _ _ _ used consumed, tells.status,
      Life.outcome_extend_of_other (by simp [Event.isRead, used, consumed])]

end Record

namespace Registry

variable {registry : Registry} {id : VarId}

/-- A record tells the life of its variable through any history. -/
theorem exists_tells {record : Record} {life : Life} (found : registry.get? id = some record)
    (tells : record.Tells id life registry.pushes) (events : List Event) :
    ∃ later, (registry.follow events).get? id = some later ∧
      later.Tells id { life with since := life.since ++ events }
        (registry.follow events).pushes := by
  induction events generalizing registry record life with
  | nil =>
    rw [List.append_nil]
    exact ⟨record, found, tells⟩
  | cons event events ih =>
    have goesOn := ih (get?_step found event) (tells.step event)
    rw [Life.extend, List.append_assoc, List.singleton_append] at goesOn
    exact goesOn

/-- A new variable has no history. -/
theorem tells_create (registry : Registry) (ty : Ty) (category : Category) (name : Option String)
    (status : Status) :
    ∃ record, (registry.create ty category name status).get? registry.next = some record ∧
      record.Tells registry.next ⟨name, status, []⟩ registry.pushes := by
  refine ⟨_, by rw [get?_create, if_pos rfl], ?_⟩
  constructor
  case status => cases status <;> simp [Life.outcome, Life.unpinned, lastRead?]
  all_goals simp [FreshAfter, lastPush?]

/-- Every variable that a history makes has a record that tells its life, and no other has one. -/
theorem get?_follow (registry : Registry) (events : List Event) {index : Nat}
    (isNew : registry.size ≤ index) :
    match life? events (index - registry.size) with
    | some life => ∃ record, (registry.follow events).get? ⟨index⟩ = some record ∧
        record.Tells ⟨index⟩ life (registry.follow events).pushes
    | none => (registry.follow events).get? ⟨index⟩ = none := by
  induction events generalizing registry with
  | nil =>
    show registry.get? ⟨index⟩ = none
    rw [get?, Array.getElem?_eq_none_iff]
    exact isNew
  | cons event events ih =>
    have size := size_step registry event
    cases event with
    | create ty category name status =>
      simp only at size
      by_cases isNext : index = registry.size
      · subst isNext
        rw [Nat.sub_self]
        obtain ⟨record, found, tells⟩ := tells_create registry ty category name status
        exact exists_tells found tells events
      · have later := ih (registry.step (.create ty category name status)) (by rw [size]; omega)
        have isSucc : index - registry.size = index - (registry.size + 1) + 1 := by omega
        rw [size] at later
        rw [isSucc]
        exact later
    | _ =>
      have later := ih (registry.step _) (by rw [size]; exact isNew)
      rw [size] at later
      exact later

/-- The registry after a history that starts without variables. -/
def after (events : List Event) : Registry := empty.follow events

/-- A variable is known after a history exactly if the history tells its life, and its record tells
it too. -/
theorem get?_after (events : List Event) (id : VarId) :
    match life? events id.index with
    | some life => ∃ record, (after events).get? id = some record ∧
        record.Tells id life (after events).pushes
    | none => (after events).get? id = none :=
  get?_follow empty events (Nat.zero_le id.index)

/-- A record is dead when its variable counts as never read. -/
theorem isDead_iff {record : Record} {life : Life} {pushes : Nat}
    (tells : record.Tells id life pushes) : record.isDead = true ↔ life.Forgotten id := by
  have pinned : record.pinned = false ↔ .pin id ∉ life.since := by
    rw [← tells.pinned, Bool.not_eq_true]
  rw [Life.Forgotten, CountedOut, ← pinned, ← tells.name, ← tells.status,
    ← ofNat_eq_zero_iff, ← ofNat_eq_zero_iff, ← tells.uses, ← tells.consumptions]
  simp only [Record.isDead, Bool.and_eq_true, Bool.not_eq_true', beq_iff_eq,
    Option.isNone_iff_eq_none]
  tauto

/-- Leaving out what nobody reads changes the records of dead variables and no other. -/
theorem get?_elideDead (registry : Registry) (id : VarId) :
    registry.elideDead.1.get? id = (registry.get? id).map Record.elide := by
  rw [elideDead, get?, get?, Array.getElem?_map]

/-- Counting records is counting their numbers. -/
theorem countP_records (records : List Record) (test : Record → Bool) :
    records.countP test = (List.range records.length).countP fun index =>
      records[index]?.any test := by
  induction records using List.reverseRecOn with
  | nil => rfl
  | append_singleton rest last ih =>
    rw [List.countP_append, List.length_append, List.length_singleton, List.range_succ,
      List.countP_append, ih]
    congr 1
    · apply List.countP_congr
      intro index isIndex
      rw [List.getElem?_append_left (List.mem_range.mp isIndex)]
    · simp

/-- A variable changes its status when it is left out. -/
theorem status?_elideDead (registry : Registry) (id : VarId) :
    (registry.elideDead.1.status? id != registry.status? id) =
      (registry.get? id).any Record.isDead := by
  rw [status?, status?, get?_elideDead]
  cases registry.get? id with
  | none => rfl
  | some record =>
    by_cases dead : record.isDead
    · have isDeclared : record.status = .initialisation := by
        simp only [Record.isDead, Bool.and_eq_true, beq_iff_eq] at dead
        exact dead.1.1.1.2
      simp [Record.elide, dead, isDeclared]
    · simp [Record.elide, dead]

/-- As many variables change as are said to be left out. -/
theorem elideDead_count (registry : Registry) :
    registry.elideDead.2 = (List.range registry.size).countP fun index =>
      registry.elideDead.1.status? ⟨index⟩ != registry.status? ⟨index⟩ := by
  simp only [status?_elideDead]
  rw [elideDead, ← Array.countP_toList, countP_records, Array.length_toList]
  simp only [Array.getElem?_toList]
  rfl

/-- What is left out is a variable that counts as never read; where its reads can be counted, it is
one that was never read. -/
theorem get?_elideDead_after {events : List Event} {id : VarId} {life : Life}
    (isLife : life? events id.index = some life) :
    (after events).elideDead.1.get? id = ((after events).get? id).map fun record =>
      if life.Forgotten id then { record with status := .temporary } else record := by
  have told := get?_after events id
  rw [isLife] at told
  obtain ⟨record, found, tells⟩ := told
  rw [get?_elideDead, found, Option.map_some, Option.map_some, Record.elide]
  simp only [isDead_iff tells]

/-- A variable that is used in full rounds of the count is hidden like one that was never read. -/
theorem elideDead_of_rounds (ty : Ty) (category : Category) (rounds : Nat) :
    (after (.create ty category none .initialisation ::
      List.replicate (UInt32.size * rounds) (.use ⟨0⟩))).elideDead.1.status? ⟨0⟩ =
        some .temporary := by
  let uses : List Event := List.replicate (UInt32.size * rounds) (.use ⟨0⟩)
  let life : Life := ⟨none, .initialisation, uses⟩
  have unconsumed : .consume ⟨0⟩ ∉ uses := by simp [uses]
  have free : .pin ⟨0⟩ ∉ uses := by simp [uses]
  have unpinned : life.unpinned ⟨0⟩ = uses := takeWhile_ne_of_not_mem free
  have visible : life.outcome ⟨0⟩ = .initialisation := by
    rw [Life.outcome, if_neg (show life.created ≠ .declaration from Status.noConfusion), unpinned]
    have spec := lastRead?_spec ⟨0⟩ uses
    cases isLast : lastRead? ⟨0⟩ uses with
    | none => rfl
    | some last =>
      rw [isLast] at spec
      obtain ⟨-, _, split, -⟩ := spec
      refine if_neg fun hides => unconsumed ?_
      rw [split, ← hides.1]
      simp
  have full : UInt32.size ∣ uses.count (.use ⟨0⟩) := by
    rw [List.count_replicate_self]
    exact Nat.dvd_mul_right _ _
  have forgotten : life.Forgotten ⟨0⟩ :=
    ⟨free, rfl, visible, full, by simp [life, List.count_eq_zero.mpr unconsumed]⟩
  have told := get?_after (.create ty category none .initialisation :: uses) ⟨0⟩
  obtain ⟨record, found, -⟩ := told
  have isLife : life? (.create ty category none .initialisation :: uses) 0 = some life := rfl
  have elided := @get?_elideDead_after _ ⟨0⟩ life isLife
  rw [status?, elided, found, Option.map_some, if_pos forgotten]
  rfl

end Registry

end ShaderLoom
