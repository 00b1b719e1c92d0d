import ShaderLoom.BuildError

/-!
# The registry of variables

The registry numbers variables and follows the life of each. A value starts in the status it was
made with. Being used by name binds it to a name. Being consumed, which is to be used once and
for all, keeps it out of sight instead, to be written where it is consumed, but only if that is
safe: the value is unnamed, this is its first use of any kind, and nothing was pushed since the
value itself. Any other consumption binds it to a name too, for a value read later might be
evaluated after something it should come before. A pinned variable never changes its status.

Uses and consumptions are counted in 32 bits. A count that runs full starts over, and a variable
whose counts are back at zero is taken for one that was never read.
-/
namespace ShaderLoom

/-- What the registry knows of one variable. -/
structure Record where
  id : VarId
  /-- The name it was given, if any. -/
  name : Option String
  /-- What it is named after if it was given no name. -/
  category : Category
  ty : Ty
  /-- How often it was used by name. -/
  uses : UInt32
  /-- How often it was consumed. -/
  consumptions : UInt32
  /-- Its current stage of life. -/
  status : Status
  /-- Whether its status is pinned. -/
  pinned : Bool
  /-- The number of pushes when its value was pushed last, or when it was created. -/
  builtAt : Nat
deriving DecidableEq, Repr

namespace Record

/-- Whether the value is written where it is used. -/
def isInlined (record : Record) : Bool :=
  match record.status with
  | .temporary | .forward => true
  | .declaration | .initialisation => false

/-- The status after a use by name. -/
def statusOnUse (record : Record) : Status :=
  if record.pinned then record.status
  else match record.status with
    | .forward | .temporary => .initialisation
    | other => other

/-- One more use by name. -/
def use (record : Record) : Record :=
  { record with uses := record.uses + 1, status := record.statusOnUse }

/-- Whether a consumption after `pushes` pushes is safe to write in place of the value. -/
def isFresh (record : Record) (pushes : Nat) : Bool :=
  record.builtAt == pushes && record.uses == 0 && record.consumptions == 0 &&
    record.name.isNone

/-- The status after a consumption. -/
def statusOnConsume (record : Record) (pushes : Nat) : Status :=
  if record.pinned then record.status
  else match record.status with
    | .forward => if record.isFresh pushes then .temporary else .initialisation
    | .initialisation => if record.isFresh pushes then .temporary else .initialisation
    | .temporary => .initialisation
    | .declaration => .declaration

/-- One more consumption. -/
def consume (record : Record) (pushes : Nat) : Record :=
  { record with
    consumptions := record.consumptions + 1
    status := record.statusOnConsume pushes }

/-- Whether nobody reads the value, so that its declaration can go. -/
def isDead (record : Record) : Bool :=
  !record.pinned && record.status == .initialisation && record.name.isNone &&
    record.uses == 0 && record.consumptions == 0

/-- A value that nobody reads goes out of sight. -/
def elide (record : Record) : Record :=
  if record.isDead then { record with status := .temporary } else record

end Record

/-- All variables of one build. -/
structure Registry where
  records : Array Record
  /-- How many instructions were pushed so far. -/
  pushes : Nat
deriving DecidableEq, Repr

namespace Registry

/-- The registry without variables. -/
def empty : Registry := ⟨#[], 0⟩

/-- How many variables there are. -/
def size (registry : Registry) : Nat := registry.records.size

/-- The number the next variable gets. -/
def next (registry : Registry) : VarId := ⟨registry.size⟩

/-- A variable by number. -/
def get? (registry : Registry) (id : VarId) : Option Record := registry.records[id.index]?

/-- The current status of a variable. -/
def status? (registry : Registry) (id : VarId) : Option Status := (registry.get? id).map (·.status)

/-- The name a variable was given, or its number. -/
def nameOrNumber (registry : Registry) (id : VarId) : String :=
  ((registry.get? id).bind (·.name)).getD id.text

/-- One more variable, numbered `registry.next`. -/
def create (registry : Registry) (ty : Ty) (category : Category) (name : Option String)
    (status : Status) : Registry :=
  { registry with
    records := registry.records.push
      { id := registry.next, name, category, ty, uses := 0, consumptions := 0, status,
        pinned := false, builtAt := registry.pushes } }

/-- Change the record of a variable; the variable must exist. -/
def update (registry : Registry) (id : VarId) (change : Record → Record) :
    Except BuildError Registry :=
  if id.index < registry.size then
    .ok { registry with records := registry.records.modify id.index change }
  else .error (.unknownVariable id)

/-- Creating a variable adds one. -/
@[simp]
theorem size_create (registry : Registry) (ty : Ty) (category : Category) (name : Option String)
    (status : Status) : (registry.create ty category name status).size = registry.size + 1 := by
  simp [create, size]

/-- The created variable is the next one, and every other variable stays. -/
theorem get?_create (registry : Registry) (ty : Ty) (category : Category) (name : Option String)
    (status : Status) (id : VarId) :
    (registry.create ty category name status).get? id =
      if id = registry.next then
        some { id := registry.next, name, category, ty, uses := 0, consumptions := 0, status,
               pinned := false, builtAt := registry.pushes }
      else registry.get? id := by
  obtain ⟨index⟩ := id
  simp [create, get?, next, size, Array.getElem?_push]

/-- A change of one variable succeeds if there is such a variable, and touches no other. -/
theorem update_eq_ok_iff {registry changed : Registry} {id : VarId} {change : Record → Record} :
    registry.update id change = .ok changed ↔
      id.index < registry.size ∧
        changed = { registry with records := registry.records.modify id.index change } := by
  unfold update
  split
  case isTrue known => simp [known, eq_comm]
  case isFalse unknown => simp [unknown]

/-- One more pushed instruction; `built` is the variable whose value it pushes, if any. -/
def recordPush (registry : Registry) (built : Option VarId) : Registry :=
  let pushes := registry.pushes + 1
  match built with
  | none => { registry with pushes }
  | some id =>
    { records := registry.records.modify id.index ({ · with builtAt := pushes }), pushes }

/-- A use of a variable by name. -/
def use (registry : Registry) (id : VarId) : Except BuildError Registry :=
  registry.update id Record.use

/-- A consumption of a variable. -/
def consume (registry : Registry) (id : VarId) : Except BuildError Registry :=
  registry.update id (·.consume registry.pushes)

/-- Pin the status of a variable. -/
def pin (registry : Registry) (id : VarId) : Except BuildError Registry :=
  registry.update id ({ · with pinned := true })

/-- Turn every declaration nobody reads into a temporary, and tell how many there were. -/
def elideDead (registry : Registry) : Registry × Nat :=
  ({ registry with records := registry.records.map Record.elide },
    registry.records.countP Record.isDead)

/-- Forget every variable and every push. -/
def clear (registry : Registry) : Registry := { registry with records := #[], pushes := 0 }

/-- Nothing is left of a registry that is cleared. -/
@[simp]
theorem clear_eq (registry : Registry) : registry.clear = empty := rfl

end Registry

end ShaderLoom
