import ShaderLoom.Build.Session

/-!
# Building conditions and switches

A chain of conditions takes cases until it is closed or ends in an `else`. A case is closed by
`endIfSubBlock`, or straight by the next case; after `endIfSubBlock` the chain waits for an
`else` unless the closed case was one. A switch takes nothing before its first case, and each new
case closes the one before it.
-/
namespace ShaderLoom.Build

/-- Open a chain of conditions and move into its first case. -/
def beginIf (condition : Expr) : Build Unit :=
  guarded do
    let parent ← prepare .branch false
    let body ← newBlock parent .plain
    let site ← commit parent (.branch [⟨some condition, body⟩])
    openScope (.branch site parent false) body

/-- The cases so far of the chain of conditions at an address. -/
def ifCases (site : Address) (found : Step) : Build (List IfCase) := do
  match (← get).tree.instruction? site with
  | some (.branch cases) => pure cases
  | _ => throw (.unbalanced .beginIf found)

/-- Add a case to the innermost scope, which has to be a chain of conditions without an `else`
that waits or stands in its last case. -/
def addIfCase (condition : Option Expr) (found : Step) : Build Unit := do
  let s ← get
  match s.scopes with
  | .branch site parent waiting :: _ =>
    let cases ← ifCases site found
    if endsInElse cases then throw (.elseAfterElse found)
    if !waiting && !cases.getLast?.any (·.body == s.current) then throw (.elseWithoutIf found)
    let body ← newBlock parent .plain
    amend site (·.addIfCase ⟨condition, body⟩)
    replaceScope (.branch site parent false) body
  | _ => throw (.elseWithoutIf found)

/-- Add a case with a condition. -/
def beginElseIf (condition : Expr) : Build Unit :=
  guarded (addIfCase (some condition) .beginElseIf)

/-- Add the last case, which has no condition. -/
def beginElse : Build Unit := guarded (addIfCase none .beginElse)

/-- Close the current case; the chain waits for more unless this was its `else`. -/
def endIfSubBlock : Build Unit :=
  guarded do
    modify Session.settle
    match (← get).scopes with
    | .branch site parent false :: _ =>
      if endsInElse (← ifCases site .endIfSubBlock) then closeScope parent
      else replaceScope (.branch site parent true) parent
    | _ => throw (.unbalanced .beginIf .endIfSubBlock)

/-- Close the innermost chain of conditions, from its last case or while it waits. -/
def endIf : Build Unit :=
  guarded do
    let s ← get
    match s.scopes with
    | .branch _ _ true :: _ => closeScope s.current
    | .branch _ parent false :: _ => closeScope parent
    | _ => throw (.unbalanced .beginIf .endIf)

/-- Open a switch; nothing may come before its first case. -/
def beginSwitch (selector : Expr) : Build Unit :=
  guarded do
    let parent ← prepare .switch false
    let site ← commit parent (.switch selector [])
    openScope (.switch site parent none) parent

/-- Close the open case, if any, and open the next; without a label it is the default, which a
switch has once at most. -/
def addCase (label : Option Literal) : Build Unit :=
  guarded do
    modify Session.settle
    match (← get).scopes with
    | .switch site parent _ :: _ =>
      let body ← newBlock parent .plain
      if label.isNone && ((← get).tree.instruction? site).any (·.hasDefault) then
        throw .duplicateDefault
      amend site (·.addSwitchCase ⟨label, body⟩)
      replaceScope (.switch site parent (some body)) body
    | _ => throw (.unbalanced .beginSwitch .addCase)

/-- Close the innermost switch. -/
def endSwitch : Build Unit :=
  guarded do
    modify Session.settle
    match (← get).scopes with
    | .switch _ parent _ :: _ => closeScope parent
    | _ => throw (.unbalanced .beginSwitch .endSwitch)

end ShaderLoom.Build
