import Mathlib.Data.List.Infix
import ShaderLoom.Proofs.Ownership
import ShaderLoom.Proofs.Scripts

/-!
# Balanced helpers

While a scope is open the scopes around it stay as they are, and once it is closed no scope is ever
opened by its instruction again (`Session.over_or_gone_of_moves`). So what runs inside a helper, if
it closes no scope that it found open and leaves at most a waiting chain behind, leaves the helper's
own scope right above those that were open before (`Script.Tidy.rests`).

The helpers for loops, switches and functions close waiting chains before they close their own
scope, and end where they began. The two for conditions do not always: `ifThen` closes whichever
chain is innermost, and `ifElse` goes on with it. Each is balanced exactly if what runs in its first
case leaves the helper's own chain innermost, for `ifElse` with its `else` still to come
(`Helper.balanced_iff_spared`).
-/
namespace ShaderLoom

/-- Whether two frames are of one scope: opened by the same instruction, in the same block. -/
structure Frame.Like (frame own : Frame) : Prop where
  site : frame.site = own.site
  parent : frame.parent = own.parent
  kind : frame.kind = own.kind

/-- A frame is of its own scope. -/
theorem Frame.Like.refl (frame : Frame) : frame.Like frame := ⟨rfl, rfl, rfl⟩

/-- Frames of one scope are so in a row. -/
theorem Frame.Like.trans {frame middle own : Frame} (first : frame.Like middle)
    (second : middle.Like own) : frame.Like own :=
  ⟨first.site.trans second.site, first.parent.trans second.parent, first.kind.trans second.kind⟩

/-- Only a chain of conditions can wait. -/
theorem Frame.isWaiting_of_kind {frame : Frame} (isOther : frame.kind ≠ .branch) :
    frame.isWaiting = false := by
  cases frame with
  | branch => exact absurd rfl isOther
  | _ => rfl

/-- A chain that has its `else` does not wait for one. -/
theorem Frame.Fits.calm_of_ends {frame : Frame} {cases : List IfCase}
    (fits : frame.Fits (.branch cases)) (ends : endsInElse cases) : frame.isWaiting = false := by
  cases frame with
  | branch site parent waiting =>
    obtain ⟨-, openEnded⟩ := fits
    cases waiting with
    | false => rfl
    | true =>
      rw [openEnded rfl] at ends
      cases ends
  | _ => rfl

/-- Whether a scope is open right above the given ones, with others above it perhaps. -/
def Over (own : Frame) (base scopes : List Frame) : Prop :=
  ∃ above frame, scopes = above ++ frame :: base ∧ frame.Like own

namespace Over

variable {own top new : Frame} {base rest scopes : List Frame}

/-- One more scope changes nothing below it. -/
theorem push (isOver : Over own base scopes) (frame : Frame) : Over own base (frame :: scopes) := by
  obtain ⟨above, found, rfl, like⟩ := isOver
  exact ⟨frame :: above, found, rfl, like⟩

/-- Going on in the innermost scope changes nothing below it. -/
theorem replace (isOver : Over own base (top :: rest)) (like : new.Like top) :
    Over own base (new :: rest) := by
  obtain ⟨above, found, isScopes, isOwn⟩ := isOver
  cases above with
  | nil =>
    obtain ⟨rfl, rfl⟩ := List.cons.inj isScopes
    exact ⟨[], new, rfl, like.trans isOwn⟩
  | cons first above =>
    obtain ⟨rfl, rfl⟩ := List.cons.inj isScopes
    exact ⟨new :: above, found, rfl, isOwn⟩

/-- The innermost scope that is closed is one above, or the scope itself. -/
theorem pop (isOver : Over own base (top :: rest)) :
    Over own base rest ∨ top.Like own ∧ rest = base := by
  obtain ⟨above, found, isScopes, isOwn⟩ := isOver
  cases above with
  | nil =>
    obtain ⟨rfl, rfl⟩ := List.cons.inj isScopes
    exact .inr ⟨isOwn, rfl⟩
  | cons first above =>
    obtain ⟨rfl, rfl⟩ := List.cons.inj isScopes
    exact .inl ⟨above, found, rfl, isOwn⟩

end Over

namespace Session

variable {s after : Session} {own : Frame} {base : List Frame} {site : Address}

/-- Whether the scope that an instruction opened has been closed. -/
structure Gone (s : Session) (site : Address) : Prop where
  closed : site ∉ s.scopes.map Frame.site
  stands : s.tree.instruction? site ≠ none

/-- A pushed instruction leaves every scope the one it is. -/
theorem scopes_commit {top : Frame} {rest : List Frame} (isTop : s.scopes = top :: rest)
    (block : BlockId) (instr : Instruction) :
    ∃ new, (s.commit block instr).scopes = new :: rest ∧ new.Like top := by
  unfold commit countParameter
  split
  case h_1 site parent var overload others isScopes =>
    have isScopes : s.scopes = .function site parent var (some overload) :: others := isScopes
    rw [isTop] at isScopes
    obtain ⟨rfl, rfl⟩ := List.cons.inj isScopes
    split
    · exact ⟨_, rfl, rfl, rfl, rfl⟩
    · exact ⟨_, isTop, .refl _⟩
  case h_2 => exact ⟨top, isTop, .refl top⟩

/-- A pushed instruction changes nothing around an open scope. -/
theorem over_commit (isOver : Over own base s.scopes) (block : BlockId) (instr : Instruction) :
    Over own base (s.commit block instr).scopes := by
  cases isTop : s.scopes with
  | nil =>
    obtain ⟨above, frame, isScopes, -⟩ := isOver
    rw [isTop] at isScopes
    cases above <;> cases isScopes
  | cons top rest =>
    obtain ⟨new, isNew, like⟩ := scopes_commit isTop block instr
    rw [isTop] at isOver
    rw [isNew]
    exact isOver.replace like

/-- An instruction that stands in a tree stands in every tree that extends it. -/
theorem stands_of_extends {tree grown : Tree} {place : Address} {instr : Instruction} {count : Nat}
    (extended : tree.Extends grown place instr count) (stands : tree.instruction? site ≠ none) :
    grown.instruction? site ≠ none := by
  rw [extended.instruction]
  split
  · exact Option.some_ne_none instr
  · exact stands

/-- A scope that has been closed stays closed: every scope is opened by an instruction of its
own. -/
theorem Gone.move (gone : s.Gone site) (placed : s.Placed) (move : Move s after) :
    after.Gone site := by
  obtain ⟨closed, stands⟩ := gone
  cases move with
  | register registry => exact ⟨closed, stands⟩
  | settle top waiting =>
    rw [top] at closed
    exact ⟨fun isOpen => closed (List.mem_cons_of_mem _ isOpen), stands⟩
  | append settled plain accepted =>
    refine ⟨?_, stands_of_extends (placed.extends_append plain) stands⟩
    rw [commit_sites]
    exact closed
  | @begin kinds instr frame inner opens =>
    refine ⟨?_, stands_of_extends (placed.extends_begin opens) stands⟩
    rw [opened, List.map_cons, commit_sites, opens.site]
    rintro (_ | ⟨_, isOpen⟩)
    · exact stands (Tree.instruction?_length _ _)
    · exact closed isOpen
  | @grow kinds change old new rest inner top grows =>
    obtain ⟨instr, -, -, extended⟩ := placed.extends_grow top grows
    refine ⟨?_, stands_of_extends extended stands⟩
    rw [top] at closed
    rw [grown, top, List.map_cons, grows.site]
    exact closed
  | enter top enters =>
    rw [top] at closed
    refine ⟨?_, stands⟩
    rw [entered, top, List.map_cons, enters.site]
    exact closed
  | leave top _ =>
    rw [top] at closed
    refine ⟨?_, stands⟩
    rw [Session.closed, top]
    exact fun isOpen => closed (List.mem_cons_of_mem _ isOpen)

/-- Once the innermost scope is closed, it is gone or those below are as they were. -/
theorem over_or_gone_of_pop (placed : s.Placed) {top : Frame} {rest : List Frame}
    (isTop : s.scopes = top :: rest) (isOver : Over own base s.scopes)
    (isRest : after.scopes = rest) (tree : after.tree = s.tree) :
    Over own base after.scopes ∨ after.Gone own.site := by
  rw [isTop] at isOver
  obtain isOver | ⟨like, -⟩ := isOver.pop
  · rw [isRest]
    exact .inl isOver
  · have distinct := placed.distinct
    rw [isTop, List.map_cons, List.nodup_cons, like.site] at distinct
    obtain ⟨-, instr, isAt, -⟩ := placed.stacking.instruction (isTop ▸ List.mem_cons_self)
    rw [like.site] at isAt
    refine .inr ⟨?_, ?_⟩
    · rw [isRest]
      exact distinct.1
    · rw [tree, isAt]
      exact Option.some_ne_none instr

/-- A move changes nothing around an open scope, or closes it. -/
theorem over_or_gone_of_move (placed : s.Placed) (isOver : Over own base s.scopes)
    (move : Move s after) : Over own base after.scopes ∨ after.Gone own.site := by
  cases move with
  | register registry => exact .inl isOver
  | settle top waiting => exact over_or_gone_of_pop placed top isOver rfl rfl
  | append settled plain accepted => exact .inl (over_commit isOver _ _)
  | @begin kinds instr frame inner opens =>
    have around : Over own base { s with tree := s.tree.addBlocks s.current kinds }.scopes := isOver
    exact .inl ((over_commit around s.current instr).push frame)
  | grow top grows =>
    rw [top] at isOver
    rw [grown, top]
    exact .inl (isOver.replace ⟨grows.site, grows.parent, grows.kind⟩)
  | enter top enters =>
    rw [top] at isOver
    rw [entered, top]
    exact .inl (isOver.replace ⟨enters.site, enters.parent, enters.kind⟩)
  | leave top _ =>
    refine over_or_gone_of_pop placed top isOver ?_ rfl
    rw [closed, top]
    rfl

/-- Moves leave a placed build placed. -/
theorem Placed.moves (placed : s.Placed) (moves : Moves s after) : after.Placed :=
  moves.keeps (fun _ _ placed move => placed.move move) placed

/-- Moves change nothing around an open scope, or close it for good. -/
theorem over_or_gone_of_moves (placed : s.Placed) (isOver : Over own base s.scopes)
    (moves : Moves s after) : Over own base after.scopes ∨ after.Gone own.site := by
  induction moves with
  | refl => exact .inl isOver
  | tail moves move ih =>
    have placed := placed.moves moves
    obtain isOver | gone := ih
    · exact over_or_gone_of_move placed isOver move
    · exact .inr (gone.move placed move)

/-- A chain of conditions that has its `else`. -/
def Sealed (s : Session) (site : Address) : Prop :=
  ∃ cases, s.tree.instruction? site = some (.branch cases) ∧ endsInElse cases

/-- A chain that has its `else` stays as it is. -/
theorem Sealed.move (isSealed : s.Sealed site) (placed : s.Placed) (move : Move s after) :
    after.Sealed site := by
  obtain ⟨cases, isAt, ends⟩ := isSealed
  refine ⟨cases, ?_, ends⟩
  have elsewhere : ∀ {tree : Tree} {place instr count}, s.tree.Extends tree place instr count →
      place ≠ site → tree.instruction? site = some (.branch cases) := by
    intro tree place instr count extended other
    rw [extended.instruction, if_neg other.symm]
    exact isAt
  have free : s.site ≠ site := by
    rintro rfl
    rw [Session.site, Tree.instruction?_length] at isAt
    cases isAt
  cases move with
  | register | settle | enter | leave => exact isAt
  | append settled plain accepted => exact elsewhere (placed.extends_append plain) free
  | begin opens => exact elsewhere (placed.extends_begin opens) free
  | @grow kinds change old new rest inner top grows =>
    obtain ⟨instr, isInstr, holds, extended⟩ := placed.extends_grow top grows
    refine elsewhere extended ?_
    rintro rfl
    rw [isAt] at isInstr
    cases isInstr
    have openEnded := grows.openEnded holds.fits.kind_eq.symm cases isAt
    rw [openEnded] at ends
    cases ends

/-- Whether calls never lead out of a scope. -/
def Stays (s : Session) (site : Address) (calls : List Call) : Prop :=
  ∀ earlier, earlier <+: calls → site ∈ (earlier.foldl step s).scopes.map Frame.site

/-- Calls that never lead out of a scope are moves that change nothing around it. -/
theorem over_of_play {calls : List Call} (placed : s.Placed) (isOver : Over own base s.scopes)
    (stays : s.Stays own.site calls) (played : Build.play calls s = .ok () after) :
    Moves s after ∧ Over own base after.scopes := by
  induction calls generalizing s with
  | nil =>
    obtain ⟨-, rfl⟩ := Build.pure_ok_iff.mp played
    exact ⟨.refl, isOver⟩
  | cons call rest ih =>
    obtain ⟨reply, middle, ran, played⟩ := Build.bind_ok_iff.mp played
    have stepped : s.step call = middle := by rw [step, ran]
    have isOpen : own.site ∈ middle.scopes.map Frame.site := by
      rw [← stepped]
      exact stays [call] (List.prefix_append [call] rest)
    have goesOn : call ≠ .reset := by
      rintro rfl
      obtain ⟨_, isReset, -⟩ := Build.map_ok_iff.mp ran
      rw [Build.reset_ok_iff.mp isReset] at isOpen
      cases isOpen
    have moves := Call.moves ran goesOn
    obtain isOver | gone := over_or_gone_of_moves placed isOver moves
    · have later : middle.Stays own.site rest := by
        intro earlier isPrefix
        have isLonger : call :: earlier <+: call :: rest :=
          List.prefix_cons_inj call |>.mpr isPrefix
        have isOpen := stays (call :: earlier) isLonger
        rw [List.foldl_cons, stepped] at isOpen
        exact isOpen
      obtain ⟨movesToo, isOver⟩ := ih (placed.moves moves) isOver later played
      exact ⟨moves.trans movesToo, isOver⟩
    · exact absurd isOpen gone.closed

/-- A chain that has its `else` keeps it. -/
theorem Sealed.moves (isSealed : s.Sealed site) (placed : s.Placed) (moves : Moves s after) :
    after.Sealed site := by
  induction moves with
  | refl => exact isSealed
  | tail moves move ih => exact ih.move (placed.moves moves) move

end Session

/-- Whether what runs inside a scope closes none of the scopes that it found open, and leaves above
them nothing but waiting chains. -/
structure Script.Tidy (body : Script Unit) (start : Session) : Prop where
  /-- After every call all the scopes are still open that were so at the start. -/
  stays : ∀ calls, calls <+: body.made start →
    start.scopes.map Frame.site <:+ (calls.foldl Session.step start).scopes.map Frame.site
  leaves : ∃ above below, ((body.made start).foldl Session.step start).scopes = above ++ below ∧
    (∀ frame ∈ above, frame.isWaiting) ∧ below.map Frame.site = start.scopes.map Frame.site

/-- Whether a scope is open right above the given ones, and above it nothing but waiting chains. -/
def Rests (own : Frame) (base scopes : List Frame) : Prop :=
  ∃ above frame, scopes = above ++ frame :: base ∧ frame.Like own ∧
    ∀ other ∈ above, other.isWaiting

/-- What runs in a scope and is tidy leaves the scope right above those it was opened on. -/
theorem Script.Tidy.rests {body : Script Unit} {start last : Session} {own : Frame}
    {base : List Frame} (tidy : body.Tidy start) (placed : start.Placed)
    (isOwn : start.scopes = own :: base) (ran : body.run start = .ok () last) :
    Moves start last ∧ Rests own base last.scopes := by
  have played := Script.play_made ran
  have stays : start.Stays own.site (body.made start) := by
    intro calls isPrefix
    have isSuffix := tidy.stays calls isPrefix
    rw [isOwn, List.map_cons] at isSuffix
    exact isSuffix.subset List.mem_cons_self
  have isOver : Over own base start.scopes := ⟨[], own, isOwn, .refl own⟩
  obtain ⟨moves, above, frame, isScopes, like⟩ := Session.over_of_play placed isOver stays played
  obtain ⟨waiting, below, isLast, areWaiting, sameSites⟩ := tidy.leaves
  rw [foldl_of_play played, isScopes] at isLast
  rw [isOwn] at sameSites
  have sameLength : (frame :: base).length = below.length := by
    have isLength := congrArg List.length sameSites
    rw [List.length_map, List.length_map] at isLength
    exact isLength.symm
  obtain ⟨rfl, rfl⟩ := List.append_inj' isLast sameLength
  exact ⟨moves, above, frame, isScopes, like, areWaiting⟩

namespace Rests

variable {own : Frame} {base : List Frame} {s : Session}

/-- A scope rests as any frame of it does. -/
theorem like {other : Frame} {scopes : List Frame} (rests : Rests own base scopes)
    (like : own.Like other) : Rests other base scopes := by
  obtain ⟨above, frame, isScopes, isOwn, areWaiting⟩ := rests
  exact ⟨above, frame, isScopes, isOwn.trans like, areWaiting⟩

/-- Closing the waiting chains leaves a scope at rest innermost, unless it waits itself. -/
theorem settle_of_calm (rests : Rests own base s.scopes)
    (calm : ∀ frame ∈ s.scopes, frame.Like own → frame.isWaiting = false) :
    ∃ frame, s.settle.scopes = frame :: base ∧ frame.Like own := by
  obtain ⟨above, frame, isScopes, like, areWaiting⟩ := rests
  have isCalm := calm frame (isScopes ▸ List.mem_append_right above List.mem_cons_self) like
  refine ⟨frame, ?_, like⟩
  show s.scopes.dropWhile Frame.isWaiting = frame :: base
  rw [isScopes, List.dropWhile_append_of_pos areWaiting, List.dropWhile_cons_of_neg]
  simp [isCalm]

/-- A scope that is no chain of conditions is innermost once the waiting chains are closed. -/
theorem settle (rests : Rests own base s.scopes) (isOther : own.kind ≠ .branch) :
    ∃ frame, s.settle.scopes = frame :: base ∧ frame.Like own :=
  rests.settle_of_calm fun _ _ like => Frame.isWaiting_of_kind (like.kind ▸ isOther)

/-- Closing the waiting chains leaves of the scopes no more than the one at rest and those
below. -/
theorem suffix_settle (rests : Rests own base s.scopes) :
    ∃ frame, s.settle.scopes <:+ frame :: base ∧ frame.Like own := by
  obtain ⟨above, frame, isScopes, like, areWaiting⟩ := rests
  refine ⟨frame, ?_, like⟩
  show s.scopes.dropWhile Frame.isWaiting <:+ frame :: base
  rw [isScopes, List.dropWhile_append_of_pos areWaiting]
  exact List.dropWhile_suffix _

/-- A scope is innermost once the waiting chains are closed if so many scopes are left. -/
theorem settle_of_length (rests : Rests own base s.scopes)
    (long : s.settle.scopes.length = base.length + 1) :
    ∃ frame, s.settle.scopes = frame :: base ∧ frame.Like own := by
  obtain ⟨frame, isSuffix, like⟩ := rests.suffix_settle
  exact ⟨frame, isSuffix.eq_of_length long, like⟩

/-- Closing the waiting chains leaves no more scopes than there are up to the one at rest. -/
theorem length_settle_le (rests : Rests own base s.scopes) :
    s.settle.scopes.length ≤ base.length + 1 := by
  obtain ⟨frame, isSuffix, -⟩ := rests.suffix_settle
  exact isSuffix.length_le

end Rests

namespace Session

/-- Whether the open scopes are those of another state with its waiting chains closed, and the
current block is the same. -/
structure Balanced (entry after : Session) : Prop where
  scopes : after.scopes = entry.settle.scopes
  current : after.current = entry.current

variable {entry start last after : Session} {own : Frame}

/-- A new scope stands right above the others. -/
theorem scopes_opened (placed : entry.Placed) {kinds : List BlockKind} {instr : Instruction}
    {frame : Frame} {inner : BlockId} (accepted : entry.settle.accepts false)
    (isStart : start = entry.settle.opened kinds instr frame inner) :
    start.scopes = frame :: entry.settle.scopes := by
  have settled := placed.moves (Build.moves_settle entry)
  rw [isStart, opened_eq (settled.outsideSignature accepted)]

/-- The innermost scope stays innermost if it does not wait. -/
theorem scopes_settle {base : List Frame} (isOwn : start.scopes = own :: base)
    (calm : own.isWaiting = false) : start.settle.scopes = own :: base := by
  show start.scopes.dropWhile Frame.isWaiting = own :: base
  rw [isOwn, List.dropWhile_cons_of_neg]
  simp [calm]

/-- To close the scope right above those of the entry leads back to the entry. -/
theorem balanced_of_closed {frame top : Frame} {rest : List Frame}
    (isScopes : last.settle.scopes = frame :: entry.settle.scopes) (like : frame.Like own)
    (inside : own.parent = entry.current) (isTop : last.settle.scopes = top :: rest)
    (isClosed : after = last.settle.closed top.parent) : entry.Balanced after := by
  rw [isScopes] at isTop
  obtain ⟨rfl, rfl⟩ := List.cons.inj isTop
  subst isClosed
  constructor
  · rw [closed, isScopes]
    rfl
  · show frame.parent = entry.current
    rw [like.parent, inside]

/-- To close a scope at rest that is no chain of conditions leads back to the entry. -/
theorem balanced_of_rests {top : Frame} {rest : List Frame}
    (rests : Rests own entry.settle.scopes last.scopes) (isOther : own.kind ≠ .branch)
    (inside : own.parent = entry.current) (isTop : last.settle.scopes = top :: rest)
    (isClosed : after = last.settle.closed top.parent) : entry.Balanced after := by
  obtain ⟨frame, isScopes, like⟩ := rests.settle isOther
  exact balanced_of_closed isScopes like inside isTop isClosed

end Session

namespace Build

variable {entry start last after : Session}

section Outcomes

variable {condition selector : Expr} {yes no body : Build Unit}

/-- A condition succeeds step by step. -/
theorem ifThen_ok_iff :
    ifThen condition yes entry = .ok () after ↔
      ∃ start last, beginIf condition entry = .ok () start ∧ yes start = .ok () last ∧
        endIf last = .ok () after := by
  simp [ifThen, Unique.exists_iff]

/-- A condition and its `else` succeed step by step. -/
theorem ifElse_ok_iff :
    ifElse condition yes no entry = .ok () after ↔
      ∃ start last paused second final, beginIf condition entry = .ok () start ∧
        yes start = .ok () last ∧ endIfSubBlock last = .ok () paused ∧
        beginElse paused = .ok () second ∧ no second = .ok () final ∧
        endIfSubBlock final = .ok () after := by
  simp [ifElse, Unique.exists_iff]

/-- A loop that tests before its body succeeds step by step. -/
theorem whileDo_ok_iff :
    whileDo condition body entry = .ok () after ↔
      ∃ start last, beginWhile condition entry = .ok () start ∧ body start = .ok () last ∧
        endWhile last = .ok () after := by
  simp [whileDo, Unique.exists_iff]

/-- A loop with clauses succeeds step by step. -/
theorem forDo_ok_iff {clauses : ForClauses} :
    forDo clauses body entry = .ok () after ↔
      ∃ start last, beginForClauses clauses entry = .ok () start ∧ body start = .ok () last ∧
        endFor last = .ok () after := by
  simp [forDo, Unique.exists_iff]

/-- One case of a switch: its label, and what runs in it. -/
def runCase (case : Option Literal × Script Unit) : Build Unit := do
  addCase case.1
  case.2.run

/-- A switch succeeds step by step. -/
theorem switchOn_ok_iff {cases : List (Option Literal × Script Unit)} :
    switchOn selector (cases.map fun (label, body) => (label, body.run)) entry =
        .ok () after ↔
      ∃ start last, beginSwitch selector entry = .ok () start ∧
        forM cases runCase start = .ok () last ∧ endSwitch last = .ok () after := by
  simp [switchOn, Unique.exists_iff]
  rfl

/-- The parameters of a function are declared one by one. -/
def declareParams (params : List Param) : Build (List VarId) :=
  params.mapM fun param => declareParam param.ty (some param.name) param.qualifier

/-- A function succeeds step by step. -/
theorem function_ok_iff {name : String} {returns : Ty} {params : List Param}
    {content : List VarId → Build Unit} {var : VarId} :
    function name returns params content entry = .ok var after ↔
      ∃ opened started vars ready last, beginFunc name returns entry = .ok var opened ∧
        nextOverload (params.map (·.ty)) opened = .ok () started ∧
        declareParams params started = .ok vars ready ∧ content vars ready = .ok () last ∧
        endFunc last = .ok () after := by
  simp [function, beginFuncWith, declareParams, Unique.exists_iff]

end Outcomes

section Conditions

variable {condition : Expr} {yes no : Script Unit} {paused second final : Session}

/-- A condition that runs something tidy is balanced exactly if nothing is left above its own
chain, for it closes the innermost. -/
theorem balanced_ifThen_iff (placed : entry.Placed)
    (began : beginIf condition entry = .ok () start) (tidy : yes.Tidy start)
    (ran : yes.run start = .ok () last) (ended : endIf last = .ok () after) :
    entry.Balanced after ↔ last.depth = start.depth := by
  have startPlaced := placed.moves (moves_beginIf began)
  obtain ⟨-, accepted, isStart⟩ := beginIf_ok_iff.mp began
  have isOwn := Session.scopes_opened placed accepted isStart
  obtain ⟨moves, above, frame, isScopes, like, -⟩ := tidy.rests startPlaced isOwn ran
  obtain ⟨-, site, parent, waiting, rest, isTop, isClosed⟩ := endIf_ok_iff.mp ended
  have isAfter : after.scopes = rest := by rw [isClosed, Session.closed, isTop]; rfl
  rw [Session.depth, Session.depth, isOwn]
  cases above with
  | nil =>
    rw [isScopes] at isTop
    obtain ⟨rfl, rfl⟩ := List.cons.inj isTop
    have isCurrent : after.current = entry.current := by
      have stacking := (startPlaced.moves moves).stacking
      rw [isScopes] at stacking
      obtain ⟨-, ⟨instr, -, holds⟩, -⟩ := stacking
      have inside : parent = entry.current := like.parent
      rw [isClosed, ← inside]
      cases waiting with
      | false => rfl
      | true => exact holds.eq_parent rfl
    simp only [isScopes, List.nil_append, List.length_cons, iff_true]
    exact ⟨isAfter, isCurrent⟩
  | cons first above =>
    rw [isScopes] at isTop
    obtain ⟨rfl, rfl⟩ := List.cons.inj isTop
    have longer : entry.settle.scopes.length < after.scopes.length := by
      rw [isAfter]
      simp
      omega
    have isLong : last.scopes.length ≠ (entry.settle.scopes.length + 1) := by
      rw [isScopes]
      simp
      omega
    constructor
    · intro balanced
      rw [balanced.scopes] at longer
      exact absurd longer (Nat.lt_irrefl _)
    · exact fun same => absurd same isLong

/-- Where no more scopes are left than there were, closing a case leaves fewer, or a chain that
waits. -/
theorem not_balanced_of_length_le (short : last.settle.scopes.length ≤ entry.settle.scopes.length)
    (ended : endIfSubBlock last = .ok () after) : ¬entry.Balanced after := by
  intro balanced
  obtain ⟨-, site, parent, rest, cases, isTop, -, isAfter⟩ := endIfSubBlock_ok_iff.mp ended
  have isScopes := balanced.scopes
  rw [isTop] at short
  split at isAfter
  · rw [isAfter, Session.closed, isTop] at isScopes
    rw [← isScopes] at short
    exact absurd short (Nat.not_succ_le_self _)
  · rw [isAfter, Session.entered] at isScopes
    have settled := congrArg Session.scopes entry.settle_settle
    change entry.settle.scopes.dropWhile Frame.isWaiting = _ at settled
    rw [← isScopes] at settled
    have waiting := List.dropWhile_eq_self_iff.mp settled (Nat.succ_pos _)
    simp [Frame.isWaiting] at waiting

/-- The chain that a case is added to keeps its place. -/
theorem scopes_beginElse (ran : beginElse start = .ok () after) :
    ∃ site parent waiting rest, start.scopes = .branch site parent waiting :: rest ∧
      after.scopes = .branch site parent false :: rest ∧ after.Sealed site := by
  obtain ⟨-, ran⟩ := beginElse_ok_iff.mp ran
  obtain ⟨site, parent, waiting, rest, cases, isTop, isAt, -, -, rfl⟩ := addIfCase_ok_iff.mp ran
  refine ⟨site, parent, waiting, rest, isTop, ?_, cases ++ [⟨none, start.tree.next⟩], ?_, ?_⟩
  · rw [Session.grown, isTop]
    rfl
  · rw [Session.grown, Frame.site, Tree.instruction?_amend, if_pos rfl,
      Tree.instruction?_addBlocks, isAt]
    rfl
  · simp [endsInElse]

/-- Once the `else` is begun on the helper's own chain, the helper is balanced. -/
theorem balanced_of_sealed {own : Frame} (placed : second.Placed)
    (isOwn : second.scopes = own :: entry.settle.scopes) (inside : own.parent = entry.current)
    (isSealed : second.Sealed own.site) (tidy : no.Tidy second)
    (ran : no.run second = .ok () final) (ended : endIfSubBlock final = .ok () after) :
    entry.Balanced after := by
  obtain ⟨moves, rests⟩ := tidy.rests placed isOwn ran
  obtain ⟨cases, isAt, ends⟩ := isSealed.moves placed moves
  obtain ⟨frame, isSettled, like⟩ := rests.settle_of_calm fun frame isFrame like => by
    obtain ⟨-, instr, found, fits⟩ := (placed.moves moves).stacking.instruction isFrame
    rw [like.site, isAt] at found
    obtain rfl := Option.some.inj found
    exact fits.calm_of_ends ends
  obtain ⟨-, site, parent, rest, others, isTop, found, isAfter⟩ := endIfSubBlock_ok_iff.mp ended
  have isSite : site = own.site := by
    rw [isSettled] at isTop
    obtain ⟨rfl, -⟩ := List.cons.inj isTop
    exact like.site
  rw [isSite, isAt] at found
  obtain rfl := Instruction.branch.inj (Option.some.inj found)
  rw [if_pos ends] at isAfter
  exact Session.balanced_of_closed isSettled like inside isTop isAfter

/-- Closing a case opens no scope. -/
theorem length_endIfSubBlock_le (ended : endIfSubBlock last = .ok () paused) :
    paused.scopes.length ≤ last.settle.scopes.length := by
  obtain ⟨-, site, parent, rest, cases, isTop, -, rfl⟩ := endIfSubBlock_ok_iff.mp ended
  split
  · rw [Session.closed, isTop]
    exact Nat.le_succ _
  · rw [Session.entered, isTop]
    exact Nat.le_refl _

/-- Where the `else` is begun on a chain that was open before the helper, the helper is not
balanced. -/
theorem not_balanced_of_short (placed : second.Placed)
    (short : paused.scopes.length ≤ entry.settle.scopes.length)
    (continued : beginElse paused = .ok () second) (tidy : no.Tidy second)
    (ran : no.run second = .ok () final) (ended : endIfSubBlock final = .ok () after) :
    ¬entry.Balanced after := by
  obtain ⟨site, parent, waiting, rest, isTop, isOwn, -⟩ := scopes_beginElse continued
  obtain ⟨-, rests⟩ := tidy.rests placed isOwn ran
  rw [isTop] at short
  exact not_balanced_of_length_le (rests.length_settle_le.trans short) ended

/-- A condition with an `else` that runs something tidy in both its cases is balanced exactly if
the first leaves the helper's own chain innermost and without an `else`. -/
theorem balanced_ifElse_iff (placed : entry.Placed)
    (began : beginIf condition entry = .ok () start) (tidyYes : yes.Tidy start)
    (ranYes : yes.run start = .ok () last) (ended : endIfSubBlock last = .ok () paused)
    (continued : beginElse paused = .ok () second) (tidyNo : no.Tidy second)
    (ranNo : no.run second = .ok () final) (endedToo : endIfSubBlock final = .ok () after) :
    entry.Balanced after ↔ last.settle.depth = start.depth ∧ ¬last.Sealed entry.site := by
  have startPlaced := placed.moves (moves_beginIf began)
  obtain ⟨-, accepted, isStart⟩ := beginIf_ok_iff.mp began
  have isOwn := Session.scopes_opened placed accepted isStart
  obtain ⟨moves, rests⟩ := tidyYes.rests startPlaced isOwn ranYes
  have secondPlaced : second.Placed :=
    ((startPlaced.moves moves).moves (moves_endIfSubBlock ended)).moves
      (moves_addIfCase (beginElse_ok_iff.mp continued).2)
  have isDepth : start.depth = entry.settle.scopes.length + 1 := by rw [Session.depth, isOwn]; rfl
  have unbalanced (short : paused.scopes.length ≤ entry.settle.scopes.length) :=
    not_balanced_of_short secondPlaced short continued tidyNo ranNo endedToo
  obtain ⟨-, site, parent, rest, cases, isTop, isAt, isPaused⟩ := endIfSubBlock_ok_iff.mp ended
  by_cases deep : last.settle.depth = start.depth
  · -- The helper's own chain is innermost, so it is the one whose case is closed.
    obtain ⟨frame, isSettled, like⟩ := rests.settle_of_length (deep.trans isDepth)
    rw [isTop] at isSettled
    obtain ⟨rfl, rfl⟩ := List.cons.inj isSettled
    have isSite : site = entry.site := like.site
    by_cases isSealed : last.Sealed entry.site
    · -- It has its `else` already: it is closed for good, and the next one goes to a chain around.
      refine iff_of_false (unbalanced ?_) fun spared => spared.2 isSealed
      obtain ⟨others, found, ends⟩ := isSealed
      rw [← isSite, isAt] at found
      cases found
      rw [if_pos ends] at isPaused
      rw [isPaused, Session.closed, isTop]
      exact Nat.le_refl _
    · refine iff_of_true ?_ ⟨deep, isSealed⟩
      have openEnded : ¬endsInElse cases := fun ends => isSealed ⟨cases, isSite ▸ isAt, ends⟩
      rw [if_neg openEnded] at isPaused
      obtain ⟨_, _, _, _, isTopToo, isSecond, isSealed⟩ := scopes_beginElse continued
      rw [isPaused, Session.entered, isTop] at isTopToo
      cases isTopToo
      exact balanced_of_sealed secondPlaced isSecond like.parent isSealed tidyNo ranNo endedToo
  · -- It waits and was closed with the chains that do, so a case of a chain around was closed.
    refine iff_of_false (unbalanced ?_) fun spared => deep spared.1
    have atMost := rests.length_settle_le
    have fewer := length_endIfSubBlock_le ended
    change last.settle.scopes.length ≠ _ at deep
    omega

end Conditions

section Loops

variable {condition : Expr} {clauses : ForClauses} {body : Script Unit}

/-- A loop that tests before its body is balanced if what runs in it is tidy. -/
theorem balanced_whileDo (placed : entry.Placed)
    (began : beginWhile condition entry = .ok () start) (tidy : body.Tidy start)
    (ran : body.run start = .ok () last) (ended : endWhile last = .ok () after) :
    entry.Balanced after := by
  obtain ⟨-, accepted, isStart⟩ := beginWhile_ok_iff.mp began
  have isOwn := Session.scopes_opened placed accepted isStart
  obtain ⟨-, rests⟩ := tidy.rests (placed.moves (moves_beginWhile began)) isOwn ran
  obtain ⟨-, site, parent, rest, isTop, isAfter⟩ := endWhile_ok_iff.mp ended
  exact Session.balanced_of_rests rests nofun rfl isTop isAfter

/-- A loop with clauses is balanced if what runs in it is tidy. -/
theorem balanced_forDo (placed : entry.Placed)
    (began : beginForClauses clauses entry = .ok () start) (tidy : body.Tidy start)
    (ran : body.run start = .ok () last) (ended : endFor last = .ok () after) :
    entry.Balanced after := by
  obtain ⟨-, accepted, isStart⟩ := beginForClauses_ok_iff.mp began
  have isOwn := Session.scopes_opened placed accepted isStart
  obtain ⟨-, rests⟩ := tidy.rests (placed.moves (moves_beginForClauses began)) isOwn ran
  obtain ⟨-, site, parent, args, inner, rest, isTop, isAfter⟩ := endFor_ok_iff.mp ended
  exact Session.balanced_of_rests rests nofun rfl isTop isAfter

end Loops

section Switch

variable {selector : Expr} {own : Frame} {base : List Frame}

/-- Whether what runs in each case of a switch is tidy, where it runs. -/
def TidyCases : List (Option Literal × Script Unit) → Session → Prop
  | [], _ => True
  | (label, body) :: cases, s => ∀ start, addCase label s = .ok () start → body.Tidy start ∧
    ∀ last, body.run start = .ok () last → TidyCases cases last

/-- The cases of a switch leave it right above the scopes it was opened on. -/
theorem rests_cases (isSwitch : own.kind = .switch)
    {cases : List (Option Literal × Script Unit)} (placed : start.Placed)
    (rests : Rests own base start.scopes) (tidy : TidyCases cases start)
    (ran : forM cases runCase start = .ok () last) : Rests own base last.scopes := by
  induction cases generalizing start with
  | nil =>
    obtain ⟨-, rfl⟩ := pure_ok_iff.mp ran
    exact rests
  | cons case cases ih =>
    obtain ⟨label, body⟩ := case
    obtain ⟨_, middle, ranCase, ran⟩ := bind_ok_iff.mp ran
    obtain ⟨_, inside, added, ranCase⟩ := bind_ok_iff.mp ranCase
    obtain ⟨tidyBody, tidyRest⟩ := tidy inside added
    -- A label closes the chains that wait, so the switch is innermost again.
    obtain ⟨frame, isScopes, like⟩ := rests.settle (by simp [isSwitch])
    obtain ⟨-, site, parent, openCase, rest, isTop, -, isInside⟩ := addCase_ok_iff.mp added
    rw [isTop] at isScopes
    obtain ⟨rfl, rfl⟩ := List.cons.inj isScopes
    have isOwn : inside.scopes = .switch site parent (some start.tree.next) :: rest := by
      rw [isInside, Session.grown, isTop]
      rfl
    have insidePlaced := placed.moves (moves_addCase added)
    obtain ⟨moves, rests⟩ := tidyBody.rests insidePlaced isOwn ranCase
    exact ih (insidePlaced.moves moves) (rests.like ⟨like.site, like.parent, like.kind⟩)
      (tidyRest middle ranCase) ran

/-- A switch is balanced if what runs in each of its cases is tidy. -/
theorem balanced_switchOn {cases : List (Option Literal × Script Unit)} (placed : entry.Placed)
    (began : beginSwitch selector entry = .ok () start) (tidy : TidyCases cases start)
    (ran : forM cases runCase start = .ok () last) (ended : endSwitch last = .ok () after) :
    entry.Balanced after := by
  obtain ⟨-, accepted, isStart⟩ := beginSwitch_ok_iff.mp began
  have isOwn := Session.scopes_opened placed accepted isStart
  have rests : Rests _ _ start.scopes := ⟨[], _, isOwn, .refl _, by simp⟩
  have rests := rests_cases rfl (placed.moves (moves_beginSwitch began)) rests tidy ran
  obtain ⟨-, site, parent, openCase, rest, isTop, isAfter⟩ := endSwitch_ok_iff.mp ended
  exact Session.balanced_of_rests rests nofun rfl isTop isAfter

end Switch

section Function

variable {name : String} {returns : Ty} {params : List Param} {body : Script Unit} {var : VarId}
  {vars : List VarId} {own : Frame} {base : List Frame}
  {opened started ready : Session}

/-- A value is pushed inside the scope that is innermost. -/
theorem scopes_emit {spec : ValueSpec} (isOwn : start.scopes = own :: base)
    (calm : own.isWaiting = false) (ran : emit spec start = .ok var after) :
    ∃ new, after.scopes = new :: base ∧ new.Like own := by
  obtain ⟨-, ran⟩ := emit_ok_iff.mp ran
  obtain ⟨-, registry, -, appended, -⟩ := emitValue_ok_iff.mp ran
  obtain ⟨-, ready, noted, rfl⟩ := append_ok_iff.mp appended
  obtain ⟨changed, rfl⟩ := noted_eq noted
  refine Session.scopes_commit ?_ _ _
  exact Session.scopes_settle isOwn calm

/-- The parameters of a function are declared inside it. -/
theorem scopes_declareParams (placed : start.Placed) (isOwn : start.scopes = own :: base)
    (isFunction : own.kind = .function) (ran : declareParams params start = .ok vars last) :
    last.Placed ∧ ∃ new, last.scopes = new :: base ∧ new.Like own := by
  induction params generalizing start own vars with
  | nil =>
    obtain ⟨-, rfl⟩ := pure_ok_iff.mp ran
    exact ⟨placed, own, isOwn, .refl own⟩
  | cons param params ih =>
    rw [declareParams, List.mapM_cons] at ran
    obtain ⟨first, middle, declared, ran⟩ := bind_ok_iff.mp ran
    obtain ⟨others, final, ran, made⟩ := bind_ok_iff.mp ran
    obtain ⟨-, rfl⟩ := pure_ok_iff.mp made
    have calm : own.isWaiting = false := Frame.isWaiting_of_kind (by simp [isFunction])
    obtain ⟨new, isNew, like⟩ := scopes_emit isOwn calm declared
    obtain ⟨lastPlaced, top, isTop, likeToo⟩ :=
      ih (placed.moves (moves_emit declared)) isNew (like.kind.trans isFunction) ran
    exact ⟨lastPlaced, top, isTop, likeToo.trans like⟩

/-- A new function stands right above the other scopes. -/
theorem scopes_beginFunc (placed : entry.Placed)
    (began : beginFunc name returns entry = .ok var opened) :
    opened.scopes =
      .function entry.site entry.current entry.registry.next none :: entry.settle.scopes := by
  obtain ⟨-, -, accepted, registry, -, rfl, -⟩ := beginFunc_ok_iff.mp began
  have settled := (placed.moves (moves_settle entry)).register registry
  rw [Session.opened_eq (settled.outsideSignature accepted)]

/-- An overload is opened inside the scope that is innermost. -/
theorem scopes_nextOverload {types : List Ty} (isOwn : start.settle.scopes = own :: base)
    (ran : nextOverload types start = .ok () after) :
    ∃ new, after.scopes = new :: base ∧ new.Like own := by
  obtain ⟨-, site, parent, var, overload, rest, decl, isTop, -, -, rfl⟩ :=
    nextOverload_ok_iff.mp ran
  rw [isTop] at isOwn
  obtain ⟨rfl, rfl⟩ := List.cons.inj isOwn
  rw [Session.grown, isTop]
  exact ⟨_, rfl, rfl, rfl, rfl⟩

/-- A function is balanced if what runs in it is tidy. -/
theorem balanced_function (placed : entry.Placed)
    (began : beginFunc name returns entry = .ok var opened)
    (overloaded : nextOverload (params.map (·.ty)) opened = .ok () started)
    (declared : declareParams params started = .ok vars ready) (tidy : body.Tidy ready)
    (ran : body.run ready = .ok () last) (ended : endFunc last = .ok () after) :
    entry.Balanced after := by
  have startedPlaced :=
    (placed.moves (moves_beginFunc began)).moves (moves_nextOverload overloaded)
  have isOwn := scopes_beginFunc placed began
  obtain ⟨inner, isInner, like⟩ := scopes_nextOverload (Session.scopes_settle isOwn rfl) overloaded
  obtain ⟨readyPlaced, top, isReady, likeToo⟩ :=
    scopes_declareParams startedPlaced isInner like.kind declared
  have like := likeToo.trans like
  obtain ⟨-, rests⟩ := tidy.rests readyPlaced isReady ran
  obtain ⟨-, _, _, _, _, _, isLast, -, isAfter⟩ := endFunc_ok_iff.mp ended
  exact Session.balanced_of_rests rests (like.kind ▸ nofun) like.parent isLast isAfter

end Function

end Build

namespace Helper

/-- Whether what runs inside a helper is tidy, each where it runs. -/
def Tidy (entry : Session) : Helper → Prop
  | .ifThen condition yes =>
    ∀ start, Build.beginIf condition entry = .ok () start → yes.Tidy start
  | .ifElse condition yes no =>
    ∀ start, Build.beginIf condition entry = .ok () start → yes.Tidy start ∧
      ∀ last paused second, yes.run start = .ok () last →
        Build.endIfSubBlock last = .ok () paused → Build.beginElse paused = .ok () second →
        no.Tidy second
  | .whileDo condition body =>
    ∀ start, Build.beginWhile condition entry = .ok () start → body.Tidy start
  | .forDo clauses body =>
    ∀ start, Build.beginForClauses clauses entry = .ok () start → body.Tidy start
  | .switchOn selector cases =>
    ∀ start, Build.beginSwitch selector entry = .ok () start → Build.TidyCases cases start
  | .function name returns params body =>
    ∀ var opened started vars start, Build.beginFunc name returns entry = .ok var opened →
      Build.nextOverload (params.map (·.ty)) opened = .ok () started →
      Build.declareParams params started = .ok vars start → (body vars).Tidy start

/-- Whether the first case of a condition leaves the condition's own chain innermost, and one that
gets an `else` from the helper without one. -/
def Spared (entry : Session) : Helper → Prop
  | .ifThen condition yes =>
    ∀ start, Build.beginIf condition entry = .ok () start →
      ∀ last, yes.run start = .ok () last → last.depth = start.depth
  | .ifElse condition yes _ =>
    ∀ start, Build.beginIf condition entry = .ok () start →
      ∀ last, yes.run start = .ok () last →
        last.settle.depth = start.depth ∧ ¬last.Sealed entry.site
  | _ => True

/-- A helper whose parts are tidy ends where it began, the loops, the switch and the function
always, and the conditions exactly if their first case spares their own chain. -/
theorem balanced_iff_spared {options : BuildOptions} {calls : List Call} {helper : Helper}
    {reply : Reply} {after : Session} (sane : (Session.reached options calls).failure = none)
    (tidy : helper.Tidy (Session.reached options calls))
    (ran : helper.run (Session.reached options calls) = .ok reply after) :
    (Session.reached options calls).Balanced after ↔
      helper.Spared (Session.reached options calls) := by
  have placed := Session.placed_reached options calls sane
  generalize Session.reached options calls = entry at *
  cases helper with
  | ifThen condition yes =>
    obtain ⟨_, ran, -⟩ := Build.map_ok_iff.mp ran
    obtain ⟨start, last, began, ranYes, ended⟩ := Build.ifThen_ok_iff.mp ran
    rw [Build.balanced_ifThen_iff placed began (tidy start began) ranYes ended]
    simp [Spared, began, ranYes]
  | ifElse condition yes no =>
    obtain ⟨_, ran, -⟩ := Build.map_ok_iff.mp ran
    obtain ⟨start, last, paused, second, final, began, ranYes, ended, continued, ranNo, endedToo⟩ :=
      Build.ifElse_ok_iff.mp ran
    obtain ⟨tidyYes, tidyNo⟩ := tidy start began
    have tidyNo := tidyNo last paused second ranYes ended continued
    rw [Build.balanced_ifElse_iff placed began tidyYes ranYes ended continued tidyNo ranNo endedToo]
    simp [Spared, began, ranYes]
  | whileDo condition body =>
    obtain ⟨_, ran, -⟩ := Build.map_ok_iff.mp ran
    obtain ⟨start, last, began, ranBody, ended⟩ := Build.whileDo_ok_iff.mp ran
    have balanced := Build.balanced_whileDo placed began (tidy start began) ranBody ended
    exact iff_of_true balanced trivial
  | forDo clauses body =>
    obtain ⟨_, ran, -⟩ := Build.map_ok_iff.mp ran
    obtain ⟨start, last, began, ranBody, ended⟩ := Build.forDo_ok_iff.mp ran
    have balanced := Build.balanced_forDo placed began (tidy start began) ranBody ended
    exact iff_of_true balanced trivial
  | switchOn selector cases =>
    obtain ⟨_, ran, -⟩ := Build.map_ok_iff.mp ran
    obtain ⟨start, last, began, ranCases, ended⟩ := Build.switchOn_ok_iff.mp ran
    have balanced := Build.balanced_switchOn placed began (tidy start began) ranCases ended
    exact iff_of_true balanced trivial
  | function name returns params body =>
    obtain ⟨var, ran, -⟩ := Build.map_ok_iff.mp ran
    obtain ⟨opened, started, vars, ready, last, began, overloaded, declared, ranBody, ended⟩ :=
      Build.function_ok_iff.mp ran
    have tidyBody := tidy var opened started vars ready began overloaded declared
    have balanced :=
      Build.balanced_function placed began overloaded declared tidyBody ranBody ended
    exact iff_of_true balanced trivial

/-- What begins a chain of conditions and leaves it waiting. -/
def leaveWaiting : Script Unit := do
  let _ ← .make (.beginIf (.literal (.bool true)))
  let _ ← .make .endIfSubBlock

section

variable {start last : Session}

/-- To begin a condition first leads to one state. -/
theorem start_of_began
    (began : Build.beginIf (.literal (.bool true)) (.reached .standard []) = .ok () start) :
    (Session.start .standard).step (.beginIf (.literal (.bool true))) = start := by
  cases began
  rfl

/-- It is tidy to leave a chain waiting inside a condition. -/
theorem tidy_leaveWaiting
    (began : Build.beginIf (.literal (.bool true)) (.reached .standard []) = .ok () start) :
    leaveWaiting.Tidy start := by
  obtain rfl := start_of_began began
  constructor
  · intro calls isPrefix
    rw [← List.mem_inits] at isPrefix
    revert calls
    decide
  · exact ⟨[_], [_], rfl, by simp [Frame.isWaiting], rfl⟩

/-- It is tidy to do nothing. -/
theorem tidy_done : (Script.done ()).Tidy start where
  stays calls isPrefix := by
    rw [List.prefix_nil.mp isPrefix]
    exact List.suffix_rfl
  leaves := ⟨[], start.scopes, rfl, by simp, rfl⟩

end

/-- A condition that leaves a chain waiting in its first case, and goes on with its `else`, ends
where it began. -/
theorem balanced_iff_spared_else :
    ∃ after, (ifElse (.literal (.bool true)) leaveWaiting (.done ())).run
        (.reached .standard []) = .ok .done after ∧
      (Session.reached .standard []).Balanced after := by
  have tidy : (ifElse (.literal (.bool true)) leaveWaiting (.done ())).Tidy
      (.reached .standard []) :=
    fun start began => ⟨tidy_leaveWaiting began, fun _ _ _ _ _ _ => tidy_done⟩
  refine ⟨_, rfl, (balanced_iff_spared rfl tidy rfl).mpr fun start began last ran => ?_⟩
  obtain rfl := start_of_began began
  cases ran
  refine ⟨rfl, ?_⟩
  rintro ⟨cases, isAt, ends⟩
  cases isAt
  cases ends

/-- A condition that leaves a chain waiting and has no `else` closes that chain in place of its
own, which stays open. -/
theorem not_balanced_ifThen :
    (ifThen (.literal (.bool true)) leaveWaiting).Tidy (.reached .standard []) ∧
      ∃ after, (ifThen (.literal (.bool true)) leaveWaiting).run (.reached .standard []) =
          .ok .done after ∧
        ¬(Session.reached .standard []).Balanced after := by
  refine ⟨fun start => tidy_leaveWaiting, _, rfl, fun balanced => ?_⟩
  cases balanced.scopes

end Helper

end ShaderLoom
