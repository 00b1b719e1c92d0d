import ShaderLoom.Proofs.Cursor

/-!
# Who owns a block

Every block but the main one belongs to one slot of one instruction, and that instruction stands in
the block's parent (`Tree.Linked`). The one way in which a build changes its tree keeps this
(`Tree.Linked.extend`). No function stands inside a function, for the build can only be inside one
while its scope is open; and what is still missing from a loop or a function is missing only while
its scope is open, so nothing is missing from a finished shader.
-/
namespace ShaderLoom

/-- A chain of conditions misses nothing while it waits. -/
theorem Frame.Fits.complete_of_waiting {frame : Frame} {instr : Instruction}
    (fits : frame.Fits instr) (waiting : frame.isWaiting) : instr.Complete := by
  cases frame with
  | branch site parent isWaiting =>
    obtain ⟨cases, rfl, -⟩ := fits_branch_iff.mp fits
    trivial
  | _ => cases waiting

namespace Tree

/-- Blocks are numbered in order, parents come before their children, and slots and blocks other
than the main one correspond. -/
structure Linked (tree : Tree) : Prop where
  numbered : tree.Numbered
  rooted : 0 < tree.size
  root : tree.parent? .root = none
  parents : ∀ id, 0 < id.index → id.index < tree.size →
    ∃ parent, tree.parent? id = some parent ∧ parent.index < id.index
  slots : ∀ site, ∀ id ∈ tree.slotsAt site,
    0 < id.index ∧ id.index < tree.size ∧ tree.parent? id = some site.block
  owned : ∀ id, 0 < id.index → id.index < tree.size → ∃ site, id ∈ tree.slotsAt site
  apart : ∀ first second id, id ∈ tree.slotsAt first → id ∈ tree.slotsAt second →
    first = second
  nodup : ∀ site, (tree.slotsAt site).Nodup

variable {tree after : Tree} {site : Address} {instr : Instruction} {count : Nat}

/-- The slots of a grown tree are those of the tree before and the new blocks. -/
theorem Extends.slotsAt_eq (extended : tree.Extends after site instr count) (other : Address) :
    after.slotsAt other =
      if other = site then tree.slotsAt site ++ tree.fresh count else tree.slotsAt other := by
  rw [slotsAt, extended.instruction]
  by_cases here : other = site
  · rw [if_pos here, if_pos here, ← extended.slots]
    rfl
  · rw [if_neg here, if_neg here]
    rfl

/-- A slot of a grown tree was there before or is new and belongs to the amended instruction. -/
theorem Extends.mem_slotsAt (extended : tree.Extends after site instr count) {other : Address}
    {id : BlockId} :
    id ∈ after.slotsAt other ↔ id ∈ tree.slotsAt other ∨ other = site ∧ id ∈ tree.fresh count := by
  rw [extended.slotsAt_eq]
  by_cases here : other = site
  · rw [if_pos here, List.mem_append, here]
    simp
  · rw [if_neg here]
    simp [here]

/-- A block that was there keeps its parent. -/
theorem Extends.parent_of_lt (extended : tree.Extends after site instr count) {id : BlockId}
    (known : id.index < tree.size) : after.parent? id = tree.parent? id := by
  rw [extended.parent, if_neg]
  rw [mem_fresh]
  omega

/-- A new block stands under the amended instruction's block. -/
theorem Extends.parent_of_fresh (extended : tree.Extends after site instr count) {id : BlockId}
    (isNew : id ∈ tree.fresh count) : after.parent? id = some site.block := by
  rw [extended.parent, if_pos isNew]

/-- The way a build changes its tree keeps blocks and slots in correspondence. -/
theorem Linked.extend (linked : tree.Linked) (extended : tree.Extends after site instr count) :
    after.Linked where
  numbered := extended.numbered linked.numbered
  rooted := by
    have := linked.rooted
    rw [extended.size]
    omega
  root := by
    have same : after.parent? .root = tree.parent? .root := extended.parent_of_lt linked.rooted
    rw [same]
    exact linked.root
  parents id positive known := by
    rw [extended.size] at known
    by_cases isOld : id.index < tree.size
    · rw [extended.parent_of_lt isOld]
      exact linked.parents id positive isOld
    · have isNew : id ∈ tree.fresh count := mem_fresh.mpr ⟨Nat.le_of_not_lt isOld, known⟩
      refine ⟨site.block, extended.parent_of_fresh isNew, ?_⟩
      have := extended.known
      omega
  slots other id isSlot := by
    have rooted := linked.rooted
    rw [extended.size]
    obtain isOld | ⟨rfl, isNew⟩ := extended.mem_slotsAt.mp isSlot
    · obtain ⟨positive, known, isParent⟩ := linked.slots other id isOld
      rw [extended.parent_of_lt known]
      exact ⟨positive, by omega, isParent⟩
    · have bounds := mem_fresh.mp isNew
      exact ⟨by omega, bounds.2, extended.parent_of_fresh isNew⟩
  owned id positive known := by
    rw [extended.size] at known
    by_cases isOld : id.index < tree.size
    · obtain ⟨other, isSlot⟩ := linked.owned id positive isOld
      exact ⟨other, extended.mem_slotsAt.mpr (.inl isSlot)⟩
    · have isNew : id ∈ tree.fresh count := mem_fresh.mpr ⟨Nat.le_of_not_lt isOld, known⟩
      exact ⟨site, extended.mem_slotsAt.mpr (.inr ⟨rfl, isNew⟩)⟩
  apart first second id isFirst isSecond := by
    have isOld : ∀ other, id ∈ tree.slotsAt other → id ∉ tree.fresh count := by
      intro other isSlot isNew
      have known := (linked.slots other id isSlot).2.1
      have bounds := mem_fresh.mp isNew
      omega
    obtain old | ⟨rfl, isNew⟩ := extended.mem_slotsAt.mp isFirst
    · obtain old' | ⟨rfl, isNew⟩ := extended.mem_slotsAt.mp isSecond
      · exact linked.apart first second id old old'
      · exact absurd isNew (isOld first old)
    · obtain old | ⟨rfl, -⟩ := extended.mem_slotsAt.mp isSecond
      · exact absurd isNew (isOld second old)
      · rfl
  nodup other := by
    rw [extended.slotsAt_eq]
    by_cases here : other = site
    · rw [if_pos here, List.nodup_append']
      refine ⟨linked.nodup site, tree.nodup_fresh count, ?_⟩
      intro id isSlot isNew
      have known := (linked.slots site id isSlot).2.1
      have bounds := mem_fresh.mp isNew
      omega
    · rw [if_neg here]
      exact linked.nodup other

/-- The tree every build starts with has no block but the main one. -/
theorem linked_empty : empty.Linked where
  numbered id block found := by
    obtain ⟨index⟩ := id
    cases index with
    | zero =>
      obtain rfl := Option.some.inj found
      rfl
    | succ index => simp [block?, empty] at found
  rooted := Nat.one_pos
  root := rfl
  parents id positive known := absurd known (Nat.not_lt.mpr positive)
  slots site id isSlot := by
    rw [slotsAt, instruction?_empty] at isSlot
    cases isSlot
  owned id positive known := absurd known (Nat.not_lt.mpr positive)
  apart first second id isFirst _ := by
    rw [slotsAt, instruction?_empty] at isFirst
    cases isFirst
  nodup site := by
    rw [slotsAt, instruction?_empty]
    exact List.nodup_nil

/-- Whether a block is `outer` or lies inside it. -/
inductive Inside (tree : Tree) (outer : BlockId) : BlockId → Prop where
  | here : tree.Inside outer outer
  | under {id parent : BlockId} : tree.parent? id = some parent → tree.Inside outer parent →
    tree.Inside outer id

/-- A parent comes before its child. -/
theorem Linked.parent_lt (linked : tree.Linked) {id parent : BlockId}
    (isParent : tree.parent? id = some parent) :
    parent.index < id.index ∧ id.index < tree.size := by
  have known : id.index < tree.size := by
    by_contra unknown
    have absent : tree.block? id = none := block?_eq_none_iff.mpr (Nat.le_of_not_lt unknown)
    simp [parent?, absent] at isParent
  obtain ⟨index⟩ := id
  cases index with
  | zero =>
    rw [show (⟨0⟩ : BlockId) = .root from rfl, linked.root] at isParent
    cases isParent
  | succ index =>
    obtain ⟨other, isOther, before⟩ := linked.parents ⟨index + 1⟩ (Nat.succ_pos index) known
    rw [isParent] at isOther
    obtain rfl := Option.some.inj isOther
    exact ⟨before, known⟩

/-- A new block is nobody's parent yet. -/
theorem Linked.extend_parent_lt (linked : tree.Linked)
    (extended : tree.Extends after site instr count) {id parent : BlockId}
    (isParent : after.parent? id = some parent) : parent.index < tree.size := by
  by_cases isNew : id ∈ tree.fresh count
  · rw [extended.parent_of_fresh isNew] at isParent
    rw [← Option.some.inj isParent]
    exact extended.known
  · rw [extended.parent, if_neg isNew] at isParent
    have := linked.parent_lt isParent
    omega

/-- Blocks that were there lie inside one another as before. -/
theorem Inside.of_extend (linked : tree.Linked) (extended : tree.Extends after site instr count)
    {outer id : BlockId} (inside : after.Inside outer id) (known : id.index < tree.size) :
    tree.Inside outer id := by
  induction inside with
  | here => exact .here
  | under isParent _ ih =>
    refine .under ?_ (ih (linked.extend_parent_lt extended isParent))
    rw [← extended.parent_of_lt known]
    exact isParent

/-- Nothing lies inside a new block but itself. -/
theorem Inside.eq_of_fresh (linked : tree.Linked)
    (extended : tree.Extends after site instr count) {outer id : BlockId}
    (inside : after.Inside outer id) (isNew : outer ∈ tree.fresh count) : id = outer := by
  induction inside with
  | here => rfl
  | under isParent _ ih =>
    have known := linked.extend_parent_lt extended isParent
    have bounds := mem_fresh.mp isNew
    rw [ih] at known
    omega

/-- No function stands inside a slot of a function. -/
def Flat (tree : Tree) : Prop :=
  ∀ outer decl, tree.instruction? outer = some (.function decl) →
    ∀ slot ∈ tree.slotsAt outer, ∀ inner other, tree.Inside slot inner.block →
      tree.instruction? inner ≠ some (.function other)

/-- No function comes to stand inside another if one that is pushed stands inside none. -/
theorem Flat.extend (flat : tree.Flat) (linked : tree.Linked)
    (extended : tree.Extends after site instr count)
    (placed : ∀ decl, instr = .function decl →
      (∃ old, tree.instruction? site = some (.function old)) ∨
      tree.slotsAt site = [] ∧ ∀ outer decl, tree.instruction? outer = some (.function decl) →
        ∀ slot ∈ tree.slotsAt outer, ¬tree.Inside slot site.block) : after.Flat := by
  intro outer decl isOuter slot isSlot inner other inside isInner
  rw [extended.instruction] at isOuter isInner
  have known : inner.block.index < tree.size := by
    by_cases here : inner = site
    · rw [here]
      exact extended.known
    · rw [if_neg here] at isInner
      exact known_of_instruction? isInner
  obtain isOld | ⟨-, isNew⟩ := extended.mem_slotsAt.mp isSlot
  · have insideBefore := inside.of_extend linked extended known
    -- Both functions stood where they stand, unless one of them is the pushed one.
    have wasOuter : ∃ old, tree.instruction? outer = some (.function old) := by
      by_cases here : outer = site
      · rw [if_pos here] at isOuter
        obtain was | ⟨noSlots, -⟩ := placed decl (Option.some.inj isOuter)
        · rw [here]
          exact was
        · rw [here, noSlots] at isOld
          cases isOld
      · rw [if_neg here] at isOuter
        exact ⟨decl, isOuter⟩
    obtain ⟨old, wasOuter⟩ := wasOuter
    by_cases here : inner = site
    · rw [if_pos here] at isInner
      rw [here] at insideBefore
      obtain ⟨was, isAt⟩ | ⟨-, outside⟩ := placed other (Option.some.inj isInner)
      · exact flat outer old wasOuter slot isOld site was insideBefore isAt
      · exact outside outer old wasOuter slot isOld insideBefore
    · rw [if_neg here] at isInner
      exact flat outer old wasOuter slot isOld inner other insideBefore isInner
  · have isSlot := inside.eq_of_fresh linked extended isNew
    have bounds := mem_fresh.mp isNew
    rw [isSlot] at known
    omega

/-- While a build stands inside a function, the function's scope is open. -/
theorem Stacks.function_open (linked : tree.Linked) {scopes : List Frame} {block : BlockId}
    (stacking : tree.Stacks scopes block) {outer : Address} {decl : FunctionDecl} {slot : BlockId}
    (isOuter : tree.instruction? outer = some (.function decl))
    (isSlot : slot ∈ tree.slotsAt outer) (inside : tree.Inside slot block) :
    scopes.any Frame.isFunction := by
  induction scopes generalizing block with
  | nil =>
    have isRoot : block = .root := stacking
    subst isRoot
    cases inside with
    | here => exact absurd (linked.slots outer _ isSlot).1 (Nat.lt_irrefl 0)
    | under isParent _ =>
      rw [linked.root] at isParent
      cases isParent
  | cons frame rest ih =>
    obtain ⟨inParent, ⟨instr, isAt, holds⟩, below⟩ := stacking
    rw [List.any_cons, Bool.or_eq_true]
    obtain rfl | isInner := holds.parent_or_slot
    · exact .inr (ih below inside)
    · have isOwned : block ∈ tree.slotsAt frame.site := by
        rw [slotsAt, isAt]
        exact isInner
      cases inside with
      | here =>
        left
        rw [linked.apart _ _ _ isOwned isSlot, isOuter] at isAt
        obtain rfl := Option.some.inj isAt
        have isKind := holds.fits.kind_eq
        cases frame <;> first | rfl | cases isKind
      | under isParent inside =>
        rw [(linked.slots _ _ isOwned).2.2, inParent] at isParent
        obtain rfl := Option.some.inj isParent
        exact .inr (ih below inside)

end Tree

namespace Session

variable {s after : Session}

/-- Counting a parameter opens and closes nothing. -/
@[simp]
theorem commit_sites (s : Session) (block : BlockId) (instr : Instruction) :
    (s.commit block instr).scopes.map Frame.site = s.scopes.map Frame.site := by
  unfold commit countParameter
  split
  case h_1 site parent var overload rest isScopes =>
    have isScopes : s.scopes = .function site parent var (some overload) :: rest := isScopes
    rw [isScopes]
    split <;> simp [Frame.site]
  case h_2 => rfl

/-- The tree of a placed build is as it should be, but for what open scopes still miss. -/
structure Grounded (s : Session) : Prop where
  placed : s.Placed
  linked : s.tree.Linked
  flat : s.tree.Flat
  sound : ∀ site instr, s.tree.instruction? site = some instr → instr.Sound
  complete : ∀ site instr, s.tree.instruction? site = some instr →
    instr.Complete ∨ site ∈ s.scopes.map Frame.site

/-- A change of the scopes keeps the tree, and must leave no instruction incomplete. -/
theorem Grounded.of_tree (grounded : s.Grounded) (placed : after.Placed)
    (same : after.tree = s.tree)
    (complete : ∀ site instr, s.tree.instruction? site = some instr →
      site ∈ s.scopes.map Frame.site →
      instr.Complete ∨ site ∈ after.scopes.map Frame.site) : after.Grounded where
  placed
  linked := same ▸ grounded.linked
  flat := same ▸ grounded.flat
  sound := same ▸ grounded.sound
  complete site instr isAt := by
    rw [same] at isAt
    obtain isComplete | isOpen := grounded.complete site instr isAt
    · exact .inl isComplete
    · exact complete site instr isAt isOpen

/-- A change of the tree leaves a sound instruction, complete or open, and no nested function. -/
theorem Grounded.of_extends (grounded : s.Grounded) (placed : after.Placed) {site : Address}
    {instr : Instruction} {count : Nat} (extended : s.tree.Extends after.tree site instr count)
    (sound : instr.Sound) (complete : instr.Complete ∨ site ∈ after.scopes.map Frame.site)
    (kept : ∀ frame ∈ s.scopes.map Frame.site, frame ∈ after.scopes.map Frame.site)
    (flat : after.tree.Flat) : after.Grounded where
  placed
  linked := grounded.linked.extend extended
  flat
  sound other found isAt := by
    rw [extended.instruction] at isAt
    by_cases here : other = site
    · rw [if_pos here] at isAt
      rw [← Option.some.inj isAt]
      exact sound
    · rw [if_neg here] at isAt
      exact grounded.sound other found isAt
  complete other found isAt := by
    rw [extended.instruction] at isAt
    by_cases here : other = site
    · rw [if_pos here] at isAt
      rw [← Option.some.inj isAt, here]
      exact complete
    · rw [if_neg here] at isAt
      exact (grounded.complete other found isAt).imp_right (kept other)

/-- The instruction of a frame is complete if every instruction that the frame can hold is. -/
theorem Placed.complete_top (placed : s.Placed) {frame : Frame} {rest : List Frame}
    (top : s.scopes = frame :: rest)
    (complete : ∀ instr, s.tree.instruction? frame.site = some instr →
      frame.Holds instr s.current → instr.Complete) :
    ∀ site instr, s.tree.instruction? site = some instr → site ∈ s.scopes.map Frame.site →
      instr.Complete ∨ site ∈ rest.map Frame.site := by
  intro site instr isAt isOpen
  have stacking := placed.stacking
  rw [top] at stacking isOpen
  obtain ⟨-, ⟨found, isFound, holds⟩, -⟩ := stacking
  obtain isSite | isOpen := List.mem_cons.mp isOpen
  · rw [isSite, isFound] at isAt
    obtain rfl := Option.some.inj isAt
    exact .inl (complete found isFound holds)
  · exact .inr isOpen

/-- An appended plain instruction is sound and complete. -/
theorem Grounded.append (grounded : s.Grounded) {instr : Instruction}
    (plain : instr.kind.opens = false) (accepted : s.accepts instr.isParameter) :
    (s.commit s.current instr).Grounded := by
  have extended := grounded.placed.extends_append plain
  refine grounded.of_extends (grounded.placed.append plain accepted) extended ?_ (.inl ?_) ?_ ?_
  · cases instr <;> trivial
  · cases instr <;> trivial
  · rw [commit_sites]
    exact fun _ isOpen => isOpen
  · refine grounded.flat.extend grounded.linked extended ?_
    rintro decl rfl
    cases plain

/-- A function opens only where none is open around it. -/
theorem Grounded.begin (grounded : s.Grounded) {kinds : List BlockKind} {instr : Instruction}
    {frame : Frame} {inner : BlockId} (opens : s.Opens kinds instr frame inner) :
    (s.opened kinds instr frame inner).Grounded := by
  have extended := grounded.placed.extends_begin opens
  have isSites : (s.opened kinds instr frame inner).scopes.map Frame.site =
      s.site :: s.scopes.map Frame.site := by
    rw [opened, List.map_cons, commit_sites, opens.site]
  refine grounded.of_extends (grounded.placed.begin opens) extended opens.sound (.inr ?_) ?_ ?_
  · rw [isSites]
    exact List.mem_cons_self
  · rw [isSites]
    exact fun _ isOpen => List.mem_cons_of_mem _ isOpen
  · refine grounded.flat.extend grounded.linked extended ?_
    rintro decl rfl
    have noSlots : s.tree.slotsAt s.site = [] := by
      rw [Tree.slotsAt, site, Tree.instruction?_length]
      rfl
    refine .inr ⟨noSlots, ?_⟩
    intro outer other isOuter slot isSlot inside
    have isOpen := grounded.placed.stacking.function_open grounded.linked isOuter isSlot inside
    have isFunction : frame.isFunction := by
      have isKind := opens.holds.fits.kind_eq
      cases frame <;> first | rfl | cases isKind
    rw [opens.single isFunction] at isOpen
    cases isOpen

/-- A grown scope is open, and a function that grows was one before. -/
theorem Grounded.grow (grounded : s.Grounded) {kinds : List BlockKind}
    {change : Instruction → Instruction} {old new : Frame} {rest : List Frame} {inner : BlockId}
    (top : s.scopes = old :: rest) (grows : s.Grows kinds change old new inner) :
    (s.grown kinds change new inner).Grounded := by
  obtain ⟨instr, isAt, holds, extended⟩ := grounded.placed.extends_grow top grows
  have isSites : (s.grown kinds change new inner).scopes.map Frame.site =
      s.scopes.map Frame.site := by
    rw [grown, top, List.tail_cons, List.map_cons, List.map_cons, grows.site]
  refine grounded.of_extends (grounded.placed.grow top grows) extended ?_ (.inr ?_) ?_ ?_
  · exact grows.sound instr isAt holds (grounded.sound old.site instr isAt)
  · rw [isSites, top]
    exact List.mem_cons_self
  · rw [isSites]
    exact fun _ isOpen => isOpen
  · refine grounded.flat.extend grounded.linked extended ?_
    intro decl isFunction
    have newKind := (grows.holds instr isAt holds).fits.kind_eq
    have oldKind := holds.fits.kind_eq
    rw [isFunction, grows.kind, ← oldKind] at newKind
    cases instr with
    | function decl => exact .inl ⟨decl, isAt⟩
    | _ => cases newKind

/-- Every move leaves a grounded build grounded. -/
theorem Grounded.move (grounded : s.Grounded) (move : Move s after) : after.Grounded := by
  have placed := grounded.placed.move move
  cases move with
  | register registry => exact grounded.of_tree placed rfl fun _ _ _ isOpen => .inr isOpen
  | settle top waiting =>
    refine grounded.of_tree placed rfl (grounded.placed.complete_top top ?_)
    exact fun _ _ holds => holds.fits.complete_of_waiting waiting
  | append _ plain accepted => exact grounded.append plain accepted
  | begin opens => exact grounded.begin opens
  | grow top grows => exact grounded.grow top grows
  | enter top enters =>
    refine grounded.of_tree placed rfl ?_
    intro site instr _ isOpen
    rw [top, List.map_cons, ← enters.site] at isOpen
    rw [entered, top]
    exact .inr isOpen
  | leave top complete =>
    have remaining := grounded.placed.complete_top top complete
    refine grounded.of_tree placed rfl ?_
    rw [closed, top]
    rw [top] at remaining
    exact remaining

/-- A build is grounded at its start. -/
theorem grounded_start (options : BuildOptions) : (start options).Grounded where
  placed := placed_start options
  linked := Tree.linked_empty
  flat outer decl isOuter := by
    rw [start, Tree.instruction?_empty] at isOuter
    cases isOuter
  sound site instr isAt := by
    rw [start, Tree.instruction?_empty] at isAt
    cases isAt
  complete site instr isAt := by
    rw [start, Tree.instruction?_empty] at isAt
    cases isAt

/-- A build is grounded wherever calls lead without failing. -/
theorem grounded_reached (options : BuildOptions) (calls : List Call)
    (sane : (reached options calls).failure = none) : (reached options calls).Grounded :=
  reached_of_moves grounded_start (fun _ _ grounded => grounded.move) options calls sane

end Session

/-- What can be said of the tree of every build that has not failed. -/
structure Tree.WellFormed (tree : Tree) : Prop where
  /-- Every block has its position as its number. -/
  numbered : ∀ id block, tree.block? id = some block → block.id = id
  /-- The main block is there and has no parent. -/
  root : 0 < tree.size ∧ tree.parent? .root = none
  /-- Every other block has a parent, which was made before it. -/
  parents : ∀ id, id ≠ .root → id.index < tree.size →
    ∃ parent, tree.parent? id = some parent ∧ parent.index < id.index
  /-- Every other block is in one slot of one instruction, which stands in its parent. -/
  owned : ∀ id, id ≠ .root → id.index < tree.size →
    ∃ site, (tree.slotsAt site).count id = 1 ∧ tree.parent? id = some site.block ∧
      ∀ other, other ≠ site → id ∉ tree.slotsAt other
  /-- A slot names a block that is there and is not the main one. -/
  slots : ∀ site, ∀ id ∈ tree.slotsAt site, id ≠ .root ∧ id.index < tree.size
  /-- A chain of conditions has a case, and only its last may be without a condition; a switch has
  one default at most. -/
  sound : ∀ site instr, tree.instruction? site = some instr → instr.Sound
  /-- No function stands inside the body of a function. -/
  flat : ∀ outer decl, tree.instruction? outer = some (.function decl) →
    ∀ overload ∈ decl.overloads, ∀ inner other, tree.Inside overload.body inner.block →
      tree.instruction? inner ≠ some (.function other)

namespace Session

/-- A block other than the main one has a positive number. -/
theorem index_pos_iff {id : BlockId} : 0 < id.index ↔ id ≠ .root := by
  obtain ⟨index⟩ := id
  rw [Nat.pos_iff_ne_zero, Ne, Ne, BlockId.root, BlockId.mk.injEq]

/-- The tree of a grounded build is well formed. -/
theorem Grounded.wellFormed {s : Session} (grounded : s.Grounded) : s.tree.WellFormed := by
  have linked := grounded.linked
  exact {
    numbered := linked.numbered
    root := ⟨linked.rooted, linked.root⟩
    parents := fun id notRoot => linked.parents id (index_pos_iff.mpr notRoot)
    owned := fun id notRoot known => by
      obtain ⟨site, isSlot⟩ := linked.owned id (index_pos_iff.mpr notRoot) known
      refine ⟨site, List.count_eq_one_of_mem (linked.nodup site) isSlot,
        (linked.slots site id isSlot).2.2, ?_⟩
      intro other isOther isSlotToo
      exact isOther (linked.apart other site id isSlotToo isSlot)
    slots := fun site id isSlot =>
      ⟨index_pos_iff.mp (linked.slots site id isSlot).1, (linked.slots site id isSlot).2.1⟩
    sound := grounded.sound
    flat := fun outer decl isOuter overload isOverload inner other inside => by
      refine grounded.flat outer decl isOuter overload.body ?_ inner other inside
      rw [Tree.slotsAt, isOuter]
      exact List.mem_flatMap.mpr ⟨overload, isOverload, by simp⟩ }

/-- The tree is well formed wherever calls lead without failing, and nothing is missing from a
finished shader. -/
theorem wellFormed_reached (options : BuildOptions) (calls : List Call)
    (sane : (reached options calls).failure = none) :
    (reached options calls).tree.WellFormed ∧
      ∀ shader after, Build.finish (reached options calls) = .ok shader after →
        shader.tree.WellFormed ∧
          ∀ site instr, shader.tree.instruction? site = some instr → instr.Complete := by
  have grounded := grounded_reached options calls sane
  refine ⟨grounded.wellFormed, ?_⟩
  intro shader after finished
  obtain ⟨-, closed, -, rfl⟩ := Build.finish_ok_iff.mp finished
  refine ⟨grounded.wellFormed, ?_⟩
  intro site instr isAt
  have settled := (Build.moves_settle (reached options calls)).keeps
    (fun _ _ grounded => Grounded.move grounded) grounded
  obtain isComplete | isOpen := settled.complete site instr isAt
  · exact isComplete
  · rw [closed] at isOpen
    cases isOpen

/-- A switch, and a function whose overloads hold a loop and a chain of conditions. -/
def overloadedCalls : List Call :=
  [.beginSwitch (.literal (.int 1)), .addCase (some (.int 1)), .addCase none, .endSwitch,
   .beginFunc "f" .void, .nextOverload [.scalar .int],
   .declareParam (.scalar .int) (some "n") none, .beginDoWhile,
   .endDoWhile (.literal (.bool true)), .nextOverload [], .beginIf (.literal (.bool true)),
   .endIfSubBlock, .beginElse, .endIfSubBlock, .endFunc]

/-- The shader of `overloadedCalls` is well formed and misses nothing. -/
theorem wellFormed_reached_overloads :
    ∃ shader after, Build.finish (reached .standard overloadedCalls) = .ok shader after ∧
      shader.tree.WellFormed ∧
      ∀ site instr, shader.tree.instruction? site = some instr → instr.Complete :=
  ⟨_, _, rfl, (wellFormed_reached .standard overloadedCalls rfl).2 _ _ rfl⟩

end Session

end ShaderLoom
