import Mathlib.Data.List.Nodup
import Mathlib.Data.List.Pairwise
import ShaderLoom.Proofs.Ownership
import ShaderLoom.Proofs.Shapes

/-!
# Parameter lists

The overloads of the function at an address have parameter lists of their own, for they are slots
(`Tree.Linked.overload_eq`). Where a tree grows outside them, and where a parameter is pushed to one
of them, parameters and all else stay apart (`Tree.Parted`). The parameters in a block are those
declared while the build stood in it, in that order (`Session.filter_listing_reached`).
-/
namespace ShaderLoom

/-- The overloads of a function; nothing else has any. -/
def Instruction.overloads : Instruction → List Overload
  | .function decl => decl.overloads
  | _ => []

/-- Only a function has overloads. -/
theorem Instruction.overloads_of_ne {instr : Instruction} (isOther : instr.kind ≠ .function) :
    instr.overloads = [] := by
  cases instr with
  | function decl => exact absurd rfl isOther
  | _ => rfl

/-- What opens no scope has no overloads. -/
theorem Instruction.overloads_of_plain {instr : Instruction} (plain : instr.kind.opens = false) :
    instr.overloads = [] := by
  apply overloads_of_ne
  intro isFunction
  rw [isFunction] at plain
  cases plain

/-- Only a statement is a parameter. -/
theorem Instruction.isParameter_of_ne {instr : Instruction} (isOther : instr.kind ≠ .statement) :
    instr.isParameter = false := by
  cases instr with
  | statement expr => exact absurd rfl isOther
  | _ => rfl

/-- What opens a scope is no statement. -/
theorem Frame.Fits.kind_ne {frame : Frame} {instr : Instruction} (fits : frame.Fits instr) :
    instr.kind ≠ .statement := by
  rw [fits.kind_eq]
  cases frame <;> exact Kind.noConfusion

/-- An instruction has no overload while its frame has none. -/
theorem Frame.Fits.overloads_eq_nil {frame : Frame} {instr : Instruction} (fits : frame.Fits instr)
    (unopened : frame.overload? = none) : instr.overloads = [] := by
  cases frame with
  | function site parent var overload =>
    obtain rfl : overload = none := unopened
    obtain ⟨decl, rfl, -, isLast, -⟩ := Frame.fits_function_iff.mp fits
    exact List.getLast?_eq_none_iff.mp (Option.map_eq_none_iff.mp isLast.symm)
  | _ =>
    apply Instruction.overloads_of_ne
    rw [fits.kind_eq]
    exact Kind.noConfusion

/-- The frame of a function that has overloads has come to one. -/
theorem Frame.Fits.exists_opened {frame : Frame} {instr : Instruction} {overload : Overload}
    (fits : frame.Fits instr) (isOverload : overload ∈ instr.overloads) :
    ∃ site parent var opened, frame = .function site parent var (some opened) := by
  cases isOpened : frame.overload? with
  | none =>
    rw [fits.overloads_eq_nil isOpened] at isOverload
    cases isOverload
  | some opened =>
    cases frame with
    | function site parent var found =>
      obtain rfl : found = some opened := isOpened
      exact ⟨site, parent, var, opened, rfl⟩
    | _ => cases isOpened

/-- Only the frame of a function has an overload. -/
theorem Frame.overload?_of_ne {frame : Frame} (isOther : frame.kind ≠ .function) :
    frame.overload? = none := by
  cases frame with
  | function => exact absurd rfl isOther
  | _ => rfl

/-- A change of an element that is left out before and after leaves the rest. -/
theorem filter_modify {α : Type} {list : List α} {index : Nat} {old : α} {test : α → Bool}
    {change : α → α} (found : list[index]? = some old) (was : test old = false)
    (stays : test (change old) = false) :
    (list.modify index change).filter test = list.filter test := by
  induction list generalizing index with
  | nil => cases found
  | cons first list ih =>
    cases index with
    | zero =>
      obtain rfl := Option.some.inj found
      rw [List.modify_zero_cons, List.filter_cons, List.filter_cons, was, stays]
      rfl
    | succ index =>
      rw [List.modify_succ_cons, List.filter_cons, List.filter_cons, ih (by simpa using found)]

namespace Tree

/-- The instructions of a block, in order. -/
def listing (tree : Tree) (id : BlockId) : List Instruction :=
  (tree.block? id).elim [] (·.instructions.toList)

/-- The overloads of the function at an address, if one stands there. -/
def overloadsAt (tree : Tree) (site : Address) : List Overload :=
  (tree.instruction? site).elim [] Instruction.overloads

section Listing

variable {tree after : Tree} {site : Address} {instr : Instruction} {count : Nat} {id : BlockId}

/-- An instruction of a block by its position. -/
theorem getElem?_listing (tree : Tree) (id : BlockId) (index : Nat) :
    (tree.listing id)[index]? = tree.instruction? ⟨id, index⟩ := by
  unfold listing instruction?
  cases tree.block? id <;> simp

/-- What a block lists stands at some position of it. -/
theorem mem_listing : instr ∈ tree.listing id ↔
    ∃ index, tree.instruction? ⟨id, index⟩ = some instr := by
  rw [List.mem_iff_getElem?]
  simp only [getElem?_listing]

/-- Blocks with the same instructions list the same. -/
theorem listing_congr (same : ∀ index, after.instruction? ⟨id, index⟩ =
    tree.instruction? ⟨id, index⟩) : after.listing id = tree.listing id := by
  apply List.ext_getElem?
  intro index
  rw [getElem?_listing, getElem?_listing, same]

/-- New blocks list nothing, and the others what they did. -/
@[simp]
theorem listing_addBlocks (tree : Tree) (parent : BlockId) (kinds : List BlockKind)
    (id : BlockId) : (tree.addBlocks parent kinds).listing id = tree.listing id :=
  listing_congr fun _ => instruction?_addBlocks tree parent kinds _

/-- A push lists one more instruction, at the end of its block. -/
theorem listing_push (known : id.index < tree.size) (instr : Instruction) (other : BlockId) :
    (tree.push id instr).listing other =
      tree.listing other ++ if other = id then [instr] else [] := by
  obtain ⟨block, found⟩ := exists_block known
  unfold listing
  rw [block?_push]
  by_cases same : other = id
  · simp [same, found]
  · simp [same]

/-- An amendment of what is no parameter, before and after, leaves the parameters of every block. -/
theorem filter_listing_amend {change : Instruction → Instruction}
    (found : tree.instruction? site = some instr) (was : instr.isParameter = false)
    (stays : (change instr).isParameter = false) (id : BlockId) :
    ((tree.amend site change).listing id).filter Instruction.isParameter =
      (tree.listing id).filter Instruction.isParameter := by
  obtain ⟨block, foundBlock, found⟩ := Option.bind_eq_some_iff.mp found
  unfold listing
  rw [block?_amend]
  by_cases here : id = site.block
  · rw [if_pos here, here, foundBlock, Option.map_some, Option.elim_some, Option.elim_some,
      Array.toList_modify]
    rw [← Array.getElem?_toList] at found
    exact filter_modify found was stays
  · rw [if_neg here]

/-- A block that is not there lists nothing. -/
theorem listing_of_le (unknown : tree.size ≤ id.index) : tree.listing id = [] := by
  rw [listing, block?_eq_none_iff.mpr unknown]
  rfl

/-- A tree that grew at an instruction lists the same in every other block. -/
theorem Extends.listing_eq (extended : tree.Extends after site instr count)
    (other : id ≠ site.block) : after.listing id = tree.listing id := by
  apply listing_congr
  intro index
  rw [extended.instruction, if_neg]
  rintro rfl
  exact other rfl

/-- A tree that grew at an instruction lists that instruction and what it listed. -/
theorem Extends.mem_listing {found : Instruction} (extended : tree.Extends after site instr count)
    (isListed : found ∈ after.listing id) : found ∈ tree.listing id ∨ found = instr := by
  obtain ⟨index, isAt⟩ := Tree.mem_listing.mp isListed
  rw [extended.instruction] at isAt
  split_ifs at isAt with here
  · exact .inr (Option.some.inj isAt).symm
  · exact .inl (Tree.mem_listing.mpr ⟨index, isAt⟩)

/-- A tree that grew at an instruction has the overloads it had, and those the instruction got. -/
theorem Extends.overloadsAt_eq {extra : List Overload}
    (extended : tree.Extends after site instr count)
    (grown : instr.overloads = tree.overloadsAt site ++ extra) (place : Address) :
    after.overloadsAt place =
      tree.overloadsAt place ++ if place = site then extra else [] := by
  rw [overloadsAt, extended.instruction]
  by_cases here : place = site
  · rw [if_pos here, if_pos here, here, ← grown]
    rfl
  · rw [if_neg here, if_neg here, List.append_nil]
    rfl

end Listing

section Slots

variable {tree : Tree} {place other : Address} {one two : Overload}

/-- The blocks of an overload are slots of its function. -/
theorem mem_slotsAt_of_overload (isOverload : one ∈ tree.overloadsAt place) :
    one.args ∈ tree.slotsAt place ∧ one.body ∈ tree.slotsAt place := by
  unfold overloadsAt at isOverload
  unfold slotsAt
  cases isAt : tree.instruction? place with
  | none =>
    rw [isAt] at isOverload
    cases isOverload
  | some instr =>
    rw [isAt] at isOverload
    cases instr with
    | function decl =>
      constructor
      · exact List.mem_flatMap.mpr ⟨one, isOverload, by simp⟩
      · exact List.mem_flatMap.mpr ⟨one, isOverload, by simp⟩
    | _ => cases isOverload

/-- No two overloads of one function share a block. -/
theorem Linked.disjoint_overloads (linked : tree.Linked) (isOne : one ∈ tree.overloadsAt place)
    (isTwo : two ∈ tree.overloadsAt place) :
    one.args ≠ two.body ∧ (one.args = two.args → one = two) := by
  have nodup := linked.nodup place
  unfold overloadsAt at isOne isTwo
  unfold slotsAt at nodup
  cases isAt : tree.instruction? place with
  | none =>
    rw [isAt] at isOne
    cases isOne
  | some instr =>
    rw [isAt] at isOne isTwo nodup
    cases instr with
    | function decl =>
      obtain ⟨alone, disjoint⟩ := List.nodup_flatMap.mp nodup
      by_cases same : one = two
      · have apart := alone one isOne
        simp only [List.nodup_cons, List.mem_singleton] at apart
        exact ⟨same ▸ apart.1, fun _ => same⟩
      · have : Std.Symm (Function.onFun List.Disjoint
            fun overload : Overload => [overload.args, overload.body]) :=
          ⟨fun _ _ => List.disjoint_symm⟩
        have apart := disjoint.forall isOne isTwo same
        have notListed : one.args ∉ [two.args, two.body] := apart List.mem_cons_self
        simp only [List.mem_cons, List.not_mem_nil, or_false, not_or] at notListed
        exact ⟨notListed.2, fun shared => absurd shared notListed.1⟩
    | _ => cases isOne

/-- A parameter list belongs to one overload. -/
theorem Linked.overload_eq (linked : tree.Linked) (isOne : one ∈ tree.overloadsAt place)
    (isTwo : two ∈ tree.overloadsAt other) (shared : one.args = two.args) :
    place = other ∧ one = two := by
  have isSlot := (mem_slotsAt_of_overload isTwo).1
  rw [← shared] at isSlot
  obtain rfl := linked.apart _ _ _ (mem_slotsAt_of_overload isOne).1 isSlot
  exact ⟨rfl, (linked.disjoint_overloads isOne isTwo).2 shared⟩

/-- A parameter list is a block that is there. -/
theorem Linked.args_lt (linked : tree.Linked) (isOne : one ∈ tree.overloadsAt place) :
    one.args.index < tree.size :=
  (linked.slots place _ (mem_slotsAt_of_overload isOne).1).2.1

end Slots

/-- Parameters stand in parameter lists, and nothing else does. -/
structure Parted (tree : Tree) : Prop where
  only : ∀ place, ∀ overload ∈ tree.overloadsAt place, ∀ instr ∈ tree.listing overload.args,
    instr.isParameter
  nowhere : ∀ id, ∀ instr ∈ tree.listing id, instr.isParameter →
    ∃ place, ∃ overload ∈ tree.overloadsAt place, id = overload.args

section Parted

variable {tree after : Tree} {site : Address} {instr : Instruction} {count : Nat}
  {extra : List Overload}

/-- A tree that grew outside its parameter lists lists the same in them, and nothing in new ones. -/
theorem Extends.listing_args (extended : tree.Extends after site instr count)
    (grown : instr.overloads = tree.overloadsAt site ++ extra)
    (fresh : ∀ overload ∈ extra, tree.size ≤ overload.args.index)
    (outside : ∀ place, ∀ overload ∈ tree.overloadsAt place, site.block ≠ overload.args)
    {place : Address} {overload : Overload} (isOverload : overload ∈ after.overloadsAt place) :
    after.listing overload.args = tree.listing overload.args := by
  apply extended.listing_eq
  rw [extended.overloadsAt_eq grown, List.mem_append] at isOverload
  obtain isOld | isNew := isOverload
  · exact (outside place overload isOld).symm
  · split_ifs at isNew
    · intro same
      have isFresh := fresh overload isNew
      have known := extended.known
      rw [same] at isFresh
      omega
    · cases isNew

/-- Where anything but a parameter stands is no parameter list. -/
theorem Parted.block_ne (parted : tree.Parted) (isAt : tree.instruction? site = some instr)
    (plain : instr.isParameter = false) (place : Address) (overload : Overload)
    (isOverload : overload ∈ tree.overloadsAt place) : site.block ≠ overload.args := by
  intro here
  have isListed : instr ∈ tree.listing overload.args := by
    rw [← here]
    exact mem_listing.mpr ⟨site.index, isAt⟩
  have isParameter := parted.only place overload isOverload instr isListed
  rw [plain] at isParameter
  cases isParameter

/-- A tree that grew outside its parameter lists keeps parameters and all else apart. -/
theorem Parted.extend (parted : tree.Parted) (extended : tree.Extends after site instr count)
    (plain : instr.isParameter = false)
    (grown : instr.overloads = tree.overloadsAt site ++ extra)
    (fresh : ∀ overload ∈ extra, tree.size ≤ overload.args.index)
    (outside : ∀ place, ∀ overload ∈ tree.overloadsAt place, site.block ≠ overload.args) :
    after.Parted where
  only place overload isOverload found isListed := by
    rw [extended.listing_args grown fresh outside isOverload] at isListed
    rw [extended.overloadsAt_eq grown, List.mem_append] at isOverload
    obtain isOld | isNew := isOverload
    · exact parted.only place overload isOld found isListed
    · split_ifs at isNew
      · rw [listing_of_le (fresh overload isNew)] at isListed
        cases isListed
      · cases isNew
  nowhere id found isListed isParameter := by
    obtain isOld | rfl := extended.mem_listing isListed
    · obtain ⟨place, overload, isOverload, isArgs⟩ := parted.nowhere id found isOld isParameter
      refine ⟨place, overload, ?_, isArgs⟩
      rw [extended.overloadsAt_eq grown]
      exact List.mem_append_left _ isOverload
    · rw [plain] at isParameter
      cases isParameter

/-- A parameter that is pushed to a parameter list keeps parameters and all else apart. -/
theorem Parted.push (parted : tree.Parted) {place : Address} {overload : Overload}
    (isOverload : overload ∈ tree.overloadsAt place) (known : overload.args.index < tree.size)
    (isParameter : instr.isParameter)
    (overloads : ∀ place, (tree.push overload.args instr).overloadsAt place =
      tree.overloadsAt place) : (tree.push overload.args instr).Parted where
  only other found isFound := by
    rw [overloads] at isFound
    rw [listing_push known]
    intro given isListed
    obtain isOld | isNew := List.mem_append.mp isListed
    · exact parted.only other found isFound given isOld
    · split_ifs at isNew
      · rw [List.mem_singleton.mp isNew]
        exact isParameter
      · cases isNew
  nowhere id given isListed isGiven := by
    rw [listing_push known] at isListed
    simp only [overloads]
    obtain isOld | isNew := List.mem_append.mp isListed
    · exact parted.nowhere id given isOld isGiven
    · split_ifs at isNew with here
      · exact ⟨place, overload, isOverload, here⟩
      · cases isNew

end Parted

end Tree

namespace Session

section History

variable {s : Session}

/-- No block lists anything at the start. -/
theorem listing_start (options : BuildOptions) (id : BlockId) :
    (start options).tree.listing id = [] := by
  apply List.eq_nil_iff_forall_not_mem.mpr
  intro instr isListed
  obtain ⟨index, isAt⟩ := Tree.mem_listing.mp isListed
  rw [start, Tree.instruction?_empty] at isAt
  cases isAt

/-- The parameter that a call declares, if it declares one, and the block the build stands in. -/
def declares? (s : Session) (call : Call) : Option (BlockId × Instruction) :=
  (((s.statement? call).map Instruction.statement).filter (·.isParameter)).map (s.current, ·)

/-- The parameters declared since the build last started, once a further call is made. -/
def declaring (s : Session) (earlier : List (BlockId × Instruction)) :
    Call → List (BlockId × Instruction)
  | .reset => []
  | call => earlier ++ (s.declares? call).toList

/-- The parameters declared since the build last started, one after another, each with the block
the build stood in. -/
def declared (options : BuildOptions) (calls : List Call) : List (BlockId × Instruction) :=
  (calls.foldl (fun (state : Session × List (BlockId × Instruction)) call =>
    (state.1.step call, state.1.declaring state.2 call)) (.start options, [])).2

/-- One more call declares what it declares where the calls before it led. -/
theorem declared_concat (options : BuildOptions) (calls : List Call) (call : Call) :
    declared options (calls ++ [call]) =
      (reached options calls).declaring (declared options calls) call := by
  have states : ∀ (calls : List Call) (state : Session × List (BlockId × Instruction)),
      (calls.foldl (fun (state : Session × List (BlockId × Instruction)) call =>
        (state.1.step call, state.1.declaring state.2 call)) state).1 =
      calls.foldl step state.1 := by
    intro calls
    induction calls with
    | nil => exact fun _ => rfl
    | cons call calls ih => exact fun state => ih _
  unfold declared
  rw [List.foldl_concat, reached, states]

/-- A call that appends nothing pushes no statement. -/
theorem statement?_of_still {call : Call} (still : call.appends = false) :
    s.statement? call = none := by
  cases call <;> first | rfl | cases still

/-- A call that pushes an instruction declares it if it is a parameter. -/
theorem declares?_of_appends {call : Call} {instr : Instruction} (adds : s.Appends call instr) :
    s.declares? call = if instr.isParameter then some (s.current, instr) else none := by
  unfold declares?
  cases adds with
  | @statement expr given =>
    rw [given, Option.map_some, Option.filter_some]
    split <;> rfl
  | other given plain =>
    rw [given, Instruction.isParameter_of_ne plain]
    rfl

/-- A call that appends nothing declares nothing. -/
theorem declares?_of_still {call : Call} (still : call.appends = false) :
    s.declares? call = none := by
  rw [declares?, statement?_of_still still]
  rfl

/-- What one more call declares joins what was declared before, unless the build starts over. -/
theorem declaring_of_ne {call : Call} (goesOn : call ≠ .reset)
    (earlier : List (BlockId × Instruction)) :
    s.declaring earlier call = earlier ++ (s.declares? call).toList := by
  cases call with
  | reset => exact absurd rfl goesOn
  | _ => rfl

/-- The parameters in a block are those declared while the build stood in it, in that order. -/
theorem filter_listing_reached (options : BuildOptions) (calls : List Call)
    (sane : (reached options calls).failure = none) (id : BlockId) :
    ((reached options calls).tree.listing id).filter Instruction.isParameter =
      ((declared options calls).filter (·.1 = id)).map (·.2) := by
  revert id
  refine @reached_of_effects options (fun calls s => ∀ id,
    (s.tree.listing id).filter Instruction.isParameter =
      ((declared options calls).filter (·.1 = id)).map (·.2)) ?_ ?_ ?_ calls sane
  · exact fun id => by rw [listing_start]; rfl
  · intro calls other id
    rw [declared_concat, listing_start]
    rfl
  · intro calls call reply after placed ordered goesOn ran effect id
    rw [declared_concat, declaring_of_ne goesOn, List.filter_append, List.map_append, ← ordered]
    cases effect with
    | kept still tree _ =>
      rw [tree, declares?_of_still still]
      simp
    | pushed instr _ adds _ _ tree _ =>
      have known := placed.current_lt (reached options calls).current instr.kinds
      rw [tree, Tree.listing_push known, Tree.listing_addBlocks, List.filter_append,
        declares?_of_appends adds]
      congr 1
      by_cases here : id = (reached options calls).current
      · cases isParameter : instr.isParameter <;> simp [here, isParameter]
      · cases instr.isParameter <;> simp [here, Ne.symm here]
    | amended frame kinds change instr still _ found opens same _ _ _ _ tree _ _ =>
      have isOther : instr.kind ≠ .statement := fun isKind => by simp [isKind, Kind.opens] at opens
      have foundAfter : ((reached options calls).tree.addBlocks frame.site.block kinds).instruction?
          frame.site = some instr := by
        rw [Tree.instruction?_addBlocks, found]
      rw [tree, declares?_of_still still, Tree.filter_listing_amend foundAfter
        (Instruction.isParameter_of_ne isOther) (Instruction.isParameter_of_ne (same ▸ isOther)),
        Tree.listing_addBlocks]
      simp

end History

end Session

end ShaderLoom
