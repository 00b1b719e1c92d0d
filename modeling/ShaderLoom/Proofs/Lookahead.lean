import ShaderLoom.Proofs.Substitution
import ShaderLoom.Proofs.Yields

/-!
# Asking for ranks leaves no trace

The writer asks for the rank of an operand before it writes the operand, and asking may hand out a
name. It is always the name that the operand starts with, so it would be handed out next in any
case: what is written after the question is what is written without it (`Shader.Acyclic.ranked`).

So a text is made of pieces that do not depend on names, letters and mentions of variables one after
the other, and names are handed out in the order of the mentions (`Shader.write_looked_up`).
-/
namespace ShaderLoom

/-- A part of a text. -/
inductive Piece where
  /-- Letters that are the same whatever variables are called. -/
  | letters (text : String)
  /-- A variable by its name. -/
  | mention (id : VarId)
  /-- Nothing can be written here. -/
  | failure (error : RenderError)
deriving DecidableEq, Repr

namespace Piece

/-- The variable that is mentioned. -/
def mention? : Piece → Option VarId
  | .mention id => some id
  | _ => none

/-- What a piece is written as under some names. -/
def textIn (names : Names) : Piece → String
  | .letters text => text
  | .mention id => (names.lookup id).getD ""
  | .failure _ => ""

end Piece

namespace Shader

/-- Write one piece; a variable that has no name yet gets one. -/
def say (shader : Shader) : Piece → Naming String
  | .letters text => pure text
  | .mention id => shader.nameOf id
  | .failure error => throw error

/-- Write pieces one after the other. -/
def speak (shader : Shader) : List Piece → Naming String
  | [] => pure ""
  | piece :: rest => do
    let text ← shader.say piece
    let more ← speak shader rest
    pure (text ++ more)

/-- Whether a text is made of certain pieces, whatever the names are, none of which fails for a
value without an end. -/
structure MadeOf (shader : Shader) (text : Naming String) (pieces : List Piece) : Prop where
  written : text = shader.speak pieces
  ends : .failure .endlessValue ∉ pieces

/-- Whether a text is made of pieces. -/
def Pieced (shader : Shader) (text : Naming String) : Prop := ∃ pieces, shader.MadeOf text pieces

/-- A text with its rank, which is asked for before. -/
def lookedUp (rank : Naming Rank) (text : Naming String) : Naming (Rank × String) := do
  let child ← rank
  let text ← text
  pure (child, text)

/-- Whether a text is made of pieces and asking for its rank before changes nothing: the rank is the
same whatever the names are. -/
def Ranked (shader : Shader) (rank : Naming Rank) (text : Naming String) : Prop :=
  shader.Pieced text ∧ ∃ isRank, lookedUp rank text = (isRank, ·) <$> text

variable {shader : Shader}

section Names

variable {id : VarId} {names after : Names} {name : String}

/-- The name of a variable is the one it has, or a new one if it is registered. -/
theorem run_nameOf (shader : Shader) (id : VarId) (names : Names) :
    shader.nameOf id names =
      match names.lookup id, shader.var? id with
      | some name, _ => .ok (name, names)
      | none, none => .error (.unregisteredVariable id)
      | none, some record =>
        .ok (names.assign id record) := by
  show (shader.nameOf id).run names = _
  rw [nameOf]
  cases found : names.lookup id with
  | some name =>
    simp only [StateT.run_bind, StateT.run_get, pure_bind, found]
    rfl
  | none =>
    simp only [StateT.run_bind, StateT.run_get, pure_bind, found]
    cases shader.var? id with
    | none => rfl
    | some record => rfl

/-- A variable that was called by its name has it from then on. -/
theorem lookup_of_nameOf (found : shader.nameOf id names = .ok (name, after)) :
    after.lookup id = some name := by
  rw [run_nameOf] at found
  split at found
  case h_1 isName =>
    cases found
    exact isName
  case h_2 => cases found
  case h_3 record _ _ =>
    have isAssigned : names.assign id record = (name, after) := Except.ok.inj found
    have handed := names.lookup_assign id id record
    rwa [isAssigned, if_pos rfl] at handed

/-- Asking for the name of a variable twice is asking for it once. -/
theorem lookedUp_nameOf (shader : Shader) (id : VarId) (rank : Rank) :
    lookedUp ((fun _ => rank) <$> shader.nameOf id) (shader.nameOf id) =
      (rank, ·) <$> shader.nameOf id := by
  funext names
  show ((fun found => (rank, found.2)) <$> shader.nameOf id names) >>= (fun found =>
      shader.nameOf id found.2 >>= fun later => pure ((found.1, later.1), later.2)) =
    (fun found => ((rank, found.1), found.2)) <$> shader.nameOf id names
  cases asked : shader.nameOf id names with
  | error error => rfl
  | ok found =>
    obtain ⟨name, after⟩ := found
    have again : shader.nameOf id after = .ok (name, after) := by
      rw [run_nameOf, lookup_of_nameOf asked]
    show shader.nameOf id after >>= _ = _
    rw [again]
    rfl

end Names

/-- One piece is written by itself. -/
theorem speak_singleton (shader : Shader) (piece : Piece) :
    shader.speak [piece] = shader.say piece := by
  simp only [speak, pure_bind, String.append_empty, bind_pure]

/-- Pieces behind others are written behind them. -/
theorem speak_append (shader : Shader) (pieces more : List Piece) :
    shader.speak (pieces ++ more) =
      shader.speak pieces >>= fun text => (text ++ ·) <$> shader.speak more := by
  induction pieces with
  | nil => simp only [List.nil_append, speak, pure_bind, String.empty_append, id_map']
  | cons piece pieces ih =>
    rw [List.cons_append, speak, speak, ih]
    simp only [map_eq_pure_bind, bind_assoc, pure_bind, String.append_assoc]

namespace Pieced

variable {text other : Naming String}

/-- What is said of one piece. -/
theorem single (piece : Piece) (ends : piece ≠ .failure .endlessValue) :
    shader.Pieced (shader.say piece) :=
  ⟨[piece], (speak_singleton shader piece).symm, fun same => ends (List.mem_singleton.mp same).symm⟩

/-- Letters are a piece. -/
theorem pure (letters : String) : shader.Pieced (Pure.pure letters) :=
  .single (.letters letters) nofun

/-- The name of a variable is a piece. -/
theorem nameOf (id : VarId) : shader.Pieced (shader.nameOf id) :=
  .single (.mention id) nofun

/-- A failure is a piece, unless it is that of a value without an end. -/
theorem throw (error : RenderError) (ends : error ≠ .endlessValue) :
    shader.Pieced (MonadExcept.throw error) :=
  .single (.failure error) fun same => ends (Piece.failure.inj same)

/-- Two texts with letters between them. -/
theorem both (first : shader.Pieced text) (second : shader.Pieced other) (between : String) :
    shader.Pieced (do
      let text ← text
      let other ← other
      Pure.pure (text ++ between ++ other)) := by
  obtain ⟨pieces, isText, ends⟩ := first
  obtain ⟨more, isOther, endsToo⟩ := second
  refine ⟨pieces ++ [.letters between] ++ more, ?_, ?_⟩
  · rw [speak_append, speak_append, speak_singleton, isText, isOther]
    simp only [say, bind_assoc, pure_bind, map_eq_pure_bind]
  · simp [ends, endsToo]

/-- A text between letters. -/
theorem between (inner : shader.Pieced text) (before after : String) :
    shader.Pieced ((fun text => before ++ text ++ after) <$> text) := by
  have around := ((Pieced.pure before).both inner "").both (Pieced.pure after) ""
  simpa only [pure_bind, bind_assoc, String.append_empty, map_eq_pure_bind] using around

end Pieced

namespace Ranked

variable {rank : Naming Rank} {text : Naming String}

/-- A rank that is known without asking for names. -/
theorem of_pure (pieced : shader.Pieced text) (isRank : Rank) :
    shader.Ranked (pure isRank) text :=
  ⟨pieced, isRank, by rw [lookedUp, pure_bind, map_eq_pure_bind]⟩

/-- The name of a variable, which is asked for to know its rank. -/
theorem nameOf (shader : Shader) (id : VarId) (isRank : Rank) :
    shader.Ranked ((fun _ => isRank) <$> shader.nameOf id) (shader.nameOf id) :=
  ⟨.nameOf id, isRank, lookedUp_nameOf shader id isRank⟩

/-- Where asking for the rank fails, writing fails in the same way. -/
theorem throw (error : RenderError) (ends : error ≠ .endlessValue) :
    shader.Ranked (MonadExcept.throw error) (MonadExcept.throw error) :=
  ⟨.throw error ends, .primary, rfl⟩

/-- A text between letters keeps its rank. -/
theorem between (ranked : shader.Ranked rank text) (before after : String) :
    shader.Ranked rank ((fun text => before ++ text ++ after) <$> text) := by
  obtain ⟨pieced, isRank, same⟩ := ranked
  refine ⟨pieced.between before after, isRank, ?_⟩
  have moved : lookedUp rank ((fun text => before ++ text ++ after) <$> text) =
      (fun found => (found.1, before ++ found.2 ++ after)) <$> lookedUp rank text := by
    simp only [lookedUp, map_eq_pure_bind, bind_assoc, pure_bind]
  rw [moved, same, ← comp_map, ← comp_map]
  rfl

/-- An operand is made of pieces, with those of its parentheses. -/
theorem enclosed (ranked : shader.Ranked rank text) (parent : Rank) (wrapTies : Bool) :
    shader.Pieced (ShaderLoom.enclosed parent wrapTies rank text) := by
  obtain ⟨pieced, isRank, same⟩ := ranked
  have asked : ShaderLoom.enclosed parent wrapTies rank text =
      (fun found => if parent.needsParens found.1 || (wrapTies && found.1 == parent) then
        "(" ++ found.2 ++ ")" else found.2) <$> lookedUp rank text := by
    simp only [ShaderLoom.enclosed, lookedUp, map_eq_pure_bind, bind_assoc, pure_bind,
      apply_ite Pure.pure]
  rw [asked, same, ← comp_map]
  by_cases needed : parent.needsParens isRank || (wrapTies && isRank == parent)
  · simpa only [Function.comp_def, needed, if_true] using pieced.between "(" ")"
  · simpa only [Function.comp_def, needed, Bool.false_eq_true, if_false, id_map'] using pieced

end Ranked

section Exprs

variable {dialect : Dialect} {deep : Expr → Naming String} {rank : Expr → Naming Rank}

/-- A reference is ranked without a trace if what it may stand for is. -/
theorem ranked_ref (each : ∀ value, shader.Ranked (rank value) (deep value)) (id : VarId) :
    shader.Ranked (shader.rankWith dialect rank (.ref id))
      (shader.writeWith dialect deep rank (.ref id)) := by
  rw [rankWith, writeWith, binding]
  cases known : (shader.var? id).isNone with
  | true =>
    exact .throw (.unregisteredVariable id) RenderError.noConfusion
  | false =>
    cases isInlined : shader.inlined? id with
    | some value =>
      simp only [Bool.false_eq_true, if_false, pure_bind]
      exact each value
    | none =>
      simp only [Bool.false_eq_true, if_false, bind_map_left, bind_pure]
      exact .nameOf shader id .primary

/-- Arguments are made of pieces if each is ranked without a trace. -/
theorem pieced_writeArgs {args : List Expr}
    (each : ∀ arg ∈ args, shader.Ranked (shader.rankWith dialect rank arg)
      (shader.writeWith dialect deep rank arg)) :
    shader.Pieced ((", ".intercalate ·) <$> shader.writeArgs dialect deep rank args) := by
  induction args with
  | nil =>
    rw [writeArgs, map_pure]
    exact .pure _
  | cons arg rest ih =>
    rw [List.forall_mem_cons] at each
    have first := each.1.enclosed argumentRank false
    have others := ih each.2
    cases rest with
    | nil =>
      simpa only [writeArgs, map_eq_pure_bind, bind_assoc, pure_bind, String.intercalate_singleton,
        bind_pure] using first
    | cons next rest =>
      have all := first.both others ", "
      simp only [writeArgs, map_eq_pure_bind, bind_assoc, pure_bind] at all ⊢
      simpa only [String.intercalate_cons_cons, String.append_assoc] using all

/-- A construction is ranked without a trace if its arguments are. -/
theorem ranked_construct {made : Construction} {args : List Expr}
    (each : ∀ arg ∈ args, shader.Ranked (shader.rankWith dialect rank arg)
      (shader.writeWith dialect deep rank arg)) :
    shader.Ranked (shader.rankWith dialect rank (.construct made args))
      (shader.writeWith dialect deep rank (.construct made args)) := by
  have all := pieced_writeArgs each
  match args with
  | [only] =>
    rw [List.forall_mem_singleton] at each
    rw [rankWith, writeWith]
    by_cases isForward : made.status = .forward
    · rw [if_neg fun shown => shown.1 isForward, if_pos isForward]
      exact each
    · rw [if_neg isForward]
      dsimp only
      generalize (if made.flags.displayType then dialect.typeName made.ty else "") = typeName
      by_cases shown : made.flags.parenthesis
      · rw [if_pos ⟨isForward, shown⟩, if_pos shown]
        apply Ranked.of_pure
        have inner := (each.enclosed argumentRank false).between (typeName ++ "(") ")"
        rwa [map_eq_pure_bind] at inner
      · rw [if_neg fun both => shown both.2, if_neg shown]
        have inner := each.between typeName ""
        simpa only [map_eq_pure_bind, String.append_empty] using inner
  | [] | _ :: _ :: _ =>
    rw [rankWith, writeWith]
    · apply Ranked.of_pure
      generalize (if made.flags.displayType then dialect.typeName made.ty else "") = typeName
      split
      · have inner := all.between (typeName ++ "(") ")"
        simpa only [map_eq_pure_bind, bind_assoc, pure_bind] using inner
      · split
        · exact .throw _ RenderError.noConfusion
        · have inner := all.between typeName ""
          simpa only [map_eq_pure_bind, bind_assoc, pure_bind, String.append_empty] using inner
    all_goals
      rintro _ ⟨⟩

/-- An expression is ranked without a trace if the values in it are. -/
theorem ranked_writeWith (each : ∀ value, shader.Ranked (rank value) (deep value)) (expr : Expr) :
    shader.Ranked (shader.rankWith dialect rank expr)
      (shader.writeWith dialect deep rank expr) := by
  induction expr using Expr.induct with
  | literal value =>
    rw [rankWith, writeWith]
    exact .of_pure (.pure _) _
  | ref id => exact ranked_ref each id
  | construct made args inner => exact ranked_construct inner
  | binary op lhs rhs left right =>
    have parts := (left.enclosed (dialect.binaryRank op) (op.assoc == .right)).both
      (right.enclosed (dialect.binaryRank op) (op.assoc == .left))
      (" " ++ dialect.binarySymbol op ++ " ")
    rw [rankWith, writeWith]
    apply Ranked.of_pure
    simpa only [String.append_assoc] using parts
  | unary op fixity operand inner =>
    have part := inner.enclosed (dialect.unaryRank op fixity) (fixity == .before)
    rw [rankWith, writeWith]
    apply Ranked.of_pure
    cases fixity with
    | before =>
      simpa only [map_eq_pure_bind, String.append_empty] using
        part.between (dialect.unarySymbol op) ""
    | after =>
      simpa only [map_eq_pure_bind, String.empty_append] using
        part.between "" (dialect.unarySymbol op)
  | ternary condition yes no first second third =>
    have parts := ((first.enclosed .ternary true).both (second.enclosed .lowest false) " ? ").both
      (third.enclosed .ternary false) " : "
    rw [rankWith, writeWith]
    apply Ranked.of_pure
    simpa only [bind_assoc, pure_bind] using parts
  | subscript object index outer inner =>
    have parts := ((outer.enclosed .after false).both (inner.enclosed .lowest false) "[").between
      "" "]"
    rw [rankWith, writeWith]
    apply Ranked.of_pure
    simpa only [map_eq_pure_bind, bind_assoc, pure_bind, String.empty_append] using parts
  | member object name inner =>
    rw [rankWith, writeWith]
    apply Ranked.of_pure
    simpa only [map_eq_pure_bind, String.empty_append, String.append_assoc] using
      (inner.enclosed .after false).between "" ("." ++ name)
  | swizzle object components inner =>
    rw [rankWith, writeWith]
    apply Ranked.of_pure
    simpa only [map_eq_pure_bind, String.empty_append, String.append_assoc] using
      (inner.enclosed .after false).between ""
        ("." ++ String.ofList (components.map Component.letter))
  | call callee args inner =>
    have args := pieced_writeArgs inner
    rw [rankWith]
    apply Ranked.of_pure
    cases callee with
    | builtin name =>
      rw [writeWith]
      simpa only [map_eq_pure_bind, bind_assoc, pure_bind] using
        args.between (dialect.builtin name ++ "(") ")"
    | function id =>
      rw [writeWith]
      simpa only [map_eq_pure_bind, bind_assoc, pure_bind, String.empty_append] using
        ((Pieced.nameOf id).both args "(").between "" ")"

end Exprs

/-- Where no value leads back to itself, every expression is ranked without a trace. -/
theorem Acyclic.ranked (acyclic : shader.Acyclic) (dialect : Dialect) (expr : Expr) :
    shader.Ranked (shader.rankOf dialect expr) (shader.write dialect expr) := by
  -- Once all values are put in, it does not matter how values are written.
  obtain ⟨isRank, isText⟩ :=
    acyclic.write_eq dialect (fun _ => pure "") (fun _ => pure .primary) expr
  rw [isRank, isText]
  exact ranked_writeWith (fun _ => .of_pure (.pure _) _) _

/-- The variables that pieces mention, in order. -/
def mentions (pieces : List Piece) : List VarId := pieces.filterMap Piece.mention?

/-- One more piece is one more mention at most. -/
theorem mentions_concat (pieces : List Piece) (piece : Piece) :
    mentions (pieces ++ [piece]) = mentions pieces ++ piece.mention?.toList := by
  rw [mentions, List.filterMap_append]
  cases piece <;> rfl

/-- A mention counts if the variable was not mentioned before. -/
theorem eraseDups_mentions_concat (pieces : List Piece) (id : VarId) :
    (mentions (pieces ++ [.mention id])).eraseDups =
      (mentions pieces).eraseDups ++ if id ∈ mentions pieces then [] else [id] := by
  rw [mentions_concat, List.eraseDups_append]
  by_cases old : id ∈ mentions pieces <;>
    simp [Piece.mention?, List.removeAll, List.eraseDups_cons, old]

/-- What pieces are written as, and which names are handed out for it. -/
structure Spoken (pieces : List Piece) (names : Names) (text : String) (after : Names) : Prop where
  text : text = String.join (pieces.map (Piece.textIn after))
  /-- Every variable that is mentioned and had no name gets one, in the order of their first
  mentions; the latest name stands first. -/
  handed : ∃ new, after.handed = new ++ names.handed ∧ (new.map (·.1)).reverse =
    (mentions pieces).eraseDups.filter fun id => (names.lookup id).isNone

/-- A variable has a name after pieces if it is mentioned or had one. -/
theorem Spoken.found_iff {pieces : List Piece} {names after : Names} {text : String}
    (spoken : Spoken pieces names text after) (id : VarId) :
    (after.lookup id).isSome ↔ id ∈ mentions pieces ∨ (names.lookup id).isSome := by
  obtain ⟨new, isAfter, handed⟩ := spoken.handed
  have isNew : (new.lookup id).isSome ↔ id ∈ mentions pieces ∧ (names.lookup id).isNone := by
    have isKey : id ∈ (new.map (·.1)).reverse ↔
        id ∈ mentions pieces ∧ (names.lookup id).isNone := by
      rw [handed, List.mem_filter, List.mem_eraseDups]
    rw [← isKey, List.lookup_isSome_iff, List.mem_reverse, List.mem_map]
    exact exists_congr fun entry => and_congr_right fun _ => by rw [beq_iff_eq, eq_comm]
  have split : after.lookup id = (new.lookup id).or (names.lookup id) := by
    rw [Names.lookup, isAfter, List.lookup_append]
    rfl
  rw [split, Option.isSome_or, Bool.or_eq_true, isNew]
  cases names.lookup id <;> simp

/-- What was written before stays what it is when more names are handed out. -/
theorem Spoken.join_assign {pieces : List Piece} {names after : Names} {text : String}
    (spoken : Spoken pieces names text after) {id : VarId} (unnamed : after.lookup id = none)
    (record : Record) :
    pieces.map (Piece.textIn (after.assign id record).2) = pieces.map (Piece.textIn after) := by
  apply List.map_congr_left
  intro piece isPiece
  cases piece with
  | mention other =>
    have isMention : other ∈ mentions pieces := List.mem_filterMap.mpr ⟨_, isPiece, rfl⟩
    have named := (spoken.found_iff other).mpr (.inl isMention)
    have isOther : other ≠ id := by
      rintro rfl
      rw [unnamed] at named
      cases named
    rw [Piece.textIn, Piece.textIn, Names.lookup_assign, if_neg isOther]
  | letters _ | failure _ => rfl

/-- One more piece. -/
theorem Spoken.concat {pieces : List Piece} {names between after : Names} {text more : String}
    {piece : Piece} (spoken : Spoken pieces names text between)
    (said : shader.say piece between = .ok (more, after)) :
    Spoken (pieces ++ [piece]) names (text ++ more) after := by
  have found := spoken.found_iff
  obtain ⟨new, isBetween, handed⟩ := spoken.handed
  cases piece with
  | letters letters =>
    cases said
    refine ⟨?_, new, isBetween, ?_⟩
    · rw [List.map_append, String.join_append, ← spoken.text]
      simp [Piece.textIn]
    · rw [mentions_concat, handed]
      simp [Piece.mention?]
  | failure error => cases said
  | mention id =>
    have isName := lookup_of_nameOf said
    rw [say, run_nameOf] at said
    split at said
    case h_1 name named =>
      cases said
      refine ⟨?_, new, isBetween, ?_⟩
      · rw [List.map_append, String.join_append, ← spoken.text]
        simp [Piece.textIn, isName]
      · rw [eraseDups_mentions_concat, List.filter_append, ← handed]
        split
        case isTrue => rw [List.filter_nil, List.append_nil]
        case isFalse isNew =>
          have had := ((found id).mp (by rw [named]; rfl)).resolve_left isNew
          simp [Option.isSome_iff_ne_none.mp had]
    case h_2 => cases said
    case h_3 record unnamed known =>
      have isAssigned : between.assign id record = (more, after) := Except.ok.inj said
      obtain rfl : (between.assign id record).2 = after := congrArg Prod.snd isAssigned
      refine ⟨?_, (id, _) :: new, by rw [Names.handed_assign, isBetween]; rfl, ?_⟩
      · rw [List.map_append, String.join_append, spoken.join_assign unnamed, ← spoken.text]
        simp [Piece.textIn, isName]
      · have isNew : ¬(id ∈ mentions pieces ∨ (names.lookup id).isSome) := by
          rw [← found, unnamed]
          exact Bool.false_ne_true
        rw [not_or, Bool.not_eq_true, Option.isSome_eq_false_iff] at isNew
        rw [eraseDups_mentions_concat, List.filter_append, ← handed, if_neg isNew.1]
        simp [isNew.2]

/-- Pieces that can be written are, with names handed out in the order of the text. -/
theorem spoken_of_speak {pieces : List Piece} {names after : Names} {text : String}
    (ran : shader.speak pieces names = .ok (text, after)) : Spoken pieces names text after := by
  induction pieces using List.reverseRecOn generalizing text after with
  | nil =>
    cases ran
    exact ⟨rfl, [], rfl, rfl⟩
  | append_singleton pieces piece ih =>
    rw [speak_append, speak_singleton] at ran
    obtain ⟨text, between, spoken, ran⟩ := ok_of_bind ran
    obtain ⟨more, said, rfl⟩ := ok_of_map ran
    exact (ih spoken).concat said

/-- What asking for a rank does is what writing does first: it fails only as writing does, and
writing after it is writing without it. -/
theorem Ranked.run {rank : Naming Rank} {text : Naming String} (ranked : shader.Ranked rank text)
    (names : Names) :
    match rank names with
    | .error error => text names = .error error
    | .ok (_, after) => text after = text names := by
  obtain ⟨-, isRank, same⟩ := ranked
  have opened : (rank names >>= fun found =>
      (fun written => ((found.1, written.1), written.2)) <$> text found.2) =
      (fun written => ((isRank, written.1), written.2)) <$> text names := congrFun same names
  have forget : ∀ (rank : Rank) (outcome : Except RenderError (String × Names)),
      (fun found : (Rank × String) × Names => (found.1.2, found.2)) <$>
        (fun written => ((rank, written.1), written.2)) <$> outcome = outcome := by
    intro rank outcome
    cases outcome <;> rfl
  have same := congrArg ((fun found : (Rank × String) × Names => (found.1.2, found.2)) <$> ·) opened
  cases asked : rank names with
  | error error =>
    rw [asked] at same
    exact (forget isRank (text names)).symm.trans same.symm
  | ok found =>
    rw [asked] at same
    exact (forget found.1 (text found.2)).symm.trans (same.trans (forget isRank (text names)))

/-- Asking for the rank of an expression before it is written leaves no trace, in any state of the
names: where asking fails, writing fails in the same way, and otherwise what is written after it,
and with which names, is what is written without it. For a text is made of letters and mentions of
variables that do not depend on names, and writing it hands out a name to each variable that is
mentioned and has none, in the order of the first mentions. -/
theorem write_looked_up (acyclic : shader.Acyclic) (dialect : Dialect) (expr : Expr) :
    (∀ names error, shader.rankOf dialect expr names = .error error →
      shader.write dialect expr names = .error error) ∧
    (∀ names rank after, shader.rankOf dialect expr names = .ok (rank, after) →
      shader.write dialect expr after = shader.write dialect expr names) ∧
    ∃ pieces, shader.write dialect expr = shader.speak pieces ∧
      ∀ names text after, shader.write dialect expr names = .ok (text, after) →
        Spoken pieces names text after := by
  have ranked := acyclic.ranked dialect expr
  obtain ⟨pieces, isText, -⟩ := ranked.1
  refine ⟨?_, ?_, pieces, isText, ?_⟩
  · intro names error failed
    have run := ranked.run names
    rwa [failed] at run
  · intro names rank after found
    have run := ranked.run names
    rwa [found] at run
  · intro names text after written
    rw [isText] at written
    exact spoken_of_speak written

/-- In `nestedShader` asking for the rank of a forward hands out the name that it starts with. -/
theorem write_looked_up_forward :
    let names := Names.start nestedShader
    let looked := { names with handed := [(⟨1⟩, "b")] }
    let expr := Expr.construct ⟨⟨3⟩, .scalar .float, .forward, .none, none⟩ [.ref ⟨1⟩]
    nestedShader.Acyclic ∧
    nestedShader.rankOf .glsl expr names = .ok (.primary, looked) ∧
    nestedShader.write .glsl expr looked = nestedShader.write .glsl expr names :=
  ⟨acyclic_nestedShader, rfl, (write_looked_up acyclic_nestedShader .glsl _).2.1 _ _ _ rfl⟩

end Shader

end ShaderLoom
