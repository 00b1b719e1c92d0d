import Mathlib.Data.List.TakeWhile
import ShaderLoom.Proofs.Numeric

/-!
# No parentheses too many

Parentheses are only written where leaving them out would change what is read. The proof counts. A
tree needs a pair of parentheses for each operand that binds looser than its place
(`Reading.needs`); every text that is read as the tree has at least as many
(`Grammar.Layered.needs_le_openings`), and the text that is written has no more
(`Expr.Numeric.openings_tokens`).

The lower bound is an invariant of reading. What has been read so far either stands in parentheses
that are not yet spent on a place, or binds as tightly as it is asked for and is followed by nothing
that its right end would have taken (`Grammar.Held`).
-/
namespace ShaderLoom

/-- The number of opening parentheses. -/
def openings (tokens : List Token) : Nat := tokens.count (.symbol "(")

/-- The level from which on a left operand needs no parentheses. -/
def Grammar.leftLevel (g : Grammar) (op : BinaryOp) : Nat :=
  match g.assoc op with
  | .left => g.level op
  | .right => g.level op + 1

namespace Reading

/-- The parentheses that a tree of binary and conditional operators needs in a place for what binds
at least as tightly as `min`, with those inside it. Other trees are not looked into. -/
def needs (g : Grammar) : Nat → Reading → Nat
  | min, .binary op lhs rhs =>
    lhs.needs g (g.leftLevel op) + rhs.needs g (g.rightLevel op) +
      if g.level op < min then 1 else 0
  | min, .ternary condition yes no =>
    condition.needs g 4 + yes.needs g 0 + no.needs g 3 + if 3 < min then 1 else 0
  | _, _ => 0

/-- The level of the outermost operator of a tree. -/
def level (g : Grammar) : Reading → Nat
  | .binary op _ _ => g.level op
  | .ternary _ _ _ => 3
  | .unary _ .before _ => 15
  | _ => 17

/-- The level at which the right end of a tree goes on reading. -/
def tail (g : Grammar) : Reading → Nat
  | .binary op _ _ => g.rightLevel op
  | .ternary _ _ _ => 3
  | .unary _ .before _ => 15
  | _ => 17

variable (g : Grammar) (x : Reading)

/-- A place asks for one pair of parentheses at most. -/
theorem needs_le (min : Nat) : x.needs g min ≤ x.needs g 0 + 1 := by
  cases x with
  | binary op lhs rhs => simp only [needs]; split <;> omega
  | ternary condition yes no => simp only [needs]; split <;> omega
  | _ => simp [needs]

/-- A place that is loose enough asks for none. -/
theorem needs_of_le {min : Nat} (loose : min ≤ x.level g) : x.needs g min = x.needs g 0 := by
  cases x with
  | binary op lhs rhs => simp [needs, Nat.not_lt.mpr (show min ≤ g.level op from loose)]
  | ternary condition yes no => simp [needs, Nat.not_lt.mpr (show min ≤ 3 from loose)]
  | _ => simp [needs]

/-- A place asks for parentheses around what binds looser. -/
theorem needs_eq {min : Nat} (place : min ≤ 15) :
    x.needs g min = x.needs g 0 + if x.level g < min then 1 else 0 := by
  by_cases loose : min ≤ x.level g
  · rw [needs_of_le g x loose, if_neg (by omega), Nat.add_zero]
  · rw [if_pos (by omega)]
    cases x with
    | binary op lhs rhs =>
      simp only [level] at loose
      simp [needs, Nat.lt_of_not_le loose]
    | ternary condition yes no =>
      simp only [level] at loose
      simp [needs, Nat.lt_of_not_le loose]
    | unary op fixity operand => cases fixity <;> simp only [level] at loose <;> omega
    | _ => simp only [level] at loose; omega

end Reading

namespace Grammar

variable {g : Grammar} {budget min : Nat} {tokens rest : List Token} {lhs x : Reading}

/-- Binary operators have levels below those of prefixed ones, none has that of the conditional
operator, and those of one level group to one side. -/
structure Layered (g : Grammar) : Prop where
  apart : ∀ op, g.symbol op ∉ finals
  bounded : ∀ op, g.level op ≤ 14 ∧ g.level op ≠ 3
  coherent : ∀ op other, g.level op = g.level other → g.assoc op = g.assoc other

/-- What has been read as `lhs` out of a text with so many parentheses, in a place that asks for
`min` and before `tokens`. -/
def Held (g : Grammar) (budget min : Nat) (lhs : Reading) (tokens : List Token) : Prop :=
  lhs.needs g 0 + 1 + openings tokens ≤ budget ∨
    lhs.needs g 0 + openings tokens ≤ budget ∧ min ≤ lhs.level g ∧
      g.nextSuffix? (lhs.tail g) tokens = none

/-- Taking a symbol off leaves no more parentheses. -/
theorem openings_expect {text : String} (found : expect text tokens = some rest) :
    openings rest ≤ openings tokens := by
  unfold expect at found
  split at found
  · split at found
    · obtain rfl := Option.some.inj found
      exact List.count_le_count_cons
    · contradiction
  · contradiction

/-- A suffix binds as tightly as is asked for, its symbol is no parenthesis, and where nothing could
follow that binds as tightly as `tail` the suffix binds looser. -/
theorem nextSuffix?_spec (layered : g.Layered) {suffix : Suffix}
    (found : g.nextSuffix? min tokens = some (suffix, rest)) :
    min ≤ g.grip suffix ∧ openings rest = openings tokens ∧
      ∀ tail, g.nextSuffix? tail tokens = none → g.grip suffix < tail := by
  unfold nextSuffix? at found
  split at found
  · rename_i text after
    split at found
    · contradiction
    · rename_i other isSuffix
      split at found
      · contradiction
      · rename_i tight
        obtain ⟨rfl, rfl⟩ : other = suffix ∧ after = rest := by simpa using found
        have noParen : text ≠ "(" := by
          rintro rfl
          have none : g.operator? "(" = none := by
            rw [operator?, List.find?_eq_none]
            intro op _ same
            have apart := layered.apart op
            rw [beq_iff_eq.mp same] at apart
            exact apart (by decide)
          simp [suffix?, none] at isSuffix
        refine ⟨Nat.not_lt.mp tight, by simp [openings, noParen], ?_⟩
        intro tail stops
        simp only [nextSuffix?, isSuffix] at stops
        by_contra loose
        rw [if_neg loose] at stops
        contradiction
  · contradiction

/-- Nothing binds as tightly as a name or a number. -/
theorem nextSuffix?_seventeen (layered : g.Layered) (tokens : List Token) :
    g.nextSuffix? 17 tokens = none := by
  cases found : g.nextSuffix? 17 tokens with
  | none => rfl
  | some pair =>
    obtain ⟨suffix, rest⟩ := pair
    have tight := (nextSuffix?_spec layered found).1
    cases suffix with
    | binary op =>
      have := layered.bounded op
      simp only [grip] at tight
      omega
    | _ => simp [grip] at tight

/-- An operator that the right end of a tree leaves alone may take the tree as its left operand. -/
theorem leftLevel_le (layered : g.Layered) (x : Reading) {op : BinaryOp}
    (left : g.level op < x.tail g) : g.leftLevel op ≤ x.level g := by
  have bounds := layered.bounded op
  have short : g.leftLevel op ≤ g.level op + 1 := by
    unfold leftLevel
    split <;> omega
  cases x with
  | binary other =>
    simp only [Reading.tail, rightLevel, Reading.level] at left ⊢
    by_cases tied : g.level op = g.level other
    · -- Both group to one side. Were it the right, the right end of the tree had taken the operator.
      have same := layered.coherent op other tied
      unfold leftLevel
      cases assoc : g.assoc op with
      | left => simp [tied]
      | right =>
        rw [← same, assoc] at left
        simp only at left
        omega
    · split at left <;> omega
  | unary other fixity operand =>
    cases fixity with
    | before => simp only [Reading.level]; omega
    | after => simp only [Reading.level]; omega
  | ternary =>
    simp only [Reading.tail, Reading.level] at left ⊢
    omega
  | _ =>
    simp only [Reading.level]
    omega

/-- A tree whose right end leaves a question mark alone may be a condition. -/
theorem three_lt_level (layered : g.Layered) (x : Reading) (left : 3 < x.tail g) :
    3 < x.level g := by
  cases x with
  | binary other =>
    have bounds := layered.bounded other
    simp only [Reading.tail, rightLevel, Reading.level] at left ⊢
    split at left <;> omega
  | unary op fixity operand => cases fixity <;> simp [Reading.level]
  | ternary => simp [Reading.tail] at left
  | _ => simp [Reading.level]

/-- What is held is paid for in any place that is loose enough, or else needs the parentheses that
are left to spend. -/
theorem Held.needs_le (held : g.Held budget min lhs tokens) (place : Nat)
    (loose : min ≤ lhs.level g → g.nextSuffix? (lhs.tail g) tokens = none →
      place ≤ lhs.level g) :
    lhs.needs g place + openings tokens ≤ budget := by
  rcases held with spare | ⟨paid, tight, stops⟩
  · have := lhs.needs_le g place
    omega
  · rw [lhs.needs_of_le g (loose tight stops)]
    exact paid

/-- What is held leaves no more parentheses than there were. -/
theorem Held.openings_le (held : g.Held budget min lhs tokens) : openings tokens ≤ budget := by
  rcases held with spare | ⟨paid, -⟩ <;> omega

/-- What needs no parentheses is held anywhere. -/
theorem held_of_needs (layered : g.Layered) (place : min ≤ 15) (free : x.needs g 0 = 0)
    (level : x.level g = 17) (tail : x.tail g = 17) (enough : openings rest ≤ budget) :
    g.Held budget min x rest := by
  refine .inr ⟨by omega, by omega, ?_⟩
  rw [tail]
  exact nextSuffix?_seventeen layered rest

/-- A reader that reads no tree from fewer parentheses than it needs, and stops where it should. -/
def Pays (g : Grammar) (deep : Nat → List Token → Option (Reading × List Token)) : Prop :=
  ∀ min tokens x rest, min ≤ 15 → deep min tokens = some (x, rest) →
    x.needs g min + openings rest ≤ openings tokens ∧ g.nextSuffix? min rest = none

variable {deep : Nat → List Token → Option (Reading × List Token)}
  {list : List Token → Option (List Reading × List Token)}

/-- An operand is held. -/
theorem Pays.held_operand (pays : g.Pays deep) (layered : g.Layered)
    (listed : ∀ tokens xs rest, list tokens = some (xs, rest) → openings rest ≤ openings tokens)
    (place : min ≤ 15) (read : operandWith deep list tokens = some (x, rest)) :
    g.Held (openings tokens) min x rest := by
  cases tokens with
  | nil => simp [operandWith] at read
  | cons token after =>
    cases token with
    | number value =>
      obtain ⟨rfl, rfl⟩ : .number value = x ∧ after = rest := by simpa [operandWith] using read
      exact held_of_needs layered place rfl rfl rfl List.count_le_count_cons
    | word text =>
      have skip : openings after ≤ openings (.word text :: after) := List.count_le_count_cons
      simp only [operandWith] at read
      split at read
      · obtain ⟨rfl, rfl⟩ : .name text = x ∧ after = rest := by simpa using read
        exact held_of_needs layered place rfl rfl rfl skip
      · rename_i inside opened
        have within := openings_expect opened
        split at read
        · rename_i last closed
          have left := openings_expect closed
          obtain ⟨rfl, rfl⟩ : .call text [] = x ∧ last = rest := by simpa using read
          exact held_of_needs layered place rfl rfl rfl (by omega)
        · simp only [Option.map_eq_some_iff, Prod.exists, Prod.mk.injEq] at read
          obtain ⟨args, last, readArgs, rfl, rfl⟩ := read
          have left := listed inside args last readArgs
          exact held_of_needs layered place rfl rfl rfl (by omega)
    | symbol text =>
      simp only [operandWith] at read
      split at read
      · rename_i isParen
        subst isParen
        simp only [Option.bind_eq_bind, Option.bind_eq_some_iff, Prod.exists, Option.some.injEq,
          Prod.mk.injEq] at read
        obtain ⟨inner, middle, inside, last, closed, rfl, rfl⟩ := read
        obtain ⟨paid, -⟩ := pays 0 after inner middle (Nat.zero_le _) inside
        have left := openings_expect closed
        have paren : openings (.symbol "(" :: after) = openings after + 1 := by simp [openings]
        exact .inl (by omega)
      · simp only [Option.bind_eq_bind, Option.bind_eq_some_iff, Prod.exists, Option.some.injEq,
          Prod.mk.injEq] at read
        obtain ⟨op, -, operand, last, inside, rfl, rfl⟩ := read
        obtain ⟨paid, stops⟩ := pays 15 after operand last (Nat.le_refl _) inside
        have skip : openings after ≤ openings (.symbol text :: after) := List.count_le_count_cons
        refine .inr ⟨?_, place, stops⟩
        simp only [Reading.needs]
        omega

/-- What is held stays held with a suffix. -/
theorem Held.suffix (held : g.Held budget min lhs tokens) (layered : g.Layered)
    (pays : g.Pays deep) (place : min ≤ 15) {suffix : Suffix} {after : List Token}
    (found : g.nextSuffix? min tokens = some (suffix, after))
    (read : g.suffixWith deep lhs suffix after = some (x, rest)) : g.Held budget min x rest := by
  obtain ⟨tight, same, looser⟩ := nextSuffix?_spec layered found
  have enough := held.openings_le
  cases suffix with
  | subscript =>
    simp only [suffixWith, Option.bind_eq_bind, Option.bind_eq_some_iff, Prod.exists,
      Option.some.injEq, Prod.mk.injEq] at read
    obtain ⟨index, middle, inside, last, closed, rfl, rfl⟩ := read
    obtain ⟨paid, -⟩ := pays 0 after index middle (Nat.zero_le _) inside
    have left := openings_expect closed
    exact held_of_needs layered place rfl rfl rfl (by omega)
  | member =>
    simp only [suffixWith] at read
    split at read
    · rename_i name last
      have skip : openings last ≤ openings (.word name :: last) := List.count_le_count_cons
      obtain ⟨rfl, rfl⟩ : .member lhs name = x ∧ last = rest := by simpa using read
      exact held_of_needs layered place rfl rfl rfl (by omega)
    · contradiction
  | after op =>
    obtain ⟨rfl, rfl⟩ : .unary op .after lhs = x ∧ after = rest := by
      simpa [suffixWith] using read
    exact held_of_needs layered place rfl rfl rfl (by omega)
  | question =>
    simp only [suffixWith, Option.bind_eq_bind, Option.bind_eq_some_iff, Prod.exists,
      Option.some.injEq, Prod.mk.injEq] at read
    obtain ⟨yes, middle, inside, last, colon, no, final, readNo, rfl, rfl⟩ := read
    have paidCondition := held.needs_le 4 fun _ stops =>
      three_lt_level layered lhs (looser _ stops)
    obtain ⟨paidYes, -⟩ := pays 0 after yes middle (Nat.zero_le _) inside
    have left := openings_expect colon
    obtain ⟨paidNo, stops⟩ := pays 3 last no final (by decide) readNo
    refine .inr ⟨?_, tight, stops⟩
    simp only [Reading.needs, Nat.not_lt_zero, ↓reduceIte]
    omega
  | binary op =>
    simp only [suffixWith, Option.bind_eq_bind, Option.bind_eq_some_iff, Prod.exists,
      Option.some.injEq, Prod.mk.injEq] at read
    obtain ⟨rhs, last, inside, rfl, rfl⟩ := read
    have paidLeft := held.needs_le (g.leftLevel op) fun _ stops =>
      leftLevel_le layered lhs (looser _ stops)
    have right : g.rightLevel op ≤ 15 := by
      have := layered.bounded op
      unfold rightLevel
      split <;> omega
    obtain ⟨paidRight, stops⟩ := pays (g.rightLevel op) after rhs last right inside
    refine .inr ⟨?_, tight, stops⟩
    simp only [Reading.needs, Nat.not_lt_zero, ↓reduceIte]
    omega

/-- Whatever the depth, reading needs the parentheses of what is read. -/
theorem Layered.within_pays (layered : g.Layered) (depth : Nat) :
    g.Pays (g.climbWithin depth) ∧
    (∀ budget min lhs tokens x rest, min ≤ 15 → g.Held budget min lhs tokens →
      g.extendWithin depth min lhs tokens = some (x, rest) →
      x.needs g min + openings rest ≤ budget ∧ g.nextSuffix? min rest = none) ∧
    (∀ tokens xs rest, g.listWithin depth tokens = some (xs, rest) →
      openings rest ≤ openings tokens) := by
  induction depth with
  | zero => simp [Pays, climbWithin, extendWithin, listWithin]
  | succ depth ih =>
    obtain ⟨pays, paysOn, lists⟩ := ih
    refine ⟨?_, ?_, ?_⟩
    · intro min tokens x rest place read
      simp only [climbWithin, Option.bind_eq_bind, Option.bind_eq_some_iff, Prod.exists] at read
      obtain ⟨operand, middle, first, extended⟩ := read
      have held := pays.held_operand layered lists place first
      exact paysOn (openings tokens) min operand middle x rest place held extended
    · intro budget min lhs tokens x rest place held read
      simp only [extendWithin] at read
      split at read
      · rename_i stops
        obtain ⟨rfl, rfl⟩ : lhs = x ∧ tokens = rest := by simpa using read
        exact ⟨held.needs_le min fun tight _ => tight, stops⟩
      · rename_i suffix after found
        simp only [Option.bind_eq_bind, Option.bind_eq_some_iff, Prod.exists] at read
        obtain ⟨longer, middle, suffixed, extended⟩ := read
        have still := held.suffix layered pays place found suffixed
        exact paysOn budget min longer middle x rest place still extended
    · intro tokens xs rest read
      simp only [listWithin, Option.bind_eq_bind, Option.bind_eq_some_iff, Prod.exists] at read
      obtain ⟨first, middle, readFirst, read⟩ := read
      obtain ⟨paid, -⟩ := pays 0 tokens first middle (Nat.zero_le _) readFirst
      split at read
      · rename_i last closed
        have left := openings_expect closed
        obtain ⟨-, rfl⟩ : [first] = xs ∧ last = rest := by simpa using read
        omega
      · simp only [Option.bind_eq_some_iff, Prod.exists, Option.some.injEq, Prod.mk.injEq] at read
        obtain ⟨last, comma, others, final, listed, -, rfl⟩ := read
        have left := openings_expect comma
        have := lists last others final listed
        omega

/-- A text that is read as a tree has at least the parentheses that the tree needs. -/
theorem Layered.needs_le_openings (layered : g.Layered) {tree : Reading}
    (read : g.climb 0 tokens = some (tree, [])) : tree.needs g 0 ≤ openings tokens := by
  obtain ⟨paid, -⟩ := (layered.within_pays _).1 0 tokens tree [] (Nat.zero_le _) read
  simpa [openings] using paid

end Grammar

/-- The levels of GLSL are layered. -/
theorem layered_glsl : Dialect.glsl.grammar.Layered where
  apart := (Dialect.grammar_suits (.inl rfl)).apart
  bounded := (Dialect.grammar_suits (.inl rfl)).bounded
  coherent op other same := by
    have ranks : op.rank = other.rank := by
      change Dialect.glsl.binaryRank op = Dialect.glsl.binaryRank other
      rw [rank_glsl, rank_glsl, same]
    change op.assoc = other.assoc
    rw [op.assoc_eq, other.assoc_eq, ranks]

/-- Parentheses around tokens are one more. -/
theorem openings_enclose (wrap : Bool) (tokens : List Token) :
    openings (enclose wrap tokens) = openings tokens + if wrap then 1 else 0 := by
  cases wrap <;> simp [openings, enclose, List.count_append]

/-- A symbol between tokens that is no parenthesis adds none. -/
theorem openings_between {text : String} (apart : text ≠ "(") (left right : List Token) :
    openings (left ++ .symbol text :: right) = openings left + openings right := by
  simp [openings, List.count_append, apart]

/-- An operand of a known rank is put in parentheses where it binds looser than its place, and where
ties are wrapped also where it binds just as tightly. -/
theorem wraps_level (parent child : Nat) (ties : Bool) :
    wraps (.level parent) ties (.level child) =
      decide (child < if ties then parent + 1 else parent) := by
  rw [Bool.eq_iff_iff]
  cases ties with
  | true =>
    simp [wraps, Rank.needsParens]
    omega
  | false => simp [wraps, Rank.needsParens]

namespace Expr

variable {expr : Expr}

/-- The rank of an expression of numbers is the level of its tree. -/
theorem Numeric.rank_eq (numeric : expr.Numeric False) :
    expr.rank .glsl = .level (expr.tree.level Dialect.glsl.grammar) := by
  cases numeric with
  | number value =>
    simp [rank, intrinsicRank?, Literal.isNegative, Rank.primary, tree, Reading.level]
  | binary op => cases op <;> rfl
  | before allowed => exact allowed.elim
  | ternary => rfl

/-- An operand is written with the parentheses it needs in its place. -/
theorem Numeric.openings_operand (numeric : expr.Numeric False) {name : VarId → String}
    (inside : openings (expr.tokens .glsl name) = expr.tree.needs Dialect.glsl.grammar 0)
    {parent : Nat} (bounded : parent ≤ 14) (ties : Bool) :
    openings (enclose (wraps (.level parent) ties (expr.rank .glsl)) (expr.tokens .glsl name)) =
      expr.tree.needs Dialect.glsl.grammar (if ties then parent + 1 else parent) := by
  have place : (if ties then parent + 1 else parent) ≤ 15 := by split <;> omega
  rw [openings_enclose, numeric.rank_eq, wraps_level, inside, Reading.needs_eq _ _ place]
  simp only [decide_eq_true_eq]

/-- An expression of numbers is written with the parentheses it needs. -/
theorem Numeric.openings_tokens (numeric : expr.Numeric False) (name : VarId → String) :
    openings (expr.tokens .glsl name) = expr.tree.needs Dialect.glsl.grammar 0 := by
  induction numeric with
  | number value =>
    have natural : ¬ (value : Int) < 0 := by omega
    simp [tokens, tree, Reading.needs, openings, natural]
  | binary op left right insideLeft insideRight =>
    have bounded := (layered_glsl.bounded op).1
    have lhs := left.openings_operand insideLeft bounded (op.assoc == .right)
    have rhs := right.openings_operand insideRight bounded (op.assoc == .left)
    have apart : Dialect.glsl.binarySymbol op ≠ "(" := by
      intro same
      have unlike := layered_glsl.apart op
      simp [Dialect.grammar, same, finals] at unlike
    rw [← rank_glsl] at lhs rhs
    simp only [tokens, tree, Reading.needs, Nat.not_lt_zero, ↓reduceIte, Nat.add_zero]
    rw [openings_between apart, lhs, rhs, Grammar.leftLevel, Grammar.rightLevel]
    cases op <;> rfl
  | before allowed => exact allowed.elim
  | ternary test first second insideTest insideFirst insideSecond =>
    have condition := test.openings_operand insideTest (by decide : 3 ≤ 14) true
    have yes := first.openings_operand insideFirst (by decide : 0 ≤ 14) false
    have no := second.openings_operand insideSecond (by decide : 3 ≤ 14) false
    simp only [tokens, tree, Reading.needs, Nat.not_lt_zero, ↓reduceIte, Nat.add_zero]
    rw [openings_between (by decide), openings_between (by decide), Rank.ternary, Rank.lowest,
      condition, yes, no]
    simp only [↓reduceIte, Bool.false_eq_true, Nat.reduceAdd]
    omega

end Expr

/-- What holds no parenthesis can be dropped. -/
theorem count_dropWhile {p : Char → Bool} (stops : p '(' = false) (chars : List Char) :
    (chars.dropWhile p).count '(' = chars.count '(' := by
  have none : (chars.takeWhile p).count '(' = 0 := by
    rw [List.count_eq_zero]
    intro mem
    have goesOn := List.mem_takeWhile_imp mem
    simp [stops] at goesOn
  conv_rhs => rw [← chars.takeWhile_append_dropWhile (p := p)]
  rw [List.count_append, none, Nat.zero_add]

/-- The only symbol with a parenthesis is that parenthesis. -/
theorem count_symbol : ∀ text ∈ symbols, text.toList.count '(' = if text = "(" then 1 else 0 := by
  decide

/-- Each opening parenthesis of a text is a token. -/
theorem openings_of_lex {chars : List Char} {tokens : List Token} (cut : lex chars = some tokens) :
    openings tokens = chars.count '(' := by
  unfold lex at cut
  fun_induction lexWith symbols chars generalizing tokens with
  | case1 =>
    obtain rfl : [] = tokens := by simpa using cut
    rfl
  | case2 first rest blank ih =>
    have apart : first ≠ '(' := by rintro rfl; exact absurd blank (by decide)
    rw [ih cut, List.count_cons_of_ne apart]
  | case3 first rest blank start ih =>
    have apart : first ≠ '(' := by rintro rfl; exact absurd start (by decide)
    obtain ⟨others, cutRest, rfl⟩ := Option.map_eq_some_iff.mp cut
    have mem : first ∈ (String.ofList (first :: rest.takeWhile isWordPart)).toList := by simp
    rw [wordToken_symbols mem (isWordPart_of_isWordStart start), List.count_cons_of_ne apart,
      ← count_dropWhile (by decide : isWordPart '(' = false), ← ih cutRest]
    simp [openings]
  | case4 first rest blank start digit ih =>
    have apart : first ≠ '(' := by rintro rfl; exact absurd digit (by decide)
    obtain ⟨others, cutRest, rfl⟩ := Option.map_eq_some_iff.mp cut
    rw [List.count_cons_of_ne apart, ← count_dropWhile (by decide : Char.isDigit '(' = false),
      ← ih cutRest]
    simp [openings]
  | case5 => contradiction
  | case6 first rest blank start digit symbol found ih =>
    obtain ⟨known, tail, spelled⟩ := mem_of_longestIn found
    obtain ⟨others, cutRest, rfl⟩ := Option.map_eq_some_iff.mp cut
    have dropped : rest.drop (symbol.length - 1) = tail := by
      have whole : (first :: rest).drop symbol.length = tail := by
        rw [← spelled, ← String.length_toList, List.drop_left]
      obtain ⟨less, isLess⟩ := Nat.exists_eq_add_of_le' (symbols_length symbol known).1
      rw [isLess] at whole ⊢
      exact whole
    rw [dropped] at ih cutRest
    rw [← spelled, List.count_append, count_symbol symbol known, ← ih cutRest]
    simp only [openings, List.count_cons, beq_iff_eq, Token.symbol.injEq]
    omega

/-- A text that is read as a tree in GLSL has at least the parentheses that the tree needs. -/
theorem needs_le_count {text : String} {tree : Reading}
    (read : Dialect.glsl.grammar.read text = some tree) :
    tree.needs Dialect.glsl.grammar 0 ≤ text.toList.count '(' := by
  simp only [Grammar.read, Option.bind_eq_bind, Option.bind_eq_some_iff] at read
  obtain ⟨tokens, cut, read⟩ := read
  split at read
  · rename_i found climbed
    obtain rfl := Option.some.inj read
    rw [← openings_of_lex cut]
    exact layered_glsl.needs_le_openings climbed
  · contradiction

/-- What is written for an expression of numbers in GLSL is read back as its tree, and no longer is
once an opening and a closing parenthesis are taken out, whether they belong together or not. -/
theorem Shader.parens_needed (shader : Shader) (names : Names) {expr : Expr}
    (numeric : expr.Numeric False) :
    ∃ text, (shader.write .glsl expr).run names = .ok (text, names) ∧
      Dialect.glsl.grammar.read text = some expr.tree ∧
      ∀ left inside right, text.toList = left ++ '(' :: (inside ++ ')' :: right) →
        Dialect.glsl.grammar.read (String.ofList (left ++ inside ++ right)) ≠ some expr.tree := by
  have suits := Dialect.grammar_suits (.inl rfl : Dialect.glsl = .glsl ∨ Dialect.glsl = .hlsl)
  obtain ⟨text, written, cut, parsed⟩ := shader.parse_write suits.toFits (fun _ => rfl)
    (fun op => by cases op <;> decide) (Grammar.representative_eq BinaryOp.symbol_injective) names
    numeric
  have common : Dialect.glsl.grammar.table = symbols := rfl
  rw [common] at cut
  rw [Grammar.parse_eq_read common] at parsed
  refine ⟨text, written, parsed, ?_⟩
  intro left inside right spelled read
  have needed := needs_le_count read
  have count := openings_of_lex cut
  have closing : (')' :: right).count '(' = right.count '(' :=
    List.count_cons_of_ne (by decide)
  rw [numeric.openings_tokens, spelled] at count
  simp only [List.count_append, List.count_cons_self, closing] at count
  simp only [String.toList_ofList, List.count_append] at needed
  omega

/-- Both pairs of parentheses in `(1 - (2 - 3)) * 4` are needed: without the inner one the text is
read as `((1 - 2) - 3) * 4`, without the outer one as `1 - ((2 - 3) * 4)`. -/
theorem Shader.parens_needed_nested :
    let shader : Shader := ⟨.empty, .empty⟩
    let expr : Expr := .binary .mul
      (.binary .sub (.int 1) (.binary .sub (.int 2) (.int 3))) (.int 4)
    expr.Numeric False ∧
      (shader.write .glsl expr).run (.start shader) = .ok ("(1 - (2 - 3)) * 4", .start shader) ∧
      Dialect.glsl.grammar.read "(1 - (2 - 3)) * 4" = some expr.tree ∧
      Dialect.glsl.grammar.read "(1 - 2 - 3) * 4" ≠ some expr.tree ∧
      Dialect.glsl.grammar.read "1 - (2 - 3) * 4" ≠ some expr.tree := by
  intro shader expr
  have numeric : expr.Numeric False :=
    .binary _ (.binary _ (.number 1) (.binary _ (.number 2) (.number 3))) (.number 4)
  have written : (shader.write .glsl expr).run (.start shader) =
      .ok ("(1 - (2 - 3)) * 4", .start shader) := rfl
  obtain ⟨text, writtenText, read, needed⟩ := shader.parens_needed (.start shader) numeric
  obtain rfl : text = "(1 - (2 - 3)) * 4" := by
    have both := writtenText.symm.trans written
    simpa using both
  refine ⟨numeric, written, read, ?_, ?_⟩
  · exact needed "(1 - ".toList "2 - 3".toList ") * 4".toList rfl
  · exact needed "".toList "1 - (2 - 3)".toList " * 4".toList rfl

end ShaderLoom
