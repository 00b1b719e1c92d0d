import Mathlib.Tactic.FinCases
import ShaderLoom.Dialect.Standard
import ShaderLoom.Proofs.Reading
import ShaderLoom.Proofs.Spelling

/-!
# Written expressions are read back

The text of a plain expression is read back as the tree it was written for. A negative integer is
read as a prefixed minus and its magnitude, and operators or provided functions that the dialect
spells alike cannot be told apart; nothing else is lost.

The proof follows the expression. The tokens of an expression, followed by something that binds
looser than its right end, are read to the tree of the expression, which is then extended by what
follows (`Grammar.climb_tokens`): on its left an operator meets an operand that holds nothing
looser than the operator, and on its right the operand is read at a level that stops where the
operator would.
-/
namespace ShaderLoom

/-- The grammar of a dialect: its ranks as levels, and the grouping that all dialects share. -/
def Dialect.grammar (dialect : Dialect) : Grammar where
  symbol := dialect.binarySymbol
  level op :=
    match dialect.binaryRank op with
    | .level value => value
    | .undefined => 0
  assoc := BinaryOp.assoc

namespace Grammar

/-- The operator that is read where this one was written. -/
def representative (g : Grammar) (op : BinaryOp) : BinaryOp := (g.operator? (g.symbol op)).getD op

/-- What reading relies on: operators that are spelled alike bind and group alike, those with a rank
bind by it, and all stand off from brackets, from the conditional operator and from unary ones.
Ranked operators of one level group to one side. -/
structure Fits (g : Grammar) (dialect : Dialect) : Prop where
  unarySymbol : dialect.unarySymbol = UnaryOp.symbol
  unaryRank : dialect.unaryRank = UnaryOp.rank
  symbol : ∀ op, g.symbol op = dialect.binarySymbol op
  apart : ∀ op, g.symbol op ∉ finals
  alike : ∀ op, g.operator? (g.symbol op) = some (g.representative op) ∧
    g.level (g.representative op) = g.level op ∧ g.assoc (g.representative op) = g.assoc op
  ranked : ∀ op level, dialect.binaryRank op = .level level →
    g.level op = level ∧ g.assoc op = op.assoc
  bounded : ∀ op, g.level op ≤ 14 ∧ g.level op ≠ 3
  coherent : ∀ op other level, dialect.binaryRank op = .level level →
    dialect.binaryRank other = .level level → op.assoc = other.assoc

/-- A grammar fits a dialect that is written with the common symbols. -/
structure Suits (g : Grammar) (dialect : Dialect) : Prop extends dialect.Common, g.Fits dialect

end Grammar

namespace Expr

variable (g : Grammar) (dialect : Dialect) (name : VarId → String)

mutual

/-- The tree that a plain expression is read as, given the names of variables. -/
def reading : Expr → Reading
  | .literal (.int value) =>
    if value < 0 then .unary .neg .before (.number value.natAbs) else .number value.natAbs
  | .ref id => .name (name id)
  | .binary op lhs rhs => .binary (g.representative op) lhs.reading rhs.reading
  | .unary op fixity operand => .unary op fixity operand.reading
  | .ternary condition yes no => .ternary condition.reading yes.reading no.reading
  | .subscript object index => .subscript object.reading index.reading
  | .member object field => .member object.reading field
  | .call (.builtin name) args => .call (dialect.builtin name) (readings args)
  | _ => .name ""

/-- The trees that plain arguments are read as. -/
def readings : List Expr → List Reading
  | [] => []
  | arg :: rest => arg.reading :: readings rest

end

end Expr

namespace Grammar

variable {g : Grammar} {dialect : Dialect} {name : VarId → String}

/-- The level of the outermost operator of a plain expression. -/
def levelOf (g : Grammar) : Expr → Nat
  | .binary op _ _ => g.level op
  | .unary _ .before _ => 15
  | .unary _ .after _ => 16
  | .literal (.int value) => if value < 0 then 15 else 17
  | .ternary _ _ _ => 3
  | .ref _ => 17
  | _ => 16

/-- The level at which the right end of a plain expression goes on reading. Nothing goes on behind
a name, a number or a closing bracket. -/
def tailOf (g : Grammar) : Expr → Nat
  | .binary op _ _ => g.rightLevel op
  | .unary _ .before _ => 15
  | .literal (.int value) => if value < 0 then 15 else 17
  | .ternary _ _ _ => 3
  | _ => 17

/-- Nothing that binds at least as tightly as `level` follows, and no call. -/
structure Stops (g : Grammar) (level : Nat) (rest : List Token) : Prop where
  suffix : g.nextSuffix? level rest = none
  call : expect "(" rest = none

/-- A right end reads no looser than its expression binds. -/
theorem levelOf_le_tailOf (g : Grammar) (expr : Expr) : g.levelOf expr ≤ g.tailOf expr := by
  have right : ∀ op, g.level op ≤ g.rightLevel op := by
    intro op
    unfold rightLevel
    split <;> omega
  unfold levelOf tailOf
  split <;> simp_all

/-- What stops at a level stops at every tighter one. -/
theorem Stops.mono {low high : Nat} {rest : List Token} (stops : g.Stops low rest)
    (le : low ≤ high) : g.Stops high rest := by
  refine ⟨?_, stops.call⟩
  have none := stops.suffix
  unfold nextSuffix? at none ⊢
  split
  · rename_i text tail
    simp only at none
    split
    · rfl
    · rename_i suffix found
      simp only [found] at none
      split
      · rfl
      · rename_i tight
        rw [if_neg (by omega)] at none
        contradiction
  · rfl

/-- Where everything stops, an expression is not extended. -/
theorem Stops.extend {level : Nat} {rest : List Token} (stops : g.Stops level rest)
    (lhs : Reading) : g.extend level lhs rest = some (lhs, rest) := by
  rw [extend_eq, stops.suffix]

/-- A symbol that is no operator and takes nothing that stands before it stops everything. -/
theorem stops_closer (fits : g.Fits dialect) (text : String)
    (closes : text ∈ [")", "]", ",", ":"]) (rest : List Token) (level : Nat) :
    g.Stops level (.symbol text :: rest) := by
  have noOperator : g.operator? text = none := by
    unfold operator?
    rw [List.find?_eq_none]
    intro op _ same
    have apart := fits.apart op
    rw [beq_iff_eq.mp same] at apart
    fin_cases closes <;> exact absurd (by decide) apart
  fin_cases closes <;> exact ⟨by simp [nextSuffix?, suffix?, noOperator], by simp [expect]⟩

/-- Nothing follows at the end. -/
theorem stops_nil (level : Nat) : g.Stops level [] := ⟨rfl, rfl⟩

/-- A binary operator is found by its symbol, where its level is asked for. -/
theorem nextSuffix?_binary (fits : g.Fits dialect) (op : BinaryOp) (level : Nat)
    (rest : List Token) :
    g.nextSuffix? level (.symbol (g.symbol op) :: rest) =
      if g.level op < level then none else some (.binary (g.representative op), rest) := by
  obtain ⟨found, sameLevel, -⟩ := fits.alike op
  have suffix : g.suffix? (g.symbol op) = some (.binary (g.representative op)) := by
    have apart := fits.apart op
    simp only [finals, List.mem_cons, not_or] at apart
    simp [suffix?, found, apart]
  simp [nextSuffix?, suffix, grip, sameLevel]

/-- A binary operator stops what binds tighter. -/
theorem stops_binary (fits : g.Fits dialect) (op : BinaryOp) {level : Nat}
    (looser : g.level op < level) (rest : List Token) :
    g.Stops level (.symbol (g.symbol op) :: rest) := by
  refine ⟨by rw [nextSuffix?_binary fits, if_pos looser], ?_⟩
  have apart := fits.apart op
  simp only [finals, List.mem_cons, not_or] at apart
  simp [expect, apart]

/-- A question mark stops what binds tighter than the conditional operator. -/
theorem stops_question {level : Nat} (tighter : 3 < level) (rest : List Token) :
    g.Stops level (.symbol "?" :: rest) :=
  ⟨by simp [nextSuffix?, suffix?, grip, tighter], by simp [expect]⟩

/-- Suffixes that bind tightest stop only what they cannot be a suffix of. -/
theorem stops_tight {text : String} (tight : text ∈ ["[", ".", "++", "--"])
    (rest : List Token) : g.Stops 17 (.symbol text :: rest) := by
  fin_cases tight <;> exact ⟨by simp [nextSuffix?, suffix?, grip], by simp [expect]⟩

/-- A number is an operand. -/
theorem climb_number (min value : Nat) (rest : List Token) :
    g.climb min (.number value :: rest) = g.extend min (.number value) rest := by
  rw [climb_eq]
  rfl

/-- A word is an operand where no call follows. -/
theorem climb_name {text : String} {rest : List Token} (min : Nat)
    (noCall : expect "(" rest = none) :
    g.climb min (.word text :: rest) = g.extend min (.name text) rest := by
  rw [climb_eq]
  simp [operandWith, noCall]

/-- What stands in parentheses is an operand. -/
theorem climb_parens {tokens rest : List Token} {inner : Reading} (min : Nat)
    (read : g.climb 0 tokens = some (inner, .symbol ")" :: rest)) :
    g.climb min (.symbol "(" :: tokens) = g.extend min inner rest := by
  rw [climb_eq]
  simp [operandWith, read]

/-- A prefixed operator takes what binds as tightly as itself. -/
theorem climb_before {tokens rest : List Token} {operand : Reading} (min : Nat) (op : UnaryOp)
    (read : g.climb 15 tokens = some (operand, rest)) :
    g.climb min (.symbol op.symbol :: tokens) = g.extend min (.unary op .before operand) rest := by
  have found : leadingOp? op.symbol = some op := by cases op <;> rfl
  have apart : op.symbol ≠ "(" := by cases op <;> decide
  rw [climb_eq]
  simp [operandWith, apart, found, read]

/-- A binary operator that binds tightly enough takes a right operand. -/
theorem extend_binary (fits : g.Fits dialect) {min : Nat} {op : BinaryOp} {lhs rhs : Reading}
    {tokens rest : List Token} (tight : min ≤ g.level op)
    (read : g.climb (g.rightLevel op) tokens = some (rhs, rest)) :
    g.extend min lhs (.symbol (g.symbol op) :: tokens) =
      g.extend min (.binary (g.representative op) lhs rhs) rest := by
  obtain ⟨-, sameLevel, sameAssoc⟩ := fits.alike op
  have right : g.rightLevel (g.representative op) = g.rightLevel op := by
    simp [rightLevel, sameLevel, sameAssoc]
  rw [extend_eq, nextSuffix?_binary fits, if_neg (by omega)]
  simp [suffixWith, right, read]

/-- A question mark takes two more operands. -/
theorem extend_question {min : Nat} {condition yes no : Reading} {tokens middle rest : List Token}
    (loose : min ≤ 3) (readYes : g.climb 0 tokens = some (yes, .symbol ":" :: middle))
    (readNo : g.climb 3 middle = some (no, rest)) :
    g.extend min condition (.symbol "?" :: tokens) =
      g.extend min (.ternary condition yes no) rest := by
  have next : g.nextSuffix? min (.symbol "?" :: tokens) = some (.question, tokens) := by
    simp [nextSuffix?, suffix?, grip, Nat.not_lt.mpr loose]
  rw [extend_eq, next]
  simp [suffixWith, readYes, readNo]

/-- A bracket takes an index. -/
theorem extend_subscript {min : Nat} {object index : Reading} {tokens rest : List Token}
    (loose : min ≤ 16) (read : g.climb 0 tokens = some (index, .symbol "]" :: rest)) :
    g.extend min object (.symbol "[" :: tokens) = g.extend min (.subscript object index) rest := by
  have next : g.nextSuffix? min (.symbol "[" :: tokens) = some (.subscript, tokens) := by
    simp [nextSuffix?, suffix?, grip, Nat.not_lt.mpr loose]
  rw [extend_eq, next]
  simp [suffixWith, read]

/-- A point takes the name of a member. -/
theorem extend_member {min : Nat} {object : Reading} {field : String} {rest : List Token}
    (loose : min ≤ 16) :
    g.extend min object (.symbol "." :: .word field :: rest) =
      g.extend min (.member object field) rest := by
  have next : g.nextSuffix? min (.symbol "." :: .word field :: rest) =
      some (.member, .word field :: rest) := by
    simp [nextSuffix?, suffix?, grip, Nat.not_lt.mpr loose]
  rw [extend_eq, next]
  simp [suffixWith]

/-- A step behind an operand takes nothing more. -/
theorem extend_after {min : Nat} {operand : Reading} {op : UnaryOp} {rest : List Token}
    (loose : min ≤ 16) (steps : op = .increment ∨ op = .decrement) :
    g.extend min operand (.symbol op.symbol :: rest) =
      g.extend min (.unary op .after operand) rest := by
  have next : g.nextSuffix? min (.symbol op.symbol :: rest) = some (.after op, rest) := by
    rcases steps with rfl | rfl <;>
      simp [nextSuffix?, suffix?, grip, UnaryOp.symbol, Nat.not_lt.mpr loose]
  rw [extend_eq, next]
  simp [suffixWith]

/-- A plain expression with a rank binds at that level. -/
theorem levelOf_of_rank (fits : g.Fits dialect) {word : VarId → Prop} {expr : Expr} {level : Nat}
    (plain : expr.Plain word) (ranked : expr.rank dialect = .level level) :
    g.levelOf expr = level := by
  cases plain with
  | binary op => exact (fits.ranked op level ranked).1
  | before op =>
    simpa [Expr.rank, fits.unaryRank, UnaryOp.rank, Rank.before, levelOf] using ranked
  | after =>
    simpa [Expr.rank, fits.unaryRank, UnaryOp.rank, Rank.after, levelOf] using ranked
  | int value =>
    by_cases negative : value < 0
    · simpa [Expr.rank, Expr.intrinsicRank?, Literal.isNegative, negative, Rank.before, levelOf]
        using ranked
    · simpa [Expr.rank, Expr.intrinsicRank?, Literal.isNegative, negative, Rank.primary, levelOf]
        using ranked
  | _ => simpa [Expr.rank, Expr.intrinsicRank?, Rank.primary, Rank.after, Rank.ternary, levelOf]
      using ranked

/-- An operand without parentheses binds at least as tightly as its place asks for, and tighter
where ties would need them. -/
theorem level_of_bare (fits : g.Fits dialect) {word : VarId → Prop} {expr : Expr} {level : Nat}
    {ties : Bool} (plain : expr.Plain word)
    (bare : wraps (.level level) ties (expr.rank dialect) = false) :
    level ≤ g.levelOf expr ∧ (ties → level < g.levelOf expr) := by
  cases ranked : expr.rank dialect with
  | undefined => simp [wraps, ranked, Rank.needsParens] at bare
  | level child =>
    rw [levelOf_of_rank fits plain ranked]
    simp only [wraps, ranked, Rank.needsParens, Bool.or_eq_false_iff, Bool.and_eq_false_iff,
      decide_eq_false_iff_not, beq_eq_false_iff_ne, ne_eq, Rank.level.injEq] at bare
    refine ⟨by omega, fun tied => ?_⟩
    simp only [tied, Bool.true_eq_false, false_or] at bare
    omega

/-- A text is read as `tree` wherever its place is loose enough and what follows stops it. -/
def ReadsAs (g : Grammar) (level tail : Nat) (tokens : List Token) (tree : Reading) : Prop :=
  ∀ min rest, min ≤ level → g.Stops tail rest →
    g.climb min (tokens ++ rest) = g.extend min tree rest

/-- An operand is read as its tree: in parentheses anywhere, without them where its place is loose
enough and what follows stops it. -/
theorem ReadsAs.enclose (fits : g.Fits dialect) {level tail : Nat} {tokens : List Token}
    {tree : Reading} (reads : g.ReadsAs level tail tokens tree) {wrap : Bool} {min : Nat}
    {rest : List Token} (bare : wrap = false → min ≤ level ∧ g.Stops tail rest) :
    g.climb min (ShaderLoom.enclose wrap tokens ++ rest) = g.extend min tree rest := by
  cases wrap with
  | false =>
    obtain ⟨loose, stops⟩ := bare rfl
    exact reads min rest loose stops
  | true =>
    have closes := stops_closer fits ")" (by simp) rest
    have inner := reads 0 (.symbol ")" :: rest) (Nat.zero_le _) (closes tail)
    rw [(closes 0).extend] at inner
    simpa [ShaderLoom.enclose] using climb_parens min inner

/-- An operand that is read to its end, since what follows stops its place. -/
theorem ReadsAs.enclose_stop (fits : g.Fits dialect) {level tail : Nat} {tokens : List Token}
    {tree : Reading} (reads : g.ReadsAs level tail tokens tree) (wrap : Bool) {min : Nat}
    {rest : List Token} (stops : g.Stops min rest)
    (bare : wrap = false → min ≤ level ∧ g.Stops tail rest) :
    g.climb min (ShaderLoom.enclose wrap tokens ++ rest) = some (tree, rest) := by
  rw [reads.enclose fits bare, stops.extend]

/-- No expression starts with a closing parenthesis. -/
theorem expect_close_of_climb {min : Nat} {tokens rest : List Token} {tree : Reading}
    (read : g.climb min tokens = some (tree, rest)) : expect ")" tokens = none := by
  cases closed : expect ")" tokens with
  | none => rfl
  | some after =>
    unfold expect at closed
    split at closed
    · split at closed
      · rename_i same
        subst same
        have noOperator : leadingOp? ")" = none := by decide
        rw [climb_eq] at read
        simp [operandWith, noOperator] at read
      · contradiction
    · contradiction

/-- An argument is read to the comma or the parenthesis behind it. -/
theorem climb_argument (fits : g.Fits dialect) {arg : Expr}
    (reads : g.ReadsAs (g.levelOf arg) (g.tailOf arg) (arg.tokens dialect name)
      (arg.reading g dialect name))
    {rest : List Token} (stops : ∀ level, g.Stops level rest) :
    g.climb 0 (enclose (wraps argumentRank false (arg.rank dialect)) (arg.tokens dialect name) ++
      rest) = some (arg.reading g dialect name, rest) :=
  reads.enclose_stop fits _ (stops 0) fun _ => ⟨Nat.zero_le _, stops _⟩

/-- Arguments are read to the closing parenthesis, if each argument is read. -/
theorem list_args (fits : g.Fits dialect) (first : Expr) (args : List Expr)
    (reads : ∀ arg ∈ first :: args, g.ReadsAs (g.levelOf arg) (g.tailOf arg)
      (arg.tokens dialect name) (arg.reading g dialect name)) (rest : List Token) :
    g.list (Expr.argTokens dialect name (first :: args) ++ .symbol ")" :: rest) =
      some (Expr.readings g dialect name (first :: args), rest) := by
  induction args generalizing first with
  | nil =>
    have read := climb_argument fits (reads first (by simp))
      (stops_closer fits ")" (by simp) rest)
    rw [list_eq, Expr.argTokens, read]
    simp [expect, Expr.readings]
  | cons next more ih =>
    have others := ih next (fun arg mem => reads arg (by simp [mem]))
    have read := climb_argument fits (reads first (by simp))
      (stops_closer fits "," (by simp)
        (Expr.argTokens dialect name (next :: more) ++ .symbol ")" :: rest))
    rw [list_eq, Expr.argTokens, List.append_assoc, List.cons_append, read]
    simp [expect, Expr.readings, others]

/-- An operand without parentheses beside an operator of undefined rank is tight. -/
theorem level_of_bare_undefined (fits : g.Fits dialect) {word : VarId → Prop} {expr : Expr}
    {ties : Bool} (plain : expr.Plain word)
    (bare : wraps .undefined ties (expr.rank dialect) = false) : 16 ≤ g.levelOf expr := by
  cases ranked : expr.rank dialect with
  | undefined => simp [wraps, ranked, Rank.needsParens] at bare
  | level child =>
    rw [levelOf_of_rank fits plain ranked]
    simp only [wraps, ranked, Rank.needsParens, Bool.or_eq_false_iff,
      decide_eq_false_iff_not] at bare
    omega

/-- The left operand of an operator ends before it. -/
theorem lhs_bare (fits : g.Fits dialect) {word : VarId → Prop} {lhs : Expr} {op : BinaryOp}
    (plain : lhs.Plain word)
    (bare : wraps (dialect.binaryRank op) (op.assoc == .right) (lhs.rank dialect) = false) :
    g.level op ≤ g.levelOf lhs ∧ g.level op < g.tailOf lhs := by
  have reach := g.levelOf_le_tailOf lhs
  obtain ⟨high, notThree⟩ := fits.bounded op
  cases ranked : dialect.binaryRank op with
  | undefined =>
    rw [ranked] at bare
    have := level_of_bare_undefined fits plain bare
    omega
  | level level =>
    rw [ranked] at bare
    obtain ⟨le, lt⟩ := level_of_bare fits plain bare
    rw [(fits.ranked op level ranked).1] at high notThree ⊢
    by_cases tied : level < g.levelOf lhs
    · omega
    · refine ⟨le, ?_⟩
      -- A tie is another operator of the same level, and groups to the left as `op` does.
      have groups : op.assoc = .left := by
        cases assoc : op.assoc with
        | left => rfl
        | right => exact absurd (lt (by rw [assoc]; rfl)) tied
      cases plain with
      | binary other =>
        cases otherRanked : dialect.binaryRank other with
        | undefined => simp [wraps, Expr.rank, otherRanked, Rank.needsParens] at bare
        | level otherLevel =>
          obtain ⟨sameLevel, sameAssoc⟩ := fits.ranked other otherLevel otherRanked
          simp only [levelOf, sameLevel] at le tied
          obtain rfl : level = otherLevel := by omega
          have left : g.assoc other = .left := by
            rw [sameAssoc, ← fits.coherent op other level ranked otherRanked, groups]
          simp [tailOf, rightLevel, left, sameLevel]
      | int value =>
        simp only [levelOf] at le tied
        split at tied <;> simp_all <;> omega
      | _ => simp only [levelOf] at le tied; omega

/-- The right operand of an operator binds at least as tightly as it is read. -/
theorem rhs_bare (fits : g.Fits dialect) {word : VarId → Prop} {rhs : Expr} {op : BinaryOp}
    (plain : rhs.Plain word)
    (bare : wraps (dialect.binaryRank op) (op.assoc == .left) (rhs.rank dialect) = false) :
    g.rightLevel op ≤ g.levelOf rhs := by
  obtain ⟨high, -⟩ := fits.bounded op
  cases ranked : dialect.binaryRank op with
  | undefined =>
    rw [ranked] at bare
    have tight := level_of_bare_undefined fits plain bare
    unfold rightLevel
    split <;> omega
  | level level =>
    rw [ranked] at bare
    obtain ⟨le, lt⟩ := level_of_bare fits plain bare
    obtain ⟨sameLevel, sameAssoc⟩ := fits.ranked op level ranked
    unfold rightLevel
    rw [sameAssoc, sameLevel]
    cases assoc : op.assoc with
    | left => exact lt (by rw [assoc]; rfl)
    | right => exact le

/-- An operand before a suffix that binds tightest ends before it. -/
theorem object_bare (fits : g.Fits dialect) {word : VarId → Prop} {object : Expr} {min : Nat}
    {text : String} (plain : object.Plain word) (loose : min ≤ 16)
    (tight : text ∈ ["[", ".", "++", "--"]) (rest : List Token)
    (bare : wraps .after false (object.rank dialect) = false) :
    min ≤ g.levelOf object ∧ g.Stops (g.tailOf object) (.symbol text :: rest) := by
  obtain ⟨high, -⟩ := level_of_bare fits plain bare
  refine ⟨Nat.le_trans loose high, ?_⟩
  have closed : g.tailOf object = 17 := by
    cases plain with
    | binary op => have := (fits.bounded op).1; simp only [levelOf] at high; omega
    | before op => simp [levelOf] at high
    | int value => by_cases negative : value < 0 <;> simp_all [levelOf, tailOf]
    | ternary => simp [levelOf] at high
    | _ => rfl
  rw [closed]
  exact stops_tight tight rest

/-- The tokens of a plain expression are read as its tree. -/
theorem Fits.readsAs (fits : g.Fits dialect) (name : VarId → String) {word : VarId → Prop}
    {expr : Expr} (plain : expr.Plain word) :
    g.ReadsAs (g.levelOf expr) (g.tailOf expr) (expr.tokens dialect name)
      (expr.reading g dialect name) := by
  induction plain with
  | int value =>
    intro min rest loose stops
    by_cases negative : value < 0
    · simp only [tailOf, negative, ↓reduceIte] at stops
      have inner :
          g.climb 15 (.number value.natAbs :: rest) = some (.number value.natAbs, rest) := by
        rw [climb_number, stops.extend]
      simp only [Expr.tokens, Expr.reading, negative, ↓reduceIte]
      exact climb_before min .neg inner
    · simpa [Expr.tokens, Expr.reading, negative] using climb_number min value.natAbs rest
  | ref named =>
    intro min rest loose stops
    simpa [Expr.tokens, Expr.reading] using climb_name min stops.call
  | @binary op lhs rhs left right readsLeft readsRight =>
    intro min rest loose stops
    simp only [levelOf] at loose
    simp only [tailOf] at stops
    have readRight := readsRight.enclose_stop fits
      (wraps (dialect.binaryRank op) (op.assoc == .left) (rhs.rank dialect)) stops
      fun bare => by
        have le := rhs_bare fits right bare
        exact ⟨le, stops.mono (Nat.le_trans le (g.levelOf_le_tailOf rhs))⟩
    simp only [Expr.tokens, ← fits.symbol, List.append_assoc, List.cons_append, Expr.reading]
    rw [readsLeft.enclose fits fun bare => ?_, extend_binary fits loose readRight]
    obtain ⟨le, lt⟩ := lhs_bare fits left bare
    exact ⟨Nat.le_trans loose le, stops_binary fits op lt _⟩
  | @before op operand inner readsInner =>
    intro min rest loose stops
    have parent : dialect.unaryRank op .before = .before := by rw [fits.unaryRank]; rfl
    have readInner := readsInner.enclose_stop fits
      (wraps .before true (operand.rank dialect)) stops fun bare => by
        obtain ⟨le, -⟩ := level_of_bare fits inner bare
        exact ⟨le, stops.mono (Nat.le_trans le (g.levelOf_le_tailOf operand))⟩
    simpa [Expr.tokens, Expr.reading, parent, fits.unarySymbol] using climb_before min op readInner
  | @after op operand steps inner readsInner =>
    intro min rest loose stops
    have parent : dialect.unaryRank op .after = .after := by rw [fits.unaryRank]; rfl
    have tight : op.symbol ∈ ["[", ".", "++", "--"] := by rcases steps with rfl | rfl <;> decide
    simp only [Expr.tokens, parent, fits.unarySymbol, List.append_assoc, List.cons_append,
      List.nil_append, Expr.reading]
    rw [readsInner.enclose fits (object_bare fits inner loose tight rest),
      extend_after loose steps]
  | @ternary condition yes no test first second readsTest readsFirst readsSecond =>
    intro min rest loose stops
    have readNo := readsSecond.enclose_stop fits
      (wraps .ternary false (no.rank dialect)) stops fun bare => by
        obtain ⟨le, -⟩ := level_of_bare fits second bare
        exact ⟨le, stops.mono (Nat.le_trans le (g.levelOf_le_tailOf no))⟩
    have colon := stops_closer fits ":" (by simp)
      (enclose (wraps .ternary false (no.rank dialect)) (no.tokens dialect name) ++ rest)
    have readYes := readsFirst.enclose_stop fits
      (wraps .lowest false (yes.rank dialect)) (colon 0) fun _ =>
        ⟨Nat.zero_le _, colon _⟩
    simp only [Expr.tokens, List.append_assoc, List.cons_append, Expr.reading]
    rw [readsTest.enclose fits fun bare => ?_, extend_question loose readYes readNo]
    obtain ⟨le, lt⟩ := level_of_bare fits test bare
    have reach := g.levelOf_le_tailOf condition
    exact ⟨Nat.le_trans loose le, stops_question (Nat.lt_of_lt_of_le (lt rfl) reach) _⟩
  | @subscript object index outer inner readsOuter readsInner =>
    intro min rest loose stops
    have bracket := stops_closer fits "]" (by simp) rest
    have readIndex := readsInner.enclose_stop fits
      (wraps .lowest false (index.rank dialect)) (bracket 0) fun _ =>
        ⟨Nat.zero_le _, bracket _⟩
    simp only [Expr.tokens, List.append_assoc, List.cons_append, List.nil_append, Expr.reading]
    rw [readsOuter.enclose fits (object_bare fits outer loose (by simp) _),
      extend_subscript loose readIndex]
  | @member object field outer named readsOuter =>
    intro min rest loose stops
    simp only [Expr.tokens, List.append_assoc, List.cons_append, List.nil_append, Expr.reading]
    rw [readsOuter.enclose fits (object_bare fits outer loose (by simp) _), extend_member loose]
  | @call function args named inner readsInner =>
    intro min rest loose stops
    simp only [Expr.tokens, Expr.reading, List.cons_append, List.append_assoc, List.nil_append]
    rw [climb_eq]
    cases args with
    | nil => simp [operandWith, Expr.argTokens, Expr.readings]
    | cons arg more =>
      have listed := list_args fits arg more readsInner rest
      obtain ⟨tree, after, read⟩ : ∃ tree after,
          g.climb 0 (Expr.argTokens dialect name (arg :: more) ++ .symbol ")" :: rest) =
            some (tree, after) := by
        rw [list_eq] at listed
        obtain ⟨⟨tree, after⟩, read, -⟩ := Option.bind_eq_some_iff.mp listed
        exact ⟨tree, after, read⟩
      have opened := expect_close_of_climb read
      simp [operandWith, opened, listed]

/-- The tokens of a plain expression that is written with the common symbols are read as its
tree. -/
theorem readsAs_plain (suits : g.Suits dialect) (name : VarId → String) {word : VarId → Prop}
    {expr : Expr} (plain : expr.Plain word) :
    g.ReadsAs (g.levelOf expr) (g.tailOf expr) (expr.tokens dialect name)
      (expr.reading g dialect name) :=
  suits.toFits.readsAs name plain

end Grammar

/-- A name that is a word has a word for it in HLSL. -/
theorem isWord_hlslBuiltin {name : String} (word : isWord name) : isWord (hlslBuiltin name) := by
  unfold hlslBuiltin
  split
  case h_7 => exact word
  all_goals decide

/-- The grammars of GLSL and HLSL suit them. -/
theorem Dialect.grammar_suits {dialect : Dialect} (standard : dialect = .glsl ∨ dialect = .hlsl) :
    dialect.grammar.Suits dialect where
  integer value := by rcases standard with rfl | rfl <;> rfl
  binarySymbol op := by rcases standard with rfl | rfl <;> cases op <;> decide
  unarySymbol := by rcases standard with rfl | rfl <;> rfl
  unaryRank := by rcases standard with rfl | rfl <;> rfl
  builtin name word := by
    rcases standard with rfl | rfl
    · exact word
    · exact isWord_hlslBuiltin word
  symbol _ := rfl
  apart op := by rcases standard with rfl | rfl <;> cases op <;> decide
  alike op := by rcases standard with rfl | rfl <;> cases op <;> decide
  ranked op level ranked := ⟨by simp [grammar, ranked], rfl⟩
  bounded op := by rcases standard with rfl | rfl <;> cases op <;> decide
  coherent op other level ranked otherRanked := by
    have grouped : ∀ op, op.assoc = if dialect.binaryRank op = .assign then .right else .left := by
      intro op
      rcases standard with rfl | rfl <;> cases op <;> rfl
    rw [grouped op, grouped other, ranked, otherRanked]

/-- What is written for a plain expression in GLSL or HLSL is read back as its tree, from any state
of the names. -/
theorem Shader.read_write (shader : Shader) {dialect : Dialect}
    (standard : dialect = .glsl ∨ dialect = .hlsl) (names : Names) {expr : Expr}
    (plain : expr.Plain (shader.WritesWord names)) :
    ∃ text after, (shader.write dialect expr).run names = .ok (text, after) ∧
      dialect.grammar.read text = some (expr.reading dialect.grammar dialect after.word) := by
  have suits := Dialect.grammar_suits standard
  obtain ⟨text, after, written, -, spells, -⟩ :=
    writeWith_plain suits.toCommon plain names (.refl names)
  have cut : lex text.toList = some (expr.tokens dialect after.word) := by
    simpa [lex, lexWith, Ends] using spells after (.refl after) []
  have read := Grammar.readsAs_plain suits after.word plain 0 [] (Nat.zero_le _)
    (Grammar.stops_nil _)
  rw [(Grammar.stops_nil 0).extend, List.append_nil] at read
  exact ⟨text, after, written, by simp [Grammar.read, cut, read]⟩

/-- The text `-(-3) != lerp(n, n++)` is read back as the exclusive or it was written for. -/
theorem Shader.read_write_lerp :
    let registry := Registry.empty.create (.scalar .int) .scalar (some "n") .declaration
    let shader : Shader := ⟨.empty, registry⟩
    let expr : Expr := .binary .xor (.unary .neg .before (.int (-3)))
      (.builtin "mix" [.ref ⟨0⟩, .unary .increment .after (.ref ⟨0⟩)])
    let names := Names.start shader
    expr.Plain (shader.WritesWord names) ∧
      (shader.write .hlsl expr).run names =
        .ok ("-(-3) != lerp(n, n++)", { names with handed := [(⟨0⟩, "n")] }) ∧
      ∃ text after, (shader.write .hlsl expr).run names = .ok (text, after) ∧
        Dialect.hlsl.grammar.read text =
          some (expr.reading Dialect.hlsl.grammar .hlsl after.word) := by
  intro registry shader expr names
  have word : shader.WritesWord names ⟨0⟩ := ⟨rfl, _, rfl, by decide⟩
  have plain : expr.Plain (shader.WritesWord names) := by
    refine .binary _ (.before _ (.int _)) (.call (by decide) ?_)
    intro arg mem
    fin_cases mem
    · exact .ref word
    · exact .after (.inl rfl) (.ref word)
  exact ⟨plain, rfl, shader.read_write (.inr rfl) names plain⟩

end ShaderLoom
