import ShaderLoom.Proofs.ReadBack

/-!
# Expressions of numbers

Where all leaves are natural numbers, writing hands out no names, and an expression is its tree.
Such expressions can be read in a language with symbols of its own (`Grammar.parse`): its table
holds the symbols of its binary operators beside those that all languages share.
-/
namespace ShaderLoom

/-- Every binary operator is among them. -/
theorem BinaryOp.mem_all (op : BinaryOp) : op ∈ all := by
  cases op <;> decide

/-- No two binary operators have one common symbol. -/
theorem BinaryOp.symbol_injective : Function.Injective symbol := by
  have found : ∀ op : BinaryOp, all.find? (·.symbol == op.symbol) = some op := by
    intro op
    cases op <;> rfl
  intro op other same
  have both := found op
  rw [same, found other] at both
  exact (Option.some.inj both).symm

/-- Assignments are the operators that group to the right. -/
theorem BinaryOp.assoc_eq (op : BinaryOp) :
    op.assoc = if op.rank = .assign then .right else .left := by
  cases op <;> rfl

/-- Every unary operator is among them. -/
theorem UnaryOp.mem_all (op : UnaryOp) : op ∈ all := by
  cases op <;> decide

/-- GLSL ranks every operator. -/
theorem rank_glsl (op : BinaryOp) :
    Dialect.glsl.binaryRank op = .level (Dialect.glsl.grammar.level op) := by
  cases op <;> rfl

namespace Expr

/-- Natural numbers, and what is made from them by binary operators, by the conditional operator
and, if `leading`, by prefixed operators. -/
inductive Numeric (leading : Prop) : Expr → Prop where
  | number (value : Nat) : Numeric leading (.literal (.int value))
  | binary (op : BinaryOp) {lhs rhs : Expr} (left : Numeric leading lhs)
    (right : Numeric leading rhs) : Numeric leading (.binary op lhs rhs)
  | before (allowed : leading) (op : UnaryOp) {operand : Expr} (inner : Numeric leading operand) :
    Numeric leading (.unary op .before operand)
  | ternary {condition yes no : Expr} (test : Numeric leading condition)
    (first : Numeric leading yes) (second : Numeric leading no) :
    Numeric leading (.ternary condition yes no)

/-- The tree of an expression of numbers. -/
def tree : Expr → Reading
  | .literal (.int value) => .number value.natAbs
  | .binary op lhs rhs => .binary op lhs.tree rhs.tree
  | .unary op fixity operand => .unary op fixity operand.tree
  | .ternary condition yes no => .ternary condition.tree yes.tree no.tree
  | _ => .name ""

variable {leading : Prop} {expr : Expr}

/-- An expression of numbers is plain, whatever is written as a word. -/
theorem Numeric.plain (numeric : expr.Numeric leading) (word : VarId → Prop) :
    expr.Plain word := by
  induction numeric with
  | number value => exact .int value
  | binary op _ _ left right => exact .binary op left right
  | before _ op _ inner => exact .before op inner
  | ternary _ _ _ test first second => exact .ternary test first second

/-- Where every operator is read as itself, an expression of numbers is read as its tree. -/
theorem Numeric.reading_eq {g : Grammar} (same : ∀ op, g.representative op = op)
    (dialect : Dialect) (name : VarId → String) (numeric : expr.Numeric leading) :
    expr.reading g dialect name = expr.tree := by
  induction numeric with
  | number value => simp [reading, tree]
  | binary op _ _ left right => simp [reading, tree, same, left, right]
  | before _ op _ inner => simp [reading, tree, inner]
  | ternary _ _ _ test first second => simp [reading, tree, test, first, second]

end Expr

namespace Grammar

/-- The symbols of a language: those of its operators, and the punctuation around them. -/
def table (g : Grammar) : List String :=
  BinaryOp.all.map g.symbol ++ UnaryOp.all.map UnaryOp.symbol ++
    ["(", ")", "[", "]", ".", ",", "?", ":"]

/-- The tree that a text says in a language with symbols of its own, if all of it belongs to one
expression. -/
def parse (g : Grammar) (text : String) : Option Reading := do
  let tokens ← lexWith g.table text.toList
  match g.climb 0 tokens with
  | some (tree, []) => some tree
  | _ => none

variable {g : Grammar}

/-- An operator whose symbol is its own is read as itself. -/
theorem operator?_symbol (distinct : Function.Injective g.symbol) (op : BinaryOp) :
    g.operator? (g.symbol op) = some op := by
  unfold operator?
  cases found : BinaryOp.all.find? (g.symbol · == g.symbol op) with
  | none =>
    rw [List.find?_eq_none] at found
    exact absurd (beq_self_eq_true _) (found op op.mem_all)
  | some other =>
    have same : g.symbol other = g.symbol op := by simpa using List.find?_some found
    rw [distinct same]

/-- An operator whose symbol is its own stands for itself. -/
theorem representative_eq (distinct : Function.Injective g.symbol) (op : BinaryOp) :
    g.representative op = op := by
  rw [representative, operator?_symbol distinct, Option.getD_some]

/-- The symbol of a binary operator is in the table. -/
theorem symbol_mem_table (g : Grammar) (op : BinaryOp) : g.symbol op ∈ g.table := by
  simp only [table, List.mem_append]
  exact .inl (.inl (List.mem_map_of_mem op.mem_all))

/-- A language with the common symbols is read as is common. -/
theorem parse_eq_read (common : g.table = symbols) (text : String) :
    g.parse text = g.read text := by
  rw [parse, common]
  rfl

/-- A table tells tokens apart if its binary operators can stand between operands. -/
theorem tellsApart_table (operators : ∀ op, isOperator (g.symbol op)) : TellsApart g.table where
  entry text known := by
    have others : ∀ text ∈ UnaryOp.all.map UnaryOp.symbol ++
        ["(", ")", "[", "]", ".", ",", "?", ":"],
        isOperator text ∨ text = "(" ∨ text = ")" := by decide
    rw [table, List.append_assoc, List.mem_append] at known
    rcases known with binary | other
    · obtain ⟨op, -, rfl⟩ := List.mem_map.mp binary
      exact .inl (operators op)
    · exact others text other
  shared text known := by
    simp only [table, List.mem_append]
    refine .inr (List.Sublist.subset ?_ known)
    decide
  unary op := by
    simp only [table, List.mem_append]
    exact .inl (.inr (List.mem_map_of_mem op.mem_all))

end Grammar

namespace Shader

variable {dialect : Dialect} {table : List String} {leading : Prop}
  {expr : Expr}

/-- Without any name handed out, a text is written that is cut into `tokens`; if `tight`, it starts
with a word, a number or a parenthesis. -/
def Voices (table : List String) (write : Naming String) (tokens : List Token) (tight : Prop) :
    Prop :=
  ∃ text, (∀ names, write.run names = .ok (text, names)) ∧ SpellsIn table text tokens ∧
    (tight → Opens text)

/-- An operand voices its tokens, in parentheses where its rank asks for them. -/
theorem Voices.enclosed {write : Naming String} {tokens : List Token} {rank : Naming Rank}
    {child : Rank} (tells : TellsApart table)
    (voiced : Voices table write tokens (Rank.after.needsParens child = false))
    (ranked : ∀ names, rank.run names = .ok (child, names)) (parent : Rank) (ties : Bool) :
    Voices table (enclosed parent ties rank write) (enclose (wraps parent ties child) tokens)
      (wraps parent ties child = false → Rank.after.needsParens child = false) := by
  obtain ⟨text, written, spells, opens⟩ := voiced
  refine ⟨_, fun names => run_enclosed (ranked names) (written names), spells.enclose tells _, ?_⟩
  intro tight
  cases wrap : wraps parent ties child with
  | true => exact ⟨'(', by simp, .inr rfl⟩
  | false => exact opens (tight wrap)

/-- The rank of an expression of numbers is found without any name. -/
theorem rankWith_numeric (shader : Shader) (deep : Expr → Naming Rank)
    (numeric : expr.Numeric leading) (names : Names) :
    (shader.rankWith dialect deep expr).run names = .ok (expr.rank dialect, names) := by
  cases numeric <;> simp [rankWith, Expr.rank, Expr.intrinsicRank?]

/-- An expression of numbers voices its tokens. -/
theorem writeWith_numeric (shader : Shader) (tells : TellsApart table)
    (number : ∀ value : Nat, dialect.literal (.int value) = toString value)
    (known : ∀ op, dialect.binarySymbol op ∈ table)
    (unarySymbol : dialect.unarySymbol = UnaryOp.symbol)
    (unaryRank : dialect.unaryRank = UnaryOp.rank) {deep : Expr → Naming String}
    {rank : Expr → Naming Rank} (name : VarId → String) (numeric : expr.Numeric leading) :
    Voices table (shader.writeWith dialect deep rank expr) (expr.tokens dialect name)
      (Rank.after.needsParens (expr.rank dialect) = false) := by
  induction numeric with
  | number value =>
    have natural : ¬ (value : Int) < 0 := by omega
    have digits := SpellsIn.number table value
    refine ⟨toString value, fun names => ?_, ?_, fun _ => opens_number value⟩
    · rw [writeWith, number]
      rfl
    · simpa [Expr.tokens, natural] using digits
  | binary op left right voiceLeft voiceRight =>
    obtain ⟨lhs, writtenLeft, spellsLeft, opens⟩ := voiceLeft.enclosed tells
      (shader.rankWith_numeric rank left) (dialect.binaryRank op) (op.assoc == .right)
    obtain ⟨rhs, writtenRight, spellsRight, -⟩ := voiceRight.enclosed tells
      (shader.rankWith_numeric rank right) (dialect.binaryRank op) (op.assoc == .left)
    refine ⟨lhs ++ " " ++ dialect.binarySymbol op ++ " " ++ rhs, fun names => ?_, ?_, ?_⟩
    · simp [writeWith, writtenLeft, writtenRight]
    · simp only [Expr.tokens]
      exact spellsLeft.binary tells spellsRight (known op)
    · intro tight
      simp only [String.append_assoc]
      exact (opens (tight_of_wraps tight)).append _
  | before allowed op inner voiceInner =>
    obtain ⟨text, written, spells, opens⟩ := voiceInner.enclosed tells
      (shader.rankWith_numeric rank inner) .before true
    have parent : dialect.unaryRank op .before = .before := by rw [unaryRank]; rfl
    refine ⟨op.symbol ++ text, fun names => ?_, ?_, ?_⟩
    · simp [writeWith, parent, written, unarySymbol]
    · simp only [Expr.tokens, parent, unarySymbol]
      exact spells.before tells op (opens tight_of_before)
    · intro tight
      simp only [Expr.rank, parent] at tight
      contradiction
  | ternary test first second voiceTest voiceFirst voiceSecond =>
    obtain ⟨condition, writtenTest, spellsTest, -⟩ := voiceTest.enclosed tells
      (shader.rankWith_numeric rank test) .ternary true
    obtain ⟨yes, writtenFirst, spellsFirst, -⟩ := voiceFirst.enclosed tells
      (shader.rankWith_numeric rank first) .lowest false
    obtain ⟨no, writtenSecond, spellsSecond, -⟩ := voiceSecond.enclosed tells
      (shader.rankWith_numeric rank second) .ternary false
    refine ⟨condition ++ " ? " ++ yes ++ " : " ++ no, fun names => ?_, ?_, ?_⟩
    · simp [writeWith, writtenTest, writtenFirst, writtenSecond]
    · simp only [Expr.tokens]
      exact spellsTest.ternary tells spellsFirst spellsSecond
    · intro tight
      simp [Expr.rank, Expr.intrinsicRank?, Rank.needsParens, Rank.after, Rank.ternary] at tight

/-- What is written for an expression of numbers is cut into its tokens, and they are read as its
tree, where every operator can stand between operands and is read as itself. -/
theorem parse_write (shader : Shader) {g : Grammar} (fits : g.Fits dialect)
    (number : ∀ value : Nat, dialect.literal (.int value) = toString value)
    (operators : ∀ op, isOperator (g.symbol op)) (same : ∀ op, g.representative op = op)
    (names : Names) (numeric : expr.Numeric leading) :
    ∃ text, (shader.write dialect expr).run names = .ok (text, names) ∧
      lexWith g.table text.toList = some (expr.tokens dialect fun _ => "") ∧
      g.parse text = some expr.tree := by
  have known : ∀ op, dialect.binarySymbol op ∈ g.table := fun op => by
    rw [← fits.symbol]
    exact g.symbol_mem_table op
  obtain ⟨text, written, spells, -⟩ :=
    shader.writeWith_numeric (Grammar.tellsApart_table operators) number known fits.unarySymbol
      fits.unaryRank (fun _ => "") numeric
  have cut : lexWith g.table text.toList = some (expr.tokens dialect fun _ => "") := by
    simpa [lexWith, Ends] using spells []
  have plain := numeric.plain fun _ => True
  have read := fits.readsAs (fun _ => "") plain 0 [] (Nat.zero_le _) (Grammar.stops_nil _)
  rw [(Grammar.stops_nil 0).extend, List.append_nil, numeric.reading_eq same] at read
  exact ⟨text, written names, cut, by simp [Grammar.parse, cut, read]⟩

end Shader

end ShaderLoom
