import ShaderLoom.Proofs.Tokens
import ShaderLoom.Text.Expr

/-!
# The tokens of written expressions

Plain expressions are those whose leaves are integers and variables that are written as words. What
is written for a plain expression is cut into the tokens of its parts in order, with parentheses
where ranks ask for them (`Expr.tokens`): blanks stand around binary operators, and where two parts
meet without one they cannot be taken for one token, since an operand of a prefixed operator starts
with a word, a number or a parenthesis.
-/
namespace ShaderLoom

namespace Expr

/-- Integers, variables that satisfy `word`, and what is made from them by operators, subscripts,
members and provided functions whose names are words. -/
inductive Plain (word : VarId → Prop) : Expr → Prop where
  | int (value : Int) : Plain word (.literal (.int value))
  | ref {id : VarId} (named : word id) : Plain word (.ref id)
  | binary (op : BinaryOp) {lhs rhs : Expr} (left : Plain word lhs) (right : Plain word rhs) :
    Plain word (.binary op lhs rhs)
  | before (op : UnaryOp) {operand : Expr} (inner : Plain word operand) :
    Plain word (.unary op .before operand)
  | after {op : UnaryOp} {operand : Expr} (steps : op = .increment ∨ op = .decrement)
    (inner : Plain word operand) : Plain word (.unary op .after operand)
  | ternary {condition yes no : Expr} (test : Plain word condition) (first : Plain word yes)
    (second : Plain word no) : Plain word (.ternary condition yes no)
  | subscript {object index : Expr} (outer : Plain word object) (inner : Plain word index) :
    Plain word (.subscript object index)
  | member {object : Expr} {name : String} (outer : Plain word object) (named : isWord name) :
    Plain word (.member object name)
  | call {name : String} {args : List Expr} (named : isWord name)
    (inner : ∀ arg ∈ args, Plain word arg) : Plain word (.call (.builtin name) args)

/-- The rank of an expression in which no value is inlined. -/
def rank (dialect : Dialect) : Expr → Rank
  | .binary op _ _ => dialect.binaryRank op
  | .unary op fixity _ => dialect.unaryRank op fixity
  | other => other.intrinsicRank?.getD .primary

end Expr

/-- Whether an operand of rank `child` is put in parentheses. -/
def wraps (parent : Rank) (ties : Bool) (child : Rank) : Bool :=
  parent.needsParens child || (ties && child == parent)

namespace Expr

variable (dialect : Dialect) (name : VarId → String)

mutual

/-- The tokens of a plain expression, given the names of variables. -/
def tokens : Expr → List Token
  | .literal (.int value) =>
    if value < 0 then [.symbol "-", .number value.natAbs] else [.number value.natAbs]
  | .ref id => [.word (name id)]
  | .binary op lhs rhs =>
    let parent := dialect.binaryRank op
    enclose (wraps parent (op.assoc == .right) (lhs.rank dialect)) lhs.tokens ++
      .symbol (dialect.binarySymbol op) ::
        enclose (wraps parent (op.assoc == .left) (rhs.rank dialect)) rhs.tokens
  | .unary op .before operand =>
    .symbol (dialect.unarySymbol op) ::
      enclose (wraps (dialect.unaryRank op .before) true (operand.rank dialect)) operand.tokens
  | .unary op .after operand =>
    enclose (wraps (dialect.unaryRank op .after) false (operand.rank dialect)) operand.tokens ++
      [.symbol (dialect.unarySymbol op)]
  | .ternary condition yes no =>
    enclose (wraps .ternary true (condition.rank dialect)) condition.tokens ++ .symbol "?" ::
      (enclose (wraps .lowest false (yes.rank dialect)) yes.tokens ++ .symbol ":" ::
        enclose (wraps .ternary false (no.rank dialect)) no.tokens)
  | .subscript object index =>
    enclose (wraps .after false (object.rank dialect)) object.tokens ++ .symbol "[" ::
      (enclose (wraps .lowest false (index.rank dialect)) index.tokens ++ [.symbol "]"])
  | .member object name =>
    enclose (wraps .after false (object.rank dialect)) object.tokens ++
      [.symbol ".", .word name]
  | .call (.builtin name) args =>
    .word (dialect.builtin name) :: .symbol "(" :: (argTokens args ++ [.symbol ")"])
  | _ => []

/-- The tokens of arguments, with commas between them. -/
def argTokens : List Expr → List Token
  | [] => []
  | [arg] => enclose (wraps argumentRank false (arg.rank dialect)) arg.tokens
  | arg :: next :: rest =>
    enclose (wraps argumentRank false (arg.rank dialect)) arg.tokens ++
      .symbol "," :: argTokens (next :: rest)

end

end Expr

/-- A computation that gives an answer goes on with it. -/
@[simp]
theorem ok_bind {α β : Type} (value : α) (next : α → Except RenderError β) :
    (Except.ok value >>= next) = next value := rfl

/-- To give an answer is to succeed with it. -/
@[simp]
theorem pure_eq_ok {α : Type} (value : α) : (pure value : Except RenderError α) = .ok value := rfl

/-- The text is cut into these tokens wherever no word goes on behind it. -/
def Spells (text : String) (tokens : List Token) : Prop :=
  ∀ rest, Ends rest → lex (text.toList ++ rest) = (lex rest).map (tokens ++ ·)

/-- No word goes on into a symbol. -/
theorem ends_symbol {text : String} (known : text ∈ symbols) (rest : List Char) :
    Ends (text.toList ++ rest) := by
  have length := symbols_length text known
  have noWord := symbols_no_word text known
  cases spelled : text.toList with
  | nil =>
    rw [← String.length_toList, spelled] at length
    simp at length
  | cons first others =>
    intro c head
    obtain rfl : first = c := by simpa using head
    exact (noWord first (by simp [spelled])).1

/-- The symbol of a unary operator is a symbol. -/
theorem UnaryOp.symbol_mem (op : UnaryOp) : op.symbol ∈ symbols := by
  cases op <;> decide

/-- The symbols that start no longer symbol. -/
def finals : List String := ["(", ")", "[", "]", ".", ",", "?", ":", "++", "--"]

/-- Each of these is a symbol, and no other starts with it. -/
theorem finals_final : ∀ text ∈ finals, text ∈ symbols ∧
    ∀ longer ∈ symbols, text.toList <+: longer.toList → longer = text := by
  decide

/-- A symbol that starts no longer symbol is one token wherever it stands. -/
theorem lex_final {text : String} (final : text ∈ finals) (rest : List Char) :
    lex (text.toList ++ rest) = (lex rest).map (.symbol text :: ·) :=
  lex_symbol (finals_final text final).1 (seversIn_of_final (finals_final text final).2)

/-- No word goes on into a symbol that starts no longer symbol. -/
theorem ends_final {text : String} (final : text ∈ finals) (rest : List Char) :
    Ends (text.toList ++ rest) :=
  ends_symbol (finals_final text final).1 rest

/-- The common table tells tokens apart. -/
theorem tellsApart_symbols : TellsApart symbols where
  entry := by decide
  shared := by decide
  unary := UnaryOp.symbol_mem

/-- A text is cut by the common table. -/
theorem spells_iff {text : String} {tokens : List Token} :
    Spells text tokens ↔ SpellsIn symbols text tokens := by
  simp only [Spells, SpellsIn, lex]

/-- Parentheses around a text stand around its tokens. -/
theorem Spells.parens {text : String} {tokens : List Token} (spells : Spells text tokens) :
    Spells ("(" ++ text ++ ")") (enclose true tokens) :=
  spells_iff.mpr ((spells_iff.mp spells).parens tellsApart_symbols)

/-- A comma and the blank behind it are one token. -/
theorem lex_comma (rest : List Char) :
    lex (", ".toList ++ rest) = (lex rest).map (.symbol "," :: ·) := by
  change lex (",".toList ++ ' ' :: rest) = _
  rw [lex_final (by decide), lex_blank]

/-- No word goes on into a comma. -/
theorem ends_comma (rest : List Char) : Ends (", ".toList ++ rest) := by
  intro c head
  obtain rfl : ',' = c := by simpa using head
  rfl

/-- What the text of plain expressions takes for granted of a dialect: integers are written in
decimal, its operators have common symbols, unary ones their common ranks too, and it calls provided
functions by words. -/
structure Dialect.Common (dialect : Dialect) : Prop where
  integer : ∀ value : Int, dialect.literal (.int value) = toString value
  binarySymbol : ∀ op, dialect.binarySymbol op ∈ symbols
  unarySymbol : dialect.unarySymbol = UnaryOp.symbol
  unaryRank : dialect.unaryRank = UnaryOp.rank
  builtin : ∀ name, isWord name → isWord (dialect.builtin name)

/-- A variable is known and not inlined, and its name is a word: the name handed out to it, else
the name it was given, if any. -/
def Shader.WritesWord (shader : Shader) (names : Names) (id : VarId) : Prop :=
  shader.inlined? id = none ∧
    ∃ record, shader.var? id = some record ∧
      ∀ name, (names.lookup id <|> record.name) = some name → isWord name

/-- Names were handed out between two states: none was taken back, and what was written as a word
still is. -/
structure Shader.Grows (shader : Shader) (before after : Names) : Prop where
  keeps : ∀ id name, before.lookup id = some name → after.lookup id = some name
  words : ∀ id, shader.WritesWord before id → shader.WritesWord after id

/-- The name handed out to a variable. -/
def Names.word (names : Names) (id : VarId) : String := (names.lookup id).getD ""

namespace Shader

variable {shader : Shader}

/-- Handing out no name is a growth. -/
theorem Grows.refl (names : Names) : shader.Grows names names := ⟨fun _ _ => id, fun _ => id⟩

/-- Growth after growth is growth. -/
theorem Grows.trans {before middle after : Names} (first : shader.Grows before middle)
    (second : shader.Grows middle after) : shader.Grows before after :=
  ⟨fun id name found => second.keeps id name (first.keeps id name found),
    fun id word => second.words id (first.words id word)⟩

/-- An automatic name is a word. -/
theorem isWord_nameAt (category : Category) (number : Nat) : isWord (category.nameAt number) := by
  have digits : ∀ c ∈ (toString number).toList, isWordPart c := fun c mem =>
    isWordPart_of_isDigit (isDigit_of_mem_toString mem)
  cases category <;>
    simpa [isWord, Category.nameAt, Category.stem, String.toList_append, isWordStart] using digits

/-- The name that is assigned to a variable is a word if the name it was given is one. -/
theorem isWord_assign (names : Names) (id : VarId) {record : Record}
    (words : ∀ name, record.name = some name → isWord name) :
    isWord (names.assign id record).1 := by
  rw [Names.assign_name]
  cases given : record.name with
  | some name => exact words name given
  | none =>
    obtain ⟨number, -, -, -, isFresh⟩ := names.exists_fresh record.category
    rw [Option.getD_none, isFresh]
    exact isWord_nameAt record.category number

/-- An assignment takes no name back, and what was written as a word still is if the new name is
one. -/
theorem Grows.assign {names : Names} {id : VarId} {record : Record}
    (missing : names.lookup id = none) (word : isWord (names.assign id record).1) :
    shader.Grows names (names.assign id record).2 := by
  constructor
  · intro other name had
    rw [Names.lookup_assign, if_neg (by rintro rfl; simp [missing] at had), had]
  · rintro other ⟨direct, otherRecord, known, words⟩
    refine ⟨direct, otherRecord, known, ?_⟩
    rw [Names.lookup_assign]
    by_cases same : other = id
    · rintro name isName
      rw [if_pos same, Option.orElse_eq_orElse, Option.orElse_some] at isName
      exact Option.some.inj isName ▸ word
    · rwa [if_neg same]

/-- A variable that is written as a word has its name handed out, if it is not yet. -/
theorem nameOf_word {names : Names} {id : VarId} (word : shader.WritesWord names id) :
    ∃ name after, (shader.nameOf id).run names = .ok (name, after) ∧ shader.Grows names after ∧
      after.lookup id = some name ∧ isWord name := by
  obtain ⟨direct, record, known, words⟩ := word
  cases found : names.lookup id with
  | some name =>
    exact ⟨name, names, by simp [nameOf, found], .refl names, found, words name (by simp [found])⟩
  | none =>
    have spelled : isWord (names.assign id record).1 :=
      isWord_assign names id fun name given => words name (by simp [found, given])
    refine ⟨_, _, by simp [nameOf, found, known], .assign found spelled, ?_, spelled⟩
    rw [Names.lookup_assign, if_pos rfl]

/-- Asking what a variable that is written as a word is written as hands out its name. -/
theorem binding_word {names : Names} {id : VarId} (word : shader.WritesWord names id) :
    ∃ name after, (shader.binding id).run names = .ok (.named name, after) ∧
      shader.Grows names after ∧ after.lookup id = some name ∧ isWord name := by
  obtain ⟨name, after, named, grows, found, spelled⟩ := nameOf_word word
  obtain ⟨direct, record, known, -⟩ := word
  exact ⟨name, after, by simp [binding, direct, known, named], grows, found, spelled⟩

/-- The rank of a plain expression is found by its outermost operator. -/
theorem rankWith_plain (dialect : Dialect) (deep : Expr → Naming Rank) {start names : Names}
    {expr : Expr} (plain : expr.Plain (shader.WritesWord start))
    (grown : shader.Grows start names) :
    ∃ after, (shader.rankWith dialect deep expr).run names = .ok (expr.rank dialect, after) ∧
      shader.Grows names after := by
  cases plain with
  | ref word =>
    obtain ⟨name, after, bound, grows, -, -⟩ := binding_word (grown.words _ word)
    exact ⟨after, by simp [rankWith, bound, Expr.rank, Expr.intrinsicRank?], grows⟩
  | _ => exact ⟨names, by simp [rankWith, Expr.rank, Expr.intrinsicRank?], .refl names⟩

/-- From every state grown from `start`, a text is written that is cut into `tokens`, whatever names
are handed out later; if `tight`, it starts with a word, a number or a parenthesis. -/
def Says (shader : Shader) (start : Names) (write : Naming String)
    (tokens : (VarId → String) → List Token) (tight : Prop) : Prop :=
  ∀ names, shader.Grows start names → ∃ text after, write.run names = .ok (text, after) ∧
    shader.Grows names after ∧
    (∀ later, shader.Grows after later → Spells text (tokens later.word)) ∧ (tight → Opens text)

/-- An operand is its text, in parentheses if its rank asks for them. -/
theorem run_enclosed {parent child : Rank} {ties : Bool} {rank : Naming Rank}
    {write : Naming String} {text : String} {names middle after : Names}
    (ranked : rank.run names = .ok (child, middle))
    (written : write.run middle = .ok (text, after)) :
    (enclosed parent ties rank write).run names =
      .ok (if wraps parent ties child then "(" ++ text ++ ")" else text, after) := by
  cases wrap : wraps parent ties child with
  | true =>
    unfold wraps at wrap
    simp only [enclosed, StateT.run_bind, ranked, ok_bind, written]
    rw [if_pos wrap]
    rfl
  | false =>
    unfold wraps at wrap
    simp only [enclosed, StateT.run_bind, ranked, ok_bind, written]
    rw [if_neg (by simp [wrap])]
    rfl

/-- An operand says its tokens, in parentheses where its rank asks for them. -/
theorem Says.enclosed {dialect : Dialect} {start : Names} {expr : Expr} {write : Naming String}
    {tokens : (VarId → String) → List Token}
    (said : shader.Says start write tokens (Rank.after.needsParens (expr.rank dialect) = false))
    (plain : expr.Plain (shader.WritesWord start)) (deep : Expr → Naming Rank) (parent : Rank)
    (ties : Bool) :
    shader.Says start (enclosed parent ties (shader.rankWith dialect deep expr) write)
      (fun name => enclose (wraps parent ties (expr.rank dialect)) (tokens name))
      (wraps parent ties (expr.rank dialect) = false →
        Rank.after.needsParens (expr.rank dialect) = false) := by
  intro names grown
  obtain ⟨middle, ranked, growsRank⟩ :=
    rankWith_plain dialect deep plain grown
  obtain ⟨text, after, written, growsText, spells, opens⟩ := said middle (grown.trans growsRank)
  refine ⟨_, after, run_enclosed ranked written, growsRank.trans growsText, ?_, ?_⟩
  · intro later grows
    cases wraps parent ties (expr.rank dialect) with
    | true => exact (spells later grows).parens
    | false => exact spells later grows
  · intro tight
    cases wrap : wraps parent ties (expr.rank dialect) with
    | true => exact ⟨'(', by simp, .inr rfl⟩
    | false => exact opens (tight wrap)

/-- An operand that is not put in parentheses in a tight place is tight. -/
theorem tight_of_wraps {parent child : Rank} {ties : Bool}
    (tight : Rank.after.needsParens parent = false) (bare : wraps parent ties child = false) :
    Rank.after.needsParens child = false := by
  cases parent <;> cases child <;> simp_all [wraps, Rank.needsParens, Rank.after]
  omega

/-- An operand that is not put in parentheses behind a prefixed operator is tight. -/
theorem tight_of_before {child : Rank} (bare : wraps .before true child = false) :
    Rank.after.needsParens child = false := by
  cases child <;> simp_all [wraps, Rank.needsParens, Rank.after, Rank.before]
  omega

section Plain

variable {dialect : Dialect} {deep : Expr → Naming String} {rank : Expr → Naming Rank}
  {start : Names}

attribute [local simp] writeWith writeArgs Expr.tokens Expr.argTokens

/-- What is written for an expression says its tokens; without parentheses around it, it can stand
behind a prefixed operator if it binds as tightly as one. -/
def SaysTokens (shader : Shader) (dialect : Dialect) (deep : Expr → Naming String)
    (rank : Expr → Naming Rank) (start : Names) (expr : Expr) : Prop :=
  shader.Says start (shader.writeWith dialect deep rank expr) (fun name => expr.tokens dialect name)
    (Rank.after.needsParens (expr.rank dialect) = false)

/-- An integer is written as its decimal text, behind a minus if it is negative. -/
theorem says_int (common : dialect.Common) (value : Int) :
    shader.SaysTokens dialect deep rank start (.literal (.int value)) := by
  intro names grown
  refine ⟨toString value, names, by simp [common.integer], .refl names, ?_, ?_⟩
  · intro later grows
    rw [spells_iff]
    cases value with
    | ofNat n =>
      have natural : ¬ (n : Int) < 0 := by omega
      change SpellsIn symbols (toString n) _
      simpa [natural] using SpellsIn.number symbols n
    | negSucc n =>
      have digits := SpellsIn.number symbols (n + 1)
      change SpellsIn symbols ("-" ++ toString (n + 1)) _
      simpa [UnaryOp.symbol] using
        digits.before tellsApart_symbols .neg (opens_number _)
  · intro tight
    cases value with
    | ofNat n => exact opens_number n
    | negSucc n => simp [Expr.rank, Expr.intrinsicRank?, Literal.isNegative] at tight; cases tight

/-- A variable is written as its name. -/
theorem says_ref {id : VarId} (word : shader.WritesWord start id) :
    shader.SaysTokens dialect deep rank start (.ref id) := by
  intro names grown
  obtain ⟨name, after, bound, grows, found, spelled⟩ := binding_word (grown.words _ word)
  refine ⟨name, after, by simp [bound], grows, ?_, fun _ => opens_word spelled⟩
  intro later growsLater rest ends
  have written : later.word id = name := by simp [Names.word, growsLater.keeps _ _ found]
  simpa [written] using lex_word spelled ends

/-- A binary operator stands between its operands. -/
theorem says_binary (common : dialect.Common) (op : BinaryOp) {lhs rhs : Expr}
    (left : lhs.Plain (shader.WritesWord start)) (right : rhs.Plain (shader.WritesWord start))
    (sayLeft : shader.SaysTokens dialect deep rank start lhs)
    (sayRight : shader.SaysTokens dialect deep rank start rhs) :
    shader.SaysTokens dialect deep rank start (.binary op lhs rhs) := by
  intro names grown
  obtain ⟨first, middle, writtenLeft, growsLeft, spellsLeft, opens⟩ :=
    sayLeft.enclosed left rank (dialect.binaryRank op) (op.assoc == .right) names grown
  obtain ⟨second, after, writtenRight, growsRight, spellsRight, -⟩ :=
    sayRight.enclosed right rank (dialect.binaryRank op) (op.assoc == .left) middle
      (grown.trans growsLeft)
  refine ⟨first ++ " " ++ dialect.binarySymbol op ++ " " ++ second, after,
    by simp [writtenLeft, writtenRight], growsLeft.trans growsRight, ?_, ?_⟩
  · intro later grows
    have left := spells_iff.mp (spellsLeft later (growsRight.trans grows))
    have right := spells_iff.mp (spellsRight later grows)
    simp only [spells_iff, Expr.tokens]
    exact left.binary tellsApart_symbols right (common.binarySymbol op)
  · intro tight
    simp only [String.append_assoc]
    exact (opens (tight_of_wraps tight)).append _

/-- A prefixed operator stands right before its operand. -/
theorem says_before (common : dialect.Common) (op : UnaryOp) {operand : Expr}
    (inner : operand.Plain (shader.WritesWord start))
    (sayInner : shader.SaysTokens dialect deep rank start operand) :
    shader.SaysTokens dialect deep rank start (.unary op .before operand) := by
  intro names grown
  obtain ⟨text, after, written, grows, spells, opens⟩ :=
    sayInner.enclosed inner rank .before true names grown
  have parent : dialect.unaryRank op .before = .before := by rw [common.unaryRank]; rfl
  refine ⟨op.symbol ++ text, after, ?_, grows, ?_, ?_⟩
  · simp [parent, written, common.unarySymbol]
  · intro later growsLater
    have operand := spells_iff.mp (spells later growsLater)
    simp only [spells_iff, Expr.tokens, parent, common.unarySymbol]
    exact operand.before tellsApart_symbols op (opens tight_of_before)
  · intro tight
    simp only [Expr.rank, parent] at tight
    contradiction

/-- A postfixed operator stands right behind its operand. -/
theorem says_after (common : dialect.Common) {op : UnaryOp}
    (steps : op = .increment ∨ op = .decrement) {operand : Expr}
    (inner : operand.Plain (shader.WritesWord start))
    (sayInner : shader.SaysTokens dialect deep rank start operand) :
    shader.SaysTokens dialect deep rank start (.unary op .after operand) := by
  intro names grown
  obtain ⟨text, after, written, grows, spells, opens⟩ :=
    sayInner.enclosed inner rank .after false names grown
  have parent : dialect.unaryRank op .after = .after := by rw [common.unaryRank]; rfl
  have final : op.symbol ∈ finals := by rcases steps with rfl | rfl <;> decide
  have behind : (Fixity.after == Fixity.before) = false := rfl
  refine ⟨text ++ op.symbol, after, ?_, grows, ?_, ?_⟩
  · simp [parent, behind, written, common.unarySymbol]
  · intro later growsLater rest ends
    rw [String.toList_append, List.append_assoc,
      spells later growsLater _ (ends_final final rest), lex_final final]
    simp [parent, common.unarySymbol, Option.map_map, Function.comp_def]
  · exact fun _ => (opens (tight_of_wraps rfl)).append _

/-- The conditional operator stands between its three operands. -/
theorem says_ternary {condition yes no : Expr}
    (test : condition.Plain (shader.WritesWord start))
    (first : yes.Plain (shader.WritesWord start)) (second : no.Plain (shader.WritesWord start))
    (sayTest : shader.SaysTokens dialect deep rank start condition)
    (sayFirst : shader.SaysTokens dialect deep rank start yes)
    (saySecond : shader.SaysTokens dialect deep rank start no) :
    shader.SaysTokens dialect deep rank start (.ternary condition yes no) := by
  intro names grown
  obtain ⟨testText, names₁, writtenTest, growsTest, spellsTest, -⟩ :=
    sayTest.enclosed test rank .ternary true names grown
  obtain ⟨yesText, names₂, writtenFirst, growsFirst, spellsFirst, -⟩ :=
    sayFirst.enclosed first rank .lowest false names₁ (grown.trans growsTest)
  obtain ⟨noText, after, writtenSecond, growsSecond, spellsSecond, -⟩ :=
    saySecond.enclosed second rank .ternary false names₂ ((grown.trans growsTest).trans growsFirst)
  refine ⟨testText ++ " ? " ++ yesText ++ " : " ++ noText, after, ?_,
    (growsTest.trans growsFirst).trans growsSecond, ?_, ?_⟩
  · simp [writtenTest, writtenFirst, writtenSecond]
  · intro later grows
    have test := spells_iff.mp (spellsTest later ((growsFirst.trans growsSecond).trans grows))
    have first := spells_iff.mp (spellsFirst later (growsSecond.trans grows))
    have second := spells_iff.mp (spellsSecond later grows)
    simp only [spells_iff, Expr.tokens]
    exact test.ternary tellsApart_symbols first second
  · intro tight
    simp [Expr.rank, Expr.intrinsicRank?, Rank.needsParens, Rank.after, Rank.ternary] at tight

/-- A subscript stands in brackets behind its object. -/
theorem says_subscript {object index : Expr} (outer : object.Plain (shader.WritesWord start))
    (inner : index.Plain (shader.WritesWord start))
    (sayOuter : shader.SaysTokens dialect deep rank start object)
    (sayInner : shader.SaysTokens dialect deep rank start index) :
    shader.SaysTokens dialect deep rank start (.subscript object index) := by
  intro names grown
  obtain ⟨objectText, middle, writtenOuter, growsOuter, spellsOuter, opens⟩ :=
    sayOuter.enclosed outer rank .after false names grown
  obtain ⟨indexText, after, writtenInner, growsInner, spellsInner, -⟩ :=
    sayInner.enclosed inner rank .lowest false middle (grown.trans growsOuter)
  refine ⟨objectText ++ "[" ++ indexText ++ "]", after,
    by simp [writtenOuter, writtenInner], growsOuter.trans growsInner, ?_, ?_⟩
  · intro later grows rest ends
    simp only [String.toList_append, List.append_assoc]
    rw [spellsOuter later (growsInner.trans grows) _ (ends_final (by decide) _),
      lex_final (by decide), spellsInner later grows _ (ends_final (by decide) _),
      lex_final (by decide)]
    simp [Option.map_map, Function.comp_def]
  · intro _
    simp only [String.append_assoc]
    exact (opens (tight_of_wraps rfl)).append _

/-- A member stands behind its object and a point. -/
theorem says_member {object : Expr} {name : String} (named : isWord name)
    (outer : object.Plain (shader.WritesWord start))
    (sayOuter : shader.SaysTokens dialect deep rank start object) :
    shader.SaysTokens dialect deep rank start (.member object name) := by
  intro names grown
  obtain ⟨text, after, written, grows, spells, opens⟩ :=
    sayOuter.enclosed outer rank .after false names grown
  refine ⟨text ++ "." ++ name, after, by simp [written], grows, ?_, ?_⟩
  · intro later growsLater rest ends
    simp only [String.toList_append, List.append_assoc]
    rw [spells later growsLater _ (ends_final (by decide) _), lex_final (by decide),
      lex_word named ends]
    simp [Option.map_map, Function.comp_def]
  · intro _
    simp only [String.append_assoc]
    exact (opens (tight_of_wraps rfl)).append _

/-- Arguments say their tokens with commas between them, if each argument says its own. -/
theorem writeArgs_plain {args : List Expr}
    (plain : ∀ arg ∈ args, arg.Plain (shader.WritesWord start))
    (said : ∀ arg ∈ args, shader.SaysTokens dialect deep rank start arg)
    (names : Names) (grown : shader.Grows start names) :
    ∃ texts after, (shader.writeArgs dialect deep rank args).run names = .ok (texts, after) ∧
      shader.Grows names after ∧ (args = [] ↔ texts = []) ∧
      ∀ later, shader.Grows after later →
        Spells (", ".intercalate texts) (Expr.argTokens dialect later.word args) := by
  induction args generalizing names with
  | nil =>
    refine ⟨[], names, by simp, .refl names, by simp, ?_⟩
    intro later grows rest ends
    simp
  | cons arg args ih =>
    obtain ⟨text, middle, written, growsFirst, spells, -⟩ :=
      (said arg (by simp)).enclosed (plain arg (by simp)) rank argumentRank false names grown
    obtain ⟨texts, after, listed, growsRest, nonempty, spellsRest⟩ :=
      ih (fun other mem => plain other (by simp [mem]))
        (fun other mem => said other (by simp [mem])) middle (grown.trans growsFirst)
    refine ⟨text :: texts, after, by simp [written, listed],
      growsFirst.trans growsRest, by simp, ?_⟩
    intro later grows
    have first := spells later (growsRest.trans grows)
    have others := spellsRest later grows
    cases args with
    | nil =>
      obtain rfl := nonempty.mp rfl
      simpa using first
    | cons next more =>
      have some : texts ≠ [] := fun none => by simpa using nonempty.mpr none
      intro rest ends
      rw [String.intercalate_cons_of_ne_nil some]
      simp only [String.toList_append, List.append_assoc]
      rw [first _ (ends_comma _), lex_comma, others rest ends]
      simp [Option.map_map, Function.comp_def]

/-- A call of a provided function is written with its arguments in parentheses. -/
theorem says_call (common : dialect.Common) {name : String} (named : isWord name)
    {args : List Expr} (inner : ∀ arg ∈ args, arg.Plain (shader.WritesWord start))
    (sayInner : ∀ arg ∈ args, shader.SaysTokens dialect deep rank start arg) :
    shader.SaysTokens dialect deep rank start (.call (.builtin name) args) := by
  intro names grown
  obtain ⟨texts, after, written, grows, -, spells⟩ := writeArgs_plain inner sayInner names grown
  have spelled := common.builtin name named
  refine ⟨dialect.builtin name ++ "(" ++ ", ".intercalate texts ++ ")", after,
    by simp [written], grows, ?_, ?_⟩
  · intro later growsLater rest ends
    simp only [String.toList_append, List.append_assoc]
    rw [lex_word spelled (ends_final (by decide) _), lex_final (by decide),
      spells later growsLater _ (ends_final (by decide) _), lex_final (by decide)]
    simp [Option.map_map, Function.comp_def]
  · intro _
    simp only [String.append_assoc]
    exact (opens_word spelled).append _

/-- A plain expression says its tokens. -/
theorem writeWith_plain (common : dialect.Common) {expr : Expr}
    (plain : expr.Plain (shader.WritesWord start)) :
    shader.SaysTokens dialect deep rank start expr := by
  induction plain with
  | int value => exact says_int common value
  | ref word => exact says_ref word
  | binary op left right sayLeft sayRight => exact says_binary common op left right sayLeft sayRight
  | before op inner sayInner => exact says_before common op inner sayInner
  | after steps inner sayInner => exact says_after common steps inner sayInner
  | ternary test first second sayTest sayFirst saySecond =>
    exact says_ternary test first second sayTest sayFirst saySecond
  | subscript outer inner sayOuter sayInner => exact says_subscript outer inner sayOuter sayInner
  | member outer named sayOuter => exact says_member named outer sayOuter
  | call named inner sayInner => exact says_call common named inner sayInner

end Plain

end Shader

end ShaderLoom
