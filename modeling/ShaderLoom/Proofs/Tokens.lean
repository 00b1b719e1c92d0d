import ShaderLoom.Proofs.Lexing

/-!
# Texts put together from tokens

Where texts of expressions are put together, so are their tokens (`SpellsIn`), if the table of
symbols allows for it (`TellsApart`). Blanks stand around what is between two operands. A prefixed
operator stands right before its operand, but the operand then starts with a word, a number or a
parenthesis, and no symbol goes on with any of these. A parenthesis stands right before or behind
anything, and no longer symbol starts with one.
-/
namespace ShaderLoom

/-- Whether a text can stand between operands: a word, or a symbol that holds no parenthesis. -/
def isOperator (text : String) : Bool :=
  isWord text || isSymbolic text && text.toList.all fun c => c != '(' && c != ')'

/-- A table with the symbols that expressions have in every language. A parenthesis is in none of
its symbols but itself. -/
structure TellsApart (table : List String) : Prop where
  entry : ∀ text ∈ table, isOperator text ∨ text = "(" ∨ text = ")"
  shared : ∀ text ∈ ["(", ")", "?", ":"], text ∈ table
  unary : ∀ op : UnaryOp, op.symbol ∈ table

/-- The text is cut into these tokens wherever no word goes on behind it. -/
def SpellsIn (table : List String) (text : String) (tokens : List Token) : Prop :=
  ∀ rest, Ends rest →
    lexWith table (text.toList ++ rest) = (lexWith table rest).map (tokens ++ ·)

/-- The text starts with a word, a number or a parenthesis. -/
def Opens (text : String) : Prop := ∃ c ∈ text.toList.head?, isWordPart c ∨ c = '('

/-- Tokens with parentheses around them, or without. -/
def enclose (wrap : Bool) (tokens : List Token) : List Token :=
  if wrap then .symbol "(" :: (tokens ++ [.symbol ")"]) else tokens

/-- A word starts with a word. -/
theorem opens_word {text : String} (word : isWord text) : Opens text := by
  obtain ⟨first, rest, spelled, part⟩ := head_of_isWord word
  exact ⟨first, by simp [spelled], .inl part⟩

/-- A number starts with a number. -/
theorem opens_number (n : Nat) : Opens (toString n) := by
  rw [Nat.toString_eq_repr]
  unfold Opens
  rw [Nat.toList_repr]
  cases spelled : Nat.toDigits 10 n with
  | nil => exact absurd spelled Nat.toDigits_ne_nil
  | cons first others =>
    have digit : first.isDigit :=
      Nat.isDigit_of_mem_toDigits (b := 10) (n := n) (by decide) (by decide) (by simp [spelled])
    exact ⟨first, rfl, .inl (isWordPart_of_isDigit digit)⟩

/-- A text starts as its first part does. -/
theorem Opens.append {text : String} (opens : Opens text) (more : String) :
    Opens (text ++ more) := by
  obtain ⟨c, head, starts⟩ := opens
  refine ⟨c, ?_, starts⟩
  rw [String.toList_append, List.head?_append, Option.mem_def.mp head]
  rfl

/-- No word goes on into a blank. -/
theorem ends_space (rest : List Char) : Ends (" ".toList ++ rest) := by
  intro c head
  obtain rfl : ' ' = c := by simpa using head
  rfl

/-- No word goes on into a parenthesis. -/
theorem ends_paren {text : String} (paren : text = "(" ∨ text = ")") (rest : List Char) :
    Ends (text.toList ++ rest) := by
  intro c head
  rcases paren with rfl | rfl
  · obtain rfl : '(' = c := by simpa using head
    rfl
  · obtain rfl : ')' = c := by simpa using head
    rfl

/-- No character of a symbol belongs to a word. -/
theorem no_word_of_isSymbolic {text : String} (symbolic : isSymbolic text) {c : Char}
    (mem : c ∈ text.toList) : isWordPart c = false := by
  simp only [isSymbolic, Bool.and_eq_true, List.all_eq_true, Bool.not_eq_true'] at symbolic
  exact (symbolic.2 c mem).1

/-- In what stands between operands there is neither a blank nor a parenthesis. -/
theorem isOperator_chars {text : String} (operator : isOperator text) :
    ∀ c ∈ text.toList, c ≠ ' ' ∧ c ≠ '(' ∧ c ≠ ')' := by
  intro c mem
  simp only [isOperator, Bool.or_eq_true, Bool.and_eq_true, List.all_eq_true, bne_iff_ne]
    at operator
  rcases operator with word | ⟨symbolic, noParen⟩
  · have part : isWordPart c := by
      unfold isWord at word
      split at word
      · contradiction
      · rename_i first rest spelled
        simp only [Bool.and_eq_true, List.all_eq_true] at word
        rw [spelled, List.mem_cons] at mem
        rcases mem with rfl | mem
        · exact isWordPart_of_isWordStart word.1
        · exact word.2 c mem
    refine ⟨?_, ?_, ?_⟩ <;> rintro rfl <;> exact absurd part (by decide)
  · simp only [isSymbolic, Bool.and_eq_true, List.all_eq_true, Bool.not_eq_true'] at symbolic
    refine ⟨?_, noParen c mem⟩
    rintro rfl
    exact absurd (symbolic.2 ' ' mem).2 (by decide)

namespace TellsApart

variable {table : List String}

/-- A parenthesis is one token wherever it stands. -/
theorem lexWith_paren (tells : TellsApart table) {text : String} (paren : text = "(" ∨ text = ")")
    (rest : List Char) :
    lexWith table (text.toList ++ rest) = (lexWith table rest).map (.symbol text :: ·) := by
  have known : text ∈ table := tells.shared text (by rcases paren with rfl | rfl <;> simp)
  have symbolic : isSymbolic text := by rcases paren with rfl | rfl <;> decide
  refine lexWith_symbol known symbolic (seversIn_of_final fun longer longerKnown starts => ?_)
  rcases tells.entry longer longerKnown with operator | isParen
  · have chars := isOperator_chars operator
    obtain ⟨tail, spelled⟩ := starts
    rcases paren with rfl | rfl
    · exact absurd rfl (chars '(' (by rw [← spelled]; simp)).2.1
    · exact absurd rfl (chars ')' (by rw [← spelled]; simp)).2.2
  · rcases paren with rfl | rfl <;> rcases isParen with rfl | rfl
    · rfl
    · exact absurd starts (by decide)
    · exact absurd starts (by decide)
    · rfl

/-- A symbol with blanks around it is one token. -/
theorem lexWith_apart (tells : TellsApart table) {text : String} (known : text ∈ table)
    (rest : List Char) :
    lexWith table (" ".toList ++ (text.toList ++ (" ".toList ++ rest))) =
      (lexWith table rest).map (.symbol text :: ·) := by
  have drop (rest) : lexWith table (" ".toList ++ rest) = lexWith table rest :=
    lexWith_blank table rest
  have noBlank : ∀ longer ∈ table, ' ' ∉ longer.toList.tail := by
    intro longer longerKnown mem
    rcases tells.entry longer longerKnown with other | rfl | rfl
    · exact absurd rfl (isOperator_chars other ' ' (List.mem_of_mem_tail mem)).1
    · exact absurd mem (by decide)
    · exact absurd mem (by decide)
  rw [drop]
  rcases tells.entry text known with operator | paren
  · rw [isOperator, Bool.or_eq_true, Bool.and_eq_true] at operator
    rcases operator with word | ⟨symbolic, -⟩
    · rw [lexWith_word table word (ends_space rest), drop, wordToken, if_pos known]
    · have nonempty : text ≠ "" := by
        rintro rfl
        exact absurd symbolic (by decide)
      change lexWith table (text.toList ++ ' ' :: rest) = _
      rw [lexWith_symbol known symbolic (seversIn_of_head nonempty noBlank), lexWith_blank]
  · rw [tells.lexWith_paren paren, drop]

/-- A prefixed operator is one token before a text that starts with a word, a number or a
parenthesis. -/
theorem lexWith_before (tells : TellsApart table) (op : UnaryOp) {operand : String}
    (opens : Opens operand) (rest : List Char) :
    lexWith table (op.symbol.toList ++ (operand.toList ++ rest)) =
      (lexWith table (operand.toList ++ rest)).map (.symbol op.symbol :: ·) := by
  have symbolic : isSymbolic op.symbol := by cases op <;> decide
  refine lexWith_symbol (tells.unary op) symbolic fun longer longerKnown starts => ?_
  obtain ⟨c, head, stop⟩ := opens
  by_contra long
  -- A longer symbol starts as the operator does, so it is no word, and goes on with `c`.
  have extended : op.symbol.toList ++ [c] <+: longer.toList := by
    apply List.prefix_of_prefix_length_le _ starts
    · simp only [List.length_append, String.length_toList, List.length_singleton]
      omega
    · obtain ⟨others, spelled⟩ := List.head?_eq_some_iff.mp head
      rw [spelled, List.prefix_append_right_inj]
      exact ⟨others ++ rest, rfl⟩
  have goesOn : c ∈ longer.toList := extended.subset (by simp)
  rcases tells.entry longer longerKnown with operator | rfl | rfl
  · have noParen := (isOperator_chars operator c goesOn).2.1
    rw [isOperator, Bool.or_eq_true, Bool.and_eq_true] at operator
    rcases operator with word | ⟨longerSymbolic, -⟩
    · obtain ⟨first, others, spelled, part⟩ := head_of_isWord word
      obtain ⟨tail, same⟩ := extended
      rw [spelled] at same
      have isFirst : first ∈ op.symbol.toList := by
        cases op <;> simp_all [UnaryOp.symbol]
      simp [no_word_of_isSymbolic symbolic isFirst] at part
    · rcases stop with part | paren
      · simp [no_word_of_isSymbolic longerSymbolic goesOn] at part
      · exact noParen paren
  · cases op <;> simp [UnaryOp.symbol] at extended
  · cases op <;> simp [UnaryOp.symbol] at extended

end TellsApart

namespace SpellsIn

variable {table : List String} {text lhs rhs : String} {tokens left right : List Token}

/-- The decimal text of a number is one token. -/
theorem number (table : List String) (n : Nat) : SpellsIn table (toString n) [.number n] :=
  fun _ ends => lexWith_number table ends

/-- Parentheses around a text stand around its tokens. -/
theorem parens (tells : TellsApart table) (spells : SpellsIn table text tokens) :
    SpellsIn table ("(" ++ text ++ ")") (enclose true tokens) := by
  intro rest ends
  simp only [String.toList_append, List.append_assoc]
  rw [tells.lexWith_paren (.inl rfl), spells _ (ends_paren (.inr rfl) rest),
    tells.lexWith_paren (.inr rfl)]
  simp [enclose, Option.map_map, Function.comp_def]

/-- Parentheses that stand around a text or not stand around its tokens or not. -/
theorem enclose (tells : TellsApart table) (spells : SpellsIn table text tokens) (wrap : Bool) :
    SpellsIn table (if wrap then "(" ++ text ++ ")" else text)
      (ShaderLoom.enclose wrap tokens) := by
  cases wrap with
  | true => exact spells.parens tells
  | false => exact spells

/-- Two operands with a symbol and blanks between them. -/
theorem binary (tells : TellsApart table) (spellsLeft : SpellsIn table lhs left)
    (spellsRight : SpellsIn table rhs right) (known : text ∈ table) :
    SpellsIn table (lhs ++ " " ++ text ++ " " ++ rhs) (left ++ .symbol text :: right) := by
  intro rest ends
  simp only [String.toList_append, List.append_assoc]
  rw [spellsLeft _ (ends_space _), tells.lexWith_apart known, spellsRight rest ends]
  simp [Option.map_map, Function.comp_def]

/-- An operand right behind a prefixed operator. -/
theorem before (tells : TellsApart table) (op : UnaryOp) (spells : SpellsIn table text tokens)
    (opens : Opens text) : SpellsIn table (op.symbol ++ text) (.symbol op.symbol :: tokens) := by
  intro rest ends
  rw [String.toList_append, List.append_assoc, tells.lexWith_before op opens, spells rest ends]
  simp [Option.map_map, Function.comp_def]

/-- Three operands of the conditional operator. -/
theorem ternary (tells : TellsApart table) {condition yes no : String}
    {test first second : List Token} (spellsTest : SpellsIn table condition test)
    (spellsFirst : SpellsIn table yes first) (spellsSecond : SpellsIn table no second) :
    SpellsIn table (condition ++ " ? " ++ yes ++ " : " ++ no)
      (test ++ .symbol "?" :: (first ++ .symbol ":" :: second)) := by
  have branches := spellsFirst.binary tells spellsSecond (tells.shared ":" (by simp))
  have whole := spellsTest.binary tells branches (tells.shared "?" (by simp))
  have question : " ? " = " " ++ "?" ++ " " := rfl
  have colon : " : " = " " ++ ":" ++ " " := rfl
  simpa only [question, colon, String.append_assoc] using whole

end SpellsIn

end ShaderLoom
