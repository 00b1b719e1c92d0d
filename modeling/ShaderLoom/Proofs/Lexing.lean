import Mathlib
import ShaderLoom.Dialect

/-!
# Words, numbers and symbols

The text of an expression is cut into words, numbers and symbols. A symbol is the longest that
stands there, and blanks are dropped. A word or a number ends where no character of a word follows;
a symbol ends where no longer symbol stands (`SeversIn`). What follows is enough to tell the tokens
of a text from those of its parts.

The symbols of a language are a table of texts, and a word of the table is a symbol too (`lexWith`).
The common table, by which most languages of this family are cut (`lex`), holds no word.
-/
namespace ShaderLoom

/-- What a word can start with. -/
def isWordStart (c : Char) : Bool := c.isAlpha || c == '_'

/-- What a word consists of. -/
def isWordPart (c : Char) : Bool := c.isAlphanum || c == '_'

/-- Whether a text is one word. -/
def isWord (text : String) : Bool :=
  match text.toList with
  | [] => false
  | first :: rest => isWordStart first && rest.all isWordPart

/-- Every binary operator. -/
def BinaryOp.all : List BinaryOp :=
  [.add, .sub, .mul, .div, .mod, .eq, .notEq, .lt, .ltEq, .gt, .gtEq, .and, .or, .xor, .bitAnd,
    .bitOr, .bitXor, .shl, .shr, .assign, .addAssign, .subAssign, .mulAssign, .divAssign,
    .modAssign, .bitAndAssign, .bitOrAssign, .bitXorAssign, .shlAssign, .shrAssign]

/-- Every unary operator. -/
def UnaryOp.all : List UnaryOp := [.neg, .not, .bitNot, .increment, .decrement]

/-- Every symbol: those of the operators, and the punctuation around them. -/
def symbols : List String :=
  BinaryOp.all.map BinaryOp.symbol ++ UnaryOp.all.map UnaryOp.symbol ++
    ["(", ")", "[", "]", ".", ",", "?", ":"]

/-- A piece of text that is read as a whole. -/
inductive Token where
  | word (text : String)
  | number (value : Nat)
  | symbol (text : String)
deriving DecidableEq, Repr

/-- The longest symbol of a table that a text starts with. -/
def longestIn (table : List String) (chars : List Char) : Option String :=
  (table.filter (·.toList.isPrefixOf chars)).argmax String.length

/-- The token that a whole word is. -/
def wordToken (table : List String) (text : String) : Token :=
  if text ∈ table then .symbol text else .word text

/-- The tokens of a text whose symbols are those of a table, or none if some of it starts no
token. -/
def lexWith (table : List String) : List Char → Option (List Token)
  | [] => some []
  | first :: rest =>
    if first.isWhitespace then lexWith table rest
    else if isWordStart first then
      (lexWith table (rest.dropWhile isWordPart)).map
        (wordToken table (String.ofList (first :: rest.takeWhile isWordPart)) :: ·)
    else if first.isDigit then
      (lexWith table (rest.dropWhile Char.isDigit)).map
        (.number (Nat.ofDigitChars 10 (first :: rest.takeWhile Char.isDigit) 0) :: ·)
    else
      match longestIn table (first :: rest) with
      | none => none
      | some symbol => (lexWith table (rest.drop (symbol.length - 1))).map (.symbol symbol :: ·)
termination_by chars => chars.length
decreasing_by
  · simp
  · exact Nat.lt_succ_of_le (List.dropWhile_sublist _).length_le
  · exact Nat.lt_succ_of_le (List.dropWhile_sublist _).length_le
  · simp only [List.length_drop, List.length_cons]
    omega

/-- The tokens of a text by the common table. -/
def lex (chars : List Char) : Option (List Token) := lexWith symbols chars

/-- No word goes on into this text. -/
def Ends (rest : List Char) : Prop := ∀ c ∈ rest.head?, isWordPart c = false

/-- No symbol of a table that is longer than `text` stands where `text` is followed by `rest`. -/
def SeversIn (table : List String) (text : String) (rest : List Char) : Prop :=
  ∀ longer ∈ table, longer.toList <+: text.toList ++ rest → longer.length ≤ text.length

/-- A text that is not empty and in which no blank stands and nothing that belongs to a word. -/
def isSymbolic (text : String) : Bool :=
  !text.isEmpty && text.toList.all fun c => !isWordPart c && !c.isWhitespace

/-- No character of a symbol is a blank or belongs to a word. -/
theorem symbols_no_word : ∀ text ∈ symbols, ∀ c ∈ text.toList,
    isWordPart c = false ∧ c.isWhitespace = false := by
  have checked : symbols.all fun text =>
      text.toList.all fun c => !isWordPart c && !c.isWhitespace := by
    decide
  simpa only [List.all_eq_true, Bool.and_eq_true, Bool.not_eq_true'] using checked

/-- A symbol has one to three characters. -/
theorem symbols_length : ∀ text ∈ symbols, 1 ≤ text.length ∧ text.length ≤ 3 := by
  decide

/-- A word starts with what words consist of. -/
theorem isWordPart_of_isWordStart {c : Char} (start : isWordStart c) : isWordPart c := by
  simp only [isWordStart, isWordPart, Char.isAlphanum, Bool.or_eq_true] at start ⊢
  tauto

/-- A word starts with a character of a word. -/
theorem head_of_isWord {text : String} (word : isWord text) :
    ∃ first rest, text.toList = first :: rest ∧ isWordPart first := by
  unfold isWord at word
  split at word
  · contradiction
  · rename_i first rest spelled
    simp only [Bool.and_eq_true] at word
    exact ⟨first, rest, spelled, isWordPart_of_isWordStart word.1⟩

/-- A number is written in digits. -/
theorem isDigit_of_mem_toString {n : Nat} {c : Char} (mem : c ∈ (toString n).toList) :
    c.isDigit := by
  rw [Nat.toString_eq_repr, Nat.toList_repr] at mem
  exact Nat.isDigit_of_mem_toDigits (by decide) (by decide) mem

/-- A digit belongs to words. -/
theorem isWordPart_of_isDigit {c : Char} (digit : c.isDigit) : isWordPart c := by
  simp [isWordPart, Char.isAlphanum, digit]

/-- No word starts with a digit. -/
theorem isWordStart_of_isDigit {c : Char} (digit : c.isDigit) : isWordStart c = false := by
  by_contra start
  simp only [Char.isDigit, Bool.and_eq_true, decide_eq_true_eq, ge_iff_le,
    UInt32.le_iff_toNat_le] at digit
  simp only [isWordStart, Char.isAlpha, Char.isUpper, Char.isLower, Bool.not_eq_false,
    Bool.or_eq_true, Bool.and_eq_true, decide_eq_true_eq, ge_iff_le, UInt32.le_iff_toNat_le,
    beq_iff_eq] at start
  change 48 ≤ c.val.toNat ∧ c.val.toNat ≤ 57 at digit
  change ((65 ≤ c.val.toNat ∧ c.val.toNat ≤ 90) ∨ (97 ≤ c.val.toNat ∧ c.val.toNat ≤ 122)) ∨
    c = '_' at start
  rcases start with (upper | lower) | rfl
  · omega
  · omega
  · exact absurd digit.2 (by decide)

/-- A character of a word is no blank. -/
theorem isWhitespace_of_isWordPart {c : Char} (part : isWordPart c) : c.isWhitespace = false := by
  by_contra blank
  simp only [Char.isWhitespace, Bool.not_eq_false, Bool.or_eq_true, decide_eq_true_eq] at blank
  rcases blank with ((rfl | rfl) | rfl) | rfl <;> exact absurd part (by decide)

/-- Only the beginning of a text that no word goes on into can be no character of a word. -/
theorem Ends.takeWhile {rest : List Char} {p : Char → Bool} (ends : Ends rest)
    (within : ∀ c, p c → isWordPart c) : rest.takeWhile p = [] ∧ rest.dropWhile p = rest := by
  cases rest with
  | nil => simp
  | cons c rest =>
    have stop : p c = false := by
      by_contra go
      have := within c (by simpa using go)
      simp [ends c rfl] at this
    simp [stop]

/-- The longest symbol is a symbol of the table, and the text starts with it. -/
theorem mem_of_longestIn {table : List String} {chars : List Char} {text : String}
    (found : longestIn table chars = some text) : text ∈ table ∧ text.toList <+: chars := by
  have isCandidate := List.argmax_mem found
  rwa [List.mem_filter, List.isPrefixOf_iff_prefix] at isCandidate

/-- Where no longer symbol of a table stands, a symbol of it is the longest. -/
theorem SeversIn.longestIn_eq {table : List String} {text : String} {rest : List Char}
    (severed : SeversIn table text rest) (known : text ∈ table) :
    longestIn table (text.toList ++ rest) = some text := by
  have candidate : text ∈ table.filter (·.toList.isPrefixOf (text.toList ++ rest)) := by
    simp [known]
  cases hit : longestIn table (text.toList ++ rest) with
  | none =>
    rw [longestIn, List.argmax_eq_none] at hit
    simp [hit] at candidate
  | some found =>
    have long : text.length ≤ found.length := List.le_of_mem_argmax candidate hit
    obtain ⟨isKnown, starts⟩ := mem_of_longestIn hit
    have short := severed found isKnown starts
    have whole : text.toList <+: found.toList :=
      List.prefix_of_prefix_length_le (List.prefix_append _ _) starts
        (by simpa [String.length_toList] using long)
    have same := whole.eq_of_length_le (by simpa [String.length_toList] using short)
    rw [String.toList_inj.mp same]

/-- Blanks are dropped. -/
@[simp]
theorem lexWith_blank (table : List String) (rest : List Char) :
    lexWith table (' ' :: rest) = lexWith table rest := by
  rw [lexWith]
  simp

/-- A word that ends is one token. -/
theorem lexWith_word (table : List String) {text : String} {rest : List Char} (word : isWord text)
    (ends : Ends rest) :
    lexWith table (text.toList ++ rest) = (lexWith table rest).map (wordToken table text :: ·) := by
  unfold isWord at word
  split at word
  · contradiction
  · rename_i first tail spelled
    simp only [Bool.and_eq_true, List.all_eq_true] at word
    obtain ⟨start, parts⟩ := word
    obtain ⟨taken, dropped⟩ := ends.takeWhile (p := isWordPart) (fun _ => id)
    have whole : String.ofList (first :: tail) = text := by rw [← spelled, String.ofList_toList]
    rw [spelled, List.cons_append, lexWith]
    rw [if_neg (by simp [isWhitespace_of_isWordPart (isWordPart_of_isWordStart start)]),
      if_pos start, List.takeWhile_append_of_pos parts, List.dropWhile_append_of_pos parts, taken,
      dropped, List.append_nil, whole]

/-- The decimal text of a number that ends is one token. -/
theorem lexWith_number (table : List String) {n : Nat} {rest : List Char} (ends : Ends rest) :
    lexWith table ((toString n).toList ++ rest) = (lexWith table rest).map (.number n :: ·) := by
  obtain ⟨taken, dropped⟩ := ends.takeWhile (p := Char.isDigit) (fun _ => isWordPart_of_isDigit)
  have digits : ∀ c ∈ Nat.toDigits 10 n, c.isDigit := fun c mem =>
    Nat.isDigit_of_mem_toDigits (by decide) (by decide) mem
  have value := @Nat.ofDigitChars_ten_toDigits n
  rw [Nat.toString_eq_repr, Nat.toList_repr]
  cases spelled : Nat.toDigits 10 n with
  | nil => exact absurd spelled Nat.toDigits_ne_nil
  | cons first tail =>
    rw [spelled] at digits value
    have firstDigit := digits first (by simp)
    have tailDigits : ∀ c ∈ tail, c.isDigit := fun c mem => digits c (by simp [mem])
    rw [List.cons_append, lexWith]
    rw [if_neg (by simp [isWhitespace_of_isWordPart (isWordPart_of_isDigit firstDigit)]),
      if_neg (by simp [isWordStart_of_isDigit firstDigit]), if_pos firstDigit,
      List.takeWhile_append_of_pos tailDigits, List.dropWhile_append_of_pos tailDigits, taken,
      dropped, List.append_nil, value]

/-- A symbol of a table is one token where no longer symbol of it stands. -/
theorem lexWith_symbol {table : List String} {text : String} {rest : List Char}
    (known : text ∈ table) (symbolic : isSymbolic text) (severed : SeversIn table text rest) :
    lexWith table (text.toList ++ rest) = (lexWith table rest).map (.symbol text :: ·) := by
  have longest := severed.longestIn_eq known
  have length := String.length_toList (s := text)
  simp only [isSymbolic, Bool.and_eq_true, List.all_eq_true, Bool.not_eq_true'] at symbolic
  obtain ⟨nonempty, noWord⟩ := symbolic
  cases spelled : text.toList with
  | nil => simp [String.isEmpty_eq_false_iff, ← String.toList_eq_nil_iff, spelled] at nonempty
  | cons first tail =>
    rw [spelled] at longest noWord length
    obtain ⟨noPart, noBlank⟩ := noWord first (by simp)
    have noStart : isWordStart first = false := by
      by_contra start
      simp [isWordPart_of_isWordStart (by simpa using start)] at noPart
    have noDigit : first.isDigit = false := by
      by_contra digit
      simp [isWordPart_of_isDigit (by simpa using digit)] at noPart
    rw [List.cons_append] at longest ⊢
    have tailLength : text.length - 1 = tail.length := by
      simp only [List.length_cons] at length
      omega
    rw [lexWith]
    simp [noBlank, noStart, noDigit, longest, tailLength]

/-- A symbol that starts no longer symbol of a table ends wherever it stands. -/
theorem seversIn_of_final {table : List String} {text : String} {rest : List Char}
    (final : ∀ longer ∈ table, text.toList <+: longer.toList → longer = text) :
    SeversIn table text rest := by
  intro longer known starts
  rcases Nat.le_total longer.length text.length with short | long
  · exact short
  · have whole : text.toList <+: longer.toList :=
      List.prefix_of_prefix_length_le (List.prefix_append _ _) starts
        (by simpa [String.length_toList] using long)
    exact Nat.le_of_eq (congrArg String.length (final longer known whole))

/-- A symbol ends before a character that no symbol of a table goes on with. -/
theorem seversIn_of_head {table : List String} {text : String} {c : Char} {rest : List Char}
    (nonempty : text ≠ "") (stops : ∀ longer ∈ table, c ∉ longer.toList.tail) :
    SeversIn table text (c :: rest) := by
  intro longer longerKnown starts
  by_contra long
  have extended : text.toList ++ [c] <+: longer.toList := by
    apply List.prefix_of_prefix_length_le _ starts
    · simp only [List.length_append, String.length_toList, List.length_singleton]
      omega
    · rw [List.prefix_append_right_inj]
      exact ⟨rest, rfl⟩
  obtain ⟨tail, spelled⟩ := extended
  cases head : text.toList with
  | nil => exact nonempty (String.toList_eq_nil_iff.mp head)
  | cons first others =>
    apply stops longer longerKnown
    rw [← spelled, head]
    simp

/-- No common symbol is a word. -/
theorem wordToken_symbols {text : String} {c : Char} (mem : c ∈ text.toList) (part : isWordPart c) :
    wordToken symbols text = .word text := by
  refine if_neg fun known => ?_
  simp [(symbols_no_word text known c mem).1] at part

/-- Blanks are dropped. -/
@[simp]
theorem lex_blank (rest : List Char) : lex (' ' :: rest) = lex rest :=
  lexWith_blank symbols rest

/-- A word that ends is one token. -/
theorem lex_word {text : String} {rest : List Char} (word : isWord text) (ends : Ends rest) :
    lex (text.toList ++ rest) = (lex rest).map (.word text :: ·) := by
  obtain ⟨first, others, spelled, part⟩ := head_of_isWord word
  rw [lex, lex, lexWith_word symbols word ends,
    wordToken_symbols (c := first) (by simp [spelled]) part]

/-- Every common symbol is a symbol. -/
theorem isSymbolic_of_mem : ∀ text ∈ symbols, isSymbolic text := by
  decide

/-- A symbol is one token where no longer symbol stands. -/
theorem lex_symbol {text : String} {rest : List Char} (known : text ∈ symbols)
    (severed : SeversIn symbols text rest) :
    lex (text.toList ++ rest) = (lex rest).map (.symbol text :: ·) :=
  lexWith_symbol known (isSymbolic_of_mem text known) severed

end ShaderLoom
