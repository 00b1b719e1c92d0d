import Mathlib.Data.List.Induction
import Mathlib.Data.List.Perm.Basic
import ShaderLoom.Command.Emit

/-!
# The grammar of arguments

The arguments of the `emit` command are groups of one or two: an `-o` with its path, a dialect, an
indent width, `--no-preamble`, and words that do not start with a minus (`EmitArgs.Group`). They
are read without a failure if they can be cut into groups, from left to right, and exactly one of
these is a word; then the last group of each kind counts (`EmitArgs.ofGroups`). Otherwise the
leftmost argument that no group begins with decides the failure (`EmitArgs.Offends`).

Reading a group takes the same step wherever it stands (`EmitArgs.readFrom_group`), so what a list
of groups is read as depends on the groups of each kind alone (`EmitArgs.ofArgs_spelled`).
-/
namespace ShaderLoom

/-- Whether a text spells a width: at least one decimal digit, behind a plus or nothing, for a
number that fits into 64 bits. -/
def SpellsWidth (text : String) (width : Nat) : Prop :=
  ∃ sign digits, text.toList = sign ++ digits ∧ (sign = [] ∨ sign = ['+']) ∧ digits ≠ [] ∧
    (∀ c ∈ digits, c.isDigit) ∧ Nat.ofDigitChars 10 digits 0 = width ∧ width < UInt64.size

/-- A text goes on after a mark exactly if it is the mark and what it goes on with. -/
theorem afterMark?_eq_some_iff {mark text rest : String} :
    afterMark? mark text = some rest ↔ text = mark ++ rest := by
  unfold afterMark?
  have byLetters : text = mark ++ rest ↔ text.toList = mark.toList ++ rest.toList := by
    rw [← String.toList_inj, String.toList_append]
  rw [Option.ite_none_right_eq_some, List.isPrefixOf_iff_prefix, byLetters,
    List.prefix_iff_eq_append]
  constructor
  · rintro ⟨starts, isRest⟩
    obtain rfl := Option.some.inj isRest
    rw [String.toList_ofList, starts]
  · intro same
    rw [same, List.drop_left]
    exact ⟨rfl, by rw [String.ofList_toList]⟩

/-- A text that starts with another letter than a mark does not go on after it. -/
theorem afterMark?_eq_none {mark text : String} (apart : ∀ rest, text ≠ mark ++ rest) :
    afterMark? mark text = none := by
  rw [Option.eq_none_iff_forall_ne_some]
  intro rest found
  exact apart rest (afterMark?_eq_some_iff.mp found)

/-- Digits are read as the number that they denote. -/
theorem readDigits_eq_some_iff {digits : List Char} {sofar value : Nat} :
    readDigits sofar digits = some value ↔
      (∀ c ∈ digits, c.isDigit) ∧ Nat.ofDigitChars 10 digits sofar = value := by
  induction digits generalizing sofar with
  | nil => simp [readDigits]
  | cons c digits ih =>
    rw [readDigits, List.forall_mem_cons, Nat.ofDigitChars_cons]
    by_cases isDigit : c.isDigit
    · simp [digitValue?, isDigit, ih, Nat.mul_comm]
    · simp [digitValue?, isDigit]

/-- Exactly what spells a width is read as one. -/
theorem readWidth?_eq_some_iff {text : String} {width : Nat} :
    readWidth? text = some width ↔ SpellsWidth text width := by
  have plain : ∀ digits : List Char,
      (if digits.isEmpty then none else do
        let value ← readDigits 0 digits
        if value < UInt64.size then some value else none) = some width ↔
      digits ≠ [] ∧ (∀ c ∈ digits, c.isDigit) ∧ Nat.ofDigitChars 10 digits 0 = width ∧
        width < UInt64.size := by
    intro digits
    rw [Option.ite_none_left_eq_some, Option.bind_eq_bind, Option.bind_eq_some_iff]
    simp only [readDigits_eq_some_iff, Option.ite_none_right_eq_some, Option.some.injEq,
      List.isEmpty_iff]
    constructor
    · rintro ⟨some, value, ⟨all, isValue⟩, small, rfl⟩
      exact ⟨some, all, isValue, small⟩
    · rintro ⟨some, all, isValue, small⟩
      exact ⟨some, width, ⟨all, isValue⟩, small, rfl⟩
  unfold readWidth?
  rw [plain]
  constructor
  · intro spelled
    split at spelled
    case h_1 digits isText => exact ⟨['+'], digits, isText, .inr rfl, spelled⟩
    case h_2 => exact ⟨[], _, rfl, .inl rfl, spelled⟩
  · rintro ⟨sign, digits, isText, rfl | rfl, some, all, isValue, small⟩
    · -- A text of digits does not start with a plus.
      obtain ⟨c, digits, rfl⟩ := List.exists_cons_of_ne_nil some
      have noPlus : c ≠ '+' := by
        rintro rfl
        exact absurd (all '+' List.mem_cons_self) (by decide)
      rw [isText, List.nil_append]
      split
      case h_1 same => exact absurd (List.cons.inj same).1 noPlus
      case h_2 => exact ⟨some, all, isValue, small⟩
    · rw [isText]
      exact ⟨some, all, isValue, small⟩

namespace EmitArgs

/-- What one argument or two say together. -/
inductive Group where
  /-- An `-o` and the path after it, whatever that is. -/
  | output (path : String)
  | dialect (target : Target)
  /-- A width and how it is spelled. -/
  | indent (text : String) (width : Nat)
  | noPreamble
  /-- The name of a demo. -/
  | word (name : String)
deriving DecidableEq, Repr

/-- What a group is about. -/
inductive Topic where
  | output
  | dialect
  | indent
  | preamble
  | demo
deriving DecidableEq, Repr

namespace Group

/-- The arguments of a group. -/
def args : Group → List String
  | .output path => ["-o", path]
  | .dialect target => ["--dialect=" ++ target.name]
  | .indent text _ => ["--indent=" ++ text]
  | .noPreamble => ["--no-preamble"]
  | .word name => [name]

/-- Whether the arguments of a group are taken for it. -/
def Fits : Group → Prop
  | .indent text width => SpellsWidth text width
  | .word name => name.toList.head? ≠ some '-'
  | _ => True

/-- What a group is about. -/
def topic : Group → Topic
  | .output _ => .output
  | .dialect _ => .dialect
  | .indent _ _ => .indent
  | .noPreamble => .preamble
  | .word _ => .demo

/-- The path of a group. -/
def path? : Group → Option String
  | .output path => some path
  | _ => none

/-- The target of a group. -/
def target? : Group → Option Target
  | .dialect target => some target
  | _ => none

/-- The width of a group. -/
def width? : Group → Option Nat
  | .indent _ width => some width
  | _ => none

/-- The word of a group. -/
def word? : Group → Option String
  | .word name => some name
  | _ => none

end Group

/-- The arguments of groups in order. -/
def spelled (groups : List Group) : List String := groups.flatMap Group.args

/-- The words among groups. -/
def words (groups : List Group) : List String := groups.filterMap Group.word?

/-- What groups say beside the demo: of each kind the last one counts. -/
def ofGroups (groups : List Group) (demo : String) : EmitArgs where
  demo
  target := (groups.filterMap Group.target?).getLast?.getD .glsl
  layout :=
    { indentWidth := (groups.filterMap Group.width?).getLast?.getD 4
      preamble := !groups.contains .noPreamble
      trailingNewline := true }
  output := (groups.filterMap Group.path?).getLast?

/-- Whether an argument begins no group that may stand where it does, with others behind it and
with or without a word before it; and the failure that it makes. -/
inductive Offends (named : Prop) : String → List String → CommandError → Prop where
  | dialect {name : String} {behind : List String}
    (unknown : ∀ target : Target, name ≠ target.name) :
    Offends named ("--dialect=" ++ name) behind (.unknownDialect name)
  | indent {text : String} {behind : List String} (refused : ∀ width, ¬SpellsWidth text width) :
    Offends named ("--indent=" ++ text) behind (.invalidIndent text)
  /-- A second word. -/
  | word {arg : String} {behind : List String} (isWord : arg.toList.head? ≠ some '-')
    (already : named) : Offends named arg behind (.unexpectedArgument arg)
  /-- An option of no kind, or an `-o` with nothing behind it. -/
  | option {arg : String} {behind : List String} (isOption : arg.toList.head? = some '-')
    (noDialect : ∀ name, arg ≠ "--dialect=" ++ name) (noIndent : ∀ text, arg ≠ "--indent=" ++ text)
    (noSwitch : arg ≠ "--no-preamble") (noOutput : arg = "-o" → behind = []) :
    Offends named arg behind (.unexpectedArgument arg)

/-- What has been read once some groups have. -/
def Reading.after (groups : List Group) : Reading :=
  let read := ofGroups groups ""
  ⟨(words groups).head?, read.target, read.layout, read.output⟩

/-- An argument that is no `-o` is read by itself. -/
theorem readFrom_cons {sofar : Reading} {arg : String} (alone : arg ≠ "-o") (rest : List String) :
    readFrom sofar (arg :: rest) = sofar.read arg >>= fun later => readFrom later rest := by
  cases rest with
  | nil => rfl
  | cons next rest => rw [readFrom, if_neg alone]

/-- A text that starts with other letters than a mark does not go on after it. -/
theorem ne_append_of_take {text mark : String} (count : Nat)
    (apart : text.toList.take count ≠ mark.toList.take count)
    (within : count ≤ mark.toList.length) (rest : String) : text ≠ mark ++ rest := by
  rintro rfl
  rw [String.toList_append, List.take_append_of_le_length within] at apart
  exact apart rfl

/-- A word does not start with a mark of an option. -/
theorem ne_append_of_word {word mark : String} (isWord : word.toList.head? ≠ some '-')
    (marked : mark.toList.take 1 = ['-']) (rest : String) : word ≠ mark ++ rest := by
  apply ne_append_of_take 1
  · intro same
    have heads := congrArg List.head? (same.trans marked)
    rw [List.head?_take] at heads
    exact isWord heads
  · rw [Nat.one_le_iff_ne_zero, ne_eq, List.length_eq_zero_iff]
    intro empty
    rw [empty] at marked
    cases marked

/-- What a target is called names it and no other. -/
theorem ofName_eq_ok_iff {name : String} {target : Target} :
    Target.ofName name = .ok target ↔ name = target.name := by
  unfold Target.ofName
  split
  case h_1 => cases target <;> simp [Target.name]
  case h_2 => cases target <;> simp [Target.name]
  case h_3 noGlsl noHlsl =>
    cases target with
    | glsl => simpa [Target.name] using noGlsl
    | hlsl => simpa [Target.name] using noHlsl

/-- Any other name names none. -/
theorem ofName_of_unknown {name : String} (unknown : ∀ target : Target, name ≠ target.name) :
    Target.ofName name = .error (.unknownDialect name) := by
  unfold Target.ofName
  split
  case h_1 => exact absurd rfl (unknown .glsl)
  case h_2 => exact absurd rfl (unknown .hlsl)
  case h_3 => rfl

/-- A dialect that is named is read as the last one. -/
theorem read_dialect (sofar : Reading) (target : Target) :
    sofar.read ("--dialect=" ++ target.name) = .ok { sofar with target } := by
  rw [Reading.read, afterMark?_eq_some_iff.mpr rfl]
  simp only [ofName_eq_ok_iff.mpr rfl]
  rfl

/-- A width that is spelled is read as the last one. -/
theorem read_indent (sofar : Reading) {text : String} {width : Nat}
    (spelled : SpellsWidth text width) :
    sofar.read ("--indent=" ++ text) =
      .ok { sofar with layout := { sofar.layout with indentWidth := width } } := by
  have noDialect : afterMark? "--dialect=" ("--indent=" ++ text) = none := by
    apply afterMark?_eq_none
    exact ne_append_of_take 3 (by simp) (by decide)
  rw [Reading.read, noDialect]
  simp only [afterMark?_eq_some_iff.mpr rfl, readWidth?_eq_some_iff.mpr spelled]

/-- An argument without a value is read for itself. -/
theorem read_plain (sofar : Reading) {arg : String} (noDialect : ∀ name, arg ≠ "--dialect=" ++ name)
    (noIndent : ∀ text, arg ≠ "--indent=" ++ text) :
    sofar.read arg =
      if arg = "--no-preamble" then
        .ok { sofar with layout := { sofar.layout with preamble := false } }
      else if arg.toList.head? ≠ some '-' ∧ sofar.demo.isNone then
        .ok { sofar with demo := some arg }
      else .error (.unexpectedArgument arg) := by
  rw [Reading.read, afterMark?_eq_none noDialect, afterMark?_eq_none noIndent]

/-- A word is read as the demo if there is none yet. -/
theorem read_word (sofar : Reading) {name : String} (isWord : name.toList.head? ≠ some '-') :
    sofar.read name =
      if sofar.demo.isNone then .ok { sofar with demo := some name }
      else .error (.unexpectedArgument name) := by
  rw [read_plain]
  · have noSwitch : name ≠ "--no-preamble" := by
      rintro rfl
      exact isWord rfl
    simp only [if_neg noSwitch, isWord, ne_eq, not_false_eq_true, true_and]
  · exact ne_append_of_word isWord (by decide)
  · exact ne_append_of_word isWord (by decide)

/-- One more group is one more word at most. -/
theorem words_concat (groups : List Group) (group : Group) :
    words (groups ++ [group]) = words groups ++ group.word?.toList := by
  rw [words, List.filterMap_append]
  cases group <;> rfl

/-- What has been read once one more group has; of two words the first is kept. -/
theorem after_concat (groups : List Group) (group : Group) :
    Reading.after (groups ++ [group]) =
      match group with
      | .output path => { Reading.after groups with output := some path }
      | .dialect target => { Reading.after groups with target }
      | .indent _ width =>
        { Reading.after groups with
          layout := { (Reading.after groups).layout with indentWidth := width } }
      | .noPreamble =>
        { Reading.after groups with
          layout := { (Reading.after groups).layout with preamble := false } }
      | .word name =>
        { Reading.after groups with demo := (Reading.after groups).demo.or (some name) } := by
  cases group <;>
    simp [Reading.after, ofGroups, words, Group.word?, Group.target?, Group.width?, Group.path?]

/-- A group that fits is read as the last of its kind, wherever it stands; a word is so only if no
word stands before it. -/
theorem readFrom_group {groups : List Group} {group : Group} (fits : group.Fits)
    (free : group.topic = .demo → words groups = []) (rest : List String) :
    readFrom (.after groups) (group.args ++ rest) = readFrom (.after (groups ++ [group])) rest := by
  rw [after_concat]
  cases group with
  | output path =>
    rw [Group.args, List.cons_append, List.singleton_append, readFrom, if_pos rfl]
  | dialect target =>
    have alone : "--dialect=" ++ target.name ≠ "-o" := by cases target <;> decide
    rw [Group.args, List.singleton_append, readFrom_cons alone, read_dialect]
    rfl
  | indent text width =>
    have alone : "--indent=" ++ text ≠ "-o" := by
      intro same
      simpa using congrArg (fun text => text.toList.take 2) same
    rw [Group.args, List.singleton_append, readFrom_cons alone, read_indent _ fits]
    rfl
  | noPreamble =>
    rw [Group.args, List.singleton_append, readFrom_cons (by decide), read_plain]
    · rfl
    · exact ne_append_of_take 3 (by decide) (by decide)
    · exact ne_append_of_take 3 (by decide) (by decide)
  | word name =>
    have alone : name ≠ "-o" := by
      rintro rfl
      exact fits rfl
    have none : (Reading.after groups).demo = none := by
      rw [Reading.after, free rfl]
      rfl
    rw [Group.args, List.singleton_append, readFrom_cons alone, read_word _ fits, none]
    rfl

/-- Groups that fit, at most one of them a word, are read one after the other. -/
theorem readFrom_spelled {groups : List Group} (fit : ∀ group ∈ groups, group.Fits)
    (single : (words groups).length ≤ 1) (rest : List String) :
    readFrom .start (spelled groups ++ rest) = readFrom (.after groups) rest := by
  induction groups using List.reverseRecOn generalizing rest with
  | nil => rfl
  | append_singleton groups group ih =>
    rw [List.forall_mem_append, List.forall_mem_singleton] at fit
    rw [words_concat, List.length_append] at single
    have free : group.topic = .demo → words groups = [] := by
      intro isWord
      cases group with
      | word name =>
        rw [← List.length_eq_zero_iff]
        exact Nat.le_zero.mp (Nat.le_of_add_le_add_right single)
      | _ => cases isWord
    have flat : spelled (groups ++ [group]) ++ rest = spelled groups ++ (group.args ++ rest) := by
      simp [spelled]
    rw [flat, ih fit.1 (by omega), readFrom_group fit.2 free]

/-- An argument that no group begins with makes its failure. -/
theorem readFrom_offending {groups : List Group} {arg : String} {behind : List String}
    {error : CommandError} (offends : Offends (words groups ≠ []) arg behind error) :
    readFrom (.after groups) (arg :: behind) = .error error := by
  cases offends with
  | @dialect name _ unknown =>
    have alone : "--dialect=" ++ name ≠ "-o" :=
      (ne_append_of_take 3 (by decide) (by decide) name).symm
    rw [readFrom_cons alone, Reading.read, afterMark?_eq_some_iff.mpr rfl]
    simp only [ofName_of_unknown unknown]
    rfl
  | @indent text _ refused =>
    have alone : "--indent=" ++ text ≠ "-o" :=
      (ne_append_of_take 3 (by decide) (by decide) text).symm
    have noDialect : afterMark? "--dialect=" ("--indent=" ++ text) = none :=
      afterMark?_eq_none (ne_append_of_take 3 (by simp) (by decide))
    have unread : readWidth? text = none := by
      rw [Option.eq_none_iff_forall_ne_some]
      exact fun width found => refused width (readWidth?_eq_some_iff.mp found)
    rw [readFrom_cons alone, Reading.read, noDialect]
    simp only [afterMark?_eq_some_iff.mpr rfl, unread]
    rfl
  | word isWord already =>
    have alone : arg ≠ "-o" := by
      rintro rfl
      exact isWord rfl
    have named : (Reading.after groups).demo.isNone = false := by
      rw [Option.isNone_eq_false_iff, Reading.after, List.isSome_head?]
      simpa using already
    rw [readFrom_cons alone, read_word _ isWord, named]
    rfl
  | option isOption noDialect noIndent noSwitch noOutput =>
    have unread : (Reading.after groups).read arg = .error (.unexpectedArgument arg) := by
      rw [read_plain _ noDialect noIndent, if_neg noSwitch, if_neg fun word => word.1 isOption]
    by_cases isOutput : arg = "-o"
    · rw [noOutput isOutput, readFrom, unread]
      rfl
    · rw [readFrom_cons isOutput, unread]
      rfl

/-- A first argument begins a group that fits, and that is no second word, or it offends. -/
theorem exists_group (named : Prop) (arg : String) (behind : List String) :
    (∃ (group : Group) (rest : List String), arg :: behind = group.args ++ rest ∧ group.Fits ∧
      (group.topic = .demo → ¬named)) ∨ ∃ error, Offends named arg behind error := by
  by_cases isWord : arg.toList.head? ≠ some '-'
  · by_cases already : named
    · exact .inr ⟨_, .word isWord already⟩
    · exact .inl ⟨.word arg, behind, rfl, isWord, fun _ => already⟩
  rw [ne_eq, not_not] at isWord
  by_cases isDialect : ∃ name, arg = "--dialect=" ++ name
  · obtain ⟨name, rfl⟩ := isDialect
    by_cases known : ∃ target : Target, name = target.name
    · obtain ⟨target, rfl⟩ := known
      exact .inl ⟨.dialect target, behind, rfl, trivial, nofun⟩
    · exact .inr ⟨_, .dialect (not_exists.mp known)⟩
  by_cases isIndent : ∃ text, arg = "--indent=" ++ text
  · obtain ⟨text, rfl⟩ := isIndent
    by_cases spelled : ∃ width, SpellsWidth text width
    · obtain ⟨width, spelled⟩ := spelled
      exact .inl ⟨.indent text width, behind, rfl, spelled, nofun⟩
    · exact .inr ⟨_, .indent (not_exists.mp spelled)⟩
  by_cases isSwitch : arg = "--no-preamble"
  · exact .inl ⟨.noPreamble, behind, by rw [isSwitch]; rfl, trivial, nofun⟩
  by_cases isOutput : arg = "-o" ∧ behind ≠ []
  · obtain ⟨rfl, more⟩ := isOutput
    obtain ⟨path, rest, rfl⟩ := List.exists_cons_of_ne_nil more
    exact .inl ⟨.output path, rest, rfl, trivial, nofun⟩
  · rw [not_and, not_not] at isOutput
    exact .inr ⟨_, .option isWord (not_exists.mp isDialect) (not_exists.mp isIndent) isSwitch
      isOutput⟩

/-- Arguments can be cut into groups that fit, at most one of them a word, up to where nothing is
left or an argument stands that no group begins with. -/
theorem exists_groups (before : List Group) (single : (words before).length ≤ 1)
    (args : List String) :
    ∃ groups rest, args = spelled groups ++ rest ∧ (∀ group ∈ groups, group.Fits) ∧
      (words (before ++ groups)).length ≤ 1 ∧
      (rest = [] ∨ ∃ arg behind error, rest = arg :: behind ∧
        Offends (words (before ++ groups) ≠ []) arg behind error) := by
  cases args with
  | nil => exact ⟨[], [], rfl, nofun, by rwa [List.append_nil], .inl rfl⟩
  | cons arg behind =>
    rcases exists_group (words before ≠ []) arg behind with
      ⟨group, rest, isArgs, fits, free⟩ | ⟨error, offends⟩
    · have stillSingle : (words (before ++ [group])).length ≤ 1 := by
        rw [words_concat, List.length_append]
        cases group with
        | word name =>
          rw [not_not.mp (free rfl)]
          exact Nat.le_refl 1
        | _ => exact single
      have shorter : rest.length < (arg :: behind).length := by
        rw [isArgs, List.length_append]
        cases group <;> simp [Group.args]
      obtain ⟨groups, left, isRest, fit, single, ends⟩ :=
        exists_groups (before ++ [group]) stillSingle rest
      rw [List.append_assoc, List.singleton_append] at single ends
      refine ⟨group :: groups, left, ?_, List.forall_mem_cons.mpr ⟨fits, fit⟩, single, ends⟩
      rw [isArgs, isRest, spelled, spelled, List.flatMap_cons, List.append_assoc]
    · refine ⟨[], arg :: behind, rfl, nofun, by rwa [List.append_nil], .inr ?_⟩
      rw [List.append_nil]
      exact ⟨arg, behind, error, rfl, offends⟩
termination_by args.length
decreasing_by exact shorter

/-- Arguments are groups with one word or none among them, or groups and behind them an argument
that no group begins with. -/
theorem exists_cut (args : List String) :
    (∃ groups demo, args = spelled groups ∧ (∀ group ∈ groups, group.Fits) ∧
      words groups = [demo]) ∨
    (∃ groups, args = spelled groups ∧ (∀ group ∈ groups, group.Fits) ∧ words groups = []) ∨
    ∃ groups arg behind error, args = spelled groups ++ arg :: behind ∧
      (∀ group ∈ groups, group.Fits) ∧ (words groups).length ≤ 1 ∧
      Offends (words groups ≠ []) arg behind error := by
  obtain ⟨groups, rest, rfl, fit, single, rfl | ⟨arg, behind, error, rfl, offends⟩⟩ :=
    exists_groups [] (Nat.zero_le 1) args
  · rw [List.nil_append] at single
    rw [List.append_nil]
    rcases isWords : words groups with _ | ⟨demo, _ | ⟨second, more⟩⟩
    · exact .inr (.inl ⟨groups, rfl, fit, isWords⟩)
    · exact .inl ⟨groups, demo, rfl, fit, isWords⟩
    · simp [isWords] at single
  · exact .inr (.inr ⟨groups, arg, behind, error, rfl, fit, single, offends⟩)

/-- Among groups with two words there is a first group that is a second word. -/
theorem exists_second {groups : List Group} {first second : String} {more : List String}
    (isWords : words groups = first :: second :: more) :
    ∃ before behind, groups = before ++ .word second :: behind ∧ words before = [first] := by
  obtain ⟨ahead, later, rfl, isFirst, isLater⟩ :=
    List.filterMap_eq_append_iff.mp (show words groups = [first] ++ second :: more from isWords)
  obtain ⟨between, group, behind, rfl, wordless, isSecond, -⟩ :=
    List.filterMap_eq_cons_iff.mp isLater
  refine ⟨ahead ++ between, behind, ?_, ?_⟩
  · cases group with
    | word name =>
      obtain rfl := Option.some.inj isSecond
      rw [List.append_assoc]
    | _ => cases isSecond
  · rw [words, List.filterMap_append, isFirst, List.filterMap_eq_nil_iff.mpr wordless,
      List.append_nil]

/-- Groups with an offending argument behind them fail with what that argument makes. -/
theorem ofArgs_offending {groups : List Group} {arg : String} {behind : List String}
    {error : CommandError} (fit : ∀ group ∈ groups, group.Fits) (single : (words groups).length ≤ 1)
    (offends : Offends (words groups ≠ []) arg behind error) :
    ofArgs (spelled groups ++ arg :: behind) = .error error := by
  rw [ofArgs, readFrom_spelled fit single, readFrom_offending offends]

/-- What groups that fit are read as depends on the words among them, and on what they say beside
these. -/
theorem ofArgs_spelled {groups : List Group} (fit : ∀ group ∈ groups, group.Fits) :
    ofArgs (spelled groups) =
      match words groups with
      | [] => .error .missingDemo
      | [demo] => .ok (ofGroups groups demo)
      | _ :: second :: _ => .error (.unexpectedArgument second) := by
  have readAll : (words groups).length ≤ 1 →
      ofArgs (spelled groups) = readFrom (.after groups) [] := by
    intro single
    have read := readFrom_spelled fit single []
    rwa [List.append_nil] at read
  rcases isWords : words groups with _ | ⟨first, _ | ⟨second, more⟩⟩
  · rw [readAll (by rw [isWords]; exact Nat.zero_le 1), readFrom, Reading.after, isWords]
    rfl
  · rw [readAll (by rw [isWords]; exact Nat.le_refl 1), readFrom, Reading.after, isWords]
    rfl
  · obtain ⟨before, behind, rfl, isFirst⟩ := exists_second isWords
    rw [List.forall_mem_append, List.forall_mem_cons] at fit
    have flat : spelled (before ++ .word second :: behind) =
        spelled before ++ second :: spelled behind := by
      rw [spelled, List.flatMap_append, List.flatMap_cons]
      rfl
    rw [flat]
    exact ofArgs_offending fit.1 (by rw [isFirst]; exact Nat.le_refl 1)
      (.word fit.2.1 (by rw [isFirst]; exact List.cons_ne_nil _ _))

/-- What groups of one topic say is said by those groups alone. -/
theorem filterMap_topic {α : Type} {said? : Group → Option α} (topic : Topic)
    (about : ∀ group, (said? group).isSome → group.topic = topic) (groups : List Group) :
    (groups.filter (·.topic = topic)).filterMap said? = groups.filterMap said? := by
  rw [List.filterMap_filter]
  congr 1
  funext group
  cases said : said? group with
  | none => simp
  | some value => rw [if_pos (by simpa using about group (by rw [said]; rfl))]

/-- Groups that agree on every topic say the same. -/
theorem said_congr {first second : List Group}
    (same : ∀ topic, first.filter (·.topic = topic) = second.filter (·.topic = topic)) :
    words first = words second ∧ ofGroups first = ofGroups second := by
  have alike : ∀ {α : Type} {said? : Group → Option α} (topic : Topic),
      (∀ group, (said? group).isSome → group.topic = topic) →
        first.filterMap said? = second.filterMap said? := by
    intro α said? topic about
    rw [← filterMap_topic topic about first, same, filterMap_topic topic about second]
  have demos : words first = words second :=
    alike .demo fun group => by cases group <;> simp [Group.word?, Group.topic]
  have targets : first.filterMap Group.target? = second.filterMap Group.target? :=
    alike .dialect fun group => by cases group <;> simp [Group.target?, Group.topic]
  have widths : first.filterMap Group.width? = second.filterMap Group.width? :=
    alike .indent fun group => by cases group <;> simp [Group.width?, Group.topic]
  have paths : first.filterMap Group.path? = second.filterMap Group.path? :=
    alike .output fun group => by cases group <;> simp [Group.path?, Group.topic]
  have switches : first.contains .noPreamble = second.contains .noPreamble := by
    have mem : ∀ groups : List Group, Group.noPreamble ∈ groups ↔
        .noPreamble ∈ groups.filter (·.topic = .preamble) := by
      intro groups
      simp [Group.topic]
    rw [Bool.eq_iff_iff, List.contains_iff_mem, List.contains_iff_mem, mem, same, ← mem]
  refine ⟨demos, ?_⟩
  funext demo
  rw [ofGroups, ofGroups, targets, widths, paths, switches]

/-- Groups fit if they agree on every topic with groups that do. -/
theorem fits_congr {first second : List Group} (fit : ∀ group ∈ first, group.Fits)
    (same : ∀ topic, first.filter (·.topic = topic) = second.filter (·.topic = topic)) :
    ∀ group ∈ second, group.Fits := by
  intro group isOne
  have isAbout : group ∈ second.filter (·.topic = group.topic) := by simpa using isOne
  rw [← same] at isAbout
  exact fit group (List.mem_of_mem_filter isAbout)

/-- The groups that say what there is to do, each topic once at most. -/
def canonical (args : EmitArgs) : List Group :=
  [.word args.demo, .dialect args.target,
    .indent (toString args.layout.indentWidth) args.layout.indentWidth] ++
  (if args.layout.preamble then [] else [.noPreamble]) ++ (args.output.map .output).toList

/-- A width is spelled by its decimal text. -/
theorem spellsWidth_toString {width : Nat} (small : width < UInt64.size) :
    SpellsWidth (toString width) width := by
  refine ⟨[], Nat.toDigits 10 width, ?_, .inl rfl, Nat.toDigits_ne_nil, ?_, ?_, small⟩
  · rw [Nat.toString_eq_repr, Nat.toList_repr, List.nil_append]
  · exact fun c isDigit => Nat.isDigit_of_mem_toDigits (by decide) (by decide) isDigit
  · exact Nat.ofDigitChars_toDigits (by decide) (by decide)

/-- The groups of what there is to do fit. -/
theorem fits_canonical {args : EmitArgs} (small : args.layout.indentWidth < UInt64.size)
    (isWord : args.demo.toList.head? ≠ some '-') : ∀ group ∈ canonical args, group.Fits := by
  intro group isOne
  simp only [canonical, List.cons_append, List.nil_append, List.mem_cons, List.mem_append,
    Option.mem_toList, Option.map_eq_some_iff] at isOne
  rcases isOne with rfl | rfl | rfl | isSwitch | ⟨path, -, rfl⟩
  · exact isWord
  · trivial
  · exact spellsWidth_toString small
  · split at isSwitch
    case isTrue => cases isSwitch
    case isFalse =>
      rw [List.mem_singleton.mp isSwitch]
      trivial
  · trivial

/-- A list of one element at most has no other order. -/
theorem eq_of_perm {α : Type} {list other : List α} (perm : list.Perm other)
    (single : other.length ≤ 1) : list = other := by
  rcases other with _ | ⟨first, _ | ⟨second, rest⟩⟩
  · exact List.perm_nil.mp perm
  · exact List.perm_singleton.mp perm
  · simp at single

/-- What there is to do is said by its groups in any order. -/
theorem said_of_perm {args : EmitArgs} (newline : args.layout.trailingNewline)
    {groups : List Group} (perm : groups.Perm (canonical args)) :
    words groups = [args.demo] ∧ ofGroups groups args.demo = args := by
  obtain ⟨demo, target, ⟨width, preamble, isLast⟩, output⟩ := args
  obtain rfl : isLast = true := newline
  have single : ∀ topic, ((canonical ⟨demo, target, ⟨width, preamble, true⟩, output⟩).filter
      (·.topic = topic)).length ≤ 1 := by
    intro topic
    cases preamble <;> cases output <;> cases topic <;> simp [canonical, Group.topic]
  obtain ⟨sameWords, sameRest⟩ :=
    said_congr fun topic => eq_of_perm (perm.filter _) (single topic)
  rw [sameWords, sameRest]
  cases preamble <;> cases output <;> exact ⟨rfl, rfl⟩

/-- Arguments are read without a failure if they can be cut into groups with one word among them,
and then as these groups say. Else they fail with what the leftmost argument makes that no group
begins with; only for groups without a word it is that there is none. The order of groups of
different topics does not matter, and whatever there is to do with a newline at the end is what its
groups are read as in any order. -/
theorem ofArgs_grammar :
    (∀ args result, ofArgs args = .ok result ↔
      ∃ groups demo, args = spelled groups ∧ (∀ group ∈ groups, group.Fits) ∧
        words groups = [demo] ∧ result = ofGroups groups demo) ∧
    (∀ args error, ofArgs args = .error error ↔
      (∃ groups, args = spelled groups ∧ (∀ group ∈ groups, group.Fits) ∧ words groups = [] ∧
        error = .missingDemo) ∨
      ∃ groups arg behind, args = spelled groups ++ arg :: behind ∧
        (∀ group ∈ groups, group.Fits) ∧ (words groups).length ≤ 1 ∧
        Offends (words groups ≠ []) arg behind error) ∧
    (∀ first second, (∀ group ∈ first, group.Fits) →
      (∀ topic, first.filter (·.topic = topic) = second.filter (·.topic = topic)) →
        ofArgs (spelled first) = ofArgs (spelled second)) ∧
    ∀ args : EmitArgs, args.layout.trailingNewline → args.layout.indentWidth < UInt64.size →
      args.demo.toList.head? ≠ some '-' → ∀ groups, groups.Perm (canonical args) →
        ofArgs (spelled groups) = .ok args := by
  refine ⟨?_, ?_, ?_, ?_⟩
  · intro args result
    constructor
    · intro read
      rcases exists_cut args with ⟨groups, demo, rfl, fit, isDemo⟩ | ⟨groups, rfl, fit, wordless⟩ |
        ⟨groups, arg, behind, error, rfl, fit, single, offends⟩
      · rw [ofArgs_spelled fit, isDemo] at read
        exact ⟨groups, demo, rfl, fit, isDemo, (Except.ok.inj read).symm⟩
      · rw [ofArgs_spelled fit, wordless] at read
        cases read
      · rw [ofArgs_offending fit single offends] at read
        cases read
    · rintro ⟨groups, demo, rfl, fit, isDemo, rfl⟩
      rw [ofArgs_spelled fit, isDemo]
  · intro args error
    constructor
    · intro failed
      rcases exists_cut args with ⟨groups, demo, rfl, fit, isDemo⟩ | ⟨groups, rfl, fit, wordless⟩ |
        ⟨groups, arg, behind, error, rfl, fit, single, offends⟩
      · rw [ofArgs_spelled fit, isDemo] at failed
        cases failed
      · rw [ofArgs_spelled fit, wordless] at failed
        exact .inl ⟨groups, rfl, fit, wordless, (Except.error.inj failed).symm⟩
      · rw [ofArgs_offending fit single offends] at failed
        obtain rfl := Except.error.inj failed
        exact .inr ⟨groups, arg, behind, rfl, fit, single, offends⟩
    · rintro (⟨groups, rfl, fit, wordless, rfl⟩ | ⟨groups, arg, behind, rfl, fit, single, offends⟩)
      · rw [ofArgs_spelled fit, wordless]
      · exact ofArgs_offending fit single offends
  · intro first second fit same
    obtain ⟨sameWords, sameRest⟩ := said_congr same
    rw [ofArgs_spelled fit, ofArgs_spelled (fits_congr fit same), sameWords, sameRest]
  · intro args newline small isWord groups perm
    have fit : ∀ group ∈ groups, group.Fits := fun group isOne =>
      fits_canonical small isWord group (perm.mem_iff.mp isOne)
    obtain ⟨isDemo, isArgs⟩ := said_of_perm newline perm
    rw [ofArgs_spelled fit, isDemo]
    simp only [isArgs]

/-- Five topics in another order than they are listed in, with a path that looks like an option. -/
theorem ofArgs_grammar_shuffled :
    ofArgs ["--no-preamble", "-o", "-o", "--indent=2", "blur", "--dialect=hlsl"] =
      .ok ⟨"blur", .hlsl, ⟨2, false, true⟩, some "-o"⟩ :=
  ofArgs_grammar.2.2.2 ⟨"blur", .hlsl, ⟨2, false, true⟩, some "-o"⟩ rfl (by decide) (by decide)
    [.noPreamble, .output "-o", .indent "2" 2, .word "blur", .dialect .hlsl] (by decide)

end EmitArgs

end ShaderLoom
