import ShaderLoom.Dialect.Standard
import ShaderLoom.Proofs.Lexing
import ShaderLoom.Proofs.Numbering
import ShaderLoom.Proofs.Rendering
import ShaderLoom.Proofs.Yields

/-!
# What texts hold

A ban names characters that no text may hold, and further ones that none may start with
(`Ban.Allows`). If the names a shader speaks of are allowed and the dialect adds nothing that is not
(`Dialect.Spells`), then so is every text that is worked out for it: of names, of expressions, of
declarations, headers of loops and parameters.

Two bans are of use: `Ban.lines` keeps texts on one line, and `Ban.layout` keeps braces out of them
too and blanks from their start.
-/
namespace ShaderLoom

/-- Characters that texts may not hold, or not start with. -/
structure Ban where
  /-- What no text may start with. -/
  first : List Char
  /-- What no text may hold. -/
  inside : List Char
  inside_subset : inside ⊆ first
  first_subset : first ⊆ [' ', '\n', '\x7b', '\x7d']
  blank_not_mem : ' ' ∉ inside

namespace Ban

/-- No newlines. -/
def lines : Ban where
  first := ['\n']
  inside := ['\n']
  inside_subset := List.Subset.refl _
  first_subset := by decide
  blank_not_mem := by decide

/-- No newlines and braces, and no blank at the start. -/
def layout : Ban where
  first := [' ', '\n', '\x7b', '\x7d']
  inside := ['\n', '\x7b', '\x7d']
  inside_subset := by decide
  first_subset := List.Subset.refl _
  blank_not_mem := by decide

/-- Whether a text holds nothing banned. -/
def Free (ban : Ban) (text : String) : Prop := ∀ c ∈ text.toList, c ∉ ban.inside

/-- Whether a text starts with something, which is not banned there, and holds nothing banned. -/
def Allows (ban : Ban) (text : String) : Prop :=
  (∃ c ∈ text.toList.head?, c ∉ ban.first) ∧ ban.Free text

variable {ban : Ban} {text more : String}

/-- What a text is put together from holds nothing banned. -/
@[simp]
theorem free_append : ban.Free (text ++ more) ↔ ban.Free text ∧ ban.Free more := by
  simp [Free, or_imp, forall_and]

/-- An allowed text can be continued. -/
theorem Allows.append (allowed : ban.Allows text) (free : ban.Free more) :
    ban.Allows (text ++ more) := by
  obtain ⟨⟨c, isFirst, isFine⟩, freeText⟩ := allowed
  refine ⟨⟨c, ?_, isFine⟩, free_append.mpr ⟨freeText, free⟩⟩
  rw [String.toList_append, List.head?_append, isFirst]
  rfl

/-- A text that can stand before a blank can stand before anything allowed, also if it is empty. -/
theorem Allows.before (spaced : ban.Allows (text ++ " ")) (allowed : ban.Allows more) :
    ban.Allows (text ++ more) := by
  obtain ⟨⟨c, isFirst, isFine⟩, free⟩ := spaced
  have freeText := (free_append.mp free).1
  cases spelled : text.toList with
  | nil =>
    have isEmpty : text = "" := String.toList_eq_nil_iff.mp spelled
    rwa [isEmpty, String.empty_append]
  | cons d rest =>
    rw [String.toList_append, spelled, List.cons_append, List.head?_cons] at isFirst
    refine ⟨⟨c, ?_, isFine⟩, free_append.mpr ⟨freeText, allowed.2⟩⟩
    rw [String.toList_append, spelled, List.cons_append, List.head?_cons]
    exact isFirst

/-- A text is allowed if there is something in it and nothing that may not stand at the start. -/
theorem allows_of_first (some : text ≠ "") (none : ∀ c ∈ text.toList, c ∉ ban.first) :
    ban.Allows text := by
  refine ⟨?_, fun c mem isBanned => none c mem (ban.inside_subset isBanned)⟩
  cases spelled : text.toList with
  | nil => exact absurd (String.toList_eq_nil_iff.mp spelled) some
  | cons first rest =>
    refine ⟨first, rfl, none first ?_⟩
    rw [spelled]
    exact List.mem_cons_self

/-- Whether a text holds neither newlines nor braces. -/
def isPlain (text : String) : Bool :=
  text.toList.all fun c => c != '\n' && c != '\x7b' && c != '\x7d'

/-- Of what a plain text holds only blanks can be banned. -/
theorem eq_blank_of_isPlain (plain : isPlain text) {c : Char} (mem : c ∈ text.toList)
    (isBanned : c ∈ ban.first) : c = ' ' := by
  have fine := List.all_eq_true.mp plain c mem
  have among := ban.first_subset isBanned
  simp only [Bool.and_eq_true, bne_iff_ne] at fine
  simp only [List.mem_cons, List.not_mem_nil, or_false] at among
  obtain isBlank | isNewline | isOpening | isClosing := among
  · exact isBlank
  · exact absurd isNewline fine.1.1
  · exact absurd isOpening fine.1.2
  · exact absurd isClosing fine.2

/-- A plain text holds nothing that a ban can name. -/
theorem free_of_isPlain (ban : Ban) (plain : isPlain text) : ban.Free text := by
  intro c mem isBanned
  obtain rfl := eq_blank_of_isPlain plain mem (ban.inside_subset isBanned)
  exact ban.blank_not_mem isBanned

/-- Whether a text holds neither newlines nor braces, and does not start with a blank. -/
def isProper (text : String) : Bool := isPlain text && text.toList.head?.any (· != ' ')

/-- A proper text is allowed by every ban. -/
theorem allows_of_isProper (ban : Ban) (proper : isProper text) : ban.Allows text := by
  obtain ⟨plain, starts⟩ := Bool.and_eq_true_iff.mp proper
  refine ⟨?_, ban.free_of_isPlain plain⟩
  obtain ⟨c, isFirst, noBlank⟩ := (Option.any_eq_true _ _).mp starts
  refine ⟨c, isFirst, fun isBanned => ?_⟩
  rw [eq_blank_of_isPlain plain (List.mem_of_mem_head? isFirst) isBanned] at noBlank
  cases noBlank

/-- What is made of the characters of words is plain. -/
theorem isPlain_of_isWordPart (parts : ∀ c ∈ text.toList, isWordPart c) : isPlain text := by
  apply List.all_eq_true.mpr
  intro c mem
  have part := parts c mem
  simp only [Bool.and_eq_true, bne_iff_ne]
  refine ⟨⟨?_, ?_⟩, ?_⟩ <;> rintro rfl <;> exact absurd part (by decide)

/-- A number is allowed. -/
theorem allows_toString (ban : Ban) (n : Nat) : ban.Allows (toString n) := by
  have digits : ∀ c ∈ (toString n).toList, isWordPart c := fun c mem =>
    isWordPart_of_isDigit (isDigit_of_mem_toString mem)
  refine ban.allows_of_isProper (Bool.and_eq_true_iff.mpr ⟨isPlain_of_isWordPart digits, ?_⟩)
  generalize spelled : (toString n).toList = chars at digits
  cases chars with
  | nil =>
    rw [Nat.toString_eq_repr, Nat.toList_repr] at spelled
    exact absurd spelled Nat.toDigits_ne_nil
  | cons c rest =>
    have part := digits c List.mem_cons_self
    simp only [List.head?_cons, Option.any_some, bne_iff_ne]
    rintro rfl
    exact absurd part (by decide)

/-- Texts with commas between them hold nothing banned if none of them does. -/
theorem free_intercalate {texts : List String} (each : ∀ text ∈ texts, ban.Free text) :
    ban.Free (", ".intercalate texts) := by
  induction texts with
  | nil => exact ban.free_of_isPlain (by decide)
  | cons text texts ih =>
    rw [List.forall_mem_cons] at each
    by_cases isLast : texts = []
    · rw [isLast, String.intercalate_singleton]
      exact each.1
    · rw [String.intercalate_cons_of_ne_nil isLast]
      exact free_append.mpr ⟨free_append.mpr ⟨each.1, ban.free_of_isPlain (by decide)⟩, ih each.2⟩

/-- Texts with commas between them are allowed if there is one and each is. -/
theorem allows_intercalate {texts : List String} (some : texts ≠ [])
    (each : ∀ text ∈ texts, ban.Allows text) : ban.Allows (", ".intercalate texts) := by
  have free := free_intercalate fun text mem => (each text mem).2
  cases texts with
  | nil => exact absurd rfl some
  | cons text texts =>
    rw [List.forall_mem_cons] at each
    by_cases isLast : texts = []
    · rw [isLast, String.intercalate_singleton]
      exact each.1
    · rw [String.intercalate_cons_of_ne_nil isLast, String.append_assoc] at free ⊢
      exact each.1.append (free_append.mp free).2

end Ban

/-- The names of structs in a type. -/
def Ty.names : Ty → List String
  | .array elem _ => elem.names
  | .struct name => [name]
  | _ => []

namespace Expr

mutual

/-- The names that stand in an expression: of structs, of members and of provided functions. -/
def names : Expr → List String
  | .literal _ => []
  | .ref _ => []
  | .construct made args => made.ty.names ++ namesOf args
  | .binary _ lhs rhs => names lhs ++ names rhs
  | .unary _ _ operand => names operand
  | .ternary condition yes no => names condition ++ names yes ++ names no
  | .subscript object index => names object ++ names index
  | .member object name => name :: names object
  | .swizzle object _ => names object
  | .call (.builtin name) args => name :: namesOf args
  | .call (.function _) args => namesOf args

/-- The names that stand in a list of expressions. -/
def namesOf : List Expr → List String
  | [] => []
  | expr :: rest => names expr ++ namesOf rest

end

/-- Those of a list are those of its expressions. -/
theorem namesOf_eq (exprs : List Expr) : namesOf exprs = exprs.flatMap names := by
  induction exprs with
  | nil => rfl
  | cons expr rest ih => rw [namesOf, ih, List.flatMap_cons]

end Expr

/-- The names that a member of a struct or an interface block has in it. -/
def Field.names (field : Field) : List String := field.name :: field.ty.names

namespace Instruction

/-- The names that stand in an instruction outside its expressions. -/
def ownNames : Instruction → List String
  | .ret _ mismatch =>
    mismatch.toList.flatMap fun mismatch => mismatch.expected.names ++ mismatch.found.names
  | .function decl => decl.name :: decl.returns.names
  | .struct decl => decl.name :: decl.fields.flatMap Field.names
  | .interface decl => decl.name :: decl.fields.flatMap Field.names
  | _ => []

/-- The names that stand in an instruction. -/
def names (instr : Instruction) : List String := instr.exprs.flatMap Expr.names ++ instr.ownNames

end Instruction

/-- The names that a shader speaks of: those that variables were given and those in its
instructions. -/
def Shader.names (shader : Shader) : List String :=
  shader.givenNames ++ shader.tree.instructions.flatMap Instruction.names

/-- Whether a dialect adds nothing banned. What can stand at the start of a text must be allowed
before a blank, so that it may be empty only if blanks may start a text. -/
structure Dialect.Spells (dialect : Dialect) (ban : Ban) : Prop where
  binarySymbol : ∀ op, ban.Free (dialect.binarySymbol op)
  unarySymbol : ∀ op, ban.Allows (dialect.unarySymbol op ++ " ")
  typeName : ∀ ty : Ty, (∀ name ∈ ty.names, ban.Allows name) →
    ban.Allows (dialect.typeName ty ++ " ")
  declarator : ∀ (ty : Ty) (name : String), (∀ name ∈ ty.names, ban.Allows name) →
    ban.Free name → ban.Allows (dialect.declarator ty name)
  qualifier : ∀ qualifier, ban.Allows (dialect.qualifier qualifier ++ " ")
  literal : ∀ value, ban.Allows (dialect.literal value)
  special : ∀ stmt, (∀ text, stmt ≠ .vendor text) → ban.Allows (dialect.special stmt ++ " ")
  builtin : ∀ name, ban.Allows name → ban.Allows (dialect.builtin name ++ " ")

namespace Ban

variable {ban : Ban}

/-- A decimal is allowed. -/
theorem allows_decimal (ban : Ban) (decimal : Decimal) : ban.Allows decimal.text := by
  unfold Decimal.text padded
  refine ((ban.allows_toString _).append (ban.free_of_isPlain (by decide))).append ?_
  refine free_append.mpr ⟨ban.free_of_isPlain ?_, (ban.allows_toString _).2⟩
  simp [isPlain]

/-- A floating-point pattern is allowed. -/
theorem allows_float (ban : Ban) (value : Binary64) : ban.Allows value.text := by
  unfold Binary64.text
  split
  · exact ban.allows_of_isProper (by decide)
  · split
    · split
      · exact (ban.allows_of_isProper (by decide)).append (ban.allows_decimal _).2
      · rw [String.empty_append]
        exact ban.allows_decimal _
    · split
      · exact ban.allows_of_isProper (by decide)
      · exact ban.allows_of_isProper (by decide)

/-- A literal as it is commonly written is allowed. -/
theorem allows_literal {suffix : String} (free : ban.Free suffix) (value : Literal) :
    ban.Allows (value.text suffix) := by
  cases value with
  | bool value =>
    rw [Literal.text]
    split
    · exact ban.allows_of_isProper (by decide)
    · exact ban.allows_of_isProper (by decide)
  | int value =>
    cases value with
    | ofNat n => exact ban.allows_toString n
    | negSucc n =>
      show ban.Allows ("-" ++ toString (n + 1))
      exact (ban.allows_of_isProper (by decide)).append (ban.allows_toString _).2
  | uint value => exact (ban.allows_toString value).append (ban.free_of_isPlain (by decide))
  | float value => exact ban.allows_float value
  | double value =>
    refine (ban.allows_float value).append ?_
    split
    · exact free
    · exact ban.free_of_isPlain (by decide)

/-- The brackets of an array hold nothing banned. -/
theorem free_extent (ban : Ban) (length : Option Nat) : ban.Free (extent length) := by
  cases length with
  | none => exact ban.free_of_isPlain (by decide)
  | some length =>
    exact free_append.mpr ⟨free_append.mpr
      ⟨ban.free_of_isPlain (by decide), (ban.allows_toString length).2⟩,
      ban.free_of_isPlain (by decide)⟩

/-- A declared name with its type, as it is commonly written, is allowed. -/
theorem allows_declarator {typeName : Ty → String}
    (typeNames : ∀ ty : Ty, (∀ name ∈ ty.names, ban.Allows name) → ban.Allows (typeName ty ++ " "))
    {ty : Ty} {name : String} (tyNames : ∀ name ∈ ty.names, ban.Allows name)
    (free : ban.Free name) : ban.Allows (ty.declarator typeName name) := by
  cases ty with
  | array elem length =>
    exact ((typeNames elem tyNames).append free).append (ban.free_extent length)
  | _ => exact (typeNames _ tyNames).append free

/-- A keyword statement as it is commonly written is allowed. -/
theorem allows_special (ban : Ban) {stmt : Special} (keyword : ∀ text, stmt ≠ .vendor text) :
    ban.Allows (stmt.text ++ " ") := by
  cases stmt with
  | vendor text => exact absurd rfl (keyword text)
  | _ => exact ban.allows_of_isProper (by decide)

end Ban

/-- A GLSL name of a type is allowed if the names of structs in it are. -/
theorem allows_glslName {ban : Ban} {ty : Ty} (allowed : ∀ name ∈ ty.names, ban.Allows name) :
    ban.Allows ty.glslName := by
  induction ty with
  | void => exact ban.allows_of_isProper (by decide)
  | scalar kind => cases kind <;> exact ban.allows_of_isProper (by decide)
  | vector kind size =>
    refine Ban.Allows.append ?_ (ban.allows_toString size).2
    cases kind <;> exact ban.allows_of_isProper (by decide)
  | matrix kind cols rows =>
    refine Ban.Allows.append (Ban.Allows.append ?_ (ban.allows_toString cols).2) ?_
    · cases kind <;> exact ban.allows_of_isProper (by decide)
    · split
      · exact ban.free_of_isPlain (by decide)
      · exact Ban.free_append.mpr ⟨ban.free_of_isPlain (by decide), (ban.allows_toString rows).2⟩
  | sampler dim => cases dim <;> exact ban.allows_of_isProper (by decide)
  | array elem length ih => exact (ih allowed).append (ban.free_extent length)
  | struct name => exact allowed name List.mem_cons_self

/-- An HLSL name of a type is allowed if the names of structs in it are. -/
theorem allows_hlslName {ban : Ban} {ty : Ty} (allowed : ∀ name ∈ ty.names, ban.Allows name) :
    ban.Allows ty.hlslName := by
  have keyword : ∀ kind : Scalar, ban.Allows kind.keyword := by
    intro kind
    cases kind <;> exact ban.allows_of_isProper (by decide)
  induction ty with
  | void => exact ban.allows_of_isProper (by decide)
  | scalar kind => exact keyword kind
  | vector kind size => exact (keyword kind).append (ban.allows_toString size).2
  | matrix kind cols rows =>
    refine Ban.Allows.append (Ban.Allows.append ((keyword kind).append ?_) ?_) ?_
    · exact (ban.allows_toString rows).2
    · exact ban.free_of_isPlain (by decide)
    · exact (ban.allows_toString cols).2
  | sampler dim => cases dim <;> exact ban.allows_of_isProper (by decide)
  | array elem length ih => exact (ih allowed).append (ban.free_extent length)
  | struct name => exact allowed name List.mem_cons_self

/-- A GLSL name of a type is allowed before a blank. -/
theorem allows_glslName_blank {ban : Ban} (ty : Ty) (allowed : ∀ name ∈ ty.names, ban.Allows name) :
    ban.Allows (ty.glslName ++ " ") :=
  (allows_glslName allowed).append (ban.free_of_isPlain (by decide))

/-- An HLSL name of a type is allowed before a blank. -/
theorem allows_hlslName_blank {ban : Ban} (ty : Ty) (allowed : ∀ name ∈ ty.names, ban.Allows name) :
    ban.Allows (ty.hlslName ++ " ") :=
  (allows_hlslName allowed).append (ban.free_of_isPlain (by decide))

/-- GLSL adds nothing banned. -/
theorem spells_glsl (ban : Ban) : Dialect.glsl.Spells ban where
  binarySymbol op := by cases op <;> exact ban.free_of_isPlain (by decide)
  unarySymbol op := by cases op <;> exact ban.allows_of_isProper (by decide)
  typeName := allows_glslName_blank
  declarator _ _ := Ban.allows_declarator allows_glslName_blank
  qualifier qualifier := by cases qualifier <;> exact ban.allows_of_isProper (by decide)
  literal := Ban.allows_literal (ban.free_of_isPlain (by decide))
  special _ := ban.allows_special
  builtin name allowed := allowed.append (ban.free_of_isPlain (by decide))

/-- HLSL adds nothing banned. -/
theorem spells_hlsl (ban : Ban) : Dialect.hlsl.Spells ban where
  binarySymbol op := by cases op <;> exact ban.free_of_isPlain (by decide)
  unarySymbol op := by cases op <;> exact ban.allows_of_isProper (by decide)
  typeName := allows_hlslName_blank
  declarator _ _ := Ban.allows_declarator allows_hlslName_blank
  qualifier qualifier := by cases qualifier <;> exact ban.allows_of_isProper (by decide)
  literal := Ban.allows_literal (ban.free_of_isPlain (by decide))
  special _ := ban.allows_special
  builtin name allowed := by
    refine Ban.Allows.append ?_ (ban.free_of_isPlain (by decide))
    show ban.Allows (hlslBuiltin name)
    unfold hlslBuiltin
    split
    case h_7 => exact allowed
    all_goals exact ban.allows_of_isProper (by decide)

/-- Whether what a reference is written as is an allowed name, or a value that holds only such. -/
def Ban.Binds (ban : Ban) : Binding → Prop
  | .named name => ban.Allows name
  | .inlined value => ∀ name ∈ value.names, ban.Allows name

/-- Whether every name handed out so far is allowed. -/
def Ban.Fit (ban : Ban) (names : Names) : Prop := ∀ entry ∈ names.handed, ban.Allows entry.2

/-- An automatic name is allowed. -/
theorem Ban.allows_nameAt (ban : Ban) (category : Category) (number : Nat) :
    ban.Allows (category.nameAt number) := by
  refine Ban.Allows.append ?_ (ban.allows_toString number).2
  cases category <;> exact ban.allows_of_isProper (by decide)

namespace Shader

variable {shader : Shader} {dialect : Dialect} {ban : Ban}

/-- Whether every name that a shader speaks of is allowed. -/
def Speaks (shader : Shader) (ban : Ban) : Prop := ∀ name ∈ shader.names, ban.Allows name

/-- The names in the instructions are allowed. -/
theorem Speaks.instr (speaks : shader.Speaks ban) {instr : Instruction}
    (isInstr : instr ∈ shader.tree.instructions) : ∀ name ∈ instr.names, ban.Allows name := by
  intro name isName
  apply speaks
  exact List.mem_append_right _ (List.mem_flatMap.mpr ⟨instr, isInstr, isName⟩)

/-- The names in the expressions of the instructions are allowed. -/
theorem Speaks.expr (speaks : shader.Speaks ban) {instr : Instruction}
    (isInstr : instr ∈ shader.tree.instructions) {expr : Expr} (isExpr : expr ∈ instr.exprs) :
    ∀ name ∈ expr.names, ban.Allows name := by
  intro name isName
  apply speaks.instr isInstr
  exact List.mem_append_left _ (List.mem_flatMap.mpr ⟨expr, isExpr, isName⟩)

/-- The name of a variable is allowed. -/
theorem Speaks.nameOf (speaks : shader.Speaks ban) (id : VarId) :
    Yields ban.Fit (shader.nameOf id) ban.Allows := by
  refine Yields.get fun names fit => ?_
  cases found : names.lookup id with
  | some name =>
    obtain ⟨before, after, isHanded, -⟩ := List.lookup_eq_some_iff.mp found
    exact .pure (fit (id, name) (by simp [isHanded]))
  | none =>
    cases known : shader.var? id with
    | none => exact .throw _
    | some record =>
      have allowed : ban.Allows (names.assign id record).1 := by
        rw [Names.assign_name]
        cases isGiven : record.name with
        | some name =>
          exact speaks name (List.mem_append_left _ (mem_givenNames known isGiven))
        | none =>
          obtain ⟨number, -, -, -, isFresh⟩ := names.exists_fresh record.category
          rw [Option.getD_none, isFresh]
          exact ban.allows_nameAt record.category number
      have fitAfter : ban.Fit (names.assign id record).2 := by
        rw [Ban.Fit, Names.handed_assign]
        exact List.forall_mem_cons.mpr ⟨allowed, fit⟩
      exact (Yields.set fitAfter).bind fun _ _ => .pure allowed

/-- What a reference is written as is an allowed name or holds only such. -/
theorem Speaks.binding (speaks : shader.Speaks ban) (id : VarId) :
    Yields ban.Fit (shader.binding id) ban.Binds := by
  unfold Shader.binding
  cases (shader.var? id).isNone with
  | true => exact .throw _
  | false =>
    cases isInlined : shader.inlined? id with
    | none => exact (speaks.nameOf id).map fun _ allowed => allowed
    | some value =>
      have isValue : shader.constructionOf? id = some value := by
        unfold inlined? at isInlined
        split at isInlined
        · exact isInlined
        · cases isInlined
      have isStatement := (statement_of_constructionOf? isValue).1
      have allowed : ban.Binds (.inlined value) := speaks.expr isStatement List.mem_cons_self
      exact .pure allowed

section Exprs

variable {rank : Expr → Naming Rank} {deep : Expr → Naming String}

/-- Ranks can be asked for. -/
theorem Speaks.rankWith (speaks : shader.Speaks ban)
    (ranks : ∀ expr, Yields ban.Fit (rank expr) fun _ => True) (expr : Expr) :
    Yields ban.Fit (shader.rankWith dialect rank expr) fun _ => True := by
  induction expr using Expr.induct with
  | ref id =>
    simp only [Shader.rankWith]
    refine (speaks.binding id).bind fun binding _ => ?_
    cases binding with
    | named name => exact .pure trivial
    | inlined value => exact ranks value
  | construct made args inner =>
    rcases args with _ | ⟨only, _ | ⟨second, rest⟩⟩
    · exact .pure trivial
    · rw [List.forall_mem_singleton] at inner
      simp only [Shader.rankWith]
      split
      · exact .pure trivial
      · exact inner
    · exact .pure trivial
  | _ => simp only [Shader.rankWith]; exact .pure trivial

/-- With values inlined to a depth, ranks can be asked for. -/
theorem Speaks.rankWithin (speaks : shader.Speaks ban) (depth : Nat) (expr : Expr) :
    Yields ban.Fit (shader.rankWithin dialect depth expr) fun _ => True := by
  induction depth generalizing expr with
  | zero => exact .throw _
  | succ depth ih => exact speaks.rankWith ih expr

/-- An operand is allowed if its text is. -/
theorem Speaks.operand (speaks : shader.Speaks ban)
    (ranks : ∀ expr, Yields ban.Fit (rank expr) fun _ => True) {expr : Expr} {parent : Rank}
    {wrapTies : Bool}
    (text : Yields ban.Fit (shader.writeWith dialect deep rank expr) ban.Allows) :
    Yields ban.Fit (enclosed parent wrapTies (shader.rankWith dialect rank expr)
      (shader.writeWith dialect deep rank expr)) ban.Allows := by
  refine yields_enclosed (speaks.rankWith ranks expr) text (fun _ allowed => allowed) ?_
  intro text allowed
  exact ((ban.allows_of_isProper (by decide)).append allowed.2).append
    (ban.free_of_isPlain (by decide))

/-- Arguments are allowed, as many as there are. -/
theorem Speaks.writeArgs (speaks : shader.Speaks ban)
    (ranks : ∀ expr, Yields ban.Fit (rank expr) fun _ => True) {args : List Expr}
    (each : ∀ arg ∈ args, Yields ban.Fit (shader.writeWith dialect deep rank arg) ban.Allows) :
    Yields ban.Fit (shader.writeArgs dialect deep rank args) fun texts =>
      texts.length = args.length ∧ ∀ text ∈ texts, ban.Allows text := by
  induction args with
  | nil =>
    simp only [Shader.writeArgs]
    exact .pure ⟨rfl, by simp⟩
  | cons arg rest ih =>
    rw [List.forall_mem_cons] at each
    simp only [Shader.writeArgs]
    refine (speaks.operand ranks each.1).bind fun text allowed => ?_
    refine (ih each.2).bind fun texts all => ?_
    exact .pure ⟨congrArg (· + 1) all.1, List.forall_mem_cons.mpr ⟨allowed, all.2⟩⟩

/-- A construction is allowed if its arguments and the names in its type are. -/
theorem Speaks.construct (speaks : shader.Speaks ban) (spells : dialect.Spells ban)
    (ranks : ∀ expr, Yields ban.Fit (rank expr) fun _ => True) {made : Construction}
    {args : List Expr} (tyNames : ∀ name ∈ made.ty.names, ban.Allows name)
    (each : ∀ arg ∈ args, Yields ban.Fit (shader.writeWith dialect deep rank arg) ban.Allows) :
    Yields ban.Fit (shader.writeWith dialect deep rank (.construct made args)) ban.Allows := by
  have all := speaks.writeArgs ranks each
  have typed : ∀ {text : String}, ban.Allows text →
      ban.Allows ((if made.flags.displayType then dialect.typeName made.ty else "") ++ text) := by
    intro text allowed
    split
    · exact (spells.typeName made.ty tyNames).before allowed
    · rwa [String.empty_append]
  have wrapped : ∀ {text : String}, ban.Free text → ban.Allows
      ((if made.flags.displayType then dialect.typeName made.ty else "") ++ "(" ++ text ++ ")") := by
    intro text free
    have opened := typed (ban.allows_of_isProper (by decide : Ban.isProper "(" = true))
    exact (opened.append free).append (ban.free_of_isPlain (by decide))
  match args with
  | [only] =>
    rw [List.forall_mem_singleton] at each
    simp only [Shader.writeWith]
    split
    · exact each
    · split
      · exact (speaks.operand ranks each).bind fun _ allowed => .pure (wrapped allowed.2)
      · exact each.bind fun _ allowed => .pure (typed allowed)
  | [] =>
    simp only [Shader.writeWith]
    split
    · exact all.bind fun _ allowed => .pure (wrapped (Ban.free_intercalate fun text isText =>
        (allowed.2 text isText).2))
    · exact .throw _
  | _ :: _ :: _ =>
    simp only [Shader.writeWith]
    split
    · exact all.bind fun _ allowed => .pure (wrapped (Ban.free_intercalate fun text isText =>
        (allowed.2 text isText).2))
    · split
      · exact .throw _
      · refine all.bind fun texts allowed => .pure (typed (Ban.allows_intercalate ?_ allowed.2))
        rintro rfl
        cases allowed.1

/-- The text of an expression is allowed if the names in it are, and the texts of values that it
refers to. -/
theorem Speaks.writeWith (speaks : shader.Speaks ban) (spells : dialect.Spells ban)
    (ranks : ∀ expr, Yields ban.Fit (rank expr) fun _ => True)
    (texts : ∀ expr, (∀ name ∈ expr.names, ban.Allows name) →
      Yields ban.Fit (deep expr) ban.Allows) (expr : Expr)
    (names : ∀ name ∈ expr.names, ban.Allows name) :
    Yields ban.Fit (shader.writeWith dialect deep rank expr) ban.Allows := by
  have plain : ∀ {text : String}, Ban.isPlain text → ban.Free text := ban.free_of_isPlain
  induction expr using Expr.induct with
  | literal value =>
    simp only [Shader.writeWith]
    exact .pure (spells.literal value)
  | ref id =>
    simp only [Shader.writeWith]
    refine (speaks.binding id).bind fun binding allowed => ?_
    cases binding with
    | named name => exact .pure allowed
    | inlined value => exact texts value allowed
  | construct made args inner =>
    rw [Expr.names, Expr.namesOf_eq, List.forall_mem_append] at names
    refine speaks.construct spells ranks names.1 fun arg isArg => inner arg isArg ?_
    exact fun name isName => names.2 name (List.mem_flatMap.mpr ⟨arg, isArg, isName⟩)
  | binary op lhs rhs left right =>
    rw [Expr.names, List.forall_mem_append] at names
    simp only [Shader.writeWith]
    refine (speaks.operand ranks (left names.1)).bind fun one first => ?_
    refine (speaks.operand ranks (right names.2)).bind fun two second => .pure ?_
    refine (((first.append ?_).append ?_).append ?_).append second.2
    · exact plain (by decide)
    · exact spells.binarySymbol op
    · exact plain (by decide)
  | unary op fixity operand inner =>
    simp only [Shader.writeWith]
    refine (speaks.operand ranks (inner names)).bind fun text allowed => ?_
    cases fixity with
    | before => exact .pure ((spells.unarySymbol op).before allowed)
    | after => exact .pure (allowed.append (Ban.free_append.mp (spells.unarySymbol op).2).1)
  | ternary condition yes no first second third =>
    rw [Expr.names, List.forall_mem_append, List.forall_mem_append] at names
    simp only [Shader.writeWith]
    refine (speaks.operand ranks (first names.1.1)).bind fun one tested => ?_
    refine (speaks.operand ranks (second names.1.2)).bind fun two chosen => ?_
    refine (speaks.operand ranks (third names.2)).bind fun three other => .pure ?_
    refine (((tested.append ?_).append chosen.2).append ?_).append other.2
    · exact plain (by decide)
    · exact plain (by decide)
  | subscript object index outer inner =>
    rw [Expr.names, List.forall_mem_append] at names
    simp only [Shader.writeWith]
    refine (speaks.operand ranks (outer names.1)).bind fun one held => ?_
    refine (speaks.operand ranks (inner names.2)).bind fun two place => .pure ?_
    exact ((held.append (plain (by decide))).append place.2).append (plain (by decide))
  | member object name inner =>
    rw [Expr.names, List.forall_mem_cons] at names
    simp only [Shader.writeWith]
    refine (speaks.operand ranks (inner names.2)).bind fun text held => .pure ?_
    exact (held.append (plain (by decide))).append names.1.2
  | swizzle object components inner =>
    simp only [Shader.writeWith]
    refine (speaks.operand ranks (inner names)).bind fun text held => .pure ?_
    refine (held.append (plain (by decide))).append (plain (Ban.isPlain_of_isWordPart ?_))
    intro c mem
    rw [String.toList_ofList] at mem
    obtain ⟨component, -, rfl⟩ := List.mem_map.mp mem
    cases component <;> decide
  | call callee args inner =>
    simp only [Shader.writeWith]
    cases callee with
    | builtin name =>
      rw [Expr.names, Expr.namesOf_eq, List.forall_mem_cons] at names
      have each := speaks.writeArgs ranks fun arg isArg => inner arg isArg fun name isName =>
        names.2 name (List.mem_flatMap.mpr ⟨arg, isArg, isName⟩)
      have called : Yields ban.Fit (pure (dialect.builtin name) : Naming String) fun text =>
        ban.Allows (text ++ " ") := .pure (spells.builtin name names.1)
      refine called.bind fun name spelled => each.bind fun args allowed => .pure ?_
      have opened := spelled.before (ban.allows_of_isProper (by decide : Ban.isProper "(" = true))
      have free := Ban.free_intercalate fun text isText => (allowed.2 text isText).2
      exact (opened.append free).append (plain (by decide))
    | function id =>
      rw [Expr.names, Expr.namesOf_eq] at names
      have each := speaks.writeArgs ranks fun arg isArg => inner arg isArg fun name isName =>
        names name (List.mem_flatMap.mpr ⟨arg, isArg, isName⟩)
      refine (speaks.nameOf id).bind fun name called => each.bind fun args allowed => .pure ?_
      refine ((called.append (plain (by decide))).append ?_).append (plain (by decide))
      exact Ban.free_intercalate fun text isText => (allowed.2 text isText).2

end Exprs

/-- The text of an expression is allowed if the names in it are. -/
theorem Speaks.write (speaks : shader.Speaks ban) (spells : dialect.Spells ban) {expr : Expr}
    (names : ∀ name ∈ expr.names, ban.Allows name) :
    Yields ban.Fit (shader.write dialect expr) ban.Allows := by
  have within : ∀ depth (expr : Expr), (∀ name ∈ expr.names, ban.Allows name) →
      Yields ban.Fit (shader.writeWithin dialect depth expr) ban.Allows := by
    intro depth
    induction depth with
    | zero => exact fun _ _ => .throw _
    | succ depth ih => exact speaks.writeWith spells (speaks.rankWithin depth) ih
  exact within shader.inlineDepth expr names

/-- A declared variable with its type is allowed. -/
theorem Speaks.writeDeclaration (speaks : shader.Speaks ban) (spells : dialect.Spells ban)
    {made : Construction} (tyNames : ∀ name ∈ made.ty.names, ban.Allows name) :
    Yields ban.Fit (shader.writeDeclaration dialect made) ban.Allows := by
  unfold Shader.writeDeclaration
  refine (speaks.nameOf made.var).bind fun name allowed => ?_
  have declared := spells.declarator _ _ tyNames allowed.2
  cases made.qualifier with
  | none => exact .pure declared
  | some qualifier => exact .pure ((spells.qualifier qualifier).append declared.2)

/-- An init of a header is allowed. -/
theorem Speaks.writeInit (speaks : shader.Speaks ban) (spells : dialect.Spells ban)
    (follows : Bool) {expr : Expr} (names : ∀ name ∈ expr.names, ban.Allows name) :
    Yields ban.Fit (shader.writeInit dialect follows expr) ban.Allows := by
  have written := speaks.write spells names
  cases expr with
  | construct made args =>
    rw [Expr.names, List.forall_mem_append] at names
    simp only [Shader.writeInit]
    split
    · have valued : ∀ target, ban.Allows target → Yields ban.Fit
          (if args.isEmpty then pure target else do
            let value ← shader.write dialect (.construct made args)
            pure (target ++ " = " ++ value)) ban.Allows := by
        intro target allowed
        split
        · exact .pure allowed
        · refine written.bind fun value fine => .pure ?_
          exact (allowed.append (ban.free_of_isPlain (by decide))).append fine.2
      split
      · exact (speaks.nameOf made.var).bind valued
      · exact (speaks.writeDeclaration spells names.1).bind valued
    · exact written
  | _ => exact written

/-- The inits of a header are allowed. -/
theorem Speaks.writeInits (speaks : shader.Speaks ban) (spells : dialect.Spells ban)
    (follows : Bool) {exprs : List Expr}
    (names : ∀ expr ∈ exprs, ∀ name ∈ expr.names, ban.Allows name) :
    Yields ban.Fit (shader.writeInits dialect follows exprs) fun texts =>
      ∀ text ∈ texts, ban.Allows text := by
  induction exprs generalizing follows with
  | nil => exact .pure (by simp)
  | cons expr exprs ih =>
    rw [List.forall_mem_cons] at names
    refine (speaks.writeInit spells follows names.1).bind fun text allowed => ?_
    refine (ih true names.2).bind fun texts all => .pure ?_
    exact List.forall_mem_cons.mpr ⟨allowed, all⟩

/-- A header holds nothing banned. -/
theorem Speaks.writeHeader (speaks : shader.Speaks ban) (spells : dialect.Spells ban)
    {clauses : ForClauses} (names : ∀ expr ∈ clauses.exprs, ∀ name ∈ expr.names, ban.Allows name) :
    Yields ban.Fit (shader.writeHeader dialect clauses) ban.Free := by
  have plain : ∀ {text : String}, Ban.isPlain text → ban.Free text := ban.free_of_isPlain
  have clause : ∀ {text : String}, ban.Free text → ban.Free (clauseText text) := by
    intro text free
    unfold clauseText
    split
    · exact plain (by decide)
    · exact Ban.free_append.mpr ⟨plain (by decide), free⟩
  rw [ForClauses.exprs, List.forall_mem_append, List.forall_mem_append] at names
  obtain ⟨⟨initNames, conditionNames⟩, incrementNames⟩ := names
  have increments := Yields.mapM fun expr isExpr => speaks.write spells (incrementNames expr isExpr)
  unfold Shader.writeHeader
  refine (speaks.writeInits spells false initNames).bind fun inits initsFine => ?_
  have started := Ban.free_intercalate fun text isText => (initsFine text isText).2
  have finished : ∀ condition, ban.Free condition → Yields ban.Fit (do
      let increments ← clauses.increments.mapM (shader.write dialect)
      pure (", ".intercalate inits ++ ";" ++ clauseText condition ++ ";" ++
        clauseText (", ".intercalate increments))) ban.Free := by
    intro condition free
    refine increments.bind fun texts fine => .pure ?_
    have ended := Ban.free_intercalate fun text isText => (fine text isText).2
    simp only [Ban.free_append]
    exact ⟨⟨⟨⟨started, plain (by decide)⟩, clause free⟩, plain (by decide)⟩, clause ended⟩
  cases isCondition : clauses.condition with
  | none => exact finished "" (plain (by decide))
  | some condition =>
    have tested := speaks.write spells (conditionNames condition (by simp [isCondition]))
    exact tested.bind fun text allowed => finished text allowed.2

/-- The clauses of a header that stands in the tree hold allowed names only. -/
theorem Speaks.clauses (speaks : shader.Speaks ban) {header : ForHeader} {body : BlockId}
    (isInstr : .forLoop header body ∈ shader.tree.instructions) {clauses : ForClauses}
    (sorted : shader.clauses header = .ok clauses) :
    ∀ expr ∈ clauses.exprs, ∀ name ∈ expr.names, ban.Allows name := by
  cases header with
  | clauses given =>
    obtain rfl := Except.ok.inj sorted
    exact fun expr isExpr => speaks.expr isInstr isExpr
  | recorded args stacked policy =>
    rw [Shader.clauses] at sorted
    cases found : shader.tree.block? args with
    | none =>
      rw [found] at sorted
      cases sorted
    | some block =>
      rw [found] at sorted
      intro expr isExpr
      obtain inside | beside := List.mem_append.mp ((exprs_of_partition sorted).subset isExpr)
      · obtain ⟨instr, isListed, isExpr⟩ := List.mem_flatMap.mp inside
        obtain ⟨site, -, isAt⟩ := Tree.exists_site found isListed
        exact speaks.expr (Tree.mem_instructions.mpr ⟨site, isAt⟩) isExpr
      · exact speaks.expr isInstr beside

/-- Parameters hold nothing banned. -/
theorem Speaks.writeParameters (speaks : shader.Speaks ban) (spells : dialect.Spells ban)
    {instrs : List Instruction} (listed : ∀ instr ∈ instrs, instr ∈ shader.tree.instructions) :
    Yields ban.Fit (shader.writeParameters dialect instrs) fun texts =>
      ∀ text ∈ texts, ban.Allows text := by
  induction instrs with
  | nil => exact .pure (by simp)
  | cons instr instrs ih =>
    rw [List.forall_mem_cons] at listed
    simp only [Shader.writeParameters]
    split
    case h_1 made args =>
      split
      · have names := speaks.expr listed.1 List.mem_cons_self
        rw [Expr.names, List.forall_mem_append] at names
        refine (speaks.writeDeclaration spells names.1).bind fun text allowed => ?_
        refine (ih listed.2).bind fun texts all => .pure ?_
        exact List.forall_mem_cons.mpr ⟨allowed, all⟩
      · exact .throw _
    case h_2 => exact .throw _

end Shader

end ShaderLoom
